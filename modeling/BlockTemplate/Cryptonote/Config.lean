import BlockTemplate.Wire.Bytes

/-!
# Blob types and versions

`cryptonote_config.h`, and the enumerations that the layouts test.
-/

namespace BlockTemplate

/-- The supported values of `enum BLOB_TYPE`. -/
inductive BlobType where
  | cryptonote
  | forknote1
  | cryptonoteRyo
  | cryptonote3
  | cryptonoteCuckoo
  | cryptonoteZephyr
  | cryptonoteXla
  | cryptonoteSalvium
  | cryptonoteArqma
deriving DecidableEq

/-- `ToInt32` of `main.cc`: a number is reduced to 32 signed bits, and the
values from `2 ^ 32` on come round to the small ones. -/
def toInt32 (number : Int) : Int :=
  number.bmod (2 ^ 32)

/-- The cast of a number to `enum BLOB_TYPE` together with
`is_supported_blob_type`. -/
def BlobType.ofInt (number : Int) : Option BlobType :=
  match toInt32 number with
  | 0 => some .cryptonote
  | 1 => some .forknote1
  | 4 => some .cryptonoteRyo
  | 6 => some .cryptonote3
  | 8 => some .cryptonoteCuckoo
  | 13 => some .cryptonoteZephyr
  | 14 => some .cryptonoteXla
  | 15 => some .cryptonoteSalvium
  | 16 => some .cryptonoteArqma
  | _ => none

/-- Numbers that agree on 32 bits name the same blob type. -/
theorem BlobType.ofInt_add_mul (number rounds : Int) :
    BlobType.ofInt (number + rounds * 2 ^ 32) = BlobType.ofInt number := by
  have same : toInt32 (number + rounds * 2 ^ 32) = toInt32 number :=
    Int.add_mul_bmod_self_right number rounds (2 ^ 32)
  rw [BlobType.ofInt, BlobType.ofInt, same]

example : BlobType.ofInt 4294967312 = some .cryptonoteArqma := by decide

def hfVersionEnableNOuts : Nat := 2

def transactionVersionNOuts : Nat := 3

def transactionVersionCarrot : Nat := 4

def transactionVersionEnableTokens : Nat := 5

def isSupportedTransactionVersion (blobType : BlobType) (version : Nat) :
    Bool :=
  if version = 0 then false
  else
    match blobType with
    | .cryptonoteRyo | .cryptonoteZephyr | .cryptonoteArqma => version ≤ 3
    | .cryptonoteSalvium => version ≤ transactionVersionEnableTokens
    | _ => version ≤ 2

namespace Arq

def txversionV3 : Nat := 3

def txtypeCount : Nat := 4

end Arq

namespace SalviumTransactionType

def unset : BitVec 32 := 0
def miner : BitVec 32 := 1
def protocol : BitVec 32 := 2
def transfer : BitVec 32 := 3
def stake : BitVec 32 := 6
def createToken : BitVec 32 := 9
def rollup : BitVec 32 := 10

end SalviumTransactionType

end BlockTemplate
