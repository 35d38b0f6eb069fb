import BlockTemplate.Wire.Hex
import BlockTemplate.Wire.CompactSize

/-!
# Values and buffers of Node

What `index.js`, `rtm.js` and `bitcoin_utils.js` use of JavaScript and of
Node's buffers.  A template request is the daemon's answer, so its optional
members are arbitrary values; numbers are integers, and of a number that is
none only its truth is kept.  The texts of Node's own range and type errors
are shortened.
-/

namespace BlockTemplate

abbrev JsString := List Char

/-- The member names that the code asks for, and any other one. -/
inductive Property
  | amount
  | data
  | flags
  | payee
  | scriptpubkey
  | value
  | other (name : JsString)
deriving DecidableEq

/-- The members of an object are listed as `for (... in ...)` visits them. -/
inductive JsValue
  | undefined
  | null
  | boolean (value : Bool)
  | number (value : Int)
  | notInteger (truthy : Bool)
  | string (text : JsString)
  | array (items : List JsValue)
  | object (members : List (Property × JsValue))

namespace JsValue

def truthy : JsValue → Bool
  | undefined => false
  | null => false
  | boolean value => value
  | number value => value ≠ 0
  | notInteger truthy => truthy
  | string text => !text.isEmpty
  | array _ => true
  | object _ => true

def isUndefined : JsValue → Bool
  | undefined => true
  | _ => false

/-- `=== undefined || === null`. -/
def isMissing : JsValue → Bool
  | undefined => true
  | null => true
  | _ => false

/-- `typeof ... === 'object'`. -/
def isObject : JsValue → Bool
  | null => true
  | array _ => true
  | object _ => true
  | _ => false

def get (property : Property) : JsValue → Except String JsValue
  | undefined => throw "Cannot read properties of undefined"
  | null => throw "Cannot read properties of null"
  | object members => pure ((members.lookup property).getD undefined)
  | _ => pure undefined

/-- The values that `for (const i in ...)` finds under its names. -/
def entries : JsValue → List JsValue
  | array items => items
  | object members => members.map Prod.snd
  | string text => text.map fun char => string [char]
  | _ => []

/-- `... || fallback`. -/
def orElse (value fallback : JsValue) : JsValue :=
  if value.truthy then value else fallback

/-- `Number.isSafeInteger`. -/
def safeInteger : JsValue → Option Int
  | number value =>
    if value.natAbs ≤ CompactSize.maxSafeInteger then some value else none
  | _ => none

end JsValue

/-- The double nearest to an integer; of two, the one with an even mantissa. -/
def toDouble (value : Int) : Int :=
  let magnitude := value.natAbs
  let unit := 2 ^ (magnitude.log2 - 52)
  let below := magnitude / unit
  let excess := magnitude % unit
  let rounded :=
    if 2 * excess < unit ∨ 2 * excess = unit ∧ below % 2 = 0 then below
    else below + 1
  value.sign * (rounded * unit : Nat)

/-- `value.toString(radix)`. -/
def toRadix (radix : Nat) (value : Int) : JsString :=
  (if value < 0 then ['-'] else []) ++ Nat.toDigits radix value.natAbs

def outOfRange : String := "The value is out of range"

/-- An unsigned write of `size` bytes, little-endian. -/
def writeUIntLE (size : Nat) (value : Int) : Except String Bytes :=
  if 0 ≤ value ∧ value < 256 ^ size then .ok (leBytes size value.toNat)
  else .error outOfRange

def writeUIntBE (size : Nat) (value : Int) : Except String Bytes :=
  (writeUIntLE size value).map List.reverse

def packUInt16LE (num : Int) : Except String Bytes :=
  writeUIntLE 2 num

def packUInt32LE (num : Int) : Except String Bytes :=
  writeUIntLE 4 num

def packInt32LE (num : Int) : Except String Bytes :=
  if -0x80000000 ≤ num ∧ num < 0x80000000 then
    .ok (leBytes 4 (num % 2 ^ 32).toNat)
  else .error outOfRange

def reverseBuffer (buff : Bytes) : Bytes :=
  buff.reverse

/-- `source.copy(target, targetStart, 0, sourceEnd)`: what does not fit into
the target is not copied. -/
def copy (source target : Bytes) (targetStart sourceEnd : Nat) : Bytes :=
  overwrite target targetStart
    ((source.take sourceEnd).take (target.length - targetStart))

/-- `buffer.write(text, offset, size, 'hex')` into a buffer with room. -/
def writeHex (text : JsString) (offset size : Nat) (buffer : Bytes) : Bytes :=
  overwrite buffer offset ((ofHex text).take size)

/-- An integer in the range of an unsigned type is kept by its conversion. -/
theorem toNat_ofInt_of_range {bits : Nat} {value : Int}
    (range : 0 ≤ value ∧ value < 2 ^ bits) :
    ((BitVec.ofInt bits value).toNat : Int) = value := by
  have inside : value < ((2 ^ bits : Nat) : Int) := by exact_mod_cast range.2
  rw [BitVec.toNat_ofInt, Int.emod_eq_of_lt range.1 inside,
    Int.toNat_of_nonneg range.1]

theorem length_of_writeUIntLE
    {size : Nat} {value : Int} {bytes : Bytes}
    (written : writeUIntLE size value = .ok bytes) : bytes.length = size := by
  unfold writeUIntLE at written
  split at written
  · cases written
    exact length_leBytes _ _
  · cases written

theorem writeUIntLE_eq_ok {size value : Nat} {bytes : Bytes} :
    writeUIntLE size value = .ok bytes ↔
      value < 256 ^ size ∧ bytes = leBytes size value := by
  rw [writeUIntLE, Int.toNat_natCast]
  split_ifs with inRange
  · rw [Except.ok.injEq]
    have small : value < 256 ^ size := by exact_mod_cast inRange.2
    exact ⟨fun same => ⟨small, same.symm⟩, fun both => both.2.symm⟩
  · constructor
    · intro impossible
      cases impossible
    · rintro ⟨small, -⟩
      exact (inRange ⟨Int.natCast_nonneg _, by exact_mod_cast small⟩).elim

end BlockTemplate
