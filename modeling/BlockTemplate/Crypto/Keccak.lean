import BlockTemplate.Cryptonote.PricingRecord

/-!
# `cn_fast_hash`

`crypto/keccak.c` and `crypto/hash.c`: the first 32 bytes of the state of
Keccak with a rate of 136 bytes.  The results about blocks hold of every hash
function; this is the one that they are about.
-/

namespace BlockTemplate.Keccak

abbrev State := Vector (BitVec 64) 25

def keccakRounds : Fin 25 := 24

/-- `HASH_DATA_AREA`. -/
def hashDataArea : Nat := 136

def keccakfRndc : List (BitVec 64) :=
  [0x0000000000000001, 0x0000000000008082, 0x800000000000808a,
   0x8000000080008000, 0x000000000000808b, 0x0000000080000001,
   0x8000000080008081, 0x8000000000008009, 0x000000000000008a,
   0x0000000000000088, 0x0000000080008009, 0x000000008000000a,
   0x000000008000808b, 0x800000000000008b, 0x8000000000008089,
   0x8000000000008003, 0x8000000000008002, 0x8000000000000080,
   0x000000000000800a, 0x800000008000000a, 0x8000000080008081,
   0x8000000000008080, 0x0000000080000001, 0x8000000080008008]

def keccakfRotc : List Nat :=
  [1, 3, 6, 10, 15, 21, 28, 36, 45, 55, 2, 14,
   27, 41, 56, 8, 25, 43, 62, 18, 39, 61, 20, 44]

def keccakfPiln : List (Fin 25) :=
  [10, 7, 11, 17, 18, 3, 5, 16, 8, 21, 24, 4,
   15, 23, 19, 13, 12, 2, 20, 14, 22, 9, 6, 1]

/-- `st[5 * row + column % 5]`. -/
def lane (st : State) (row column : Nat) : BitVec 64 :=
  st.get (Fin.ofNat 25 (5 * row + column % 5))

def theta (st : State) : State :=
  let bc (i : Nat) :=
    lane st 0 i ^^^ lane st 1 i ^^^ lane st 2 i ^^^ lane st 3 i ^^^ lane st 4 i
  .ofFn fun k => st.get k ^^^ (bc (k + 4) ^^^ (bc (k + 1)).rotateLeft 1)

def rhoPi (st : State) : State :=
  ((keccakfPiln.zip keccakfRotc).foldl (fun (st, t) (j, rotation) =>
    (st.set j (t.rotateLeft rotation), st.get j)) (st, st.get 1)).1

def chi (st : State) : State :=
  .ofFn fun k =>
    st.get k ^^^ (~~~(lane st (k / 5) (k + 1)) &&& lane st (k / 5) (k + 2))

def iota (rndc : BitVec 64) (st : State) : State :=
  st.set 0 (st.get 0 ^^^ rndc)

/-- `keccakf_rndc` has the constants of 24 rounds, and the source would read
behind it in any more. -/
def keccakf (st : State) (rounds : Fin 25) : State :=
  (keccakfRndc.take rounds).foldl
    (fun st rndc => iota rndc (chi (rhoPi (theta st)))) st

/-- `st[i] ^= ((uint64_t *) in)[i]` for the words of one block. -/
def xorBlock (st : State) (data : Bytes) : State :=
  .ofFn fun i =>
    if i < hashDataArea / 8 then
      st.get i ^^^ BitVec.ofNat 64 (leValue ((data.drop (8 * i)).take 8))
    else st.get i

/-- The loop over the full blocks of the input. -/
def keccakLoop : Nat → State → Bytes → State × Bytes
  | 0, st, data => (st, data)
  | blocks + 1, st, data =>
    keccakLoop blocks (keccakf (xorBlock st data) keccakRounds)
      (data.drop hashDataArea)

/-- `temp`: the last bytes of the input and the padding. -/
def lastBlock (data : Bytes) : Bytes :=
  let temp := data ++ 1 :: List.replicate (hashDataArea - data.length - 1) 0
  temp.modify (hashDataArea - 1) (· ||| 0x80)

/-- `keccak1600`. -/
def keccak1600 (data : Bytes) : State :=
  let (st, rest) :=
    keccakLoop (data.length / hashDataArea) (.replicate 25 0) data
  keccakf (xorBlock st (lastBlock rest)) keccakRounds

def cnFastHash (data : Bytes) : Hash :=
  ⟨((keccak1600 data).toList.flatMap fun word => leBytes 8 word.toNat).take 32,
    by simp [List.length_flatMap, length_leBytes]⟩

end BlockTemplate.Keccak
