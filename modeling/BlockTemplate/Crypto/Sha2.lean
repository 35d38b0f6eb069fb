import BlockTemplate.Crypto.Keccak

/-!
# `crypto.createHash`

SHA-256 and SHA3-256, the two functions that `index.js` takes from Node.  The
results about templates hold of every pair of hash functions; these are the
ones that they are about.
-/

namespace BlockTemplate.Sha256

abbrev Word := BitVec 32

def roundConstants : List Word :=
  [0x428a2f98, 0x71374491, 0xb5c0fbcf, 0xe9b5dba5, 0x3956c25b, 0x59f111f1,
   0x923f82a4, 0xab1c5ed5, 0xd807aa98, 0x12835b01, 0x243185be, 0x550c7dc3,
   0x72be5d74, 0x80deb1fe, 0x9bdc06a7, 0xc19bf174, 0xe49b69c1, 0xefbe4786,
   0x0fc19dc6, 0x240ca1cc, 0x2de92c6f, 0x4a7484aa, 0x5cb0a9dc, 0x76f988da,
   0x983e5152, 0xa831c66d, 0xb00327c8, 0xbf597fc7, 0xc6e00bf3, 0xd5a79147,
   0x06ca6351, 0x14292967, 0x27b70a85, 0x2e1b2138, 0x4d2c6dfc, 0x53380d13,
   0x650a7354, 0x766a0abb, 0x81c2c92e, 0x92722c85, 0xa2bfe8a1, 0xa81a664b,
   0xc24b8b70, 0xc76c51a3, 0xd192e819, 0xd6990624, 0xf40e3585, 0x106aa070,
   0x19a4c116, 0x1e376c08, 0x2748774c, 0x34b0bcb5, 0x391c0cb3, 0x4ed8aa4a,
   0x5b9cca4f, 0x682e6ff3, 0x748f82ee, 0x78a5636f, 0x84c87814, 0x8cc70208,
   0x90befffa, 0xa4506ceb, 0xbef9a3f7, 0xc67178f2]

/-- The eight working variables. -/
structure State where
  a : Word
  b : Word
  c : Word
  d : Word
  e : Word
  f : Word
  g : Word
  h : Word

namespace State

def initial : State :=
  ⟨0x6a09e667, 0xbb67ae85, 0x3c6ef372, 0xa54ff53a,
   0x510e527f, 0x9b05688c, 0x1f83d9ab, 0x5be0cd19⟩

def round (state : State) (constant word : Word) : State :=
  let ⟨a, b, c, d, e, f, g, h⟩ := state
  let sum1 := e.rotateRight 6 ^^^ e.rotateRight 11 ^^^ e.rotateRight 25
  let choice := (e &&& f) ^^^ (~~~e &&& g)
  let first := h + sum1 + choice + constant + word
  let sum0 := a.rotateRight 2 ^^^ a.rotateRight 13 ^^^ a.rotateRight 22
  let majority := (a &&& b) ^^^ (a &&& c) ^^^ (b &&& c)
  ⟨first + (sum0 + majority), a, b, c, d + first, e, f, g⟩

def add (first second : State) : State :=
  ⟨first.a + second.a, first.b + second.b, first.c + second.c,
   first.d + second.d, first.e + second.e, first.f + second.f,
   first.g + second.g, first.h + second.h⟩

def words (state : State) : List Word :=
  [state.a, state.b, state.c, state.d, state.e, state.f, state.g, state.h]

end State

/-- The message word that follows a window of sixteen. -/
def nextWord (window : List Word) : Word :=
  let low := window.getD 1 0
  let high := window.getD 14 0
  window.getD 0 0 +
    (low.rotateRight 7 ^^^ low.rotateRight 18 ^^^ low >>> 3) +
    window.getD 9 0 +
    (high.rotateRight 17 ^^^ high.rotateRight 19 ^^^ high >>> 10)

def rounds : List Word → List Word → State → State
  | constant :: constants, window, state =>
    rounds constants (window.drop 1 ++ [nextWord window])
      (state.round constant (window.getD 0 0))
  | [], _, state => state

/-- The words of a block, most significant byte first. -/
def blockWords (block : Bytes) : List Word :=
  (List.range 16).map fun i =>
    BitVec.ofNat 32 (leValue ((block.drop (4 * i)).take 4).reverse)

def blocks : Nat → Bytes → State → State
  | 0, _, state => state
  | count + 1, data, state =>
    blocks count (data.drop 64)
      (state.add (rounds roundConstants (blockWords data) state))

/-- The message, a one bit, zeros up to a full block and the bit length. -/
def padded (data : Bytes) : Bytes :=
  data ++ 0x80 :: List.replicate ((119 - data.length % 64) % 64) 0 ++
    (leBytes 8 (8 * data.length)).reverse

end Sha256

open Sha256 in
def sha256 (data : Bytes) : Hash :=
  let message := padded data
  let state := blocks (message.length / 64) message .initial
  ⟨state.words.flatMap fun word => (leBytes 4 word.toNat).reverse,
    by simp [State.words, length_leBytes]⟩

open Keccak in
/-- Keccak with the padding of the standard, whose first byte is 6. -/
def sha3_256 (data : Bytes) : Hash :=
  let (state, rest) :=
    keccakLoop (data.length / hashDataArea) (.replicate 25 0) data
  let temp := rest ++ 6 :: List.replicate (hashDataArea - rest.length - 1) 0
  let last := temp.modify (hashDataArea - 1) (· ||| 0x80)
  let state := keccakf (xorBlock state last) keccakRounds
  ⟨(state.toList.flatMap fun word => leBytes 8 word.toNat).take 32,
    by simp [List.length_flatMap, length_leBytes]⟩

end BlockTemplate
