import BlockTemplate.Bitcoin.Node
import BlockTemplate.Merkle.OddTree
import BlockTemplate.Crypto.Sha2

/-!
# Required modules

What the JavaScript sources get from `require`: the hashes of `crypto` and
`sha3`, and the packages `varuint-bitcoin`, `merkle-lib` and `bech32`.  They
are a parameter, and results that rely on what a package documents say so.
-/

namespace BlockTemplate

/-- `varuint_decode` gets the buffer from the offset on, and gives the value
with its size, `varuint.decode.bytes`. -/
structure Packages where
  /-- `crypto.createHash('sha256')`. -/
  sha256 : Bytes → Hash
  /-- `crypto.createHash('sha3-256')`. -/
  sha3_256 : Bytes → Hash
  /-- `new SHA3.SHA3Hash(256)`. -/
  sha3Hash : Bytes → Hash
  varuint_encode : Nat → Except String Bytes
  varuint_decode : Bytes → Except String (Nat × Nat)
  /-- `merkle-lib/fastRoot`. -/
  fastMerkleRoot : List Hash → (Bytes → Hash) → Hash
  /-- `bech32.decode(addr).words`. -/
  bech32_decode : JsString → Except String (List Nat)
  bech32_fromWords : List Nat → Except String Bytes
  /-- `Buffer.from` of an array or an object. -/
  bufferFromObject : JsValue → Except String Bytes

namespace Packages

variable (packages : Packages)

/-- `varuint-bitcoin` reads and writes CompactSize up to the safe integers. -/
structure VaruintDocumented : Prop where
  encode : ∀ value, value ≤ CompactSize.maxSafeInteger →
    packages.varuint_encode value = .ok (CompactSize.encode value)
  encode_unsafe : ∀ value, CompactSize.maxSafeInteger < value →
    ∃ message, packages.varuint_encode value = .error message
  decode : ∀ bytes result,
    packages.varuint_decode bytes = .ok result ↔
      CompactSize.decode bytes = some result

variable {packages} in
theorem VaruintDocumented.encode_eq_ok
    (documented : packages.VaruintDocumented) {value : Nat} {bytes : Bytes}
    (encoded : packages.varuint_encode value = .ok bytes) :
    value ≤ CompactSize.maxSafeInteger ∧ bytes = CompactSize.encode value := by
  by_cases safe : value ≤ CompactSize.maxSafeInteger
  · rw [documented.encode value safe] at encoded
    exact ⟨safe, (Except.ok.inj encoded).symm⟩
  · obtain ⟨message, refused⟩ :=
      documented.encode_unsafe value (Nat.lt_of_not_le safe)
    rw [refused] at encoded
    cases encoded

/-- The hash of two nodes next to each other. -/
def joined (hash : Bytes → Hash) (left right : Hash) : Hash :=
  hash (left.bytes ++ right.bytes)

/-- `fastRoot` is Bitcoin's Merkle root. -/
def FastRootDocumented : Prop :=
  ∀ (values : List Hash) (hash : Bytes → Hash), values ≠ [] →
    Merkle.oddRoot (joined hash) values =
      some (packages.fastMerkleRoot values hash)

/-- `Buffer.from(value, 'hex')`. -/
def hexBuffer (value : JsValue) : Except String Bytes :=
  match value with
  | .string text => pure (ofHex text)
  | .array _ => packages.bufferFromObject value
  | .object _ => packages.bufferFromObject value
  | _ => throw "The first argument must be of type string or an instance of Buffer, ArrayBuffer, or Array or an Array-like Object"

def hash256 (buffer : Bytes) : Hash :=
  packages.sha256 (packages.sha256 buffer).bytes

def hash256_3 (buffer : Bytes) : Hash :=
  packages.sha3_256 (packages.sha3_256 buffer).bytes

/-- The packages as they are documented.  Addresses are base58 ones, and hex
data comes in strings. -/
def documented : Packages where
  sha256 := BlockTemplate.sha256
  sha3_256 := BlockTemplate.sha3_256
  sha3Hash := Keccak.cnFastHash
  varuint_encode value :=
    if value ≤ CompactSize.maxSafeInteger then .ok (CompactSize.encode value)
    else .error "value out of range"
  varuint_decode bytes :=
    match CompactSize.decode bytes with
    | some result => .ok result
    | none => .error "value out of range"
  fastMerkleRoot values hash :=
    (Merkle.oddRoot (joined hash) values).getD default
  bech32_decode _ := .error "Mixed-case string"
  bech32_fromWords _ := .error "Excess padding"
  bufferFromObject _ := .error "The first argument must be of type string"

theorem documented_varuint : documented.VaruintDocumented where
  encode value safe := if_pos safe
  encode_unsafe value tooLarge := ⟨_, if_neg (Nat.not_le.mpr tooLarge)⟩
  decode := by
    intro bytes result
    simp only [documented]
    cases CompactSize.decode bytes with
    | none => simp
    | some decoded => simp

theorem documented_fastRoot : documented.FastRootDocumented := by
  intro values hash nonempty
  have found := @Merkle.oddRoot_isSome _ (joined hash) _ nonempty
  obtain ⟨root, isRoot⟩ := Option.isSome_iff_exists.mp found
  simp only [documented, isRoot, Option.getD_some]

end Packages

end BlockTemplate
