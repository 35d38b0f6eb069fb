import BlockTemplate.Wire.Serializer

/-!
# Primitive layouts

Integers, blobs, varints and strings of a known length.  `Encodes` says that
a codec loads exactly the bytes that an encoding function gives; the laws of
these codecs follow from it.
-/

namespace BlockTemplate.Serializer

/-- `serialize_uint`: `size` bytes, least significant first. -/
def getUint : Nat → IStream → Nat × IStream
  | 0, stream => (0, stream)
  | size + 1, stream =>
    let (byte, next) := stream.get
    let (high, last) := getUint size next
    (byte.toNat + 256 * high, last)

def uint (size : Nat) : Codec (BitVec (8 * size)) where
  load stream :=
    let (value, next) := getUint size stream
    some (BitVec.ofNat (8 * size) value, next)
  save value := some (value, leBytes size value.toNat)

/-- `serialize_int` of a one-byte integer. -/
def uint8 : Codec Byte where
  load stream := some stream.get
  save value := some (value, [value])

/-- `serialize_blob`. -/
def blob (size : Nat) : Codec (Blob size) where
  load stream := some (stream.read size)
  save value := some (value, value.bytes)

/-- The characters of a string of a known length. -/
def chars (size : Nat) : Codec Bytes where
  load stream :=
    let (value, next) := stream.read size
    some (value.bytes, next)
  save value := if value.length = size then some (value, value) else none

/-- `serialize_varint` of a type of `bits` bits. -/
def uvarint (bits : Nat) : Codec (BitVec bits) where
  load stream := some (serializeUvarint bits stream)
  save value := some (value, writeVarint value)

/-- The codec loads and saves a value as the bytes `encode` gives for it. -/
class Encodes {Val : Type} (codec : Serializer Val Val)
    (encode : outParam (Val → Bytes)) : Prop where
  reads_encode : ∀ value, codec.Reads value (encode value)
  load_good : ∀ {stream next : IStream} {value : Val},
    codec.load stream = some (value, next) → next.good = true →
      stream = ⟨encode value ++ next.rest, true⟩
  save_eq : ∀ value, codec.save value = some (value, encode value)

section Encodes

variable {Val : Type} {codec : Serializer Val Val} {encode : Val → Bytes}
  [encodes : Encodes codec encode]

theorem reads_iff_encode {value : Val} {bytes : Bytes} :
    codec.Reads value bytes ↔ bytes = encode value := by
  constructor
  · intro reads
    have start := encodes.load_good reads.load rfl
    simpa using start
  · rintro rfl
    exact encodes.reads_encode value

/-- Two strings that start with encodings agree on both parts. -/
theorem encode_append_inj
    (codec : Codec Val) {encode : Val → Bytes}
    [encodes : Encodes codec encode]
    {first second : Val} {firstRest secondRest : Bytes}
    (same : encode first ++ firstRest = encode second ++ secondRest) :
    first = second ∧ firstRest = secondRest := by
  have unique := (encodes.reads_encode first).unique
    (encodes.reads_encode second) same
  exact ⟨unique.1, unique.2.2⟩

instance localEncodes : Local codec where
  consumed := by
    intro stream next value result good
    rw [encodes.load_good result good]
    exact ⟨rfl, encode value, rfl, encodes.reads_encode value⟩

instance canonicalEncodes : Canonical codec where
  save_of_reads := by
    intro value bytes reads
    rw [reads_iff_encode.mp reads]
    exact encodes.save_eq value

theorem dump_encode (value : Val) :
    codec.dump value = some (encode value) := by
  rw [dump, encodes.save_eq]
  rfl

theorem positive_of_encode (nonempty : ∀ value, encode value ≠ []) :
    Positive codec where
  length_pos := by
    intro value bytes reads
    rw [reads_iff_encode.mp reads]
    exact List.length_pos_of_ne_nil (nonempty value)

end Encodes

instance encodesUint8 : Encodes uint8 (fun value => [value]) where
  reads_encode _ _ := rfl
  load_good := by
    intro stream next value result good
    simp only [uint8, Option.some.injEq] at result
    exact IStream.get_good result good
  save_eq _ := rfl

instance encodesBlob (size : Nat) : Encodes (blob size) Blob.bytes where
  reads_encode value rest := by simp [blob]
  load_good := by
    intro stream next value result good
    simp only [blob, Option.some.injEq] at result
    exact IStream.read_good result good
  save_eq _ := rfl

instance encodesUvarint (bits : Nat) [NeZero bits] :
    Encodes (uvarint bits) writeVarint where
  reads_encode value rest := by
    simp [uvarint,
      serializeUvarint_writeVarint (Nat.pos_of_ne_zero (NeZero.ne bits))]
  load_good := by
    intro stream next value result good
    simp only [uvarint, Option.some.injEq] at result
    exact serializeUvarint_good (Nat.pos_of_ne_zero (NeZero.ne bits))
      result good
  save_eq _ := rfl

instance positiveUint8 : Positive uint8 :=
  positive_of_encode fun _ => List.cons_ne_nil _ _

instance positiveBlob (size : Nat) [NeZero size] : Positive (blob size) :=
  positive_of_encode fun value =>
    List.ne_nil_of_length_pos (by
      rw [value.length_bytes]
      exact Nat.pos_of_ne_zero (NeZero.ne size))

instance positiveUvarint (bits : Nat) [NeZero bits] :
    Positive (uvarint bits) :=
  positive_of_encode writeVarint_ne_nil

theorem getUint_append (bytes rest : Bytes) :
    getUint bytes.length ⟨bytes ++ rest, true⟩ =
      (leValue bytes, ⟨rest, true⟩) := by
  induction bytes with
  | nil => rfl
  | cons byte bytes ih => simp [getUint, leValue, ih]

theorem getUint_good
    {size value : Nat} {stream next : IStream}
    (result : getUint size stream = (value, next)) (good : next.good = true) :
    ∃ bytes, bytes.length = size ∧ value = leValue bytes ∧
      stream = ⟨bytes ++ next.rest, true⟩ := by
  induction size generalizing value stream with
  | zero =>
      cases result
      refine ⟨[], rfl, rfl, ?_⟩
      rw [← good]
      rfl
  | succ size ih =>
      cases first : stream.get with
      | mk byte middle =>
      cases later : getUint size middle with
      | mk high last =>
      simp only [getUint, first, later, Prod.mk.injEq] at result
      obtain ⟨rfl, rfl⟩ := result
      obtain ⟨bytes, sizeEq, rfl, rfl⟩ := ih later
      refine ⟨byte :: bytes, by simp [sizeEq], rfl, ?_⟩
      exact IStream.get_good first rfl

theorem leBytes_ofNat_leValue {size : Nat} {bytes : Bytes}
    (sizeEq : bytes.length = size) :
    leBytes size (BitVec.ofNat (8 * size) (leValue bytes)).toNat = bytes := by
  subst sizeEq
  have small : leValue bytes < 2 ^ (8 * bytes.length) := by
    rw [Nat.pow_mul]
    exact leValue_lt bytes
  rw [BitVec.toNat_ofNat, Nat.mod_eq_of_lt small, leBytes_leValue]

instance encodesUint (size : Nat) :
    Encodes (uint size) (fun value => leBytes size value.toNat) where
  reads_encode value rest := by
    have small : value.toNat < 256 ^ size := by
      have bound := value.isLt
      rwa [Nat.pow_mul] at bound
    have got := getUint_append (leBytes size value.toNat) rest
    rw [length_leBytes, leValue_leBytes, Nat.mod_eq_of_lt small] at got
    simp [uint, got]
  load_good := by
    intro stream next value result good
    cases got : getUint size stream with
    | mk number last =>
    simp only [uint, got, Option.some.injEq, Prod.mk.injEq] at result
    obtain ⟨rfl, rfl⟩ := result
    obtain ⟨bytes, sizeEq, rfl, rfl⟩ := getUint_good got good
    rw [leBytes_ofNat_leValue sizeEq]
  save_eq _ := rfl

theorem reads_chars {size : Nat} {value bytes : Bytes} :
    (chars size).Reads value bytes ↔ bytes = value ∧ value.length = size := by
  constructor
  · intro reads
    have result := reads.load
    cases got : IStream.read size ⟨bytes, true⟩ with
    | mk characters last =>
    simp only [chars, got, Option.some.injEq, Prod.mk.injEq] at result
    obtain ⟨rfl, rfl⟩ := result
    have start := IStream.read_good got rfl
    exact ⟨by simpa using start, characters.length_bytes⟩
  · rintro ⟨rfl, rfl⟩ rest
    have got := IStream.read_append ⟨bytes, rfl⟩ rest
    simp [chars, got]

instance localChars (size : Nat) : Local (chars size) where
  consumed := by
    intro stream next value result good
    cases got : stream.read size with
    | mk characters last =>
    simp only [chars, got, Option.some.injEq, Prod.mk.injEq] at result
    obtain ⟨rfl, rfl⟩ := result
    rw [IStream.read_good got good]
    exact ⟨rfl, characters.bytes, rfl,
      reads_chars.mpr ⟨rfl, characters.length_bytes⟩⟩

instance canonicalChars (size : Nat) : Canonical (chars size) where
  save_of_reads := by
    intro value bytes reads
    obtain ⟨rfl, sizeEq⟩ := reads_chars.mp reads
    simp [chars, sizeEq]

end BlockTemplate.Serializer
