import BlockTemplate.Wire.Bytes

/-!
# CompactSize

The count format of Bitcoin: one byte below `0xfd`, or a marker byte and two,
four or eight bytes.  The shortest form is written; every form is read, up to
the greatest integer that a double holds exactly.
-/

namespace BlockTemplate.CompactSize

/-- `Number.MAX_SAFE_INTEGER`. -/
def maxSafeInteger : Nat := 2 ^ 53 - 1

/-- The number of bytes behind a marker byte. -/
def width (marker : Byte) : Nat :=
  if marker = 0xfd then 2 else if marker = 0xfe then 4 else 8

def marked (marker : Byte) (value : Nat) : Bytes :=
  marker :: leBytes (width marker) value

def encode (value : Nat) : Bytes :=
  if value < 0xfd then [BitVec.ofNat 8 value]
  else if value ≤ 0xffff then marked 0xfd value
  else if value ≤ 0xffffffff then marked 0xfe value
  else marked 0xff value

/-- The value at the front of a byte string, and how many bytes it takes. -/
def decode : Bytes → Option (Nat × Nat)
  | [] => none
  | marker :: rest =>
    if marker.toNat < 0xfd then some (marker.toNat, 1)
    else if rest.length < width marker then none
    else if maxSafeInteger < leValue (rest.take (width marker)) then none
    else some (leValue (rest.take (width marker)), 1 + width marker)

theorem length_encode_pos (value : Nat) : 0 < (encode value).length := by
  unfold encode
  split_ifs <;> exact Nat.succ_pos _

/-- Only zero starts with a zero byte. -/
theorem encode_head_ne_zero {value : Nat} (positive : 0 < value) :
    ∃ head tail, encode value = head :: tail ∧ head ≠ 0 := by
  unfold encode
  split_ifs with one
  · refine ⟨_, _, rfl, fun zero => ?_⟩
    have same : value % 2 ^ 8 = 0 := by
      rw [← BitVec.toNat_ofNat, zero]
      rfl
    omega
  all_goals exact ⟨_, _, rfl, by decide⟩

theorem decode_small
    {marker : Byte} (rest : Bytes) (small : marker.toNat < 0xfd) :
    decode (marker :: rest) = some (marker.toNat, 1) := by
  rw [decode, if_pos small]

theorem decode_word
    {marker : Byte} {word : Bytes} (rest : Bytes)
    (isMarker : 0xfd ≤ marker.toNat) (size : word.length = width marker)
    (safe : leValue word ≤ maxSafeInteger) :
    decode (marker :: (word ++ rest)) =
      some (leValue word, 1 + width marker) := by
  have enough : ¬(word ++ rest).length < width marker := by
    rw [List.length_append]
    omega
  rw [decode, if_neg (by omega), if_neg enough, List.take_left' size,
    if_neg (by omega)]

/-- The two forms that are read. -/
theorem decode_cases
    {bytes : Bytes} {value size : Nat}
    (decoded : decode bytes = some (value, size)) :
    ∃ marker rest, bytes = marker :: rest ∧
      (marker.toNat < 0xfd ∧ value = marker.toNat ∧ size = 1 ∨
        ∃ word after, 0xfd ≤ marker.toNat ∧ rest = word ++ after ∧
          word.length = width marker ∧ value = leValue word ∧
          leValue word ≤ maxSafeInteger ∧ size = 1 + width marker) := by
  cases bytes with
  | nil => cases decoded
  | cons marker rest =>
      refine ⟨marker, rest, rfl, ?_⟩
      rw [decode] at decoded
      split_ifs at decoded with small short large
      · cases decoded
        exact .inl ⟨small, rfl, rfl⟩
      · cases decoded
        exact .inr ⟨rest.take (width marker), rest.drop (width marker),
          Nat.le_of_not_lt small, (List.take_append_drop _ _).symm,
          List.length_take_of_le (Nat.le_of_not_lt short), rfl,
          Nat.le_of_not_lt large, rfl⟩

theorem decode_marked
    {marker : Byte} {value : Nat} (rest : Bytes)
    (isMarker : 0xfd ≤ marker.toNat) (fits : value < 256 ^ width marker)
    (safe : value ≤ maxSafeInteger) :
    decode (marked marker value ++ rest) =
      some (value, (marked marker value).length) := by
  have size := length_leBytes (width marker) value
  have same : leValue (leBytes (width marker) value) = value := by
    rw [leValue_leBytes]
    exact Nat.mod_eq_of_lt fits
  rw [marked, List.cons_append,
    decode_word rest isMarker size (same.le.trans safe), same,
    List.length_cons, size, Nat.add_comm]

theorem decode_encode {value : Nat} (safe : value ≤ maxSafeInteger)
    (rest : Bytes) :
    decode (encode value ++ rest) = some (value, (encode value).length) := by
  unfold encode
  split_ifs with one two four
  · have same : (BitVec.ofNat 8 value).toNat = value := by
      rw [BitVec.toNat_ofNat]
      omega
    rw [List.singleton_append, decode_small _ (by omega), same]
    rfl
  · have room : 256 ^ width 0xfd = 0xffff + 1 := rfl
    exact decode_marked rest (by decide) (by omega) safe
  · have room : 256 ^ width 0xfe = 0xffffffff + 1 := rfl
    exact decode_marked rest (by decide) (by omega) safe
  · have room : maxSafeInteger < 256 ^ width 0xff := by decide
    exact decode_marked rest (by decide) (by omega) safe

theorem decode_le
    {bytes : Bytes} {value size : Nat}
    (decoded : decode bytes = some (value, size)) : value ≤ maxSafeInteger := by
  obtain ⟨marker, rest, rfl, ⟨-, rfl, -⟩ | ⟨word, after, -, -, -, rfl, safe, -⟩⟩
    := decode_cases decoded
  · exact marker.isLt.le.trans (by decide)
  · exact safe

/-- A value depends on the bytes that it takes, and takes at least one. -/
theorem decode_take
    {bytes : Bytes} {value size : Nat}
    (decoded : decode bytes = some (value, size)) :
    0 < size ∧ size ≤ bytes.length ∧
      ∀ rest, decode (bytes.take size ++ rest) = some (value, size) := by
  obtain ⟨marker, bytes, rfl, ⟨small, rfl, rfl⟩ |
    ⟨word, after, isMarker, rfl, width, rfl, safe, rfl⟩⟩ := decode_cases decoded
  · refine ⟨Nat.one_pos, Nat.succ_pos _, fun rest => ?_⟩
    rw [List.take_succ_cons, List.take_zero, List.singleton_append]
    exact decode_small rest small
  · refine ⟨by omega, ?_, fun rest => ?_⟩
    · rw [List.length_cons, List.length_append]
      omega
    · rw [Nat.add_comm 1, List.take_succ_cons, List.take_left' width,
        List.cons_append, decode_word rest isMarker width safe, Nat.add_comm]

end BlockTemplate.CompactSize
