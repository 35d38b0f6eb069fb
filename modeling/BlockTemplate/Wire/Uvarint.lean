import BlockTemplate.Wire.Varint

/-!
# What the reader of integers accepts

`binary_archive<false>::serialize_uvarint` against `tools::write_varint`: a
read that succeeds has taken the bytes the writer puts out for its value, and
every other byte string fails.  An encoding is a run of groups that announce
another one and a last group that does not; `groupsValue` is the number it
stands for.  The loop is also run with a count of rounds and with its shifts
checked, to see that it needs no more than one round for each seven bits.
-/

namespace BlockTemplate

/-- The number that groups of seven bits stand for, the lowest group first. -/
def groupsValue : Bytes → Nat
  | [] => 0
  | byte :: rest => byte.toNat % 128 + 128 * groupsValue rest

/-- Every group announces another one. -/
def Continued (groups : Bytes) : Prop :=
  ∀ byte ∈ groups, 128 ≤ byte.toNat

instance : DecidablePred Continued := fun groups =>
  inferInstanceAs (Decidable (∀ byte ∈ groups, 128 ≤ byte.toNat))

/-- The loop of `serialize_uvarint` in at most `rounds` rounds; a round that
would shift by the width of the type, or by more, has no result. -/
def serializeUvarintRounds (bits : Nat) :
    (rounds : Nat) → Bytes → (shift : Nat) → BitVec bits →
      Option (BitVec bits × IStream)
  | 0, _, _, _ => none
  | _ + 1, [], _, _ => some (0, ⟨[], false⟩)
  | rounds + 1, byte :: rest, shift, ret =>
    if bits ≤ shift then none
    else if bits ≤ shift + 7 ∧ 1 <<< (bits - shift) ≤ byte.toNat then
      some (0, ⟨rest, false⟩)
    else if byte = 0 ∧ shift ≠ 0 then
      some (0, ⟨rest, false⟩)
    else
      let ret := ret ||| (byte &&& 0x7f).setWidth bits <<< shift
      if byte &&& 0x80 = 0 then
        some (ret, ⟨rest, true⟩)
      else
        serializeUvarintRounds bits rounds rest (shift + 7) ret

variable {bits : Nat}

/-- A group that announces another one and is not too large leaves room for
it. -/
theorem room_of_continued {byte : Byte} {shift : Nat}
    (more : ¬(byte &&& 0x80 = 0))
    (noOverflow : ¬(bits ≤ shift + 7 ∧ 1 <<< (bits - shift) ≤ byte.toNat)) :
    128 ≤ byte.toNat ∧ shift + 7 < bits := by
  have large : 128 ≤ byte.toNat := by
    rw [last_group_iff] at more
    omega
  refine ⟨large, room_of_large large fun tight => ?_⟩
  rw [Nat.one_shiftLeft] at noOverflow
  omega

/-- As many rounds as there are groups in the bits above `shift` are enough,
and none of them shifts too far. -/
theorem serializeUvarintRounds_eq
    {rounds : Nat} {bytes : Bytes} {shift : Nat} {ret : BitVec bits}
    (inRange : shift < bits) (enough : bits ≤ shift + 7 * rounds) :
    serializeUvarintRounds bits rounds bytes shift ret =
      some (serializeUvarintLoop bits bytes shift ret) := by
  induction rounds generalizing bytes shift ret with
  | zero => omega
  | succ rounds ih =>
      cases bytes with
      | nil => rfl
      | cons byte rest =>
          rw [serializeUvarintRounds, serializeUvarintLoop,
            if_neg (Nat.not_le.mpr inRange)]
          split
          · rfl
          rename_i noOverflow
          split
          · rfl
          dsimp only
          split
          · rfl
          rename_i more
          exact ih (room_of_continued more noOverflow).2 (by omega)

theorem serializeUvarintLoop_truncated
    {groups : Bytes} {shift : Nat} {ret : BitVec bits}
    (continued : Continued groups) :
    (serializeUvarintLoop bits groups shift ret).2.good = false := by
  induction groups generalizing shift ret with
  | nil => rfl
  | cons byte rest ih =>
      have more := not_last_group (continued byte List.mem_cons_self)
      rw [serializeUvarintLoop]
      split
      · rfl
      split
      · rfl
      exact ih fun other member =>
        continued other (List.mem_cons_of_mem byte member)

theorem groupsValue_pos
    (groups : Bytes) {last : Byte} (ends : last.toNat < 128)
    (nonzero : last ≠ 0) : 0 < groupsValue (groups ++ [last]) := by
  induction groups with
  | nil =>
      have : last.toNat ≠ 0 := fun zero =>
        nonzero (BitVec.eq_of_toNat_eq zero)
      simp only [List.nil_append, groupsValue]
      omega
  | cons byte rest ih =>
      rw [List.cons_append, groupsValue]
      omega

/-- A complete encoding is read when no group is missing and its number fits
the bits that are left. -/
theorem serializeUvarintLoop_complete
    {groups rest : Bytes} {last : Byte} {shift : Nat} {ret : BitVec bits}
    (inRange : shift < bits)
    (continued : Continued groups) (ends : last.toNat < 128) :
    (serializeUvarintLoop bits (groups ++ last :: rest) shift ret).2.good =
        true ↔
      (groups ≠ [] ∨ shift ≠ 0 → last ≠ 0) ∧
        groupsValue (groups ++ [last]) < 2 ^ (bits - shift) := by
  induction groups generalizing shift ret with
  | nil =>
      have value : groupsValue ([] ++ [last]) = last.toNat := by
        simp [groupsValue, Nat.mod_eq_of_lt ends]
      rw [List.nil_append, value, serializeUvarintLoop, Nat.one_shiftLeft]
      split
      · rename_i overflow
        simp only [Bool.false_eq_true, false_iff, not_and, not_lt]
        exact fun _ => overflow.2
      rename_i noOverflow
      split
      · rename_i zero
        simp only [Bool.false_eq_true, false_iff]
        exact fun canonical => canonical.1 (.inr zero.2) zero.1
      rename_i noZero
      simp only [if_pos ((last_group_iff last).mpr ends), true_iff]
      refine ⟨?_, fits_of_small ends (by omega)⟩
      rintro (impossible | later) zero
      · exact impossible rfl
      · exact noZero ⟨zero, later⟩
  | cons byte groups ih =>
      have large := continued byte List.mem_cons_self
      have restContinued : Continued groups := fun other member =>
        continued other (List.mem_cons_of_mem byte member)
      have value : groupsValue (byte :: groups ++ [last]) =
          byte.toNat % 128 + 128 * groupsValue (groups ++ [last]) := rfl
      by_cases room : shift + 7 < bits
      · have split := two_pow_bits_left room.le
        rw [List.cons_append, serializeUvarintLoop_continue large room,
          ih room restContinued, value, split]
        constructor
        · rintro ⟨canonical, fits⟩
          exact ⟨fun _ => canonical (.inr (by omega)), by omega⟩
        · rintro ⟨canonical, fits⟩
          exact ⟨fun _ => canonical (.inl (List.cons_ne_nil _ _)), by omega⟩
      · -- The group alone is too large for the bits that are left.
        have narrow : 2 ^ (bits - shift) ≤ 2 ^ 7 :=
          Nat.pow_le_pow_right (by decide) (by omega)
        have overflow :
            bits ≤ shift + 7 ∧ 1 <<< (bits - shift) ≤ byte.toNat := by
          rw [Nat.one_shiftLeft]
          omega
        rw [List.cons_append, serializeUvarintLoop, if_pos overflow, value]
        simp only [Bool.false_eq_true, false_iff, not_and, not_lt]
        intro canonical
        have nonzero : last ≠ 0 := canonical (.inl (List.cons_ne_nil _ _))
        have := groupsValue_pos groups ends nonzero
        omega

/-- A read succeeds exactly on the bytes that are written for its value. -/
theorem serializeUvarint_eq_iff (positive : 0 < bits)
    {value : BitVec bits} {consumed rest : Bytes} :
    serializeUvarint bits ⟨consumed ++ rest, true⟩ = (value, ⟨rest, true⟩) ↔
      consumed = writeVarint value := by
  constructor
  · intro result
    have written := serializeUvarint_good positive result rfl
    rw [IStream.mk.injEq] at written
    exact List.append_cancel_right written.1
  · rintro rfl
    exact serializeUvarint_writeVarint positive value rest

/-- `read_varint` goes on to the end of a string in which no group is the
last, as long as the groups fit the type. -/
theorem readVarintLoop_continued
    {groups : Bytes} {shift read : Nat} {i : BitVec bits}
    (continued : Continued groups) (fits : shift + 7 * groups.length < bits) :
    (readVarintLoop bits groups shift read i).1 =
      ((read + groups.length : Nat) : Int) := by
  induction groups generalizing shift read i with
  | nil => rfl
  | cons byte rest ih =>
      rw [List.length_cons] at fits
      have large := continued byte List.mem_cons_self
      have noOverflow :
          ¬(bits ≤ shift + 7 ∧ 1 <<< (bits - shift) ≤ byte.toNat) := by
        omega
      have later := @ih (shift + 7) (read + 1)
        (i ||| (byte &&& 0x7f).setWidth bits <<< shift)
        (fun other member => continued other (List.mem_cons_of_mem byte member))
        (by omega)
      rw [readVarintLoop, if_neg noOverflow, if_neg (not_zero_group large)]
      dsimp only
      rw [if_neg (not_last_group large), later, List.length_cons, Nat.add_right_comm,
        Nat.add_assoc]

/-- Where the stream reader fails and `read_varint` does not, the string has
ended before the last group. -/
theorem continued_of_readVarintLoop
    {bytes : Bytes} {shift read : Nat} {i : BitVec bits}
    (inRange : shift < bits)
    (failed : (serializeUvarintLoop bits bytes shift i).2.good = false)
    (accepted : 0 ≤ (readVarintLoop bits bytes shift read i).1) :
    Continued bytes ∧ shift + 7 * bytes.length < bits := by
  induction bytes generalizing shift read i with
  | nil => exact ⟨fun _ member => absurd member List.not_mem_nil, inRange⟩
  | cons byte rest ih =>
      rw [serializeUvarintLoop] at failed
      rw [readVarintLoop] at accepted
      split at accepted
      · exact absurd accepted (Int.not_le.mpr (Int.negSucc_lt_zero 0))
      rename_i noOverflow
      rw [if_neg noOverflow] at failed
      split at accepted
      · exact absurd accepted (Int.not_le.mpr (Int.negSucc_lt_zero 1))
      rename_i noZero
      rw [if_neg noZero] at failed
      dsimp only at accepted failed
      split at accepted
      · rename_i last
        rw [if_pos last] at failed
        cases failed
      rename_i more
      rw [if_neg more] at failed
      obtain ⟨large, room⟩ := room_of_continued more noOverflow
      obtain ⟨continued, fits⟩ := ih room failed accepted
      refine ⟨List.forall_mem_cons.mpr ⟨large, continued⟩, ?_⟩
      rw [List.length_cons]
      omega

/-- The reader of a type of `bits` bits succeeds with a value exactly when it
has read what the writer puts out for it.  Of the complete encodings it takes
those that miss no group and whose number fits; an incomplete one fails.  The
loop ends within a round for each seven bits and shifts by less than the
width. -/
theorem serialize_uvarint_exact (width : bits ∈ [8, 16, 32, 64]) :
    (∀ (value : BitVec bits) (consumed rest : Bytes),
      serializeUvarint bits ⟨consumed ++ rest, true⟩ = (value, ⟨rest, true⟩) ↔
        consumed = writeVarint value) ∧
    (∀ (groups rest : Bytes) (last : Byte),
      Continued groups → last.toNat < 128 →
        ((serializeUvarint bits ⟨groups ++ last :: rest, true⟩).2.good =
            true ↔
          (groups ≠ [] → last ≠ 0) ∧
            groupsValue (groups ++ [last]) < 2 ^ bits)) ∧
    (∀ groups : Bytes, Continued groups →
      (serializeUvarint bits ⟨groups, true⟩).2.good = false) ∧
    ∀ bytes : Bytes,
      serializeUvarintRounds bits ((bits + 6) / 7) bytes 0 0 =
        some (serializeUvarint bits ⟨bytes, true⟩) := by
  have positive : 0 < bits := by
    simp only [List.mem_cons, List.not_mem_nil, or_false] at width
    omega
  refine ⟨fun value consumed rest => serializeUvarint_eq_iff positive, ?_,
    ?_, ?_⟩
  · intro groups rest last continued ends
    have complete := @serializeUvarintLoop_complete bits groups rest last 0 0
      positive continued ends
    simpa [serializeUvarint] using complete
  · intro groups continued
    exact serializeUvarintLoop_truncated continued
  · intro bytes
    exact serializeUvarintRounds_eq positive (by omega)

theorem serialize_uvarint_exact_sixteen :
    serializeUvarint 16 ⟨[0xac, 0x02] ++ [0xff], true⟩ =
        (300, ⟨[0xff], true⟩) ∧
      (serializeUvarint 16 ⟨[0xff, 0xff] ++ 4 :: [0x01], true⟩).2.good ≠ true := by
  have exact := serialize_uvarint_exact (show 16 ∈ [8, 16, 32, 64] by decide)
  refine ⟨(exact.1 300 [0xac, 0x02] [0xff]).mpr (by decide), ?_⟩
  rw [Ne, exact.2.1 [0xff, 0xff] [0x01] 4 (by decide +kernel) (by decide)]
  decide

end BlockTemplate
