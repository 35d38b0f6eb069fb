import BlockTemplate.Bitcoin.HeightPush

/-!
# The push of a number

`serializeNumber` of `rtm.js` with its buffer: one index is the position of
the next write and becomes the length that is pushed.  It writes what the
description without a buffer writes, which is the shortest push that is read
as a positive number.
-/

namespace BlockTemplate.Rtm

/-- `buff.writeUInt8(value, offset)`. -/
def writeUInt8 (buff : Bytes) (value : Int) (offset : Nat) :
    Except String Bytes :=
  if offset < buff.length ∧ 0 ≤ value ∧ value < 256 then
    .ok (buff.set offset (BitVec.ofInt 8 value))
  else .error outOfRange

/-- `while (n > 0x7f)` on `n`, `l` and `buff`.  A buffer of nine bytes has no
room for the write of a ninth round. -/
def serializeNumberLoop :
    (rounds : Nat) → (n : Int) → (l : Nat) → (buff : Bytes) →
      Except String (Int × Nat × Bytes)
  | 0, _, _, _ => .error outOfRange
  | rounds + 1, n, l, buff =>
    if 0x7f < n then do
      let buff ← writeUInt8 buff (n % 256) l
      serializeNumberLoop rounds (n / 256) (l + 1) buff
    else .ok (n, l, buff)

/-- What follows the loop. -/
def serializeNumberEnd (n : Int) (l : Nat) (buff : Bytes) :
    Except String Bytes := do
  let buff ← writeUInt8 buff l 0
  let buff ← writeUInt8 buff n l
  pure (buff.take (l + 1))

/-- `serializeNumber` as it is computed in its buffer. -/
def serializeNumberBuffer (n : Int) : Except String Bytes :=
  if 1 ≤ n ∧ n ≤ 16 then .ok [BitVec.ofInt 8 (0x50 + n)]
  else do
    let (n, l, buff) ← serializeNumberLoop 9 n 1 (List.replicate 9 0)
    serializeNumberEnd n l buff

private theorem writeUInt8_outside {buff : Bytes} {value : Int} {offset : Nat}
    (outside : buff.length ≤ offset) :
    writeUInt8 buff value offset = .error outOfRange := by
  rw [writeUInt8, if_neg]
  omega

/-- A write behind what has been written. -/
theorem writeUInt8_next
    {first old : Byte} {digits free : Bytes} {value : Int}
    (range : 0 ≤ value ∧ value < 256) :
    writeUInt8 (first :: (digits ++ old :: free)) value (digits.length + 1) =
      .ok (first :: (digits ++ [BitVec.ofInt 8 value] ++ free)) := by
  have inside : digits.length + 1 <
      (first :: (digits ++ old :: free)).length := by
    simp
  rw [writeUInt8, if_pos ⟨inside, range⟩, List.set_cons_succ,
    List.set_append_right _ _ le_rfl, Nat.sub_self, List.set_cons_zero,
    List.append_assoc, List.singleton_append]

private theorem serializeNumberEnd_eq
    {n : Int} {first : Byte} {digits free : Bytes}
    (bounded : digits.length < 255) (last : ¬0x7f < n) :
    serializeNumberEnd n (digits.length + 1) (first :: (digits ++ free)) =
      (serializeDigits free.length n).map fun rest =>
        BitVec.ofNat 8 (digits.length + rest.length) :: (digits ++ rest) := by
  have length : writeUInt8 (first :: (digits ++ free))
      ((digits.length + 1 : Nat) : Int) 0 =
        .ok (BitVec.ofNat 8 (digits.length + 1) :: (digits ++ free)) := by
    rw [writeUInt8, if_pos ⟨by simp, by omega, by omega⟩,
      BitVec.ofInt_natCast]
    rfl
  rw [serializeNumberEnd, length, except_ok_bind]
  cases free with
  | nil =>
      have full : writeUInt8 (BitVec.ofNat 8 (digits.length + 1) ::
          (digits ++ [])) n (digits.length + 1) = .error outOfRange :=
        writeUInt8_outside (by simp)
      rw [full]
      rfl
  | cons old free =>
      rw [List.length_cons, serializeDigits, if_neg last, writeUIntLE,
        pow_one]
      by_cases range : 0 ≤ n ∧ n < 256
      · have written : writeUInt8 (BitVec.ofNat 8 (digits.length + 1) ::
            (digits ++ old :: free)) n (digits.length + 1) =
              .ok (BitVec.ofNat 8 (digits.length + 1) ::
                (digits ++ [BitVec.ofInt 8 n] ++ free)) :=
          writeUInt8_next range
        have byte : leBytes 1 n.toNat = [BitVec.ofInt 8 n] := by
          rw [leBytes, leBytes, ← BitVec.ofInt_natCast,
            Int.toNat_of_nonneg range.1]
        have whole : (digits ++ [BitVec.ofInt 8 n] ++ free).take
            (digits.length + 1) = digits ++ [BitVec.ofInt 8 n] :=
          List.take_left' (by simp)
        rw [if_pos range, written, byte, except_ok_bind,
          List.take_succ_cons, whole]
        rfl
      · rw [if_neg range, writeUInt8, if_neg fun inside => range inside.2]
        rfl

private theorem serializeNumberLoop_eq
    {rounds : Nat} {n : Int} {first : Byte} {digits free : Bytes}
    (enough : free.length < rounds)
    (bounded : digits.length + free.length < 255) :
    (serializeNumberLoop rounds n (digits.length + 1)
        (first :: (digits ++ free)) >>= fun state =>
          serializeNumberEnd state.1 state.2.1 state.2.2) =
      (serializeDigits free.length n).map fun rest =>
        BitVec.ofNat 8 (digits.length + rest.length) :: (digits ++ rest) := by
  induction rounds generalizing n digits free with
  | zero => omega
  | succ rounds ih =>
      rw [serializeNumberLoop]
      split
      · rename_i more
        cases free with
        | nil =>
            have full : writeUInt8 (first :: (digits ++ [])) (n % 256)
                (digits.length + 1) = .error outOfRange :=
              writeUInt8_outside (by simp)
            rw [full]
            rfl
        | cons old free =>
            have written : writeUInt8 (first :: (digits ++ old :: free))
                (n % 256) (digits.length + 1) =
                  .ok (first ::
                    (digits ++ [BitVec.ofInt 8 (n % 256)] ++ free)) :=
              writeUInt8_next (by omega)
            rw [List.length_cons] at enough bounded
            have later := @ih (n / 256) (digits ++ [BitVec.ofInt 8 (n % 256)])
              free (by omega) (by rw [List.length_append]; simp; omega)
            simp only [List.length_append, List.length_singleton] at later
            rw [written, except_ok_bind, later, List.length_cons, serializeDigits, if_pos more]
            cases serializeDigits free.length (n / 256) with
            | error message => rfl
            | ok rest =>
                simp only [Except.map, List.append_assoc,
                  List.singleton_append, List.length_cons]
                rw [Nat.add_right_comm, Nat.add_assoc]
      · rename_i last
        rw [except_ok_bind]
        exact serializeNumberEnd_eq (by omega) last

/-- The buffer has room for the digits exactly when the description without a
buffer finds room for them. -/
theorem serializeNumberBuffer_eq (n : Int) :
    serializeNumberBuffer n = serializeNumber n := by
  rw [serializeNumberBuffer, serializeNumber]
  split
  · rfl
  · have buffer : List.replicate 9 (0 : Byte) = 0 :: List.replicate 8 0 := rfl
    have whole := @serializeNumberLoop_eq 9 n 0 [] (List.replicate 8 0)
      (by simp) (by simp)
    simp only [List.length_nil, Nat.zero_add, List.nil_append,
      List.length_replicate] at whole
    rw [buffer, ← whole]

/-- Digits that are read as a positive number, with none that could be left
out: the top bit is clear, and a zero on top is there for the bit under it. -/
def MinimalDigits (digits : Bytes) : Prop :=
  ∃ front last, digits = front ++ [last] ∧ last.toNat < 0x80 ∧
    (last = 0 → ∃ lower byte, front = lower ++ [byte] ∧ 0x80 ≤ byte.toNat)

private theorem leBytes_succ (size value : Nat) :
    leBytes (size + 1) value =
      leBytes size value ++ [BitVec.ofNat 8 (value / 256 ^ size)] :=
  (leBytes_append size 1 value).symm

private theorem lt_pow_size_byte {n size : Nat} :
    n < 256 ^ size ↔ n.size ≤ 8 * size := by
  rw [show 256 = 2 ^ 8 from rfl, ← Nat.pow_mul, Nat.size_le]

private theorem toNat_byte {value : Nat} (small : value < 256) :
    (BitVec.ofNat 8 value).toNat = value := by
  rw [BitVec.toNat_ofNat, Nat.mod_eq_of_lt small]

private theorem minimalDigits_leBytes {n : Nat} (positive : 0 < n) :
    MinimalDigits (leBytes (n.size / 8 + 1) n) := by
  generalize sizeEq : n.size / 8 = size
  have high : n < 256 ^ size * 0x80 := by
    have bits : n.size ≤ 8 * size + 7 := by omega
    rw [Nat.size_le, Nat.pow_add, Nat.pow_mul] at bits
    exact bits
  have top : n / 256 ^ size < 0x80 := Nat.div_lt_of_lt_mul high
  have topByte := toNat_byte (top.trans (by decide))
  refine ⟨_, _, leBytes_succ size n, topByte.trans_lt top, ?_⟩
  intro zero
  rw [zero] at topByte
  have below : n < 256 ^ size :=
    (Nat.div_eq_zero_iff_lt (Nat.pow_pos (by decide))).mp topByte.symm
  have bits := lt_pow_size_byte.mp below
  have sizePos := Nat.size_pos.mpr positive
  -- All bits of the byte under the zero are used.
  obtain ⟨lower, rfl⟩ : ∃ lower, size = lower + 1 := ⟨size - 1, by omega⟩
  have full : 256 ^ lower * 0x80 ≤ n := by
    have used : 8 * lower + 7 < n.size := by omega
    rw [Nat.lt_size, Nat.pow_add, Nat.pow_mul] at used
    exact used
  have byteLow : 0x80 ≤ n / 256 ^ lower := by
    rw [Nat.le_div_iff_mul_le (Nat.pow_pos (by decide)), Nat.mul_comm]
    exact full
  have byteHigh : n / 256 ^ lower < 256 := by
    rw [Nat.div_lt_iff_lt_mul (Nat.pow_pos (by decide)), Nat.mul_comm,
      ← Nat.pow_succ]
    exact below
  exact ⟨_, _, leBytes_succ lower n, byteLow.trans_eq (toNat_byte byteHigh).symm⟩

/-- A number above 16 is pushed in as few digits as are read as a positive
number, behind the count of these digits; a number from 1 to 16 is an opcode.
The index stays in the buffer, and the loop ends. -/
theorem serialize_number_minimal (n : Nat) (positive : 1 ≤ n)
    (safe : n ≤ 2 ^ 53 - 1) :
    if n ≤ 16 then
      serializeNumberBuffer n = .ok [BitVec.ofNat 8 (0x50 + n)]
    else
      ∃ digits,
        serializeNumberBuffer n =
          .ok (BitVec.ofNat 8 digits.length :: digits) ∧
        digits.length ≤ 8 ∧ leValue digits = n ∧ MinimalDigits digits := by
  split
  · rename_i few
    rw [serializeNumberBuffer, if_pos (by omega)]
    rfl
  · rename_i more
    have fits : n < 2 ^ 63 := by omega
    have bits := Nat.size_le.mpr fits
    refine ⟨leBytes (n.size / 8 + 1) n, ?_, ?_, ?_, minimalDigits_leBytes positive⟩
    · rw [serializeNumberBuffer_eq, serializeNumber_eq (by omega) fits,
        length_leBytes]
    · rw [length_leBytes]
      omega
    · rw [leValue_leBytes, Nat.mod_eq_of_lt]
      rw [lt_pow_size_byte]
      omega

theorem serialize_number_minimal_y2038 :
    ∃ digits,
      serializeNumberBuffer (0x80000000 : Nat) =
        .ok (BitVec.ofNat 8 digits.length :: digits) ∧
      digits.length ≤ 8 ∧ leValue digits = 0x80000000 ∧
      MinimalDigits digits :=
  serialize_number_minimal 0x80000000 (by decide) (by decide)

end BlockTemplate.Rtm
