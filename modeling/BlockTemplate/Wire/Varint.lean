import BlockTemplate.Wire.Stream

/-!
# Variable-length integers

Seven payload bits a byte, least significant group first, the high bit set on
every byte but the last.  The reader rejects a value that does not fit its
type and a final zero group, so it accepts exactly what the writer produces.
-/

namespace BlockTemplate

/-- `tools::write_varint`; `fuel` bounds the number of continuation bytes. -/
def writeVarintLoop : Nat → Nat → Bytes
  | 0, i => [BitVec.ofNat 8 i]
  | fuel + 1, i =>
    if 0x80 ≤ i then
      (BitVec.ofNat 8 i &&& 0x7f ||| 0x80) :: writeVarintLoop fuel (i >>> 7)
    else [BitVec.ofNat 8 i]

/-- The bytes `write_varint` puts out for a `bits`-bit value. -/
def writeVarint {bits : Nat} (value : BitVec bits) : Bytes :=
  writeVarintLoop bits value.toNat

/-- The loop of `serialize_uvarint` on a stream that is still good. -/
def serializeUvarintLoop (bits : Nat) :
    Bytes → Nat → BitVec bits → BitVec bits × IStream
  | [], _, _ => (0, ⟨[], false⟩)
  | byte :: rest, shift, ret =>
    if bits ≤ shift + 7 ∧ 1 <<< (bits - shift) ≤ byte.toNat then
      (0, ⟨rest, false⟩)
    else if byte = 0 ∧ shift ≠ 0 then
      (0, ⟨rest, false⟩)
    else
      let ret := ret ||| (byte &&& 0x7f).setWidth bits <<< shift
      if byte &&& 0x80 = 0 then
        (ret, ⟨rest, true⟩)
      else
        serializeUvarintLoop bits rest (shift + 7) ret

/-- `binary_archive<false>::serialize_uvarint` for a type of `bits` bits. -/
def serializeUvarint (bits : Nat) (stream : IStream) : BitVec bits × IStream :=
  if stream.good then serializeUvarintLoop bits stream.rest 0 0
  else (0, stream)

theorem and_0x7f_toNat (byte : Byte) :
    (byte &&& 0x7f).toNat = byte.toNat % 128 := by
  rw [BitVec.toNat_and]
  exact Nat.and_two_pow_sub_one_eq_mod _ 7

theorem continuation_toNat (i : Nat) :
    (BitVec.ofNat 8 i &&& 0x7f ||| 0x80).toNat = i % 128 + 128 := by
  have low : (BitVec.ofNat 8 i &&& 0x7f).toNat = i % 128 := by
    rw [and_0x7f_toNat, BitVec.toNat_ofNat]
    omega
  have small : i % 128 < 2 ^ 7 := Nat.mod_lt _ (by decide)
  calc
    (BitVec.ofNat 8 i &&& 0x7f ||| 0x80).toNat = i % 128 ||| 2 ^ 7 * 1 := by
      rw [BitVec.toNat_or, low]
      rfl
    _ = 2 ^ 7 * 1 + i % 128 := by
      rw [Nat.or_comm, Nat.two_pow_add_eq_or_of_lt small]
    _ = i % 128 + 128 := by omega

theorem last_group_iff (byte : Byte) :
    byte &&& 0x80 = 0 ↔ byte.toNat < 128 := by
  revert byte
  decide

/-- A group that announces another one is no missing one. -/
theorem not_zero_group {byte : Byte} {shift : Nat} (more : 128 ≤ byte.toNat) :
    ¬(byte = 0 ∧ shift ≠ 0) := by
  rintro ⟨rfl, -⟩
  exact absurd more (by decide)

theorem not_last_group {byte : Byte} (more : 128 ≤ byte.toNat) :
    byte &&& 0x80 ≠ 0 := by
  rw [Ne, last_group_iff]
  omega

/-- The bits left at one group are seven more than at the next one. -/
theorem two_pow_bits_left {bits shift : Nat} (room : shift + 7 ≤ bits) :
    2 ^ (bits - shift) = 2 ^ (bits - (shift + 7)) * 128 := by
  rw [show bits - shift = bits - (shift + 7) + 7 by omega, Nat.pow_add]

/-- A value of more than seven bits that fits leaves room for another
group. -/
theorem room_of_large {bits shift value : Nat} (large : 128 ≤ value)
    (fits : bits ≤ shift + 7 → value < 2 ^ (bits - shift)) :
    shift + 7 < bits := by
  by_contra tight
  have : 2 ^ (bits - shift) ≤ 2 ^ 7 :=
    Nat.pow_le_pow_right (by decide) (by omega)
  have := fits (by omega)
  omega

/-- A value of seven bits fits when there is room for another group. -/
theorem fits_of_small {bits shift value : Nat} (small : value < 128)
    (fits : bits ≤ shift + 7 → value < 2 ^ (bits - shift)) :
    value < 2 ^ (bits - shift) := by
  by_cases tight : bits ≤ shift + 7
  · exact fits tight
  · have : 2 ^ 7 ≤ 2 ^ (bits - shift) :=
      Nat.pow_le_pow_right (by decide) (by omega)
    omega

/-- The value read so far with one more group is the value of all groups. -/
theorem ret_or_group {bits : Nat} (ret : BitVec bits)
    (shift group high : Nat) (small : group < 128) :
    (ret ||| BitVec.ofNat bits group <<< shift) |||
        BitVec.ofNat bits high <<< (shift + 7) =
      ret ||| BitVec.ofNat bits (group + 128 * high) <<< shift := by
  have split : group + 128 * high = group ||| high <<< 7 := by
    rw [Nat.or_comm, Nat.shiftLeft_eq, Nat.mul_comm high,
      ← Nat.two_pow_add_eq_or_of_lt (i := 7) small]
    omega
  have shifted : BitVec.ofNat bits (high <<< 7) =
      BitVec.ofNat bits high <<< 7 := by
    apply BitVec.eq_of_toNat_eq
    simp [Nat.shiftLeft_eq, Nat.mod_mul_mod]
  rw [split, BitVec.ofNat_or, shifted, BitVec.shiftLeft_or_distrib,
    BitVec.or_assoc, Nat.add_comm shift 7, BitVec.shiftLeft_add]

theorem group_setWidth (bits : Nat) (byte : Byte) :
    (byte &&& 0x7f).setWidth bits = BitVec.ofNat bits (byte.toNat % 128) := by
  apply BitVec.eq_of_toNat_eq
  rw [BitVec.toNat_setWidth, and_0x7f_toNat, BitVec.toNat_ofNat]

/-- Reading a last group, when the value it completes fits and no group is
missing. -/
theorem serializeUvarintLoop_last {bits : Nat}
    {byte : Byte} {rest : Bytes} {shift : Nat} {ret : BitVec bits}
    (last : byte.toNat < 128)
    (fits : byte.toNat < 2 ^ (bits - shift))
    (canonical : shift ≠ 0 → byte.toNat ≠ 0) :
    serializeUvarintLoop bits (byte :: rest) shift ret =
      (ret ||| BitVec.ofNat bits byte.toNat <<< shift, ⟨rest, true⟩) := by
  have noOverflow : ¬(bits ≤ shift + 7 ∧ 1 <<< (bits - shift) ≤ byte.toNat) := by
    rw [Nat.one_shiftLeft]
    omega
  have noZero : ¬(byte = 0 ∧ shift ≠ 0) := by
    rintro ⟨rfl, later⟩
    exact canonical later rfl
  rw [serializeUvarintLoop, if_neg noOverflow, if_neg noZero]
  simp only [if_pos ((last_group_iff byte).mpr last), group_setWidth,
    Nat.mod_eq_of_lt last]

/-- Reading a group that is not the last one. -/
theorem serializeUvarintLoop_continue {bits : Nat}
    {byte : Byte} {rest : Bytes} {shift : Nat} {ret : BitVec bits}
    (more : 128 ≤ byte.toNat) (room : shift + 7 < bits) :
    serializeUvarintLoop bits (byte :: rest) shift ret =
      serializeUvarintLoop bits rest (shift + 7)
        (ret ||| BitVec.ofNat bits (byte.toNat % 128) <<< shift) := by
  have noOverflow : ¬(bits ≤ shift + 7 ∧ 1 <<< (bits - shift) ≤ byte.toNat) := by
    omega
  rw [serializeUvarintLoop, if_neg noOverflow, if_neg (not_zero_group more)]
  simp only [if_neg (not_last_group more), group_setWidth]

theorem writeVarintLoop_last {byte : Byte} (last : byte.toNat < 128)
    (fuel : Nat) : writeVarintLoop fuel byte.toNat = [byte] := by
  have same : BitVec.ofNat 8 byte.toNat = byte := by simp
  cases fuel with
  | zero => rw [writeVarintLoop, same]
  | succ fuel => rw [writeVarintLoop, if_neg (by omega), same]

theorem writeVarintLoop_continue {byte : Byte} {high : Nat}
    (more : 128 ≤ byte.toNat) (nonzero : high ≠ 0) (fuel : Nat) :
    writeVarintLoop (fuel + 1) (byte.toNat % 128 + 128 * high) =
      byte :: writeVarintLoop fuel high := by
  have byteSmall := byte.isLt
  have shifted : (byte.toNat % 128 + 128 * high) >>> 7 = high := by
    rw [Nat.shiftRight_eq_div_pow]
    omega
  have first : BitVec.ofNat 8 (byte.toNat % 128 + 128 * high) &&& 0x7f |||
      0x80 = byte := by
    apply BitVec.eq_of_toNat_eq
    rw [continuation_toNat]
    omega
  rw [writeVarintLoop, if_pos (by omega), first, shifted]

theorem serializeUvarintLoop_writeVarintLoop {bits : Nat}
    (fuel : Nat) {x shift : Nat} {ret : BitVec bits} {rest : Bytes}
    (enough : x < 128 ^ (fuel + 1)) (inRange : shift < bits)
    (fits : x < 2 ^ (bits - shift)) (canonical : shift ≠ 0 → x ≠ 0) :
    serializeUvarintLoop bits (writeVarintLoop fuel x ++ rest) shift ret =
      (ret ||| BitVec.ofNat bits x <<< shift, ⟨rest, true⟩) := by
  induction fuel generalizing x shift ret with
  | zero =>
      have small : x < 128 := by simpa using enough
      have value : (BitVec.ofNat 8 x).toNat = x := by
        rw [BitVec.toNat_ofNat]
        omega
      rw [writeVarintLoop, List.singleton_append,
        serializeUvarintLoop_last (by omega) (by omega) (by omega), value]
  | succ fuel ih =>
      rw [writeVarintLoop]
      split
      · rename_i large
        have room : shift + 7 < bits := room_of_large large fun _ => fits
        have high : x >>> 7 = x / 128 := Nat.shiftRight_eq_div_pow x 7
        have highFits : x / 128 < 2 ^ (bits - (shift + 7)) := by
          have split := two_pow_bits_left room.le
          omega
        have highEnough : x / 128 < 128 ^ (fuel + 1) := by
          rw [Nat.pow_succ] at enough
          omega
        have whole : (x % 128 + 128) % 128 + 128 * (x / 128) = x := by omega
        rw [List.cons_append,
          serializeUvarintLoop_continue
            (by rw [continuation_toNat]; omega) room,
          continuation_toNat, high,
          ih highEnough room highFits (by omega),
          ret_or_group _ _ _ _ (by omega), whole]
      · rename_i small
        have value : (BitVec.ofNat 8 x).toNat = x := by
          rw [BitVec.toNat_ofNat]
          omega
        rw [List.singleton_append,
          serializeUvarintLoop_last (by omega) (by omega) (by omega), value]

theorem serializeUvarint_writeVarint {bits : Nat}
    (positive : 0 < bits) (value : BitVec bits) (rest : Bytes) :
    serializeUvarint bits ⟨writeVarint value ++ rest, true⟩ =
      (value, ⟨rest, true⟩) := by
  have enough : value.toNat < 128 ^ (bits + 1) :=
    calc
      value.toNat < 2 ^ bits := value.isLt
      _ ≤ 128 ^ bits := Nat.pow_le_pow_left (by decide) bits
      _ ≤ 128 ^ (bits + 1) := Nat.pow_le_pow_right (by decide) (by omega)
  have read :
      serializeUvarintLoop bits (writeVarintLoop bits value.toNat ++ rest) 0 0 =
        (0 ||| BitVec.ofNat bits value.toNat <<< 0, ⟨rest, true⟩) :=
    serializeUvarintLoop_writeVarintLoop bits enough positive value.isLt
      (fun later => absurd rfl later)
  simpa [serializeUvarint, writeVarint] using read

theorem serializeUvarintLoop_good {bits : Nat}
    {bytes : Bytes} {shift : Nat} {ret value : BitVec bits} {next : IStream}
    (inRange : shift < bits)
    (result : serializeUvarintLoop bits bytes shift ret = (value, next))
    (good : next.good = true) :
    ∃ x, x < 2 ^ (bits - shift) ∧ (shift ≠ 0 → x ≠ 0) ∧
      value = ret ||| BitVec.ofNat bits x <<< shift ∧
      ∀ fuel, x < 128 ^ (fuel + 1) →
        bytes = writeVarintLoop fuel x ++ next.rest := by
  induction bytes generalizing shift ret with
  | nil =>
      cases result
      cases good
  | cons byte rest ih =>
      rw [serializeUvarintLoop] at result
      split at result
      · cases result
        cases good
      rename_i noOverflow
      have fits : bits ≤ shift + 7 → byte.toNat < 2 ^ (bits - shift) := by
        intro tight
        rw [Nat.one_shiftLeft] at noOverflow
        omega
      split at result
      · cases result
        cases good
      rename_i noZero
      by_cases last : byte.toNat < 128
      · simp only [if_pos ((last_group_iff byte).mpr last), group_setWidth,
          Nat.mod_eq_of_lt last] at result
        cases result
        refine ⟨byte.toNat, fits_of_small last fits, ?_, rfl, ?_⟩
        · intro later zero
          exact noZero ⟨BitVec.eq_of_toNat_eq zero, later⟩
        · intro fuel _
          rw [writeVarintLoop_last last fuel]
          rfl
      · have more : 128 ≤ byte.toNat := Nat.le_of_not_lt last
        have room : shift + 7 < bits := room_of_large more fits
        simp only [if_neg (not_last_group more), group_setWidth] at result
        obtain ⟨high, highFits, highCanonical, valueEq, written⟩ :=
          ih room result
        have highNonzero : high ≠ 0 := highCanonical (by omega)
        refine ⟨byte.toNat % 128 + 128 * high, ?_, by omega, ?_, ?_⟩
        · have split := two_pow_bits_left room.le
          omega
        · rw [valueEq, ret_or_group _ _ _ _ (by omega)]
        · intro fuel enough
          cases fuel with
          | zero =>
              simp only [Nat.zero_add, Nat.pow_one] at enough
              omega
          | succ fuel =>
              rw [writeVarintLoop_continue more highNonzero,
                List.cons_append, ← written fuel]
              rw [Nat.pow_succ] at enough
              omega

/-- What the reader accepts is what the writer puts out for the value read. -/
theorem serializeUvarint_good {bits : Nat}
    {stream next : IStream} {value : BitVec bits}
    (positive : 0 < bits)
    (result : serializeUvarint bits stream = (value, next))
    (good : next.good = true) :
    stream = ⟨writeVarint value ++ next.rest, true⟩ := by
  obtain ⟨bytes, flag⟩ := stream
  cases flag with
  | false =>
      cases result
      cases good
  | true =>
      obtain ⟨x, fits, -, rfl, written⟩ :=
        serializeUvarintLoop_good positive result good
      have enough : x < 128 ^ (bits + 1) :=
        calc
          x < 2 ^ bits := fits
          _ ≤ 128 ^ bits := Nat.pow_le_pow_left (by decide) bits
          _ ≤ 128 ^ (bits + 1) := Nat.pow_le_pow_right (by decide) (by omega)
      have read : ((0 : BitVec bits) ||| BitVec.ofNat bits x <<< 0).toNat = x := by
        have small : x < 2 ^ bits := fits
        simp [Nat.mod_eq_of_lt small]
      rw [writeVarint, read, ← written bits enough]

theorem writeVarintLoop_ne_nil (fuel i : Nat) : writeVarintLoop fuel i ≠ [] := by
  cases fuel with
  | zero => exact List.cons_ne_nil _ _
  | succ fuel =>
      rw [writeVarintLoop]
      split <;> exact List.cons_ne_nil _ _

theorem writeVarint_ne_nil {bits : Nat} (value : BitVec bits) :
    writeVarint value ≠ [] :=
  writeVarintLoop_ne_nil bits value.toNat

/-- One byte is enough exactly for the values below `0x80`. -/
theorem writeVarint_eq_singleton_iff {bits : Nat} [NeZero bits]
    {value : BitVec bits} :
    writeVarint value = [BitVec.ofNat 8 value.toNat] ↔ value.toNat < 0x80 := by
  obtain ⟨fuel, rfl⟩ := Nat.exists_eq_succ_of_ne_zero (NeZero.ne bits)
  rw [writeVarint, writeVarintLoop]
  split_ifs with large
  · constructor
    · intro short
      exact (writeVarintLoop_ne_nil _ _ (List.cons.inj short).2).elim
    · intro small
      omega
  · exact iff_of_true rfl (Nat.lt_of_not_le large)

/-- The loop of `tools::read_varint`: the number of bytes read, negative for
an error, and the value.  Unlike the stream reader it stops without an error
where the string ends. -/
def readVarintLoop (bits : Nat) :
    Bytes → (shift read : Nat) → BitVec bits → Int × BitVec bits
  | [], _, read, i => (read, i)
  | byte :: rest, shift, read, i =>
    if bits ≤ shift + 7 ∧ 1 <<< (bits - shift) ≤ byte.toNat then (-1, i)
    else if byte = 0 ∧ shift ≠ 0 then (-2, i)
    else
      let i := i ||| (byte &&& 0x7f).setWidth bits <<< shift
      if byte &&& 0x80 = 0 then (read + 1, i)
      else readVarintLoop bits rest (shift + 7) (read + 1) i

def readVarint (bits : Nat) (bytes : Bytes) : Int × BitVec bits :=
  readVarintLoop bits bytes 0 0 0

/-- It reads what the stream reader reads; where that fails, it fails too or
has come to the end of the string. -/
theorem readVarintLoop_cases {bits : Nat}
    (bytes : Bytes) (shift read : Nat) (i : BitVec bits) :
    (∃ consumed rest value, bytes = consumed ++ rest ∧ consumed ≠ [] ∧
      serializeUvarintLoop bits bytes shift i = (value, ⟨rest, true⟩) ∧
      readVarintLoop bits bytes shift read i =
        (((read + consumed.length : Nat) : Int), value)) ∨
    ((serializeUvarintLoop bits bytes shift i).2.good = false ∧
      ((readVarintLoop bits bytes shift read i).1 < 0 ∨
        (readVarintLoop bits bytes shift read i).1 =
          ((read + bytes.length : Nat) : Int))) := by
  induction bytes generalizing shift read i with
  | nil => exact Or.inr ⟨rfl, Or.inr rfl⟩
  | cons byte rest ih =>
      rw [serializeUvarintLoop, readVarintLoop]
      split
      · exact Or.inr ⟨rfl, Or.inl (Int.negSucc_lt_zero 0)⟩
      split
      · exact Or.inr ⟨rfl, Or.inl (Int.negSucc_lt_zero 1)⟩
      dsimp only
      split
      · exact Or.inl ⟨[byte], rest, _, rfl, List.cons_ne_nil _ _, rfl, rfl⟩
      · rcases ih (shift + 7) (read + 1)
            (i ||| (byte &&& 0x7f).setWidth bits <<< shift) with
          ⟨consumed, later, value, rfl, -, streamRead, stringRead⟩ |
          ⟨bad, failed⟩
        · refine Or.inl ⟨byte :: consumed, later, value, rfl,
            List.cons_ne_nil _ _, streamRead, ?_⟩
          rw [stringRead, List.length_cons, Nat.add_right_comm, Nat.add_assoc]
        · refine Or.inr ⟨bad, failed.imp_right fun atEnd => ?_⟩
          rw [atEnd, List.length_cons, Nat.add_right_comm, Nat.add_assoc]

theorem readVarint_writeVarint {bits : Nat}
    (positive : 0 < bits) (value : BitVec bits) (rest : Bytes) :
    readVarint bits (writeVarint value ++ rest) =
      (((writeVarint value).length : Int), value) := by
  have stream := serializeUvarint_writeVarint positive value rest
  rw [serializeUvarint, if_pos rfl] at stream
  rcases readVarintLoop_cases (writeVarint value ++ rest) 0 0 (0 : BitVec bits)
    with ⟨consumed, later, other, split, -, streamRead, stringRead⟩ | ⟨bad, -⟩
  · rw [stream] at streamRead
    cases streamRead
    rw [readVarint, stringRead, List.append_cancel_right split]
    simp
  · rw [stream] at bad
    cases bad

/-- When something is left, what was read is a written value. -/
theorem readVarint_rest {bits : Nat} {bytes : Bytes} {read : Int}
    {value : BitVec bits} (positive : 0 < bits)
    (result : readVarint bits bytes = (read, value)) (started : 0 < read)
    (left : bytes.drop read.toNat ≠ []) :
    bytes = writeVarint value ++ bytes.drop read.toNat := by
  rcases readVarintLoop_cases bytes 0 0 (0 : BitVec bits)
    with ⟨consumed, rest, other, rfl, -, streamRead, stringRead⟩ | ⟨-, failed⟩
  · rw [← readVarint, result] at stringRead
    cases stringRead
    have stream : serializeUvarint bits ⟨consumed ++ rest, true⟩ =
        (value, ⟨rest, true⟩) := by
      rw [serializeUvarint, if_pos rfl]
      exact streamRead
    have written := serializeUvarint_good positive stream rfl
    simpa using written
  · rw [← readVarint, result] at failed
    rcases failed with negative | atEnd
    · omega
    · have whole : read = (bytes.length : Int) := by simpa using atEnd
      exact absurd (List.drop_eq_nil_of_le (by omega)) left

end BlockTemplate
