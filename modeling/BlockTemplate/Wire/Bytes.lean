import Mathlib.Data.List.Basic
import Mathlib.Algebra.Order.Ring.Nat
import Mathlib.Tactic.Ring

/-!
# Byte strings

Bytes, byte strings of a fixed length, little-endian integers and the
replacement of a byte range.  Nothing here knows about a particular format.
-/

namespace BlockTemplate

abbrev Byte := BitVec 8

abbrev Bytes := List Byte

/-- A byte string of exactly `size` bytes. -/
structure Blob (size : Nat) where
  bytes : Bytes
  length_bytes : bytes.length = size
deriving DecidableEq

namespace Blob

@[ext]
theorem ext {size : Nat} {first second : Blob size}
    (bytes : first.bytes = second.bytes) : first = second := by
  cases first
  cases second
  cases bytes
  rfl

attribute [simp] length_bytes

def zero (size : Nat) : Blob size :=
  ⟨List.replicate size 0, List.length_replicate⟩

instance {size : Nat} : Inhabited (Blob size) :=
  ⟨zero size⟩

end Blob

/-- The `size` low bytes of a number, least significant byte first. -/
def leBytes : Nat → Nat → Bytes
  | 0, _ => []
  | size + 1, value => BitVec.ofNat 8 value :: leBytes size (value / 256)

/-- The number whose bytes, least significant first, are given. -/
def leValue : Bytes → Nat
  | [] => 0
  | byte :: rest => byte.toNat + 256 * leValue rest

@[simp]
theorem length_leBytes (size value : Nat) :
    (leBytes size value).length = size := by
  induction size generalizing value with
  | zero => rfl
  | succ size ih => simp [leBytes, ih]

theorem leValue_lt (bytes : Bytes) : leValue bytes < 256 ^ bytes.length := by
  induction bytes with
  | nil => simp [leValue]
  | cons byte rest ih =>
      have small := byte.isLt
      simp only [leValue, List.length_cons, Nat.pow_succ]
      omega

theorem leBytes_leValue (bytes : Bytes) :
    leBytes bytes.length (leValue bytes) = bytes := by
  induction bytes with
  | nil => rfl
  | cons byte rest ih =>
      have small := byte.isLt
      have high : (byte.toNat + 256 * leValue rest) / 256 = leValue rest := by
        omega
      have low : BitVec.ofNat 8 (byte.toNat + 256 * leValue rest) = byte := by
        apply BitVec.eq_of_toNat_eq
        rw [BitVec.toNat_ofNat]
        omega
      simp only [List.length_cons, leBytes, leValue, high, low, ih]

theorem leValue_leBytes (size value : Nat) :
    leValue (leBytes size value) = value % 256 ^ size := by
  induction size generalizing value with
  | zero => simp [leBytes, leValue, Nat.mod_one]
  | succ size ih =>
      have split : value % 256 ^ (size + 1) =
          value % 256 + 256 * (value / 256 % 256 ^ size) := by
        rw [Nat.pow_succ, Nat.mul_comm, Nat.mod_mul]
      simp only [leBytes, leValue, BitVec.toNat_ofNat, ih]
      omega

theorem leValue_append (low high : Bytes) :
    leValue (low ++ high) = leValue low + 256 ^ low.length * leValue high := by
  induction low with
  | nil => simp [leValue]
  | cons byte rest ih =>
      simp only [List.cons_append, leValue, ih, List.length_cons, Nat.pow_succ,
        Nat.mul_add, Nat.mul_comm, Nat.mul_left_comm, Nat.add_assoc]

theorem leBytes_append (low high value : Nat) :
    leBytes low value ++ leBytes high (value / 256 ^ low) =
      leBytes (low + high) value := by
  induction low generalizing value with
  | zero =>
      rw [Nat.zero_add, pow_zero, Nat.div_one]
      rfl
  | succ low ih =>
      have rest := ih (value / 256)
      rw [Nat.div_div_eq_div_mul, ← pow_succ'] at rest
      rw [Nat.add_right_comm, leBytes, leBytes, List.cons_append, rest]

theorem leBytes_mod (size value : Nat) :
    leBytes size (value % 256 ^ size) = leBytes size value := by
  have same := leBytes_leValue (leBytes size value)
  rwa [leValue_leBytes, length_leBytes] at same

/-- Writes `data` over the bytes of `bytes` that start at `offset`. -/
def overwrite (bytes : Bytes) (offset : Nat) (data : Bytes) : Bytes :=
  bytes.take offset ++ data ++ bytes.drop (offset + data.length)

theorem length_overwrite
    {bytes data : Bytes} {offset : Nat}
    (inside : offset + data.length ≤ bytes.length) :
    (overwrite bytes offset data).length = bytes.length := by
  simp only [overwrite, List.length_append, List.length_take,
    List.length_drop]
  omega

theorem length_overwrite_of_eq
    {bytes data : Bytes} {offset size : Nat} (length : bytes.length = size)
    (inside : offset + data.length ≤ size) :
    (overwrite bytes offset data).length = size := by
  subst length
  exact length_overwrite inside

/-- Overwriting inside the middle part of a string overwrites that part. -/
theorem overwrite_middle
    {before middle after data : Bytes} {offset : Nat}
    (inside : offset + data.length ≤ middle.length) :
    overwrite (before ++ (middle ++ after)) (before.length + offset) data =
      before ++ (overwrite middle offset data ++ after) := by
  have insideTake : offset - middle.length = 0 := by omega
  have insideDrop : offset + data.length - middle.length = 0 := by omega
  simp only [overwrite, List.append_assoc, Nat.add_assoc,
    List.take_length_add_append, List.drop_length_add_append]
  rw [List.take_append, List.drop_append, insideTake, insideDrop]
  simp

theorem overwrite_append_left
    {bytes data : Bytes} {offset : Nat}
    (inside : offset + data.length ≤ bytes.length) (rest : Bytes) :
    overwrite (bytes ++ rest) offset data =
      overwrite bytes offset data ++ rest := by
  have middle := @overwrite_middle [] bytes rest data offset inside
  rwa [List.length_nil, Nat.zero_add] at middle

theorem take_drop_append_left
    {bytes after : Bytes} {offset size : Nat}
    (inside : offset + size ≤ bytes.length) :
    ((bytes ++ after).drop offset).take size = (bytes.drop offset).take size := by
  rw [List.drop_append_of_le_length (by omega),
    List.take_append_of_le_length (by rw [List.length_drop]; omega)]

/-- A range inside the middle part of a string. -/
theorem take_drop_middle
    {before middle after : Bytes} {offset size : Nat}
    (inside : offset + size ≤ middle.length) :
    ((before ++ (middle ++ after)).drop (before.length + offset)).take size =
      (middle.drop offset).take size := by
  rw [List.drop_length_add_append]
  exact take_drop_append_left inside

theorem getElem?_overwrite
    {bytes data : Bytes} {offset : Nat}
    (inside : offset + data.length ≤ bytes.length) (index : Nat) :
    (overwrite bytes offset data)[index]? =
      if offset ≤ index ∧ index < offset + data.length then
        data[index - offset]?
      else bytes[index]? := by
  have front : (bytes.take offset).length = offset :=
    List.length_take_of_le (by omega)
  rw [overwrite, List.append_assoc]
  by_cases early : index < offset
  · rw [if_neg (by omega), List.getElem?_append_left (by omega),
      List.getElem?_take_of_lt early]
  · rw [List.getElem?_append_right (by omega), front]
    by_cases late : index < offset + data.length
    · rw [if_pos (by omega), List.getElem?_append_left (by omega)]
    · rw [if_neg (by omega), List.getElem?_append_right (by omega),
        List.getElem?_drop]
      congr 1
      omega

/-- Of two writes to one range the last one counts. -/
theorem overwrite_overwrite
    {bytes first second : Bytes} {offset : Nat}
    (inside : offset + first.length ≤ bytes.length)
    (same : first.length = second.length) :
    overwrite (overwrite bytes offset first) offset second =
      overwrite bytes offset second := by
  apply List.ext_getElem?
  intro index
  rw [getElem?_overwrite (by rw [length_overwrite inside]; omega),
    getElem?_overwrite inside, getElem?_overwrite (by omega), same]
  split <;> rfl

/-- Two writes next to each other are one. -/
theorem overwrite_adjacent
    {bytes first second : Bytes} {offset : Nat}
    (inside : offset + (first ++ second).length ≤ bytes.length) :
    overwrite (overwrite bytes offset first) (offset + first.length) second =
      overwrite bytes offset (first ++ second) := by
  have split := inside
  rw [List.length_append] at split
  have insideFirst : offset + first.length ≤ bytes.length := by omega
  have sameLength := length_overwrite insideFirst
  apply List.ext_getElem?
  intro index
  rw [getElem?_overwrite (by omega), getElem?_overwrite insideFirst,
    getElem?_overwrite inside, List.length_append]
  by_cases early : index < offset
  · rw [if_neg (by omega), if_neg (by omega), if_neg (by omega)]
  · by_cases inFirst : index < offset + first.length
    · rw [if_neg (by omega), if_pos (by omega), if_pos (by omega),
        List.getElem?_append_left (by omega)]
    · by_cases inSecond : index < offset + first.length + second.length
      · rw [if_pos (by omega), if_pos (by omega),
          List.getElem?_append_right (by omega)]
        congr 1
        omega
      · rw [if_neg (by omega), if_neg (by omega), if_neg (by omega)]

/-- Writes to disjoint ranges commute. -/
theorem overwrite_comm
    {bytes first second : Bytes} {offset later : Nat}
    (before : offset + first.length ≤ later)
    (inside : later + second.length ≤ bytes.length) :
    overwrite (overwrite bytes offset first) later second =
      overwrite (overwrite bytes later second) offset first := by
  have insideFirst : offset + first.length ≤ bytes.length := by omega
  apply List.ext_getElem?
  intro index
  rw [getElem?_overwrite (by rw [length_overwrite insideFirst]; omega),
    getElem?_overwrite insideFirst,
    getElem?_overwrite (by rw [length_overwrite inside]; omega),
    getElem?_overwrite inside]
  by_cases inFirst : offset ≤ index ∧ index < offset + first.length
  · rw [if_pos inFirst, if_pos inFirst, if_neg (by omega)]
  · rw [if_neg inFirst, if_neg inFirst]

theorem take_overwrite
    {bytes data : Bytes} {offset size : Nat}
    (inside : offset + data.length ≤ bytes.length)
    (kept : offset + data.length ≤ size) :
    (overwrite bytes offset data).take size =
      overwrite (bytes.take size) offset data := by
  have insideTake : offset + data.length ≤ (bytes.take size).length := by
    rw [List.length_take]
    omega
  apply List.ext_getElem?
  intro index
  rw [getElem?_overwrite insideTake]
  by_cases taken : index < size
  · rw [List.getElem?_take_of_lt taken, List.getElem?_take_of_lt taken,
      getElem?_overwrite inside]
  · rw [if_neg (by omega), List.getElem?_take_eq_none (by omega),
      List.getElem?_take_eq_none (by omega)]

theorem take_overwrite_of_le
    {bytes data : Bytes} {offset size : Nat}
    (inside : offset + data.length ≤ bytes.length) (behind : size ≤ offset) :
    (overwrite bytes offset data).take size = bytes.take size := by
  apply List.ext_getElem?
  intro index
  by_cases taken : index < size
  · rw [List.getElem?_take_of_lt taken, List.getElem?_take_of_lt taken,
      getElem?_overwrite inside, if_neg (by omega)]
  · rw [List.getElem?_take_eq_none (by omega),
      List.getElem?_take_eq_none (by omega)]

/-- The range that was written holds what was written. -/
theorem take_drop_overwrite
    {bytes data : Bytes} {offset : Nat}
    (inside : offset + data.length ≤ bytes.length) :
    ((overwrite bytes offset data).drop offset).take data.length = data := by
  have front : (bytes.take offset).length = offset :=
    List.length_take_of_le (by omega)
  rw [overwrite, List.append_assoc, List.drop_left' front, List.take_left]

theorem drop_overwrite
    {bytes data : Bytes} {offset size : Nat}
    (inside : offset + data.length ≤ bytes.length)
    (dropped : offset + data.length ≤ size) :
    (overwrite bytes offset data).drop size = bytes.drop size := by
  apply List.ext_getElem?
  intro index
  rw [List.getElem?_drop, List.getElem?_drop, getElem?_overwrite inside,
    if_neg (by omega)]

end BlockTemplate
