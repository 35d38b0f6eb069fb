import BlockTemplate.Bitcoin.RavenTemplate
import BlockTemplate.Bitcoin.RtmTemplate
import Mathlib.Data.Nat.Size

/-!
# The push of a height

`serializeNumber` of `rtm.js` and the coinbase of `RavenBlockTemplate` both
write a height behind its size.  A number whose top bit is set needs a zero
byte in front of it, in little-endian order behind it.
-/

namespace BlockTemplate

private theorem size_div_byte (n : Nat) : (n / 256).size = n.size - 8 := by
  have bound (bits : Nat) : (n / 256).size ≤ bits ↔ n.size - 8 ≤ bits := by
    rw [Nat.size_le, Nat.div_lt_iff_lt_mul (by decide), Nat.sub_le_iff_le_add,
      Nat.size_le, Nat.pow_add]
  exact Nat.le_antisymm ((bound _).mpr le_rfl) ((bound _).mp le_rfl)

private theorem size_double {n : Nat} (positive : 0 < n) :
    (n * 2).size = n.size + 1 := by
  have bound (bits : Nat) : (n * 2).size ≤ bits + 1 ↔ n.size ≤ bits := by
    rw [Nat.size_le, Nat.size_le, Nat.pow_succ]
    omega
  obtain ⟨bits, succ⟩ := Nat.exists_eq_succ_of_ne_zero
    (Nat.pos_iff_ne_zero.mp (Nat.size_pos.mpr (show 0 < n * 2 by omega)))
  have first := (bound n.size).mpr le_rfl
  have second := (bound bits).mp succ.le
  omega

private theorem length_toDigits_two {n : Nat} (positive : 0 < n) :
    (Nat.toDigits 2 n).length = n.size := by
  have bound {bits : Nat} (bitsPos : 0 < bits) :
      (Nat.toDigits 2 n).length ≤ bits ↔ n.size ≤ bits := by
    rw [Nat.length_toDigits_le_iff (by decide) bitsPos, Nat.size_le]
  exact Nat.le_antisymm ((bound (Nat.size_pos.mpr positive)).mpr le_rfl)
    ((bound Nat.length_toDigits_pos).mp le_rfl)

private theorem digitChar_eq_hexDigit {value : Nat} (small : value < 16) :
    Nat.digitChar value = hexDigit value := by
  have digits : ∀ digit : Fin 16,
      Nat.digitChar digit.val = hexDigit digit.val := by
    decide
  exact digits ⟨value, small⟩

private theorem toHex_byte {value : Nat} (small : value < 256) :
    toHex [BitVec.ofNat 8 value] =
      [Nat.digitChar (value / 16), Nat.digitChar (value % 16)] := by
  rw [digitChar_eq_hexDigit (by omega), digitChar_eq_hexDigit (by omega),
    toHex, BitVec.toNat_ofNat, Nat.mod_eq_of_lt small]
  rfl

private theorem evenHex_append_two (text : JsString) (high low : Char) :
    BitcoinUtils.evenHex (text ++ [high, low]) =
      BitcoinUtils.evenHex text ++ [high, low] := by
  have parity : (text ++ [high, low]).length % 2 = text.length % 2 := by
    rw [List.length_append]
    exact Nat.add_mod_right _ _
  rw [BitcoinUtils.evenHex, BitcoinUtils.evenHex, parity]
  split_ifs <;> rfl

/-- The digits of a number are its bytes, the most significant one first. -/
theorem evenHex_toDigits {size n : Nat} (low : 256 ^ size ≤ n)
    (high : n < 256 ^ (size + 1)) :
    BitcoinUtils.evenHex (Nat.toDigits 16 n) =
      toHex (leBytes (size + 1) n).reverse := by
  induction size generalizing n with
  | zero =>
      have small : n < 256 := high
      rw [leBytes, leBytes, List.reverse_singleton, toHex_byte small]
      by_cases single : n < 16
      · have top : n / 16 = 0 := by omega
        rw [Nat.toDigits_of_lt_base single, top, Nat.mod_eq_of_lt single]
        rfl
      · rw [Nat.toDigits_of_base_le (by decide) (by omega),
          Nat.toDigits_of_lt_base (by omega)]
        exact evenHex_append_two [] _ _
  | succ size ih =>
      have lowRest : 256 ^ size ≤ n / 256 := by
        rw [Nat.le_div_iff_mul_le (by decide), ← Nat.pow_succ]
        exact low
      have highRest : n / 256 < 256 ^ (size + 1) := by
        rw [Nat.div_lt_iff_lt_mul (by decide), ← Nat.pow_succ]
        exact high
      have positive : 0 < n / 256 :=
        (Nat.pow_pos (by decide)).trans_le lowRest
      have two : n / 16 / 16 = n / 256 := Nat.div_div_eq_div_mul n 16 16
      have digits : Nat.toDigits 16 n = Nat.toDigits 16 (n / 256) ++
          [Nat.digitChar (n / 16 % 16), Nat.digitChar (n % 16)] := by
        rw [Nat.toDigits_of_base_le (by decide) (by omega),
          Nat.toDigits_of_base_le (n := n / 16) (by decide) (by omega), two,
          List.append_assoc]
        rfl
      have last : toHex [BitVec.ofNat 8 n] =
          [Nat.digitChar (n / 16 % 16), Nat.digitChar (n % 16)] := by
        have same : BitVec.ofNat 8 n = BitVec.ofNat 8 (n % 256) := by
          apply BitVec.eq_of_toNat_eq
          simp only [BitVec.toNat_ofNat]
          omega
        have top : n % 256 / 16 = n / 16 % 16 := by omega
        have bottom : n % 256 % 16 = n % 16 := by omega
        rw [same, toHex_byte (Nat.mod_lt _ (by decide)), top, bottom]
      rw [digits, evenHex_append_two, ih lowRest highRest, ← last,
        ← toHex_append, ← List.reverse_cons]
      rfl

namespace Rtm

/-- A number is written in as many bytes as leave its top bit clear. -/
theorem serializeDigits_eq {room n : Nat} (fits : n.size / 8 < room) :
    serializeDigits room (n : Int) = .ok (leBytes (n.size / 8 + 1) n) := by
  induction room generalizing n with
  | zero => cases fits
  | succ room ih =>
      rw [serializeDigits]
      split_ifs with more
      · have big : 0x7f < n := by exact_mod_cast more
        have long : 7 < n.size := Nat.lt_size.mpr big
        have rest : (n : Int) / 256 = ((n / 256 : Nat) : Int) := rfl
        have less : (n / 256).size / 8 + 1 = n.size / 8 := by
          rw [size_div_byte]
          omega
        have lowByte : BitVec.ofInt 8 ((n : Int) % 256) =
            BitVec.ofNat 8 n := by
          apply BitVec.eq_of_toNat_eq
          rw [BitVec.toNat_ofInt, BitVec.toNat_ofNat]
          omega
        rw [rest, ih (by omega), less, lowByte]
        rfl
      · have small : n < 2 ^ 7 := by
          have bounded : ¬0x7f < n := by exact_mod_cast more
          omega
        have short : n.size / 8 = 0 := by
          have bits := Nat.size_le.mpr small
          omega
        rw [short]
        apply writeUIntLE_eq_ok.mpr
        exact ⟨small.trans (by decide), rfl⟩

theorem serializeNumber_eq {n : Nat} (more : 16 < n) (fits : n < 2 ^ 63) :
    serializeNumber (n : Int) =
      .ok (BitVec.ofNat 8 (n.size / 8 + 1) :: leBytes (n.size / 8 + 1) n) := by
  have bits := Nat.size_le.mpr fits
  rw [serializeNumber, if_neg (by omega), serializeDigits_eq (by omega)]
  simp only [Except.map, length_leBytes]

end Rtm

namespace Index

theorem bytesHeight_eq {height : Nat} (positive : 0 < height) :
    bytesHeight (height : Int) = height.size / 8 + 1 := by
  have doubled : (height : Int) * 2 = ((height * 2 : Nat) : Int) := rfl
  rw [bytesHeight, doubled, toRadix, if_neg (by omega), List.nil_append,
    Int.natAbs_natCast, length_toDigits_two (by omega),
    size_double positive]
  omega

/-- The padding is never written: the size that is pushed has at least as
many bytes as the digits. -/
theorem serializedBlockHeight_eq {height : Nat} (positive : 0 < height)
    (fits : height < 2 ^ 63) :
    serializedBlockHeight (height : Int) =
      BitVec.ofNat 8 (height.size / 8 + 1) ::
        (leBytes ((height.size + 7) / 8) height ++ [0x00]) := by
  have bits := Nat.size_le.mpr fits
  have sizePos := Nat.size_pos.mpr positive
  obtain ⟨size, bytes⟩ : ∃ size, (height.size + 7) / 8 = size + 1 :=
    ⟨(height.size - 1) / 8, by omega⟩
  have low : 256 ^ size ≤ height := by
    rw [show 256 = 2 ^ 8 from rfl, ← Nat.pow_mul, ← Nat.lt_size]
    omega
  have high : height < 256 ^ (size + 1) := by
    rw [show 256 = 2 ^ 8 from rfl, ← Nat.pow_mul, ← Nat.size_le]
    omega
  have digits : toRadix 16 (height : Int) = Nat.toDigits 16 height := by
    rw [toRadix, if_neg (by omega), List.nil_append, Int.natAbs_natCast]
  have serial := evenHex_toDigits low high
  have half : (toHex (leBytes (size + 1) height).reverse).length / 2 =
      size + 1 := by
    rw [length_toHex, List.length_reverse, length_leBytes]
    omega
  have unpadded : size + 1 - (height.size / 8 + 1) = 0 := by omega
  have pushed : ∀ count : Fin 9,
      ofHex ('0' :: toRadix 10 (count.val : Int)) =
        [BitVec.ofNat 8 count.val] := by
    decide
  rw [serializedBlockHeight, digits, serial, half, bytesHeight_eq positive,
    unpadded, bytes, List.replicate_zero, List.append_nil, ofHex_toHex,
    reverseBuffer, List.reverse_reverse,
    pushed ⟨height.size / 8 + 1, by omega⟩]
  rfl

/-- The zero byte behind the height is an `OP_0`, unless the height needs it
as its own last byte. -/
theorem serializedBlockHeight_of_serializeNumber {height : Nat}
    (more : 16 < height) (fits : height < 2 ^ 63) :
    ∃ number, Rtm.serializeNumber (height : Int) = .ok number ∧
      number.length = 1 + bytesHeight (height : Int) ∧
      serializedBlockHeight (height : Int) =
        if height.size % 8 = 0 then number else number ++ [0x00] := by
  have positive : 0 < height := by omega
  refine ⟨_, Rtm.serializeNumber_eq more fits, ?_, ?_⟩
  · rw [List.length_cons, length_leBytes, bytesHeight_eq positive,
      Nat.add_comm]
  · rw [serializedBlockHeight_eq positive fits]
    split_ifs with full
    · have fewer : (height.size + 7) / 8 = height.size / 8 := by omega
      have high : height < 256 ^ (height.size / 8) := by
        rw [show 256 = 2 ^ 8 from rfl, ← Nat.pow_mul, ← Nat.size_le]
        omega
      rw [fewer, ← leBytes_append, Nat.div_eq_of_lt high]
      rfl
    · have same : (height.size + 7) / 8 = height.size / 8 + 1 := by omega
      rw [same]
      rfl

end Index

end BlockTemplate
