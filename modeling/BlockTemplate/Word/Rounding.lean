import Mathlib.Algebra.Order.Floor.Ring
import Mathlib.Data.Int.Log
import Mathlib.Tactic.Linarith
import Mathlib.Tactic.LinearCombination
import Mathlib.Tactic.FieldSimp
import Mathlib.Tactic.Positivity
import Mathlib.Tactic.Ring

/-!
# Rounding to binary digits

The nearest integer, of two the even one, and with it the nearest number that
has so many significant binary digits.  Rounding keeps the order, and what it
loses is a small part of the number.
-/

namespace BlockTemplate.Rounding

variable {K : Type} [Field K] [LinearOrder K] [IsStrictOrderedRing K]
  [FloorRing K]

def toEven (x : K) : ℤ :=
  if 2 * Int.fract x < 1 ∨ 2 * Int.fract x = 1 ∧ ⌊x⌋ % 2 = 0 then ⌊x⌋
  else ⌊x⌋ + 1

omit [IsStrictOrderedRing K] in
theorem floor_le_toEven (x : K) : ⌊x⌋ ≤ toEven x := by
  unfold toEven
  split_ifs <;> omega

omit [IsStrictOrderedRing K] in
theorem toEven_le_floor (x : K) : toEven x ≤ ⌊x⌋ + 1 := by
  unfold toEven
  split_ifs <;> omega

@[simp]
theorem toEven_intCast (n : ℤ) : toEven (n : K) = n := by
  simp [toEven]

/-- The nearest integer of a quotient of two naturals, from its remainder. -/
theorem toEven_natCast_div (numerator : ℕ) {denominator : ℕ}
    (positive : 0 < denominator) :
    toEven ((numerator : K) / denominator) =
      if 2 * (numerator % denominator) < denominator ∨
        2 * (numerator % denominator) = denominator ∧
          numerator / denominator % 2 = 0 then
        ((numerator / denominator : ℕ) : ℤ)
      else ((numerator / denominator : ℕ) : ℤ) + 1 := by
  have below : ⌊(numerator : K) / denominator⌋ =
      ((numerator / denominator : ℕ) : ℤ) := by
    rw [Int.floor_div_natCast, Int.floor_natCast, Int.natCast_div]
  have place : (0 : K) < denominator := Nat.cast_pos.mpr positive
  have rest : 2 * Int.fract ((numerator : K) / denominator) =
      ((2 * (numerator % denominator) : ℕ) : K) / denominator := by
    have whole : (numerator : K) = denominator *
        ((numerator / denominator : ℕ) : K) +
          ((numerator % denominator : ℕ) : K) := by
      exact_mod_cast (Nat.div_add_mod numerator denominator).symm
    rw [Int.fract, below, Int.cast_natCast]
    field_simp
    push_cast
    linear_combination 2 * whole
  have less : 2 * Int.fract ((numerator : K) / denominator) < 1 ↔
      2 * (numerator % denominator) < denominator := by
    rw [rest, div_lt_one place, Nat.cast_lt]
  have half : 2 * Int.fract ((numerator : K) / denominator) = 1 ↔
      2 * (numerator % denominator) = denominator := by
    rw [rest, div_eq_one_iff_eq place.ne', Nat.cast_inj]
  have even : ((numerator / denominator : ℕ) : ℤ) % 2 = 0 ↔
      numerator / denominator % 2 = 0 := by
    omega
  rw [toEven, below]
  simp only [less, half, even]

theorem toEven_mono {x y : K} (ordered : x ≤ y) : toEven x ≤ toEven y := by
  rcases (Int.floor_le_floor ordered).lt_or_eq with below | same
  · calc toEven x ≤ ⌊x⌋ + 1 := toEven_le_floor x
      _ ≤ ⌊y⌋ := below
      _ ≤ toEven y := floor_le_toEven y
  · have fracts : Int.fract x ≤ Int.fract y := by
      rw [Int.fract, Int.fract, same]
      exact sub_le_sub_right ordered _
    unfold toEven
    rw [same]
    by_cases high : 2 * Int.fract y < 1 ∨ 2 * Int.fract y = 1 ∧ ⌊y⌋ % 2 = 0
    · have low : 2 * Int.fract x < 1 ∨ 2 * Int.fract x = 1 ∧ ⌊y⌋ % 2 = 0 := by
        rcases high with less | ⟨half, even⟩
        · exact .inl (by linarith)
        · rcases fracts.lt_or_eq with less | equal
          · exact .inl (by linarith)
          · exact .inr ⟨by rw [equal, half], even⟩
      rw [if_pos low, if_pos high]
    · rw [if_neg high]
      split_ifs <;> omega

/-- The nearest integer is at most a half away. -/
theorem abs_toEven_sub_le (x : K) : |(toEven x : K) - x| ≤ 1 / 2 := by
  have split := Int.floor_add_fract x
  have lower := Int.fract_nonneg x
  have upper := Int.fract_lt_one x
  rw [abs_le]
  unfold toEven
  split_ifs with down
  · have low : 2 * Int.fract x ≤ 1 := by
      rcases down with less | ⟨half, -⟩
      · exact less.le
      · exact half.le
    constructor <;> linarith
  · have high : 1 ≤ 2 * Int.fract x := by
      by_contra less
      exact down (.inl (not_le.mp less))
    push_cast
    constructor <;> linarith

/-- The last of so many digits of a positive number. -/
def unit (digits : ℕ) (x : K) : K :=
  2 ^ (Int.log 2 x + 1 - digits)

def nearest (digits : ℕ) (x : K) : K :=
  toEven (x / unit digits x) * unit digits x

@[simp]
theorem nearest_zero (digits : ℕ) : nearest digits (0 : K) = 0 := by
  have toEvenZero : toEven (0 : K) = 0 := by
    simpa using toEven_intCast (0 : ℤ) (K := K)
  simp [nearest, toEvenZero]

theorem unit_pos (digits : ℕ) (x : K) : 0 < unit digits x :=
  zpow_pos two_pos _

section Positive

variable {digits : ℕ} {x y : K}

theorem pow_log_le (positive : 0 < x) : (2 : K) ^ Int.log 2 x ≤ x := by
  exact_mod_cast Int.zpow_log_le_self one_lt_two positive

theorem lt_pow_log_add_one (x : K) : x < (2 : K) ^ (Int.log 2 x + 1) := by
  exact_mod_cast Int.lt_zpow_succ_log_self one_lt_two x

/-- What rounding changes is at most that part of the number. -/
theorem abs_nearest_sub_le (digits : ℕ) (positive : 0 < x) :
    |nearest digits x - x| ≤ x / 2 ^ digits := by
  have place := unit_pos digits x
  have scaled : nearest digits x - x =
      (toEven (x / unit digits x) - x / unit digits x) * unit digits x := by
    rw [sub_mul, div_mul_cancel₀ _ place.ne', nearest]
  have half : unit digits x / 2 = 2 ^ Int.log 2 x / 2 ^ digits := by
    rw [unit, add_sub_right_comm, zpow_add_one₀ two_ne_zero,
      mul_div_cancel_right₀ _ two_ne_zero, zpow_sub₀ two_ne_zero,
      zpow_natCast]
  calc |nearest digits x - x|
      = |(toEven (x / unit digits x) : K) - x / unit digits x| *
          unit digits x := by
        rw [scaled, abs_mul, abs_of_pos place]
    _ ≤ 1 / 2 * unit digits x :=
        mul_le_mul_of_nonneg_right (abs_toEven_sub_le _) place.le
    _ = 2 ^ Int.log 2 x / 2 ^ digits := by rw [← half]; ring
    _ ≤ x / 2 ^ digits := by
        apply div_le_div_of_nonneg_right (pow_log_le positive)
        positivity

/-- Numbers that have so few digits are kept. -/
theorem nearest_exact {mantissa : ℕ} (few : mantissa < 2 ^ digits) (place : ℤ) :
    nearest digits ((mantissa : K) * 2 ^ place) = mantissa * 2 ^ place := by
  rcases mantissa.eq_zero_or_pos with rfl | nonzero
  · simp
  · have positive : 0 < (mantissa : K) * 2 ^ place :=
      mul_pos (Nat.cast_pos.mpr nonzero) (zpow_pos two_pos _)
    have below : (mantissa : K) * 2 ^ place < 2 ^ (digits + place : ℤ) := by
      rw [zpow_add₀ two_ne_zero, zpow_natCast]
      apply mul_lt_mul_of_pos_right _ (zpow_pos two_pos _)
      exact_mod_cast few
    have small : Int.log 2 ((mantissa : K) * 2 ^ place) < digits + place :=
      (Int.lt_zpow_iff_log_lt one_lt_two positive).mp (by exact_mod_cast below)
    obtain ⟨shift, shifted⟩ := Int.eq_ofNat_of_zero_le (show
      0 ≤ place - (Int.log 2 ((mantissa : K) * 2 ^ place) + 1 - digits) by
        omega)
    have whole : (mantissa : K) * 2 ^ place /
        unit digits ((mantissa : K) * 2 ^ place) =
          ((mantissa * 2 ^ shift : ℕ) : ℤ) := by
      rw [unit, mul_div_assoc, ← zpow_sub₀ two_ne_zero, shifted]
      push_cast
      rw [zpow_natCast]
    rw [nearest, whole, toEven_intCast, ← whole,
      div_mul_cancel₀ _ (unit_pos _ _).ne']

variable (enough : 1 ≤ digits)
include enough

theorem pow_log_le_nearest (positive : 0 < x) :
    (2 : K) ^ Int.log 2 x ≤ nearest digits x := by
  have place := unit_pos digits x
  obtain ⟨less, rfl⟩ : ∃ less, digits = less + 1 :=
    ⟨digits - 1, by omega⟩
  have top : (2 : K) ^ Int.log 2 x =
      ((2 ^ less : ℕ) : ℤ) * unit (less + 1) x := by
    rw [unit]
    push_cast
    rw [← zpow_natCast, ← zpow_add₀ two_ne_zero]
    congr 1
    omega
  rw [top, nearest]
  apply mul_le_mul_of_nonneg_right _ place.le
  rw [Int.cast_le, ← toEven_intCast (K := K) ((2 ^ less : ℕ) : ℤ)]
  apply toEven_mono
  rw [le_div_iff₀ place, ← top]
  exact pow_log_le positive

omit enough in
theorem nearest_le_pow_log (x : K) :
    nearest digits x ≤ (2 : K) ^ (Int.log 2 x + 1) := by
  have place := unit_pos digits x
  have top : (2 : K) ^ (Int.log 2 x + 1) =
      ((2 ^ digits : ℕ) : ℤ) * unit digits x := by
    rw [unit]
    push_cast
    rw [← zpow_natCast, ← zpow_add₀ two_ne_zero]
    congr 1
    omega
  rw [top, nearest]
  apply mul_le_mul_of_nonneg_right _ place.le
  rw [Int.cast_le, ← toEven_intCast (K := K) ((2 ^ digits : ℕ) : ℤ)]
  apply toEven_mono
  rw [div_le_iff₀ place, ← top]
  exact (lt_pow_log_add_one x).le

theorem nearest_mono (positive : 0 < x) (ordered : x ≤ y) :
    nearest digits x ≤ nearest digits y := by
  rcases (Int.log_mono_right positive ordered (b := 2)).lt_or_eq with
    below | same
  · calc nearest digits x ≤ 2 ^ (Int.log 2 x + 1) := nearest_le_pow_log x
      _ ≤ 2 ^ Int.log 2 y := zpow_le_zpow_right₀ one_le_two below
      _ ≤ nearest digits y :=
        pow_log_le_nearest enough (positive.trans_le ordered)
  · have places : unit digits x = unit digits y := by
      rw [unit, unit, same]
    rw [nearest, nearest, places]
    apply mul_le_mul_of_nonneg_right _ (unit_pos _ _).le
    rw [Int.cast_le]
    apply toEven_mono
    exact div_le_div_of_nonneg_right ordered (unit_pos _ _).le

theorem nearest_pos (positive : 0 < x) : 0 < nearest digits x :=
  (zpow_pos two_pos _).trans_le (pow_log_le_nearest enough positive)

end Positive

end BlockTemplate.Rounding
