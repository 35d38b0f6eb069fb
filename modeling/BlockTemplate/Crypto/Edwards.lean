import BlockTemplate.Wire.Bytes
import Mathlib.FieldTheory.Finite.Basic
import Mathlib.NumberTheory.LucasPrimality
import Mathlib.Tactic.LinearCombination
import Mathlib.Tactic.NormNum.Prime
import Mathlib.Tactic.ReduceModChar

/-!
# The curve of the keys

A public key is a point of a twisted Edwards curve over the integers modulo
2 ^ 255 - 19: its second coordinate and the parity of the first one.  On the
curve the parity tells the two points with one second coordinate apart.
-/

namespace BlockTemplate

/-- Lucas's test, with the prime factors of `p - 1` listed. -/
theorem prime_of_generator {p : Nat} (a : ZMod p) {factors : List Nat}
    (primes : ∀ q ∈ factors, q.Prime) (product : factors.prod = p - 1)
    (one : a ^ (p - 1) = 1) (others : ∀ q ∈ factors, a ^ ((p - 1) / q) ≠ 1) :
    p.Prime := by
  apply lucas_primality p a one
  intro q prime divides
  rw [← product] at divides
  obtain ⟨factor, member, divides⟩ :=
    (Prime.dvd_prod_iff prime.prime).mp divides
  have same :=
    (Nat.prime_dvd_prime_iff_eq prime (primes factor member)).mp divides
  exact same ▸ others factor member

section SquareRoot

variable {F : Type} [Field F] [Fintype F] {k : Nat}

/-- In a field of 8 * k + 5 elements a quotient that has a square root has
this one, up to a square root of -1. -/
theorem square_root_candidate (card : Fintype.card F = 8 * k + 5) {u v r : F}
    (root : v * r ^ 2 = u) :
    v * (u * v ^ 3 * (u * v ^ 7) ^ k) ^ 2 = u ∨
      v * (u * v ^ 3 * (u * v ^ 7) ^ k) ^ 2 = -u := by
  have power : v * (u * v ^ 3 * (u * v ^ 7) ^ k) ^ 2 =
      u * (u * v ^ 7) ^ (2 * k + 1) := by
    rw [mul_pow, ← pow_mul, Nat.mul_comm k 2, pow_succ]
    ring
  rw [power]
  by_cases zero : r * v ^ 4 = 0
  · have vanishes : u = 0 := by
      rcases mul_eq_zero.mp zero with rfl | other
      · rw [← root]
        ring
      · rw [← root, (pow_eq_zero_iff (by decide)).mp other, zero_mul]
    left
    rw [vanishes, zero_mul]
  · have order : (r * v ^ 4) ^ (8 * k + 4) = 1 := by
      have units := FiniteField.pow_card_sub_one_eq_one _ zero
      rwa [card, Nat.add_sub_assoc (by decide)] at units
    have square : ((u * v ^ 7) ^ (2 * k + 1)) ^ 2 = 1 := by
      rw [← order, ← root]
      ring
    rcases sq_eq_sq_iff_eq_or_eq_neg.mp (square.trans (one_pow 2).symm)
      with one | minus
    · left
      rw [one, mul_one]
    · right
      rw [minus, mul_neg_one]

end SquareRoot

namespace Edwards

def prime : Nat := 2 ^ 255 - 19

private theorem prime_27 :
    Nat.Prime 2773320623 := by
  apply @prime_of_generator _ 5
    [2, 2437, 569003]
  · norm_num
  · norm_num
  · reduce_mod_char
  · simp only [List.forall_mem_cons]
    norm_num
    reduce_mod_char
    decide

private theorem prime_72 :
    Nat.Prime 72106336199 := by
  apply @prime_of_generator _ 7
    [2, 13, 2773320623]
  · simp only [List.forall_mem_cons, prime_27]
    norm_num
  · norm_num
  · reduce_mod_char
  · simp only [List.forall_mem_cons]
    norm_num
    reduce_mod_char
    decide

private theorem prime_19 :
    Nat.Prime 1919519569386763 := by
  apply @prime_of_generator _ 2
    [2, 3, 7, 19, 47, 47, 127, 8574133]
  · norm_num
  · norm_num
  · reduce_mod_char
  · simp only [List.forall_mem_cons]
    norm_num
    reduce_mod_char
    decide

private theorem prime_31 :
    Nat.Prime 31757755568855353 := by
  apply @prime_of_generator _ 10
    [2, 2, 2, 3, 31, 107, 223, 4153, 430751]
  · norm_num
  · norm_num
  · reduce_mod_char
  · simp only [List.forall_mem_cons]
    norm_num
    reduce_mod_char
    decide

private theorem prime_75 :
    Nat.Prime 75445702479781427272750846543864801 := by
  apply @prime_of_generator _ 7
    [2, 2, 2, 2, 2, 3, 3, 5, 5, 75707, 72106336199, 1919519569386763]
  · simp only [List.forall_mem_cons, prime_72, prime_19]
    norm_num
  · norm_num
  · reduce_mod_char
  · simp only [List.forall_mem_cons]
    norm_num
    reduce_mod_char
    decide

private theorem prime_74 :
    Nat.Prime 74058212732561358302231226437062788676166966415465897661863160754340907 := by
  apply @prime_of_generator _ 2
    [2, 3, 353, 57467, 132049, 1923133, 31757755568855353,
      75445702479781427272750846543864801]
  · simp only [List.forall_mem_cons, prime_31, prime_75]
    norm_num
  · norm_num
  · reduce_mod_char
  · simp only [List.forall_mem_cons]
    norm_num
    reduce_mod_char
    decide

private theorem prime_57 :
    Nat.Prime
      57896044618658097711785492504343953926634992332820282019728792003956564819949 := by
  apply @prime_of_generator _ 2 [2, 2, 3, 65147,
    74058212732561358302231226437062788676166966415465897661863160754340907]
  · simp only [List.forall_mem_cons, prime_74]
    norm_num
  · norm_num
  · reduce_mod_char
  · simp only [List.forall_mem_cons]
    norm_num
    reduce_mod_char
    decide

private theorem prime_prime : prime.Prime := by
  have number : prime =
      57896044618658097711785492504343953926634992332820282019728792003956564819949 := by
    norm_num [prime]
  rw [number]
  exact prime_57

instance : Fact prime.Prime := ⟨prime_prime⟩

abbrev Field := ZMod prime

theorem two_pow_255 : (2 : Field) ^ 255 = 19 := by
  have whole : prime + 19 = 2 ^ 255 := by norm_num [prime]
  have cast : ((prime + 19 : Nat) : Field) = 19 := by
    rw [Nat.cast_add, ZMod.natCast_self, zero_add, Nat.cast_ofNat]
  rw [whole] at cast
  exact_mod_cast cast

/-- The constant of the curve. -/
def d : Field := -121665 / 121666

def OnCurve (x y : Field) : Prop :=
  -x ^ 2 + y ^ 2 = 1 + d * x ^ 2 * y ^ 2

/-- A point as a key: its second coordinate, and above it the parity of the
first one. -/
def encodePoint (x y : Field) : Bytes :=
  leBytes 32 (y.val + 2 ^ 255 * (x.val % 2))

theorem square_on_curve {x y : Field} :
    OnCurve x y ↔ (d * y ^ 2 + 1) * x ^ 2 = y ^ 2 - 1 := by
  rw [OnCurve]
  constructor
  · intro on
    linear_combination -on
  · intro square
    linear_combination -square

theorem divisor_ne_zero : (121666 : Field) ≠ 0 := by
  intro zero
  have value : ((121666 : Nat) : Field).val = 0 := by
    rw [Nat.cast_ofNat, zero, ZMod.val_zero]
  rw [ZMod.val_natCast_of_lt (by norm_num [prime])] at value
  exact absurd value (by decide)

private theorem d_add_one_ne_zero : d + 1 ≠ 0 := by
  have divisor := divisor_ne_zero
  have sum : d + 1 = 1 / 121666 := by
    rw [d]
    field_simp
    ring
  rw [sum]
  exact one_div_ne_zero divisor

theorem denominator_ne_zero {x y : Field} (on : OnCurve x y) :
    d * y ^ 2 + 1 ≠ 0 := by
  intro zero
  have square := square_on_curve.mp on
  rw [zero, zero_mul] at square
  apply d_add_one_ne_zero
  linear_combination zero + d * square

/-- Of a non-zero element and its opposite exactly one is even. -/
theorem parity_neg {x : Field} (nonzero : x ≠ 0) :
    (-x).val % 2 ≠ x.val % 2 := by
  have : NeZero x := ⟨nonzero⟩
  have bounded := ZMod.val_lt x
  have odd : prime % 2 = 1 := by norm_num [prime]
  rw [ZMod.val_neg_of_ne_zero]
  omega

/-- A key belongs to one point at most. -/
theorem encodePoint_inj {x y x' y' : Field}
    (on : OnCurve x y) (on' : OnCurve x' y')
    (same : encodePoint x y = encodePoint x' y') : x = x' ∧ y = y' := by
  have small := ZMod.val_lt y
  have small' := ZMod.val_lt y'
  have value := congrArg leValue same
  simp only [encodePoint, leValue_leBytes] at value
  have bound : prime < 2 ^ 255 := by norm_num [prime]
  obtain ⟨second, parity⟩ :
      y.val = y'.val ∧ x.val % 2 = x'.val % 2 := by omega
  have sameY : y = y' := ZMod.val_injective prime second
  subst sameY
  refine ⟨?_, rfl⟩
  have squares : x ^ 2 = x' ^ 2 := by
    apply mul_left_cancel₀ (denominator_ne_zero on)
    rw [square_on_curve.mp on, square_on_curve.mp on']
  rcases sq_eq_sq_iff_eq_or_eq_neg.mp squares with equal | opposite
  · exact equal
  · by_cases zero : x' = 0
    · rw [opposite, zero, neg_zero]
    · rw [opposite] at parity
      exact (parity_neg zero parity).elim

end Edwards

end BlockTemplate
