import Mathlib.Data.Nat.Digits.Lemmas
import Mathlib.Tactic.Ring

/-!
# Positional notation

A list of digits, the highest first, consists of its leading zeros and the
digits of its number.  Writing the number in another base and keeping the
zeros can be undone, so the two lists determine each other.  At the end two
numbers of two digits are multiplied digit by digit.
-/

namespace BlockTemplate.Positional

/-- The number that digits stand for, the highest first. -/
def value (base : Nat) (digits : List Nat) : Nat :=
  Nat.ofDigits base digits.reverse

def leadingZeros (digits : List Nat) : Nat :=
  (digits.takeWhile (· == 0)).length

/-- A number behind zeros. -/
def numeral (base zeros number : Nat) : List Nat :=
  List.replicate zeros 0 ++ (Nat.digits base number).reverse

/-- The same number behind as many zeros in another base. -/
def rebase (source target : Nat) (digits : List Nat) : List Nat :=
  numeral target (leadingZeros digits) (value source digits)

theorem lt_of_mem_numeral
    {base zeros number digit : Nat} (large : 1 < base)
    (member : digit ∈ numeral base zeros number) : digit < base := by
  rcases List.mem_append.mp member with zero | proper
  · rw [List.eq_of_mem_replicate zero]
    omega
  · exact Nat.digits_lt_base large (List.mem_reverse.mp proper)

theorem value_numeral (base zeros number : Nat) :
    value base (numeral base zeros number) = number := by
  rw [value, numeral, List.reverse_append, List.reverse_reverse,
    List.reverse_replicate, Nat.ofDigits_append_replicate_zero,
    Nat.ofDigits_digits]

/-- The first digit of a number is not zero. -/
theorem takeWhile_digits (base number : Nat) :
    (Nat.digits base number).reverse.takeWhile (· == 0) = [] := by
  by_cases zero : number = 0
  · subst zero
    simp
  · have nonempty : Nat.digits base number ≠ [] :=
      Nat.digits_ne_nil_iff_ne_zero.mpr zero
    have last := Nat.getLast_digit_ne_zero base zero
    obtain ⟨lower, digits⟩ : ∃ lower, Nat.digits base number =
        lower ++ [(Nat.digits base number).getLast nonempty] :=
      ⟨_, (List.dropLast_append_getLast nonempty).symm⟩
    rw [digits, List.reverse_append, List.reverse_singleton,
      List.singleton_append, List.takeWhile_cons_of_neg]
    simpa using last

theorem leadingZeros_numeral (base zeros number : Nat) :
    leadingZeros (numeral base zeros number) = zeros := by
  have only : ∀ digit ∈ List.replicate zeros 0, (digit == 0) = true := by
    intro digit member
    rw [List.eq_of_mem_replicate member]
    rfl
  rw [leadingZeros, numeral, List.takeWhile_append_of_pos only,
    takeWhile_digits, List.append_nil, List.length_replicate]

/-- Digits are the numeral of their number behind their leading zeros. -/
theorem numeral_eq
    {base : Nat} {digits : List Nat} (large : 1 < base)
    (small : ∀ digit ∈ digits, digit < base) :
    numeral base (leadingZeros digits) (value base digits) = digits := by
  induction digits with
  | nil => simp [numeral, leadingZeros, value]
  | cons digit rest ih =>
      by_cases zero : digit = 0
      · subst zero
        have zeros : leadingZeros (0 :: rest) = leadingZeros rest + 1 := by
          simp [leadingZeros]
        have number : value base (0 :: rest) = value base rest := by
          rw [value, List.reverse_cons, value]
          exact @Nat.ofDigits_append_replicate_zero base 1 rest.reverse
        rw [zeros, number, numeral, List.replicate_succ, List.cons_append]
        exact congrArg (0 :: ·)
          (ih fun other member => small other (List.mem_cons_of_mem 0 member))
      · have zeros : leadingZeros (digit :: rest) = 0 := by
          simp [leadingZeros, zero]
        have proper : Nat.digits base (value base (digit :: rest)) =
            (digit :: rest).reverse := by
          apply Nat.digits_ofDigits base large
          · exact fun other member => small other (List.mem_reverse.mp member)
          · intro nonempty
            simpa using zero
        rw [zeros, numeral, proper, List.reverse_reverse, List.replicate_zero,
          List.nil_append]

theorem rebase_rebase
    {source target : Nat} {digits : List Nat} (large : 1 < source)
    (small : ∀ digit ∈ digits, digit < source) :
    rebase target source (rebase source target digits) = digits := by
  rw [rebase, rebase, leadingZeros_numeral, value_numeral,
    numeral_eq large small]

section

variable {base a b c d middle carry low lowCarry : Nat}

/-- The middle products are added to a number and a carry, and so are the
lowest product and the lower digit of the middle number.  What is left makes
up the upper half of the product. -/
theorem long_product
    (middleSum : middle + base ^ 2 * carry = a * d + b * c)
    (lowSum : low + base ^ 2 * lowCarry = b * d + middle % base * base) :
    (a * c + middle / base + carry * base + lowCarry) * base ^ 2 + low =
      (a * base + b) * (c * base + d) := by
  have digits := Nat.div_add_mod middle base
  calc (a * c + middle / base + carry * base + lowCarry) * base ^ 2 + low
      = a * c * base ^ 2 + (middle / base + carry * base) * base ^ 2 +
          (low + base ^ 2 * lowCarry) := by ring
    _ = a * c * base ^ 2 + (base * (middle / base) + middle % base +
          base ^ 2 * carry) * base + b * d := by rw [lowSum]; ring
    _ = a * c * base ^ 2 + (a * d + b * c) * base + b * d := by
        rw [digits, middleSum]
    _ = (a * base + b) * (c * base + d) := by ring

/-- The upper half has two digits. -/
theorem long_product_high_lt
    (middleSum : middle + base ^ 2 * carry = a * d + b * c)
    (lowSum : low + base ^ 2 * lowCarry = b * d + middle % base * base)
    (aSmall : a < base) (bSmall : b < base)
    (cSmall : c < base) (dSmall : d < base) :
    a * c + middle / base + carry * base + lowCarry < base ^ 2 := by
  have twoDigits {high low : Nat} (highSmall : high < base)
      (lowSmall : low < base) : high * base + low < base ^ 2 := by
    calc high * base + low < (high + 1) * base := by
          rw [Nat.add_mul, Nat.one_mul]
          omega
      _ ≤ base * base := Nat.mul_le_mul_right base highSmall
      _ = base ^ 2 := (Nat.pow_two base).symm
  have product := Nat.mul_lt_mul'' (twoDigits aSmall bSmall)
    (twoDigits cSmall dSmall)
  rw [← long_product middleSum lowSum] at product
  exact Nat.lt_of_mul_lt_mul_right (Nat.lt_of_le_of_lt (Nat.le_add_right _ low)
    product)

end

end BlockTemplate.Positional
