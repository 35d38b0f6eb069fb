import Mathlib.Data.BitVec

/-!
# Sums and products of words

A word is too small for some sums and products.  Here an operation that has to
be exact has no result where it overflows, and a sum that may wrap comes with
the carry that a comparison finds.
-/

namespace BlockTemplate.Overflow

variable {w : Nat}

section

variable (x y : BitVec w)

/-- Whether a sum wrapped, from a comparison with its first term. -/
def carry : BitVec w :=
  if x + y < x then 1 else 0

/-- A sum with its carry, if the two make up the exact sum. -/
def addCarried : Option (BitVec w × BitVec w) :=
  if (x + y).toNat + 2 ^ w * (carry x y).toNat = x.toNat + y.toNat then
    some (x + y, carry x y)
  else none

def addExact : Option (BitVec w) :=
  if x.uaddOverflow y then none else some (x + y)

def mulExact : Option (BitVec w) :=
  if x.umulOverflow y then none else some (x * y)

end

variable {x y : BitVec w}

/-- A wrapped sum is smaller than its first term exactly when it wrapped. -/
theorem toNat_add_carry (x y : BitVec w) :
    (x + y).toNat + 2 ^ w * (carry x y).toNat = x.toNat + y.toNat := by
  have xSmall := x.isLt
  have ySmall := y.isLt
  have sum := BitVec.toNat_add x y
  by_cases exact : x.toNat + y.toNat < 2 ^ w
  · rw [Nat.mod_eq_of_lt exact] at sum
    rw [carry, if_neg (by rw [BitVec.lt_def]; omega), sum]
    simp
  · have wrapped : (x.toNat + y.toNat) % 2 ^ w =
        x.toNat + y.toNat - 2 ^ w := by
      rw [Nat.mod_eq_sub_mod (Nat.le_of_not_lt exact), Nat.mod_eq_of_lt]
      omega
    rw [wrapped] at sum
    have one : (1 : BitVec w).toNat = 1 :=
      (BitVec.toNat_ofNat 1 w).trans (Nat.mod_eq_of_lt (by omega))
    rw [carry, if_pos (by rw [BitVec.lt_def]; omega), one]
    omega

theorem carry_le_one (x y : BitVec w) : (carry x y).toNat ≤ 1 := by
  rw [carry]
  split
  · exact (BitVec.toNat_ofNat 1 w).trans_le (Nat.mod_le 1 (2 ^ w))
  · simp

/-- Where the whole of four terms fits, no sum on the way to it wraps. -/
theorem toNat_add_four {x y z last : BitVec w}
    (fits : x.toNat + y.toNat + z.toNat + last.toNat < 2 ^ w) :
    (x + y).toNat = x.toNat + y.toNat ∧
      (x + y + z).toNat = x.toNat + y.toNat + z.toNat ∧
      (x + y + z + last).toNat =
        x.toNat + y.toNat + z.toNat + last.toNat := by
  have two : (x + y).toNat = x.toNat + y.toNat :=
    BitVec.toNat_add_of_lt (by omega)
  have three : (x + y + z).toNat = x.toNat + y.toNat + z.toNat := by
    rw [BitVec.toNat_add_of_lt (by omega), two]
  refine ⟨two, three, ?_⟩
  rw [BitVec.toNat_add_of_lt (by omega), three]

theorem addCarried_eq (x y : BitVec w) :
    addCarried x y = some (x + y, carry x y) :=
  if_pos (toNat_add_carry x y)

theorem addExact_eq (fits : x.toNat + y.toNat < 2 ^ w) :
    addExact x y = some (x + y) := by
  rw [addExact, if_neg]
  simpa [BitVec.uaddOverflow] using fits

theorem mulExact_eq (fits : x.toNat * y.toNat < 2 ^ w) :
    mulExact x y = some (x * y) := by
  rw [mulExact, if_neg]
  simpa [BitVec.umulOverflow] using fits

end BlockTemplate.Overflow
