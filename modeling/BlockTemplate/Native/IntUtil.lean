import BlockTemplate.Wire.Overflow
import BlockTemplate.Wire.Positional

/-!
# Products of 64-bit numbers

`mul128` of `common/int-util.h` multiplies through the 32-bit halves of its
operands.  The sum of the two middle products and the sum of the low words may
wrap; each carry is found by a comparison and goes into the high word.  This is
a long multiplication in base 2 ^ 32, so the high word has two digits too and
no other sum wraps.
-/

namespace BlockTemplate.IntUtil

open Overflow

def hiDword (val : BitVec 64) : BitVec 64 :=
  val >>> 32

def loDword (val : BitVec 64) : BitVec 64 :=
  val &&& 0xFFFFFFFF

/-- `product_lo` and `product_hi`. -/
def mul128 (multiplier multiplicand : BitVec 64) : BitVec 64 × BitVec 64 :=
  let a := hiDword multiplier
  let b := loDword multiplier
  let c := hiDword multiplicand
  let d := loDword multiplicand
  let ac := a * c
  let ad := a * d
  let bc := b * c
  let bd := b * d
  let adbc := ad + bc
  let adbcCarry : BitVec 64 := if adbc < ad then 1 else 0
  let productLo := bd + adbc <<< 32
  let productLoCarry : BitVec 64 := if productLo < bd then 1 else 0
  (productLo, ac + adbc >>> 32 + adbcCarry <<< 32 + productLoCarry)

/-- `mul128` with its products, its sums and its assertion checked. -/
def mul128Checked (multiplier multiplicand : BitVec 64) :
    Option (BitVec 64 × BitVec 64) := do
  let a := hiDword multiplier
  let b := loDword multiplier
  let c := hiDword multiplicand
  let d := loDword multiplicand
  let ac ← mulExact a c
  let ad ← mulExact a d
  let bc ← mulExact b c
  let bd ← mulExact b d
  let (adbc, adbcCarry) ← addCarried ad bc
  let (productLo, productLoCarry) ← addCarried bd (adbc <<< 32)
  let productHi ← addExact ac (adbc >>> 32)
  let productHi ← addExact productHi (adbcCarry <<< 32)
  let productHi ← addExact productHi productLoCarry
  guard (ac ≤ productHi)
  return (productLo, productHi)

/-- A number is put together from its halves. -/
theorem dwords_eq (val : BitVec 64) :
    val.toNat = (hiDword val).toNat * 2 ^ 32 + (loDword val).toNat ∧
      (hiDword val).toNat < 2 ^ 32 ∧ (loDword val).toNat < 2 ^ 32 := by
  have small := val.isLt
  have high : (hiDword val).toNat = val.toNat / 2 ^ 32 := by
    rw [hiDword, BitVec.toNat_ushiftRight, Nat.shiftRight_eq_div_pow]
  have low : (loDword val).toNat = val.toNat % 2 ^ 32 := by
    rw [loDword, BitVec.toNat_and]
    exact Nat.and_two_pow_sub_one_eq_mod _ 32
  rw [high, low]
  omega

/-- A product of two halves fits 64 bits. -/
theorem mul_dwords_lt {x y : BitVec 64}
    (xSmall : x.toNat < 2 ^ 32) (ySmall : y.toNat < 2 ^ 32) :
    x.toNat * y.toNat < 2 ^ 64 := by
  have product := Nat.mul_lt_mul'' xSmall ySmall
  rwa [← Nat.pow_add] at product

private theorem toNat_mul_dwords {x y : BitVec 64}
    (xSmall : x.toNat < 2 ^ 32) (ySmall : y.toNat < 2 ^ 32) :
    (x * y).toNat = x.toNat * y.toNat :=
  BitVec.toNat_mul_of_lt (mul_dwords_lt xSmall ySmall)

private theorem toNat_carry_shift (x y : BitVec 64) :
    (carry x y <<< 32).toNat = (carry x y).toNat * 2 ^ 32 := by
  have small := carry_le_one x y
  rw [BitVec.toNat_shiftLeft, Nat.shiftLeft_eq, Nat.mod_eq_of_lt]
  omega

section

variable {a b c d : BitVec 64}

/-- The two sums with carries, in base 2 ^ 32. -/
theorem sums_eq
    (aSmall : a.toNat < 2 ^ 32) (bSmall : b.toNat < 2 ^ 32)
    (cSmall : c.toNat < 2 ^ 32) (dSmall : d.toNat < 2 ^ 32) :
    (a * d + b * c).toNat + (2 ^ 32) ^ 2 * (carry (a * d) (b * c)).toNat =
        a.toNat * d.toNat + b.toNat * c.toNat ∧
      (b * d + (a * d + b * c) <<< 32).toNat + (2 ^ 32) ^ 2 *
          (carry (b * d) ((a * d + b * c) <<< 32)).toNat =
        b.toNat * d.toNat + (a * d + b * c).toNat % 2 ^ 32 * 2 ^ 32 := by
  have middle := toNat_add_carry (a * d) (b * c)
  have low := toNat_add_carry (b * d) ((a * d + b * c) <<< 32)
  rw [toNat_mul_dwords aSmall dSmall, toNat_mul_dwords bSmall cSmall] at middle
  have shifted : ((a * d + b * c) <<< 32).toNat =
      (a * d + b * c).toNat % 2 ^ 32 * 2 ^ 32 := by
    rw [BitVec.toNat_shiftLeft, Nat.shiftLeft_eq]
    omega
  rw [toNat_mul_dwords bSmall dSmall, shifted] at low
  exact ⟨middle, low⟩

/-- The two words as numbers, and the upper one is a word. -/
theorem words_eq
    (aSmall : a.toNat < 2 ^ 32) (bSmall : b.toNat < 2 ^ 32)
    (cSmall : c.toNat < 2 ^ 32) (dSmall : d.toNat < 2 ^ 32) :
    ((a * c).toNat + ((a * d + b * c) >>> 32).toNat +
          (carry (a * d) (b * c) <<< 32).toNat +
          (carry (b * d) ((a * d + b * c) <<< 32)).toNat) * 2 ^ 64 +
        (b * d + (a * d + b * c) <<< 32).toNat =
      (a.toNat * 2 ^ 32 + b.toNat) * (c.toNat * 2 ^ 32 + d.toNat) ∧
    (a * c).toNat + ((a * d + b * c) >>> 32).toNat +
        (carry (a * d) (b * c) <<< 32).toNat +
        (carry (b * d) ((a * d + b * c) <<< 32)).toNat < 2 ^ 64 := by
  obtain ⟨middle, low⟩ := sums_eq aSmall bSmall cSmall dSmall
  rw [toNat_mul_dwords aSmall cSmall, toNat_carry_shift,
    BitVec.toNat_ushiftRight, Nat.shiftRight_eq_div_pow]
  exact ⟨Positional.long_product middle low,
    Positional.long_product_high_lt middle low aSmall bSmall cSmall dSmall⟩

end

/-- The two words are those of the product of the numbers. -/
theorem mul128_toNat (multiplier multiplicand : BitVec 64) :
    (mul128 multiplier multiplicand).2.toNat * 2 ^ 64 +
        (mul128 multiplier multiplicand).1.toNat =
      multiplier.toNat * multiplicand.toNat := by
  obtain ⟨multiplierEq, aSmall, bSmall⟩ := dwords_eq multiplier
  obtain ⟨multiplicandEq, cSmall, dSmall⟩ := dwords_eq multiplicand
  obtain ⟨product, fits⟩ := words_eq aSmall bSmall cSmall dSmall
  rw [← multiplierEq, ← multiplicandEq] at product
  rw [← product, ← (toNat_add_four fits).2.2]
  rfl

/-- The checks of `mul128` hold. -/
theorem mul128Checked_eq (multiplier multiplicand : BitVec 64) :
    mul128Checked multiplier multiplicand =
      some (mul128 multiplier multiplicand) := by
  obtain ⟨-, aSmall, bSmall⟩ := dwords_eq multiplier
  obtain ⟨-, cSmall, dSmall⟩ := dwords_eq multiplicand
  obtain ⟨-, fits⟩ := words_eq aSmall bSmall cSmall dSmall
  obtain ⟨two, three, four⟩ := toNat_add_four fits
  rw [mul128Checked]
  dsimp only
  rw [mulExact_eq (mul_dwords_lt aSmall cSmall),
    mulExact_eq (mul_dwords_lt aSmall dSmall),
    mulExact_eq (mul_dwords_lt bSmall cSmall),
    mulExact_eq (mul_dwords_lt bSmall dSmall)]
  simp only [Option.bind_eq_bind, Option.bind_some, addCarried_eq]
  rw [addExact_eq (by omega), Option.bind_some, addExact_eq (by omega),
    Option.bind_some, addExact_eq (by omega), Option.bind_some]
  rw [guard, if_pos (by rw [BitVec.le_def, four]; omega)]
  rfl

/-- The two words make up the product.  On the way to them every product is
exact, and so is every sum, but for the two whose wraps are in a carry. -/
theorem mul128_exact (multiplier multiplicand : BitVec 64) :
    mul128Checked multiplier multiplicand =
        some (mul128 multiplier multiplicand) ∧
      (mul128 multiplier multiplicand).2.toNat * 2 ^ 64 +
          (mul128 multiplier multiplicand).1.toNat =
        multiplier.toNat * multiplicand.toNat :=
  ⟨mul128Checked_eq multiplier multiplicand,
    mul128_toNat multiplier multiplicand⟩

end BlockTemplate.IntUtil
