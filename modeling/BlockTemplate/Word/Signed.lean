import Mathlib.Algebra.Order.Ring.Int
import Mathlib.Algebra.Order.Ring.Abs
import Mathlib.Tactic.Ring
import Mathlib.Tactic.Linarith

/-!
# Signed integers of a machine

A signed integer has a width, and a result that does not fit has no meaning.
An operation that has to stay inside has no result where it does not.  The
rules below say what a bound on the operands is worth.
-/

namespace BlockTemplate.Signed

/-- The value, where a signed integer of this width holds it. -/
def fit (bits : Nat) (value : Int) : Option Int :=
  if -2 ^ (bits - 1) ≤ value ∧ value < 2 ^ (bits - 1) then some value else none

def int32 (value : Int) : Option Int :=
  fit 32 value

def int64 (value : Int) : Option Int :=
  fit 64 value

/-- A value and its bound on both sides. -/
def Within (bound : Nat) (value : Int) : Prop :=
  -(bound : Int) ≤ value ∧ value ≤ bound

instance (bound : Nat) (value : Int) : Decidable (Within bound value) :=
  inferInstanceAs (Decidable (_ ∧ _))

theorem int32_eq {value : Int}
    (inside : -2 ^ 31 ≤ value ∧ value < 2 ^ 31) : int32 value = some value :=
  if_pos inside

theorem int64_eq {value : Int}
    (inside : -2 ^ 63 ≤ value ∧ value < 2 ^ 63) : int64 value = some value :=
  if_pos inside

namespace Within

variable {first second : Nat} {x y : Int}

theorem mono (inside : Within first x) (le : first ≤ second) :
    Within second x := by
  have bound : (first : Int) ≤ second := by exact_mod_cast le
  exact ⟨by linarith [inside.1], by linarith [inside.2]⟩

theorem add (left : Within first x) (right : Within second y) :
    Within (first + second) (x + y) := by
  constructor
  · push_cast
    linarith [left.1, right.1]
  · push_cast
    linarith [left.2, right.2]

theorem neg (inside : Within first x) : Within first (-x) :=
  ⟨by linarith [inside.2], by linarith [inside.1]⟩

theorem sub (left : Within first x) (right : Within second y) :
    Within (first + second) (x - y) := by
  rw [sub_eq_add_neg]
  exact left.add right.neg

theorem mul (left : Within first x) (right : Within second y) :
    Within (first * second) (x * y) := by
  have product : |x * y| ≤ ((first * second : Nat) : Int) := by
    rw [abs_mul]
    push_cast
    exact mul_le_mul (abs_le.mpr left) (abs_le.mpr right) (abs_nonneg y)
      (Int.natCast_nonneg first)
  exact abs_le.mp product

theorem scaled (factor : Nat) (inside : Within first x) :
    Within (factor * first) (factor * x) := by
  have self : Within factor (factor : Int) := by
    exact ⟨by omega, le_refl _⟩
  exact self.mul inside

theorem int32 (inside : Within first x) (small : first < 2 ^ 31) :
    Signed.int32 x = some x := by
  obtain ⟨low, high⟩ := inside
  exact int32_eq ⟨by omega, by omega⟩

theorem int64 (inside : Within first x) (small : first < 2 ^ 63) :
    Signed.int64 x = some x := by
  obtain ⟨low, high⟩ := inside
  exact int64_eq ⟨by omega, by omega⟩

end Within

/-- The action has a result, and the result is as wanted. -/
def Returns {Val : Type} (action : Option Val) (wanted : Val → Prop) : Prop :=
  ∃ result, action = some result ∧ wanted result

namespace Returns

variable {Val Next : Type} {action : Option Val} {wanted : Val → Prop}

theorem pure {value : Val} (holds : wanted value) :
    Returns (some value) wanted :=
  ⟨value, rfl, holds⟩

theorem bind {next : Val → Option Next} {goal : Next → Prop}
    (first : Returns action wanted)
    (second : ∀ value, wanted value → Returns (next value) goal) :
    Returns (action >>= next) goal := by
  obtain ⟨value, rfl, holds⟩ := first
  exact second value holds

theorem mono {weaker : Val → Prop} (returns : Returns action wanted)
    (implies : ∀ value, wanted value → weaker value) :
    Returns action weaker := by
  obtain ⟨value, same, holds⟩ := returns
  exact ⟨value, same, implies value holds⟩

/-- Every entry of a vector is computed. -/
theorem ofFnM {size : Nat} {act : Fin size → Option Val}
    {goal : Fin size → Val → Prop} (each : ∀ i, Returns (act i) (goal i)) :
    Returns (Vector.ofFnM act) fun results => ∀ i, goal i (results.get i) := by
  choose results same holds using each
  refine ⟨Vector.ofFn results, ?_, fun i => ?_⟩
  · rw [funext same]
    exact Vector.ofFnM_pure_comp
  · have entry : (Vector.ofFn results).get i = results i :=
      Vector.getElem_ofFn i.isLt
    rw [entry]
    exact holds i

end Returns

/-- Entries that fit are stored as they are. -/
theorem int32s_returns {size : Nat} {bounds : Vector Nat size}
    {entries : Fin size → Int}
    (inside : ∀ i, Within (bounds.get i) (entries i))
    (small : ∀ i, bounds.get i < 2 ^ 31) :
    Returns (Vector.ofFnM fun i => int32 (entries i)) fun stored =>
      stored = Vector.ofFn entries := by
  have each : (fun i => int32 (entries i)) = fun i => some (entries i) :=
    funext fun i => (inside i).int32 (small i)
  exact ⟨_, (congrArg Vector.ofFnM each).trans Vector.ofFnM_pure_comp, rfl⟩

/-- Products added up from left to right in 64 bits. -/
def addProducts (sum : Int) : List (Int × Int) → Option Int
  | [] => some sum
  | (left, right) :: rest => do
    let product ← int64 (left * right)
    let sum ← int64 (sum + product)
    addProducts sum rest

/-- The exact sum. -/
def sumOfProducts (factors : List (Int × Int)) : Int :=
  (factors.map fun pair => pair.1 * pair.2).sum

/-- With bounded factors no sum on the way leaves its range. -/
theorem addProducts_eq {left right start : Nat} {sum : Int}
    {factors : List (Int × Int)} (started : Within start sum)
    (bounded : ∀ pair ∈ factors, Within left pair.1 ∧ Within right pair.2)
    (fits : start + factors.length * (left * right) < 2 ^ 63) :
    addProducts sum factors = some (sum + sumOfProducts factors) ∧
      Within (start + factors.length * (left * right))
        (sum + sumOfProducts factors) := by
  induction factors generalizing start sum with
  | nil => simpa [addProducts, sumOfProducts] using started
  | cons pair rest ih =>
      obtain ⟨⟨leftBound, rightBound⟩, others⟩ :=
        List.forall_mem_cons.mp bounded
      have product := leftBound.mul rightBound
      have next := started.add product
      have split : start + (pair :: rest).length * (left * right) =
          start + left * right + rest.length * (left * right) := by
        rw [List.length_cons]
        ring
      rw [split] at fits ⊢
      obtain ⟨added, inside⟩ := ih next others fits
      have whole : sum + sumOfProducts (pair :: rest) =
          sum + pair.1 * pair.2 + sumOfProducts rest := by
        simp only [sumOfProducts, List.map_cons, List.sum_cons]
        ring
      rw [whole]
      refine ⟨?_, inside⟩
      rw [addProducts, product.int64 (by omega), Option.bind_eq_bind,
        Option.bind_some, next.int64 (by omega)]
      exact added

theorem addProducts_returns {left right : Nat} {factors : List (Int × Int)}
    (bounded : ∀ pair ∈ factors, Within left pair.1 ∧ Within right pair.2)
    (fits : factors.length * (left * right) < 2 ^ 63) :
    Returns (addProducts 0 factors) fun sum => sum = sumOfProducts factors ∧
      Within (factors.length * (left * right)) sum := by
  have started : Within 0 0 := ⟨le_refl _, le_refl _⟩
  have sum := addProducts_eq started bounded (by simpa using fits)
  simp only [zero_add] at sum
  exact ⟨_, sum.1, rfl, sum.2⟩

/-- The carry out of a limb, rounded to the nearest, and what it leaves. -/
def carryOut (bits : Nat) (limb : Int) : Option (Int × Int) := do
  let rounded ← int64 (limb + 2 ^ (bits - 1))
  let carry := rounded >>> bits
  let moved ← int64 (carry * 2 ^ bits)
  let rest ← int64 (limb - moved)
  pure (carry, rest)

/-- The nearest multiple of a limb's range. -/
theorem within_rounded {bound half : Nat} {limb : Int}
    (inside : Within bound limb) (positive : 0 < half) :
    Within half (limb - (limb + half) / (2 * half) * (2 * half)) ∧
      Within ((bound + half) / (2 * half)) ((limb + half) / (2 * half)) := by
  obtain ⟨low, high⟩ := inside
  have range : (0 : Int) < 2 * half := by omega
  have split := Int.mul_ediv_add_emod (limb + half) (2 * half)
  have small := Int.emod_lt_of_pos (limb + half) range
  have nonneg := Int.emod_nonneg (limb + half) range.ne'
  have most := Nat.lt_mul_div_succ (bound + half) (by omega : 0 < 2 * half)
  have mostInt : (bound : Int) + half <
      2 * half * (((bound + half) / (2 * half) : Nat) + 1) := by
    exact_mod_cast most
  rw [mul_comm] at split
  refine ⟨⟨by linarith, by linarith⟩, ?_, ?_⟩
  · by_contra beyond
    have far : (2 * half : Int) * ((limb + half) / (2 * half) + 1) ≤
        2 * half * -((bound + half) / (2 * half) : Nat) :=
      mul_le_mul_of_nonneg_left (by omega) range.le
    linarith
  · have quotient : (limb + half : Int) / (2 * half) ≤
        ((bound + half : Nat) : Int) / ((2 * half : Nat) : Int) := by
      push_cast
      exact Int.ediv_le_ediv range (by linarith)
    exact quotient.trans_eq (Int.natCast_ediv _ _).symm

/-- A rounded carry leaves at most half of the limb's range. -/
theorem carryOut_eq {bits bound : Nat} {limb : Int} (inside : Within bound limb)
    (wide : 0 < bits) (fits : bound + 2 * 2 ^ bits < 2 ^ 63) :
    ∃ carry rest, carryOut bits limb = some (carry, rest) ∧
      limb = rest + carry * 2 ^ bits ∧ Within (2 ^ (bits - 1)) rest ∧
      Within ((bound + 2 ^ (bits - 1)) / 2 ^ bits) carry := by
  have double : 2 ^ bits = 2 * 2 ^ (bits - 1) := by
    rw [← pow_succ', Nat.sub_add_cancel wide]
  have positive : 0 < 2 ^ (bits - 1) := Nat.two_pow_pos _
  have range : (2 : Int) ^ bits = 2 * ((2 ^ (bits - 1) : Nat) : Int) := by
    exact_mod_cast double
  have halfCast : (2 : Int) ^ (bits - 1) = ((2 ^ (bits - 1) : Nat) : Int) := by
    norm_cast
  have near := within_rounded inside positive
  rw [← range, ← halfCast] at near
  obtain ⟨rest, carry⟩ := near
  have shifted (value : Int) : value >>> bits = value / 2 ^ bits := by
    rw [Int.shiftRight_eq_div_pow]
    norm_cast
  have half : Within (2 ^ (bits - 1)) ((2 : Int) ^ (bits - 1)) := by
    rw [halfCast]
    exact ⟨by omega, le_refl _⟩
  have moved : Within (bound + 2 ^ (bits - 1))
      ((limb + 2 ^ (bits - 1)) / 2 ^ bits * 2 ^ bits) := by
    have difference := inside.sub rest
    rwa [sub_sub_cancel] at difference
  rw [double] at fits
  refine ⟨_, _, ?_, by ring, rest, double ▸ carry⟩
  simp only [carryOut, Option.bind_eq_bind, Option.pure_def, shifted]
  rw [(inside.add half).int64 (by omega), Option.bind_some,
    moved.int64 (by omega), Option.bind_some, rest.int64 (by omega),
    Option.bind_some]

end BlockTemplate.Signed
