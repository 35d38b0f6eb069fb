import BlockTemplate.Word.Lanes
import BlockTemplate.Word.Signed
import Mathlib.Algebra.BigOperators.Fin
import Mathlib.Algebra.BigOperators.Ring.Finset

/-!
# Numbers in limbs with carries

A number is kept in signed limbs of given widths, which need not be reduced: a
carry moves what a limb has too much to the next one.  What leaves the last
limb comes back into the first one, some times over, so a carry keeps the value
up to multiples of a modulus.  Bounds on the limbs can be computed in the same
steps as the carries, and where that succeeds no operation overflows.
-/

namespace BlockTemplate

/-- The widths of the limbs, low ones first, and how many times the carry out
of the last limb counts in the first one. -/
structure Radix (n : Nat) where
  width : Fin (n + 1) → Nat
  wide : ∀ i, 0 < width i
  wrap : Nat

namespace Radix

open Signed

/-- One limb replaced. -/
def put {Limb : Type} {size : Nat} (limbs : Vector Limb size) (i : Fin size)
    (limb : Limb) : Vector Limb size :=
  limbs.set i.val limb i.isLt

theorem get_put {Limb : Type} {size : Nat} (limbs : Vector Limb size)
    (i j : Fin size) (limb : Limb) :
    (put limbs i limb).get j = if i = j then limb else limbs.get j :=
  Lanes.get_set limbs i j limb

variable {n : Nat} (radix : Radix n)

/-- The exponent that a limb stands at. -/
def position (i : Fin (n + 1)) : Nat :=
  ∑ j with j < i, radix.width j

def modulus : Int :=
  2 ^ (∑ j, radix.width j) - radix.wrap

def value (limbs : Vector Int (n + 1)) : Int :=
  ∑ i, limbs.get i * 2 ^ radix.position i

/-- How many times the carry out of a limb counts in the next one. -/
def times (i : Fin (n + 1)) : Nat :=
  if i = Fin.last n then radix.wrap else 1

/-- The carry out of limb `i` goes to the next limb. -/
def carryStep (limbs : Vector Int (n + 1)) (i : Fin (n + 1)) :
    Option (Vector Int (n + 1)) := do
  let (carry, rest) ← carryOut (radix.width i) (limbs.get i)
  let added ← int64 (carry * radix.times i)
  let next ← int64 (limbs.get (i + 1) + added)
  pure (put (put limbs (i + 1) next) i rest)

/-- Bounds on the limbs before and after a carry, if they keep every operation
of it inside its range. -/
def carryBounds (bounds : Vector Nat (n + 1)) (i : Fin (n + 1)) :
    Option (Vector Nat (n + 1)) :=
  let bound := bounds.get i
  let carry := (bound + 2 ^ (radix.width i - 1)) / 2 ^ radix.width i
  let next := bounds.get (i + 1) + carry * radix.times i
  if bound + 2 * 2 ^ radix.width i < 2 ^ 63 ∧ next < 2 ^ 63 then
    some (put (put bounds (i + 1) next) i (2 ^ (radix.width i - 1)))
  else none

theorem position_zero : radix.position 0 = 0 := by
  simp [position]

theorem position_succ {i : Fin (n + 1)} (inner : i ≠ Fin.last n) :
    radix.position (i + 1) = radix.position i + radix.width i := by
  have next : (i + 1).val = i.val + 1 :=
    Fin.val_add_one_of_lt (Fin.lt_last_iff_ne_last.mpr inner)
  have split : (Finset.univ.filter fun j => j < i + 1) =
      insert i (Finset.univ.filter fun j => j < i) := by
    ext j
    simp only [Finset.mem_filter, Finset.mem_univ, true_and,
      Finset.mem_insert, Fin.lt_def, Fin.ext_iff, next]
    omega
  rw [position, split, Finset.sum_insert (by simp), position, Nat.add_comm]

theorem sum_width :
    ∑ j, radix.width j =
      radix.position (Fin.last n) + radix.width (Fin.last n) := by
  have split : (Finset.univ : Finset (Fin (n + 1))) =
      insert (Fin.last n) (Finset.univ.filter fun j => j < Fin.last n) := by
    ext j
    simp only [Finset.mem_filter, Finset.mem_univ, true_and,
      Finset.mem_insert, true_iff]
    exact (Fin.le_last j).eq_or_lt
  rw [split, Finset.sum_insert (by simp), position, Nat.add_comm]

/-- One limb changes the value by its own change, at its position. -/
theorem value_put (limbs : Vector Int (n + 1)) (i : Fin (n + 1)) (limb : Int) :
    radix.value (put limbs i limb) =
      radix.value limbs + (limb - limbs.get i) * 2 ^ radix.position i := by
  have rest : ∑ j ∈ Finset.univ.erase i,
      (put limbs i limb).get j * 2 ^ radix.position j =
        ∑ j ∈ Finset.univ.erase i, limbs.get j * 2 ^ radix.position j := by
    apply Finset.sum_congr rfl
    intro j member
    rw [get_put, if_neg (Finset.ne_of_mem_erase member).symm]
  rw [value, value, ← Finset.add_sum_erase _ _ (Finset.mem_univ i), rest,
    ← Finset.add_sum_erase _ _ (Finset.mem_univ i), get_put, if_pos rfl]
  ring

/-- A carry keeps the value up to multiples of the modulus. -/
theorem value_carry (several : 0 < n) (limbs : Vector Int (n + 1))
    (i : Fin (n + 1)) {carry rest : Int}
    (split : limbs.get i = rest + carry * 2 ^ radix.width i) :
    radix.value (put (put limbs (i + 1)
        (limbs.get (i + 1) + carry * radix.times i)) i rest) =
      radix.value limbs -
        (if i = Fin.last n then carry else 0) * radix.modulus := by
  have other : i + 1 ≠ i := by
    intro same
    by_cases last : i = Fin.last n
    · subst last
      rw [Fin.last_add_one, Fin.ext_iff] at same
      exact several.ne same
    · have next : (i + 1).val = i.val + 1 :=
        Fin.val_add_one_of_lt (Fin.lt_last_iff_ne_last.mpr last)
      omega
  rw [value_put, value_put, get_put, if_neg other, split]
  by_cases last : i = Fin.last n
  · subst last
    simp only [times, if_true, modulus, sum_width, Fin.last_add_one,
      position_zero, pow_add]
    ring
  · simp only [times, if_neg last, position_succ radix last, pow_add]
    push_cast
    ring

theorem get_ofFn {Limb : Type} {size : Nat} (limbs : Fin size → Limb)
    (i : Fin size) : (Vector.ofFn limbs).get i = limbs i :=
  Vector.getElem_ofFn i.isLt

theorem ofFn_get {Limb : Type} {size : Nat} (limbs : Vector Limb size) :
    Vector.ofFn limbs.get = limbs := by
  apply Vector.ext
  intro i inside
  exact get_ofFn limbs.get ⟨i, inside⟩

section Linear

variable (first second : Vector Int (n + 1))

theorem value_add :
    radix.value (Vector.ofFn fun i => first.get i + second.get i) =
      radix.value first + radix.value second := by
  simp only [value, get_ofFn, add_mul, Finset.sum_add_distrib]

theorem value_sub :
    radix.value (Vector.ofFn fun i => first.get i - second.get i) =
      radix.value first - radix.value second := by
  simp only [value, get_ofFn, sub_mul, Finset.sum_sub_distrib]

theorem value_neg :
    radix.value (Vector.ofFn fun i => -first.get i) = -radix.value first := by
  simp only [value, get_ofFn, neg_mul, Finset.sum_neg_distrib]

end Linear

section Run

variable {bounds after : Vector Nat (n + 1)} {limbs : Vector Int (n + 1)}

/-- Every limb is inside its bound. -/
def Bounded {size : Nat} (bounds : Vector Nat size)
    (limbs : Vector Int size) : Prop :=
  ∀ i, Within (bounds.get i) (limbs.get i)

instance {size : Nat} (bounds : Vector Nat size) (limbs : Vector Int size) :
    Decidable (Bounded bounds limbs) :=
  inferInstanceAs (Decidable (∀ i, Within (bounds.get i) (limbs.get i)))

theorem Bounded.mono {size : Nat} {small large : Vector Nat size}
    {limbs : Vector Int size} (inside : Bounded small limbs)
    (le : ∀ i, small.get i ≤ large.get i) : Bounded large limbs :=
  fun i => (inside i).mono (le i)

/-- A carry inside its bounds does not overflow. -/
theorem carryStep_returns (several : 0 < n) {i : Fin (n + 1)}
    (inside : Bounded bounds limbs)
    (safe : radix.carryBounds bounds i = some after) :
    Returns (radix.carryStep limbs i) fun carried =>
      Bounded after carried ∧
        ∃ turns, radix.value carried =
          radix.value limbs - turns * radix.modulus := by
  obtain ⟨⟨fits, nextFits⟩, after⟩ := Option.ite_none_right_eq_some.mp safe
  cases after
  obtain ⟨carry, rest, out, split, restBound, carryBound⟩ :=
    carryOut_eq (inside i) (radix.wide i) fits
  have times : Within (radix.times i) (radix.times i : Int) :=
    ⟨by omega, le_refl _⟩
  have added := carryBound.mul times
  have next := (inside (i + 1)).add added
  refine ⟨_, ?_, ?_, _, radix.value_carry several limbs i split⟩
  · rw [carryStep, out]
    simp only [Option.bind_eq_bind, Option.bind_some, Option.pure_def]
    rw [added.int64 (by omega), Option.bind_some, next.int64 nextFits,
      Option.bind_some]
  · intro j
    simp only [get_put]
    split_ifs
    · exact restBound
    · exact next
    · exact inside j

/-- A run of carries. -/
theorem carrySteps_returns (several : 0 < n) {steps : List (Fin (n + 1))}
    (inside : Bounded bounds limbs)
    (safe : steps.foldlM radix.carryBounds bounds = some after) :
    Returns (steps.foldlM radix.carryStep limbs) fun carried =>
      Bounded after carried ∧
        ∃ turns, radix.value carried =
          radix.value limbs - turns * radix.modulus := by
  induction steps generalizing bounds limbs with
  | nil =>
      cases safe
      exact Returns.pure ⟨inside, 0, by ring⟩
  | cons i steps ih =>
      rw [List.foldlM_cons] at safe ⊢
      obtain ⟨middle, first, others⟩ := Option.bind_eq_some_iff.mp safe
      apply (carryStep_returns radix several inside first).bind
      rintro carried ⟨within, turns, value⟩
      apply (ih within others).mono
      rintro last ⟨final, more, total⟩
      refine ⟨final, turns + more, ?_⟩
      rw [total, value]
      ring

end Run

end Radix

namespace Limbs

open Signed

/-- The value of limbs that come with their widths. -/
def horner : List (Nat × Int) → Int
  | [] => 0
  | (width, limb) :: rest => limb + 2 ^ width * horner rest

def totalWidth : List (Nat × Int) → Nat
  | [] => 0
  | (width, _) :: rest => width + totalWidth rest

/-- `q = (limb + q) >> width` for every limb. -/
def quotient (q : Int) : List (Nat × Int) → Option Int
  | [] => some q
  | (width, limb) :: rest => do
    let sum ← int32 (limb + q)
    quotient (sum >>> width) rest

/-- Carries without rounding, which leave digits.  The last carry is dropped. -/
def digits (carry : Int) : List (Nat × Int) → Option (List Int)
  | [] => some []
  | (width, limb) :: rest => do
    let limb ← int32 (limb + carry)
    let next := limb >>> width
    let moved ← int32 (next * 2 ^ width)
    let digit ← int32 (limb - moved)
    let others ← digits next rest
    pure (digit :: others)

/-- A limb that is a digit of its width. -/
def IsDigit (width : Nat) (limb : Int) : Prop :=
  0 ≤ limb ∧ limb < 2 ^ width

/-- Limbs that a pass may add a carry to. -/
def Small (limbs : List (Nat × Int)) : Prop :=
  ∀ pair ∈ limbs, 0 < pair.1 ∧ pair.1 < 30 ∧ Within (2 ^ 29) pair.2

theorem shiftRight_eq (value : Int) (width : Nat) :
    value >>> width = value / 2 ^ width := by
  rw [Int.shiftRight_eq_div_pow]
  norm_cast

theorem within_shifted {value : Int} {width : Nat}
    (inside : Within (2 ^ 30) value) (wide : 0 < width) :
    Within (2 ^ 29) (value / 2 ^ width) := by
  obtain ⟨low, high⟩ := inside
  have two : (2 : Int) ≤ 2 ^ width := by
    exact_mod_cast Nat.pow_le_pow_right (by decide : 0 < 2) wide
  norm_num at low high
  constructor
  · apply (Int.le_ediv_iff_mul_le (by positivity)).mpr
    norm_num
    linarith
  · apply Int.ediv_le_of_le_mul (by positivity)
    norm_num
    linarith

theorem quotient_eq {limbs : List (Nat × Int)} {q : Int}
    (small : Small limbs) (inside : Within (2 ^ 29) q) :
    quotient q limbs = some ((q + horner limbs) / 2 ^ totalWidth limbs) := by
  induction limbs generalizing q with
  | nil => simp [quotient, horner, totalWidth]
  | cons pair rest ih =>
      obtain ⟨width, limb⟩ := pair
      obtain ⟨⟨wide, -, limbBound⟩, others⟩ := List.forall_mem_cons.mp small
      have sum := limbBound.add inside
      have shifted := within_shifted (sum.mono (by norm_num)) wide
      have split : (q + horner ((width, limb) :: rest)) / 2 ^ width =
          (limb + q) / 2 ^ width + horner rest := by
        rw [horner, ← add_assoc, Int.add_mul_ediv_left _ _ (by positivity),
          add_comm q]
      rw [quotient, sum.int32 (by norm_num), Option.bind_eq_bind,
        Option.bind_some, shiftRight_eq, ih others shifted, totalWidth,
        pow_add, ← Int.ediv_ediv_of_nonneg (by positivity), split]

theorem emod_mul_eq {low high : Int} (value : Int) (nonneg : 0 ≤ low) :
    value % (low * high) = value % low + low * (value / low % high) := by
  rw [Int.emod_def, Int.emod_def value low, Int.emod_def (value / low),
    Int.ediv_ediv_of_nonneg nonneg]
  ring

/-- The digits of a number in mixed radix. -/
theorem digits_returns {limbs : List (Nat × Int)} {carry : Int}
    (small : Small limbs) (inside : Within (2 ^ 29) carry) :
    Returns (digits carry limbs) fun found =>
      List.Forall₂ IsDigit (limbs.map Prod.fst) found ∧
        horner ((limbs.map Prod.fst).zip found) =
          (carry + horner limbs) % 2 ^ totalWidth limbs := by
  induction limbs generalizing carry with
  | nil =>
      refine Returns.pure ⟨.nil, ?_⟩
      simp [horner, totalWidth]
  | cons pair rest ih =>
      obtain ⟨width, limb⟩ := pair
      obtain ⟨⟨wide, narrow, limbBound⟩, others⟩ :=
        List.forall_mem_cons.mp small
      have sum := limbBound.add inside
      have shifted := within_shifted (sum.mono (by norm_num)) wide
      have range : (0 : Int) < 2 ^ width := by positivity
      have nonneg := Int.emod_nonneg (limb + carry) range.ne'
      have below := Int.emod_lt_of_pos (limb + carry) range
      have digit : Within (2 ^ 29) ((limb + carry) % 2 ^ width) := by
        have most : (2 : Int) ^ width ≤ 2 ^ 29 :=
          pow_le_pow_right₀ (by decide) (Nat.le_of_lt_succ narrow)
        norm_num at most
        constructor
        · norm_num
          linarith
        · norm_num
          linarith
      have left : limb + carry - (limb + carry) / 2 ^ width * 2 ^ width =
          (limb + carry) % 2 ^ width := by
        rw [Int.emod_def, mul_comm]
      have moved := sum.sub digit
      rw [← left, sub_sub_cancel] at moved
      unfold digits
      simp only [Option.bind_eq_bind, Option.pure_def]
      rw [sum.int32 (by norm_num), Option.bind_some, shiftRight_eq,
        moved.int32 (by norm_num), Option.bind_some, left,
        digit.int32 (by norm_num), Option.bind_some]
      apply (ih others shifted).bind
      rintro found ⟨isDigit, value⟩
      refine Returns.pure ⟨.cons ⟨nonneg, below⟩ isDigit, ?_⟩
      · have whole : carry + horner ((width, limb) :: rest) =
            limb + carry + 2 ^ width * horner rest := by
          rw [horner]
          ring
        rw [whole, totalWidth, pow_add, emod_mul_eq _ range.le,
          Int.add_mul_emod_self_left, Int.add_mul_ediv_left _ _ range.ne',
          List.map_cons, List.zip_cons_cons, horner, value]

end Limbs

end BlockTemplate
