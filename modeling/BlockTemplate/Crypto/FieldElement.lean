import BlockTemplate.Word.Limbs
import BlockTemplate.Crypto.Edwards

/-!
# Field elements of `crypto-ops.c`

An element of the field of 2 ^ 255 - 19 elements is an array of ten signed
limbs, which have 26 and 25 bits in turn.  The functions work with unreduced
limbs, inside bounds that their comments state; a signed overflow would have no
meaning, and here it has no result.
-/

namespace BlockTemplate.CryptoOps

open Signed Radix Edwards

/-- `fe`. -/
abbrev Fe := Vector Int 10

instance limbCount : NeZero 10 := ⟨by decide⟩

/-- Limb `i` stands at the exponent 25.5 * i, rounded up. -/
def radix : Radix 9 :=
  { width := fun i => if i.val % 2 = 0 then 26 else 25
    wide := by decide
    wrap := 19 }

def fe0 : Fe := #v[0, 0, 0, 0, 0, 0, 0, 0, 0, 0]

def fe1 : Fe := #v[1, 0, 0, 0, 0, 0, 0, 0, 0, 0]

def feAdd (f g : Fe) : Option Fe :=
  Vector.ofFnM fun i => int32 (f.get i + g.get i)

def feSub (f g : Fe) : Option Fe :=
  Vector.ofFnM fun i => int32 (f.get i - g.get i)

def feNeg (f : Fe) : Option Fe :=
  Vector.ofFnM fun i => int32 (-f.get i)

/-- The carries at the end of a multiplication. -/
def mulCarries : List (Fin 10) :=
  [0, 4, 1, 5, 2, 6, 3, 7, 4, 8, 9, 0]

/-- The sums of a multiplication, their carries and the result, which goes
into 32-bit limbs. -/
def feProducts (rows : Vector (List (Int × Int)) 10) : Option Fe := do
  let h ← Vector.ofFnM fun i => addProducts 0 (rows.get i)
  let h ← mulCarries.foldlM radix.carryStep h
  Vector.ofFnM fun i => int32 (h.get i)

def feMul (f g : Fe) : Option Fe := do
  let g1_19 ← int32 (19 * g.get 1)
  let g2_19 ← int32 (19 * g.get 2)
  let g3_19 ← int32 (19 * g.get 3)
  let g4_19 ← int32 (19 * g.get 4)
  let g5_19 ← int32 (19 * g.get 5)
  let g6_19 ← int32 (19 * g.get 6)
  let g7_19 ← int32 (19 * g.get 7)
  let g8_19 ← int32 (19 * g.get 8)
  let g9_19 ← int32 (19 * g.get 9)
  let f1_2 ← int32 (2 * f.get 1)
  let f3_2 ← int32 (2 * f.get 3)
  let f5_2 ← int32 (2 * f.get 5)
  let f7_2 ← int32 (2 * f.get 7)
  let f9_2 ← int32 (2 * f.get 9)
  feProducts #v[
    [(f.get 0, g.get 0), (f1_2, g9_19), (f.get 2, g8_19), (f3_2, g7_19),
      (f.get 4, g6_19), (f5_2, g5_19), (f.get 6, g4_19), (f7_2, g3_19),
      (f.get 8, g2_19), (f9_2, g1_19)],
    [(f.get 0, g.get 1), (f.get 1, g.get 0), (f.get 2, g9_19),
      (f.get 3, g8_19), (f.get 4, g7_19), (f.get 5, g6_19), (f.get 6, g5_19),
      (f.get 7, g4_19), (f.get 8, g3_19), (f.get 9, g2_19)],
    [(f.get 0, g.get 2), (f1_2, g.get 1), (f.get 2, g.get 0), (f3_2, g9_19),
      (f.get 4, g8_19), (f5_2, g7_19), (f.get 6, g6_19), (f7_2, g5_19),
      (f.get 8, g4_19), (f9_2, g3_19)],
    [(f.get 0, g.get 3), (f.get 1, g.get 2), (f.get 2, g.get 1),
      (f.get 3, g.get 0), (f.get 4, g9_19), (f.get 5, g8_19),
      (f.get 6, g7_19), (f.get 7, g6_19), (f.get 8, g5_19), (f.get 9, g4_19)],
    [(f.get 0, g.get 4), (f1_2, g.get 3), (f.get 2, g.get 2),
      (f3_2, g.get 1), (f.get 4, g.get 0), (f5_2, g9_19), (f.get 6, g8_19),
      (f7_2, g7_19), (f.get 8, g6_19), (f9_2, g5_19)],
    [(f.get 0, g.get 5), (f.get 1, g.get 4), (f.get 2, g.get 3),
      (f.get 3, g.get 2), (f.get 4, g.get 1), (f.get 5, g.get 0),
      (f.get 6, g9_19), (f.get 7, g8_19), (f.get 8, g7_19), (f.get 9, g6_19)],
    [(f.get 0, g.get 6), (f1_2, g.get 5), (f.get 2, g.get 4),
      (f3_2, g.get 3), (f.get 4, g.get 2), (f5_2, g.get 1),
      (f.get 6, g.get 0), (f7_2, g9_19), (f.get 8, g8_19), (f9_2, g7_19)],
    [(f.get 0, g.get 7), (f.get 1, g.get 6), (f.get 2, g.get 5),
      (f.get 3, g.get 4), (f.get 4, g.get 3), (f.get 5, g.get 2),
      (f.get 6, g.get 1), (f.get 7, g.get 0), (f.get 8, g9_19),
      (f.get 9, g8_19)],
    [(f.get 0, g.get 8), (f1_2, g.get 7), (f.get 2, g.get 6),
      (f3_2, g.get 5), (f.get 4, g.get 4), (f5_2, g.get 3),
      (f.get 6, g.get 2), (f7_2, g.get 1), (f.get 8, g.get 0),
      (f9_2, g9_19)],
    [(f.get 0, g.get 9), (f.get 1, g.get 8), (f.get 2, g.get 7),
      (f.get 3, g.get 6), (f.get 4, g.get 5), (f.get 5, g.get 4),
      (f.get 6, g.get 3), (f.get 7, g.get 2), (f.get 8, g.get 1),
      (f.get 9, g.get 0)]]

def feSq (f : Fe) : Option Fe := do
  let f0_2 ← int32 (2 * f.get 0)
  let f1_2 ← int32 (2 * f.get 1)
  let f2_2 ← int32 (2 * f.get 2)
  let f3_2 ← int32 (2 * f.get 3)
  let f4_2 ← int32 (2 * f.get 4)
  let f5_2 ← int32 (2 * f.get 5)
  let f6_2 ← int32 (2 * f.get 6)
  let f7_2 ← int32 (2 * f.get 7)
  let f5_38 ← int32 (38 * f.get 5)
  let f6_19 ← int32 (19 * f.get 6)
  let f7_38 ← int32 (38 * f.get 7)
  let f8_19 ← int32 (19 * f.get 8)
  let f9_38 ← int32 (38 * f.get 9)
  feProducts #v[
    [(f.get 0, f.get 0), (f1_2, f9_38), (f2_2, f8_19), (f3_2, f7_38),
      (f4_2, f6_19), (f.get 5, f5_38)],
    [(f0_2, f.get 1), (f.get 2, f9_38), (f3_2, f8_19), (f.get 4, f7_38),
      (f5_2, f6_19)],
    [(f0_2, f.get 2), (f1_2, f.get 1), (f3_2, f9_38), (f4_2, f8_19),
      (f5_2, f7_38), (f.get 6, f6_19)],
    [(f0_2, f.get 3), (f1_2, f.get 2), (f.get 4, f9_38), (f5_2, f8_19),
      (f.get 6, f7_38)],
    [(f0_2, f.get 4), (f1_2, f3_2), (f.get 2, f.get 2), (f5_2, f9_38),
      (f6_2, f8_19), (f.get 7, f7_38)],
    [(f0_2, f.get 5), (f1_2, f.get 4), (f2_2, f.get 3), (f.get 6, f9_38),
      (f7_2, f8_19)],
    [(f0_2, f.get 6), (f1_2, f5_2), (f2_2, f.get 4), (f3_2, f.get 3),
      (f7_2, f9_38), (f.get 8, f8_19)],
    [(f0_2, f.get 7), (f1_2, f.get 6), (f2_2, f.get 5), (f3_2, f.get 4),
      (f.get 8, f9_38)],
    [(f0_2, f.get 8), (f1_2, f7_2), (f2_2, f.get 6), (f3_2, f5_2),
      (f.get 4, f.get 4), (f.get 9, f9_38)],
    [(f0_2, f.get 9), (f1_2, f.get 8), (f2_2, f.get 7), (f3_2, f.get 6),
      (f4_2, f.get 5)]]

/-- A loop of squares. -/
def feSqTimes : Nat → Fe → Option Fe
  | 0, f => some f
  | times + 1, f => do
    let f ← feSq f
    feSqTimes times f

/-- The part of `fe_divpowm1` that is `fe_pow22523`. -/
def fePow22523 (uv7 : Fe) : Option Fe := do
  let t0 ← feSq uv7
  let t1 ← feSq t0
  let t1 ← feSq t1
  let t1 ← feMul uv7 t1
  let t0 ← feMul t0 t1
  let t0 ← feSq t0
  let t0 ← feMul t1 t0
  let t1 ← feSq t0
  let t1 ← feSqTimes 4 t1
  let t0 ← feMul t1 t0
  let t1 ← feSq t0
  let t1 ← feSqTimes 9 t1
  let t1 ← feMul t1 t0
  let t2 ← feSq t1
  let t2 ← feSqTimes 19 t2
  let t1 ← feMul t2 t1
  let t1 ← feSqTimes 10 t1
  let t0 ← feMul t1 t0
  let t1 ← feSq t0
  let t1 ← feSqTimes 49 t1
  let t1 ← feMul t1 t0
  let t2 ← feSq t1
  let t2 ← feSqTimes 99 t2
  let t1 ← feMul t2 t1
  let t1 ← feSqTimes 50 t1
  let t0 ← feMul t1 t0
  let t0 ← feSq t0
  let t0 ← feSq t0
  feMul t0 uv7

def feDivpowm1 (u v : Fe) : Option Fe := do
  let v3 ← feSq v
  let v3 ← feMul v3 v
  let uv7 ← feSq v3
  let uv7 ← feMul uv7 v
  let uv7 ← feMul uv7 u
  let t0 ← fePow22523 uv7
  let t0 ← feMul t0 v3
  feMul t0 u

/-- A bound on the limbs of 25 bits, and twice that on those of 26 bits. -/
def limbBounds (bound : Nat) : Vector Nat 10 :=
  Vector.ofFn fun i => if i.val % 2 = 0 then 2 * bound else bound

/-- 1.65 * 2 ^ 25, rounded up so that the limbs up to 1.65 * 2 ^ 26 are inside
as well: the operands of a multiplication. -/
def loose : Nat := 55364813

/-- 1.01 * 2 ^ 24: the result of a multiplication. -/
def reduced : Nat := 16944988

/-- Bounded limbs with a value of the field. -/
structure Represents (bound : Nat) (f : Fe) (x : Field) : Prop where
  bounded : Bounded (limbBounds bound) f
  value : (radix.value f : Field) = x

theorem value_eq (h : Fe) :
    radix.value h =
      h.get 0 + h.get 1 * 2 ^ 26 + h.get 2 * 2 ^ 51 + h.get 3 * 2 ^ 77 +
        h.get 4 * 2 ^ 102 + h.get 5 * 2 ^ 128 + h.get 6 * 2 ^ 153 +
        h.get 7 * 2 ^ 179 + h.get 8 * 2 ^ 204 + h.get 9 * 2 ^ 230 := by
  have positions : ∀ i, radix.position i =
      #v[0, 26, 51, 77, 102, 128, 153, 179, 204, 230].get i := by
    decide
  simp only [Radix.value, positions]
  rw [Fin.sum_univ_castSucc, Fin.sum_univ_castSucc, Fin.sum_univ_eight]
  change h.get 0 * 2 ^ 0 + h.get 1 * 2 ^ 26 + h.get 2 * 2 ^ 51 +
    h.get 3 * 2 ^ 77 + h.get 4 * 2 ^ 102 + h.get 5 * 2 ^ 128 +
    h.get 6 * 2 ^ 153 + h.get 7 * 2 ^ 179 + h.get 8 * 2 ^ 204 +
    h.get 9 * 2 ^ 230 = _
  rw [pow_zero, mul_one]

private theorem modulus_eq : radix.modulus = prime := by
  decide

theorem modulus_eq_zero : (radix.modulus : Field) = 0 := by
  rw [modulus_eq]
  exact_mod_cast ZMod.natCast_self prime

theorem limbs_within {bound : Nat} {f : Fe}
    (bounded : Bounded (limbBounds bound) f) (i : Fin 10) :
    Within (2 * bound) (f.get i) := by
  apply (bounded i).mono
  have entry : (limbBounds bound).get i =
      if i.val % 2 = 0 then 2 * bound else bound := get_ofFn _ i
  rw [entry]
  split <;> omega

theorem odd_within {bound : Nat} {f : Fe}
    (bounded : Bounded (limbBounds bound) f) {i : Fin 10} (odd : i.val % 2 = 1) :
    Within bound (f.get i) := by
  have entry : (limbBounds bound).get i =
      if i.val % 2 = 0 then 2 * bound else bound := get_ofFn _ i
  rw [if_neg (by omega)] at entry
  exact entry ▸ bounded i

/-- What a multiplication sums up. -/
def rowSums (rows : Vector (List (Int × Int)) 10) : Vector Int 10 :=
  Vector.ofFn fun i => sumOfProducts (rows.get i)

private theorem get_rowSums (rows : Vector (List (Int × Int)) 10) (i : Fin 10) :
    (rowSums rows).get i = sumOfProducts (rows.get i) :=
  get_ofFn _ i

/-- The bounds that the comments of `fe_mul` follow from carry to carry. -/
theorem mulCarries_bounds :
    mulCarries.foldlM radix.carryBounds
        (Vector.replicate 10 (912 * loose ^ 2)) =
      some #v[33554432, 16800804, 33554432, 16777216, 33554432, 16778458,
        33554432, 16777216, 33554432, 16777216] := by
  decide

section Sums

variable {left right : Nat} {rows : Vector (List (Int × Int)) 10}
  (bounded : ∀ i, ∀ pair ∈ rows.get i,
    Within left pair.1 ∧ Within right pair.2)
  (fits : ∀ i, (rows.get i).length * (left * right) ≤ 912 * loose ^ 2)

include bounded fits

/-- No sum of the products overflows. -/
theorem sums_returns :
    Returns (Vector.ofFnM fun i => addProducts 0 (rows.get i)) fun h =>
      h = rowSums rows ∧ Bounded (Vector.replicate 10 (912 * loose ^ 2)) h := by
  have limit : 912 * loose ^ 2 < 2 ^ 63 := by norm_num [loose]
  have sums := @Returns.ofFnM _ 10 _ _ fun i =>
    addProducts_returns (bounded i) ((fits i).trans_lt limit)
  apply sums.mono
  intro h facts
  constructor
  · apply Vector.ext
    intro i inside
    exact (facts ⟨i, inside⟩).1.trans (get_rowSums rows ⟨i, inside⟩).symm
  · intro i
    have entry : (Vector.replicate 10 (912 * loose ^ 2)).get i =
        912 * loose ^ 2 := Vector.getElem_replicate i.isLt
    rw [entry]
    exact (facts i).2.mono (fits i)

/-- Sums of bounded products end up in a reduced element. -/
theorem feProducts_returns :
    Returns (feProducts rows) fun h =>
      Represents reduced h (radix.value (rowSums rows)) := by
  apply (sums_returns bounded fits).bind
  rintro h ⟨same, inside⟩
  apply (carrySteps_returns radix (by decide) inside mulCarries_bounds).bind
  rintro carried ⟨bound, turns, value⟩
  apply (int32s_returns bound (by decide)).mono
  rintro stored rfl
  rw [ofFn_get]
  refine ⟨bound.mono (by decide), ?_⟩
  rw [value, same, Int.cast_sub, Int.cast_mul, modulus_eq_zero, mul_zero,
    sub_zero]

/-- Only the sums count. -/
theorem feProducts_congr {left' right' : Nat}
    {rows' : Vector (List (Int × Int)) 10}
    (bounded' : ∀ i, ∀ pair ∈ rows'.get i,
      Within left' pair.1 ∧ Within right' pair.2)
    (fits' : ∀ i, (rows'.get i).length * (left' * right') ≤ 912 * loose ^ 2)
    (same : ∀ i, sumOfProducts (rows.get i) = sumOfProducts (rows'.get i)) :
    feProducts rows = feProducts rows' := by
  obtain ⟨_, sums, rfl, -⟩ := sums_returns bounded fits
  obtain ⟨_, sums', rfl, -⟩ := sums_returns bounded' fits'
  have rowsSame : rowSums rows = rowSums rows' :=
    congrArg Vector.ofFn (funext same)
  rw [feProducts, feProducts, sums, sums', rowsSame]

end Sums

/-- What a multiplication sums up, with the exact values of the factors. -/
def mulRows (f g : Fe) : Vector (List (Int × Int)) 10 :=
  #v[
    [(f.get 0, g.get 0), (2 * f.get 1, 19 * g.get 9), (f.get 2, 19 * g.get 8),
      (2 * f.get 3, 19 * g.get 7), (f.get 4, 19 * g.get 6),
      (2 * f.get 5, 19 * g.get 5), (f.get 6, 19 * g.get 4),
      (2 * f.get 7, 19 * g.get 3), (f.get 8, 19 * g.get 2),
      (2 * f.get 9, 19 * g.get 1)],
    [(f.get 0, g.get 1), (f.get 1, g.get 0), (f.get 2, 19 * g.get 9),
      (f.get 3, 19 * g.get 8), (f.get 4, 19 * g.get 7),
      (f.get 5, 19 * g.get 6), (f.get 6, 19 * g.get 5),
      (f.get 7, 19 * g.get 4), (f.get 8, 19 * g.get 3),
      (f.get 9, 19 * g.get 2)],
    [(f.get 0, g.get 2), (2 * f.get 1, g.get 1), (f.get 2, g.get 0),
      (2 * f.get 3, 19 * g.get 9), (f.get 4, 19 * g.get 8),
      (2 * f.get 5, 19 * g.get 7), (f.get 6, 19 * g.get 6),
      (2 * f.get 7, 19 * g.get 5), (f.get 8, 19 * g.get 4),
      (2 * f.get 9, 19 * g.get 3)],
    [(f.get 0, g.get 3), (f.get 1, g.get 2), (f.get 2, g.get 1),
      (f.get 3, g.get 0), (f.get 4, 19 * g.get 9), (f.get 5, 19 * g.get 8),
      (f.get 6, 19 * g.get 7), (f.get 7, 19 * g.get 6),
      (f.get 8, 19 * g.get 5), (f.get 9, 19 * g.get 4)],
    [(f.get 0, g.get 4), (2 * f.get 1, g.get 3), (f.get 2, g.get 2),
      (2 * f.get 3, g.get 1), (f.get 4, g.get 0), (2 * f.get 5, 19 * g.get 9),
      (f.get 6, 19 * g.get 8), (2 * f.get 7, 19 * g.get 7),
      (f.get 8, 19 * g.get 6), (2 * f.get 9, 19 * g.get 5)],
    [(f.get 0, g.get 5), (f.get 1, g.get 4), (f.get 2, g.get 3),
      (f.get 3, g.get 2), (f.get 4, g.get 1), (f.get 5, g.get 0),
      (f.get 6, 19 * g.get 9), (f.get 7, 19 * g.get 8),
      (f.get 8, 19 * g.get 7), (f.get 9, 19 * g.get 6)],
    [(f.get 0, g.get 6), (2 * f.get 1, g.get 5), (f.get 2, g.get 4),
      (2 * f.get 3, g.get 3), (f.get 4, g.get 2), (2 * f.get 5, g.get 1),
      (f.get 6, g.get 0), (2 * f.get 7, 19 * g.get 9), (f.get 8, 19 * g.get 8),
      (2 * f.get 9, 19 * g.get 7)],
    [(f.get 0, g.get 7), (f.get 1, g.get 6), (f.get 2, g.get 5),
      (f.get 3, g.get 4), (f.get 4, g.get 3), (f.get 5, g.get 2),
      (f.get 6, g.get 1), (f.get 7, g.get 0), (f.get 8, 19 * g.get 9),
      (f.get 9, 19 * g.get 8)],
    [(f.get 0, g.get 8), (2 * f.get 1, g.get 7), (f.get 2, g.get 6),
      (2 * f.get 3, g.get 5), (f.get 4, g.get 4), (2 * f.get 5, g.get 3),
      (f.get 6, g.get 2), (2 * f.get 7, g.get 1), (f.get 8, g.get 0),
      (2 * f.get 9, 19 * g.get 9)],
    [(f.get 0, g.get 9), (f.get 1, g.get 8), (f.get 2, g.get 7),
      (f.get 3, g.get 6), (f.get 4, g.get 5), (f.get 5, g.get 4),
      (f.get 6, g.get 3), (f.get 7, g.get 2), (f.get 8, g.get 1),
      (f.get 9, g.get 0)]]

private theorem feMul_eq {f g : Fe} {x y : Field}
    (left : Represents loose f x) (right : Represents loose g y) :
    feMul f g = feProducts (mulRows f g) := by
  have g19 (i : Fin 10) : int32 (19 * g.get i) = some (19 * g.get i) :=
    ((limbs_within right.bounded i).scaled 19).int32 (by norm_num [loose])
  have f2 (i : Fin 10) : int32 (2 * f.get i) = some (2 * f.get i) :=
    ((limbs_within left.bounded i).scaled 2).int32 (by norm_num [loose])
  unfold feMul
  simp only [g19, f2, Option.bind_eq_bind, Option.bind_some]
  rfl

private theorem value_rowSums
    (r0 r1 r2 r3 r4 r5 r6 r7 r8 r9 : List (Int × Int)) :
    radix.value (rowSums #v[r0, r1, r2, r3, r4, r5, r6, r7, r8, r9]) =
      sumOfProducts r0 + sumOfProducts r1 * 2 ^ 26 +
        sumOfProducts r2 * 2 ^ 51 + sumOfProducts r3 * 2 ^ 77 +
        sumOfProducts r4 * 2 ^ 102 + sumOfProducts r5 * 2 ^ 128 +
        sumOfProducts r6 * 2 ^ 153 + sumOfProducts r7 * 2 ^ 179 +
        sumOfProducts r8 * 2 ^ 204 + sumOfProducts r9 * 2 ^ 230 := by
  rw [value_eq]
  simp only [get_rowSums]
  rfl

/-- Products that would stand at 2 ^ 255 or above come back 19 times. -/
theorem value_mulRows (f g : Fe) :
    (radix.value (rowSums (mulRows f g)) : Field) =
      radix.value f * radix.value g := by
  have wrap : (19 : Field) = 2 ^ 255 := two_pow_255.symm
  rw [mulRows, value_rowSums, value_eq f, value_eq g]
  simp only [sumOfProducts, List.map_cons, List.map_nil, List.sum_cons,
    List.sum_nil]
  push_cast
  rw [wrap]
  ring

/-- The factors of a multiplication keep to the bounds of its sums. -/
theorem mulRows_bounded {f g : Fe}
    (left : Bounded (limbBounds loose) f)
    (right : Bounded (limbBounds loose) g) (i : Fin 10) :
    (∀ pair ∈ (mulRows f g).get i,
      Within (2 * loose) pair.1 ∧ Within (38 * loose) pair.2) ∧
      ((mulRows f g).get i).length * (2 * loose * (38 * loose)) ≤
        912 * loose ^ 2 := by
  have fWithin := limbs_within left
  have gWithin (i : Fin 10) : Within (38 * loose) (g.get i) :=
    (limbs_within right i).mono (by norm_num [loose])
  have g19 (i : Fin 10) : Within (38 * loose) (19 * g.get i) :=
    ((limbs_within right i).scaled 19).mono (by norm_num [loose])
  have f2 {i : Fin 10} (odd : i.val % 2 = 1) :
      Within (2 * loose) (2 * f.get i) :=
    (odd_within left odd).scaled 2
  have f1_2 := @f2 1 rfl
  have f3_2 := @f2 3 rfl
  have f5_2 := @f2 5 rfl
  have f7_2 := @f2 7 rfl
  have f9_2 := @f2 9 rfl
  constructor
  · fin_cases i <;> change ∀ pair ∈ [_, _, _, _, _, _, _, _, _, _], _ <;>
      simp only [List.forall_mem_cons, List.not_mem_nil, false_implies,
        implies_true, and_self, fWithin, gWithin, g19, f1_2, f3_2, f5_2, f7_2,
        f9_2]
  · fin_cases i <;>
      exact (by decide : 10 * (2 * loose * (38 * loose)) ≤ 912 * loose ^ 2)

theorem feMul_returns {f g : Fe} {x y : Field}
    (left : Represents loose f x) (right : Represents loose g y) :
    Returns (feMul f g) fun h => Represents reduced h (x * y) := by
  have rows := mulRows_bounded left.bounded right.bounded
  rw [feMul_eq left right]
  apply (feProducts_returns (fun i => (rows i).1) fun i => (rows i).2).mono
  rintro h ⟨bounded, value⟩
  refine ⟨bounded, ?_⟩
  rw [value, value_mulRows, left.value, right.value]

/-- What a square sums up, with the exact values of the factors. -/
def sqRows (f : Fe) : Vector (List (Int × Int)) 10 :=
  #v[
    [(f.get 0, f.get 0), (2 * f.get 1, 38 * f.get 9),
      (2 * f.get 2, 19 * f.get 8), (2 * f.get 3, 38 * f.get 7),
      (2 * f.get 4, 19 * f.get 6), (f.get 5, 38 * f.get 5)],
    [(2 * f.get 0, f.get 1), (f.get 2, 38 * f.get 9),
      (2 * f.get 3, 19 * f.get 8), (f.get 4, 38 * f.get 7),
      (2 * f.get 5, 19 * f.get 6)],
    [(2 * f.get 0, f.get 2), (2 * f.get 1, f.get 1),
      (2 * f.get 3, 38 * f.get 9), (2 * f.get 4, 19 * f.get 8),
      (2 * f.get 5, 38 * f.get 7), (f.get 6, 19 * f.get 6)],
    [(2 * f.get 0, f.get 3), (2 * f.get 1, f.get 2), (f.get 4, 38 * f.get 9),
      (2 * f.get 5, 19 * f.get 8), (f.get 6, 38 * f.get 7)],
    [(2 * f.get 0, f.get 4), (2 * f.get 1, 2 * f.get 3), (f.get 2, f.get 2),
      (2 * f.get 5, 38 * f.get 9), (2 * f.get 6, 19 * f.get 8),
      (f.get 7, 38 * f.get 7)],
    [(2 * f.get 0, f.get 5), (2 * f.get 1, f.get 4), (2 * f.get 2, f.get 3),
      (f.get 6, 38 * f.get 9), (2 * f.get 7, 19 * f.get 8)],
    [(2 * f.get 0, f.get 6), (2 * f.get 1, 2 * f.get 5),
      (2 * f.get 2, f.get 4), (2 * f.get 3, f.get 3),
      (2 * f.get 7, 38 * f.get 9), (f.get 8, 19 * f.get 8)],
    [(2 * f.get 0, f.get 7), (2 * f.get 1, f.get 6), (2 * f.get 2, f.get 5),
      (2 * f.get 3, f.get 4), (f.get 8, 38 * f.get 9)],
    [(2 * f.get 0, f.get 8), (2 * f.get 1, 2 * f.get 7),
      (2 * f.get 2, f.get 6), (2 * f.get 3, 2 * f.get 5), (f.get 4, f.get 4),
      (f.get 9, 38 * f.get 9)],
    [(2 * f.get 0, f.get 9), (2 * f.get 1, f.get 8), (2 * f.get 2, f.get 7),
      (2 * f.get 3, f.get 6), (2 * f.get 4, f.get 5)]]

private theorem sqRows_bounded {f : Fe} (bounded : Bounded (limbBounds loose) f)
    (i : Fin 10) :
    (∀ pair ∈ (sqRows f).get i,
      Within (4 * loose) pair.1 ∧ Within (38 * loose) pair.2) ∧
      ((sqRows f).get i).length * (4 * loose * (38 * loose)) ≤
        912 * loose ^ 2 := by
  have left (i : Fin 10) : Within (4 * loose) (f.get i) :=
    (limbs_within bounded i).mono (by norm_num [loose])
  have right (i : Fin 10) : Within (38 * loose) (f.get i) :=
    (limbs_within bounded i).mono (by norm_num [loose])
  have f2 (i : Fin 10) : Within (4 * loose) (2 * f.get i) :=
    ((limbs_within bounded i).scaled 2).mono (by norm_num [loose])
  have right2 (i : Fin 10) : Within (38 * loose) (2 * f.get i) :=
    ((limbs_within bounded i).scaled 2).mono (by norm_num [loose])
  have f19 (i : Fin 10) : Within (38 * loose) (19 * f.get i) :=
    ((limbs_within bounded i).scaled 19).mono (by norm_num [loose])
  have f38 {i : Fin 10} (odd : i.val % 2 = 1) :
      Within (38 * loose) (38 * f.get i) :=
    (odd_within bounded odd).scaled 38
  have f5_38 := @f38 5 rfl
  have f7_38 := @f38 7 rfl
  have f9_38 := @f38 9 rfl
  constructor
  · fin_cases i <;> change ∀ pair ∈ _ :: _ :: _ :: _ :: _ :: _, _ <;>
      simp only [List.forall_mem_cons, List.not_mem_nil, false_implies,
        implies_true, and_self, left, right, f2, right2, f19, f5_38, f7_38,
        f9_38]
  · have six : 6 * (4 * loose * (38 * loose)) ≤ 912 * loose ^ 2 := by decide
    have short : ((sqRows f).get i).length ≤ 6 := by
      fin_cases i <;> exact Nat.le_of_ble_eq_true rfl
    exact (Nat.mul_le_mul_right _ short).trans six

/-- A square takes fewer products than a multiplication by itself, and has the
same limbs. -/
theorem feSq_eq {f : Fe} {x : Field} (represents : Represents loose f x) :
    feSq f = feMul f f := by
  have within := limbs_within represents.bounded
  have f2 (i : Fin 10) : int32 (2 * f.get i) = some (2 * f.get i) :=
    ((within i).scaled 2).int32 (by norm_num [loose])
  have f19 (i : Fin 10) : int32 (19 * f.get i) = some (19 * f.get i) :=
    ((within i).scaled 19).int32 (by norm_num [loose])
  have f38 {i : Fin 10} (odd : i.val % 2 = 1) :
      int32 (38 * f.get i) = some (38 * f.get i) :=
    ((odd_within represents.bounded odd).scaled 38).int32 (by norm_num [loose])
  rw [feMul_eq represents represents]
  unfold feSq
  simp only [f2, f19, @f38 5 rfl, @f38 7 rfl, @f38 9 rfl, Option.bind_eq_bind,
    Option.bind_some]
  have rows := sqRows_bounded represents.bounded
  have rows' := mulRows_bounded represents.bounded represents.bounded
  apply feProducts_congr (fun i => (rows i).1) (fun i => (rows i).2)
    (fun i => (rows' i).1) fun i => (rows' i).2
  intro i
  fin_cases i <;> simp [sqRows, mulRows, sumOfProducts, Vector.get] <;> ring

theorem feSq_returns {f : Fe} {x : Field}
    (represents : Represents loose f x) :
    Returns (feSq f) fun h => Represents reduced h (x ^ 2) := by
  rw [feSq_eq represents, sq]
  exact feMul_returns represents represents

/-- The two multiplications do not overflow and agree. -/
theorem fe_multiplication_exact {f g : Fe}
    (left : Bounded (limbBounds loose) f)
    (right : Bounded (limbBounds loose) g) :
    feSq f = feMul f f ∧
      ∃ h, feMul f g = some h ∧ Bounded (limbBounds reduced) h ∧
        (prime : Int) ∣ radix.value h - radix.value f * radix.value g := by
  obtain ⟨h, product, represents⟩ := feMul_returns ⟨left, rfl⟩ ⟨right, rfl⟩
  refine ⟨feSq_eq ⟨left, rfl⟩, h, product, represents.bounded, ?_⟩
  rw [← ZMod.intCast_zmod_eq_zero_iff_dvd]
  push_cast
  rw [represents.value, sub_self]

/-- The widest limbs of either sign. -/
def widest (sign : Int) : Fe :=
  Vector.ofFn fun i =>
    if i.val % 2 = 0 then sign * 110729625 else -sign * 55364812

theorem fe_multiplication_exact_widest :
    feSq (widest 1) = feMul (widest 1) (widest 1) ∧
      ∃ h, feMul (widest 1) (widest (-1)) = some h ∧
        Bounded (limbBounds reduced) h ∧
        (prime : Int) ∣
          radix.value h - radix.value (widest 1) * radix.value (widest (-1)) :=
  fe_multiplication_exact (by decide) (by decide)

private theorem limbBounds_add (first second : Nat) (i : Fin 10) :
    (limbBounds (first + second)).get i =
      (limbBounds first).get i + (limbBounds second).get i := by
  simp only [limbBounds, get_ofFn]
  split
  · ring
  · rfl

/-- Limbs inside their bounds are stored. -/
theorem stored_returns {bound : Nat} {entries : Fin 10 → Int} {x : Field}
    (inside : ∀ i, Within ((limbBounds bound).get i) (entries i))
    (small : bound < 2 ^ 30)
    (value : (radix.value (Vector.ofFn entries) : Field) = x) :
    Returns (Vector.ofFnM fun i => int32 (entries i)) fun h =>
      Represents bound h x := by
  have fits (i : Fin 10) : (limbBounds bound).get i < 2 ^ 31 := by
    rw [limbBounds, get_ofFn]
    split <;> omega
  apply (int32s_returns inside fits).mono
  rintro h rfl
  refine ⟨fun i => ?_, value⟩
  rw [get_ofFn]
  exact inside i

section Linear

variable {first second : Nat} {f g : Fe} {x y : Field}

theorem feAdd_returns (left : Represents first f x)
    (right : Represents second g y) (small : first + second < 2 ^ 30) :
    Returns (feAdd f g) fun h => Represents (first + second) h (x + y) := by
  apply stored_returns _ small
  · rw [value_add, Int.cast_add, left.value, right.value]
  · intro i
    rw [limbBounds_add]
    exact (left.bounded i).add (right.bounded i)

theorem feSub_returns (left : Represents first f x)
    (right : Represents second g y) (small : first + second < 2 ^ 30) :
    Returns (feSub f g) fun h => Represents (first + second) h (x - y) := by
  apply stored_returns _ small
  · rw [value_sub, Int.cast_sub, left.value, right.value]
  · intro i
    rw [limbBounds_add]
    exact (left.bounded i).sub (right.bounded i)

theorem feNeg_returns (represents : Represents first f x)
    (small : first < 2 ^ 30) :
    Returns (feNeg f) fun h => Represents first h (-x) := by
  apply stored_returns _ small
  · rw [value_neg, Int.cast_neg, represents.value]
  · exact fun i => (represents.bounded i).neg

theorem Represents.mono (represents : Represents first f x)
    (le : first ≤ second) : Represents second f x := by
  refine ⟨represents.bounded.mono fun i => ?_, represents.value⟩
  simp only [limbBounds, get_ofFn]
  split <;> omega

end Linear

theorem represents_fe1 : Represents 1 fe1 1 := by
  have value : radix.value fe1 = 1 := by decide
  refine ⟨by decide, ?_⟩
  rw [value, Int.cast_one]

section Powers

variable {f g : Fe} {z : Field} {a b : Nat}

private theorem feMul_pow (left : Represents reduced f (z ^ a))
    (right : Represents reduced g (z ^ b)) (c : Nat) (sum : a + b = c) :
    Returns (feMul f g) fun h => Represents reduced h (z ^ c) := by
  have wider : reduced ≤ loose := by decide
  rw [← sum, pow_add]
  exact feMul_returns (left.mono wider) (right.mono wider)

private theorem feSq_pow (represents : Represents reduced f (z ^ a)) (c : Nat)
    (double : a * 2 = c) :
    Returns (feSq f) fun h => Represents reduced h (z ^ c) := by
  rw [← double, pow_mul]
  exact feSq_returns (represents.mono (by decide))

/-- The loops of squares. -/
theorem feSqTimes_pow {times : Nat}
    (represents : Represents reduced f (z ^ a)) (c : Nat)
    (product : a * 2 ^ times = c) :
    Returns (feSqTimes times f) fun h => Represents reduced h (z ^ c) := by
  induction times generalizing f a with
  | zero =>
      rw [pow_zero, mul_one] at product
      exact Returns.pure (product ▸ represents)
  | succ times ih =>
      apply (feSq_pow represents _ rfl).bind
      intro h square
      apply ih square
      rw [← product, pow_succ']
      ring

private theorem fePow22523_returns (represents : Represents reduced f z) :
    Returns (fePow22523 f) fun h =>
      Represents reduced h (z ^ (2 ^ 252 - 3)) := by
  have one : Represents reduced f (z ^ 1) := by rwa [pow_one]
  apply (feSq_pow one 2 rfl).bind
  intro t0 p2
  apply (feSq_pow p2 4 rfl).bind
  intro t1 p4
  apply (feSq_pow p4 8 rfl).bind
  intro t1 p8
  apply (feMul_pow one p8 9 rfl).bind
  intro t1 p9
  apply (feMul_pow p2 p9 11 rfl).bind
  intro t0 p11
  apply (feSq_pow p11 22 rfl).bind
  intro t0 p22
  apply (feMul_pow p9 p22 (2 ^ 5 - 1) rfl).bind
  intro t0 p5
  apply (feSq_pow p5 _ rfl).bind
  intro t1 shifted
  apply (feSqTimes_pow shifted ((2 ^ 5 - 1) * 2 ^ 5) rfl).bind
  intro t1 shifted
  apply (feMul_pow shifted p5 (2 ^ 10 - 1) rfl).bind
  intro t0 p10
  apply (feSq_pow p10 _ rfl).bind
  intro t1 shifted
  apply (feSqTimes_pow shifted ((2 ^ 10 - 1) * 2 ^ 10) rfl).bind
  intro t1 shifted
  apply (feMul_pow shifted p10 (2 ^ 20 - 1) rfl).bind
  intro t1 p20
  apply (feSq_pow p20 _ rfl).bind
  intro t2 shifted
  apply (feSqTimes_pow shifted ((2 ^ 20 - 1) * 2 ^ 20) rfl).bind
  intro t2 shifted
  apply (feMul_pow shifted p20 (2 ^ 40 - 1) rfl).bind
  intro t1 p40
  apply (feSqTimes_pow p40 ((2 ^ 40 - 1) * 2 ^ 10) rfl).bind
  intro t1 shifted
  apply (feMul_pow shifted p10 (2 ^ 50 - 1) rfl).bind
  intro t0 p50
  apply (feSq_pow p50 _ rfl).bind
  intro t1 shifted
  apply (feSqTimes_pow shifted ((2 ^ 50 - 1) * 2 ^ 50) rfl).bind
  intro t1 shifted
  apply (feMul_pow shifted p50 (2 ^ 100 - 1) rfl).bind
  intro t1 p100
  apply (feSq_pow p100 _ rfl).bind
  intro t2 shifted
  apply (feSqTimes_pow shifted ((2 ^ 100 - 1) * 2 ^ 100) rfl).bind
  intro t2 shifted
  apply (feMul_pow shifted p100 (2 ^ 200 - 1) rfl).bind
  intro t1 p200
  apply (feSqTimes_pow p200 ((2 ^ 200 - 1) * 2 ^ 50) rfl).bind
  intro t1 shifted
  apply (feMul_pow shifted p50 (2 ^ 250 - 1) rfl).bind
  intro t0 p250
  apply (feSq_pow p250 _ rfl).bind
  intro t0 shifted
  apply (feSq_pow shifted (2 ^ 252 - 4) rfl).bind
  intro t0 shifted
  exact feMul_pow shifted one _ rfl

end Powers

/-- `u * v ^ 3 * (u * v ^ 7) ^ ((q - 5) / 8)`. -/
theorem feDivpowm1_returns {u v : Fe} {x y : Field}
    (left : Represents loose u x) (right : Represents loose v y) :
    Returns (feDivpowm1 u v) fun h => Represents reduced h
      (x * y ^ 3 * (x * y ^ 7) ^ (2 ^ 252 - 3)) := by
  have wider : reduced ≤ loose := by decide
  apply (feSq_returns right).bind
  intro v2 square
  apply (feMul_returns (square.mono wider) right).bind
  intro v3 cube
  apply (feSq_returns (cube.mono wider)).bind
  intro v6 sixth
  apply (feMul_returns (sixth.mono wider) right).bind
  intro v7 seventh
  apply (feMul_returns (seventh.mono wider) left).bind
  intro uv7 base
  apply (fePow22523_returns base).bind
  intro t0 power
  apply (feMul_returns (power.mono wider) (cube.mono wider)).bind
  intro t0 scaled
  apply (feMul_returns (scaled.mono wider) left).mono
  intro h whole
  have same : (((y ^ 2 * y) ^ 2 * y) * x) = x * y ^ 7 := by ring
  rw [same] at whole
  convert whole using 1
  ring

end BlockTemplate.CryptoOps
