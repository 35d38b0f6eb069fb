import BlockTemplate.Crypto.FieldBytes
import BlockTemplate.Cryptonote.PricingRecord

/-!
# `check_key`

`ge_frombytes_vartime` reads a key as a point of the curve: it refuses a second
coordinate that is not reduced, takes a square root for the first coordinate,
and gives it the sign of the key.  `check_key` asks whether there is a point.
-/

namespace BlockTemplate.CryptoOps

open Signed Radix Edwards

/-- `ge_p3`. -/
structure GeP3 where
  x : Fe
  y : Fe
  z : Fe
  t : Fe

def feD : Fe :=
  #v[-10913610, 13857413, -15372611, 6949391, 114729, -8787816, -6275908,
    -3247719, -18696448, -12055116]

def feSqrtm1 : Fe :=
  #v[-32595792, -7943725, 9377950, 3500415, 12389472, -272473, -25146209,
    -2005654, 326686, 11406482]

section Load

variable (bytes : Bytes) (offset : Nat)

def loadByte (index : Nat) : BitVec 64 :=
  (bytes.getD (offset + index) 0).setWidth 64

def load3 : BitVec 64 :=
  loadByte bytes offset 0 ||| loadByte bytes offset 1 <<< 8 |||
    loadByte bytes offset 2 <<< 16

def load4 : BitVec 64 :=
  loadByte bytes offset 0 ||| loadByte bytes offset 1 <<< 8 |||
    loadByte bytes offset 2 <<< 16 ||| loadByte bytes offset 3 <<< 24

end Load

/-- `h0` to `h9`, before the carries. -/
def loadLimbs (s : Bytes) : Fe :=
  #v[(load4 s 0).toNat, (load3 s 4 <<< 6).toNat, (load3 s 7 <<< 5).toNat,
    (load3 s 10 <<< 3).toNat, (load3 s 13 <<< 2).toNat, (load4 s 16).toNat,
    (load3 s 20 <<< 7).toNat, (load3 s 23 <<< 5).toNat,
    (load3 s 26 <<< 4).toNat, ((load3 s 29 &&& 8388607) <<< 2).toNat]

/-- Whether the number is 2 ^ 255 - 19 or more. -/
def notCanonical (h : Fe) : Bool :=
  h.get 9 == 33554428 && h.get 8 == 268435440 && h.get 7 == 536870880 &&
    h.get 6 == 2147483520 && h.get 5 == 4294967295 && h.get 4 == 67108860 &&
    h.get 3 == 134217720 && h.get 2 == 536870880 && h.get 1 == 1073741760 &&
    h.get 0 ≥ 4294967277

/-- The carries of `fe_frombytes`. -/
def loadCarries : List (Fin 10) :=
  [9, 1, 3, 5, 7, 0, 2, 4, 6, 8]

/-- The end of `ge_frombytes_vartime`: the sign and the product. -/
def withSign (s : Bytes) (x y : Fe) : Option (Option GeP3) := do
  let negative ← feIsnegative x
  if negative ≠ ((s.getD 31 0) >>> 7).toNat then
    let nonzero ← feIsnonzero x
    if nonzero = 0 then pure none
    else
      let x ← feNeg x
      let t ← feMul x y
      pure (some { x := x, y := y, z := fe1, t := t })
  else
    let t ← feMul x y
    pure (some { x := x, y := y, z := fe1, t := t })

/-- A square root of `u / v`, if there is one. -/
def rootOfQuotient (u v : Fe) : Option (Option Fe) := do
  let x ← feDivpowm1 u v
  let vxx ← feSq x
  let vxx ← feMul vxx v
  let check ← feSub vxx u
  let differs ← feIsnonzero check
  if differs ≠ 0 then
    let check ← feAdd vxx u
    let differs ← feIsnonzero check
    if differs ≠ 0 then pure none
    else
      let x ← feMul x feSqrtm1
      pure (some x)
  else pure (some x)

/-- `ge_frombytes_vartime`; without a point it returns -1. -/
def geFrombytesVartime (s : Bytes) : Option (Option GeP3) := do
  let h := loadLimbs s
  if notCanonical h then pure none
  else
    let h ← loadCarries.foldlM radix.carryStep h
    let y ← Vector.ofFnM fun i => int32 (h.get i)
    let u ← feSq y
    let v ← feMul u feD
    let u ← feSub u fe1
    let v ← feAdd v fe1
    match ← rootOfQuotient u v with
    | none => pure none
    | some x => withSign s x y

def checkKey (key : Hash) : Option Bool := do
  let point ← geFrombytesVartime key.bytes
  pure point.isSome

/-- A word above a shorter one. -/
theorem or_shiftLeft {low high : BitVec 64} {bits : Nat}
    (short : low.toNat < 2 ^ bits) (fits : high.toNat * 2 ^ bits < 2 ^ 64) :
    (low ||| high <<< bits).toNat = low.toNat + 2 ^ bits * high.toNat := by
  rw [BitVec.toNat_or, BitVec.toNat_shiftLeft, Nat.shiftLeft_eq,
    Nat.mod_eq_of_lt fits, Nat.or_comm, Nat.mul_comm,
    ← Nat.two_pow_add_eq_or_of_lt short, Nat.add_comm]

section Load

variable (s : Bytes)

/-- The number that starts at a byte. -/
def numberAt (offset : Nat) : Nat :=
  leValue (s.drop offset)

private theorem toNat_loadByte (offset index : Nat) :
    (loadByte s offset index).toNat = (s.getD (offset + index) 0).toNat := by
  rw [loadByte, BitVec.toNat_setWidth]
  have small := (s.getD (offset + index) 0).isLt
  omega

private theorem numberAt_step (offset : Nat) :
    numberAt s offset = (s.getD offset 0).toNat + 256 * numberAt s (offset + 1) := by
  unfold numberAt
  by_cases inside : offset < s.length
  · rw [List.drop_eq_getElem_cons inside, leValue,
      List.getD_eq_getElem?_getD, List.getElem?_eq_getElem inside,
      Option.getD_some]
  · rw [List.drop_eq_nil_of_le (by omega), List.drop_eq_nil_of_le (by omega),
      List.getD_eq_getElem?_getD, List.getElem?_eq_none (by omega)]
    rfl

private theorem load3_eq (offset : Nat) :
    numberAt s offset = (load3 s offset).toNat + 2 ^ 24 * numberAt s (offset + 3) ∧
      (load3 s offset).toNat < 2 ^ 24 := by
  have b0 := (s.getD offset 0).isLt
  have b1 := (s.getD (offset + 1) 0).isLt
  have b2 := (s.getD (offset + 2) 0).isLt
  have l0 : (loadByte s offset 0).toNat = (s.getD offset 0).toNat :=
    toNat_loadByte s offset 0
  have l1 := toNat_loadByte s offset 1
  have l2 := toNat_loadByte s offset 2
  have two := @or_shiftLeft (loadByte s offset 0) (loadByte s offset 1) 8
    (by omega) (by omega)
  have three := @or_shiftLeft _ (loadByte s offset 2) 16
    (two.trans_lt (by omega)) (by omega)
  have s0 := numberAt_step s offset
  have s1 : numberAt s (offset + 1) =
      (s.getD (offset + 1) 0).toNat + 256 * numberAt s (offset + 2) :=
    numberAt_step s (offset + 1)
  have s2 : numberAt s (offset + 2) =
      (s.getD (offset + 2) 0).toNat + 256 * numberAt s (offset + 3) :=
    numberAt_step s (offset + 2)
  rw [load3, three, two]
  omega

private theorem load4_eq (offset : Nat) :
    numberAt s offset = (load4 s offset).toNat + 2 ^ 32 * numberAt s (offset + 4) ∧
      (load4 s offset).toNat < 2 ^ 32 := by
  obtain ⟨rest, small⟩ := load3_eq s offset
  have b3 := (s.getD (offset + 3) 0).isLt
  have l3 := toNat_loadByte s offset 3
  have four : (load4 s offset).toNat =
      (load3 s offset).toNat + 2 ^ 24 * (loadByte s offset 3).toNat :=
    or_shiftLeft small (by omega)
  have s3 : numberAt s (offset + 3) =
      (s.getD (offset + 3) 0).toNat + 256 * numberAt s (offset + 4) :=
    numberAt_step s (offset + 3)
  rw [four]
  omega

/-- The words that are loaded, without their shifts. -/
def words : Vector Nat 10 :=
  #v[(load4 s 0).toNat, (load3 s 4).toNat, (load3 s 7).toNat,
    (load3 s 10).toNat, (load3 s 13).toNat, (load4 s 16).toNat,
    (load3 s 20).toNat, (load3 s 23).toNat, (load3 s 26).toNat,
    (load3 s 29).toNat % 2 ^ 23]

/-- Every word is loaded from the end of the one before. -/
structure Words (w : Vector Nat 10) (number : Nat) : Prop where
  w0 : w.get 0 < 2 ^ 32
  w1 : w.get 1 < 2 ^ 24
  w2 : w.get 2 < 2 ^ 24
  w3 : w.get 3 < 2 ^ 24
  w4 : w.get 4 < 2 ^ 24
  w5 : w.get 5 < 2 ^ 32
  w6 : w.get 6 < 2 ^ 24
  w7 : w.get 7 < 2 ^ 24
  w8 : w.get 8 < 2 ^ 24
  w9 : w.get 9 < 2 ^ 23
  number : number = w.get 0 + 2 ^ 32 * w.get 1 + 2 ^ 56 * w.get 2 +
    2 ^ 80 * w.get 3 + 2 ^ 104 * w.get 4 + 2 ^ 128 * w.get 5 +
    2 ^ 160 * w.get 6 + 2 ^ 184 * w.get 7 + 2 ^ 208 * w.get 8 +
    2 ^ 232 * w.get 9

private theorem words_words (size : s.length = 32) :
    Words (words s) (leValue s % 2 ^ 255) := by
  obtain ⟨v0, w0⟩ := load4_eq s 0
  obtain ⟨v1, w1⟩ := load3_eq s 4
  obtain ⟨v2, w2⟩ := load3_eq s 7
  obtain ⟨v3, w3⟩ := load3_eq s 10
  obtain ⟨v4, w4⟩ := load3_eq s 13
  obtain ⟨v5, w5⟩ := load4_eq s 16
  obtain ⟨v6, w6⟩ := load3_eq s 20
  obtain ⟨v7, w7⟩ := load3_eq s 23
  obtain ⟨v8, w8⟩ := load3_eq s 26
  obtain ⟨v9, w9⟩ := load3_eq s 29
  have start : numberAt s 0 = leValue s := rfl
  have final : numberAt s 32 = 0 := by
    rw [numberAt, List.drop_eq_nil_of_le size.le, leValue]
  have w9' : (load3 s 29).toNat % 2 ^ 23 < 2 ^ 23 :=
    Nat.mod_lt _ (by decide)
  refine ⟨w0, w1, w2, w3, w4, w5, w6, w7, w8, w9', ?_⟩
  change leValue s % 2 ^ 255 = (load4 s 0).toNat + 2 ^ 32 * (load3 s 4).toNat +
    2 ^ 56 * (load3 s 7).toNat + 2 ^ 80 * (load3 s 10).toNat +
    2 ^ 104 * (load3 s 13).toNat + 2 ^ 128 * (load4 s 16).toNat +
    2 ^ 160 * (load3 s 20).toNat + 2 ^ 184 * (load3 s 23).toNat +
    2 ^ 208 * (load3 s 26).toNat + 2 ^ 232 * ((load3 s 29).toNat % 2 ^ 23)
  rw [final] at v9
  norm_num only [Nat.reduceAdd] at v0 v1 v2 v3 v4 v5 v6 v7 v8
  omega

theorem toNat_shiftLeft {word : BitVec 64} (short : word.toNat < 2 ^ 24)
    {bits : Nat} (few : bits ≤ 8) :
    (word <<< bits).toNat = word.toNat * 2 ^ bits := by
  have power : 2 ^ bits ≤ 2 ^ 8 := Nat.pow_le_pow_right (by decide) few
  have product : word.toNat * 2 ^ bits ≤ 2 ^ 24 * 2 ^ 8 :=
    Nat.mul_le_mul short.le power
  rw [BitVec.toNat_shiftLeft, Nat.shiftLeft_eq]
  exact Nat.mod_eq_of_lt (product.trans_lt (by decide))

private theorem load3_shiftLeft (offset : Nat) {bits : Nat} (few : bits ≤ 8) :
    (load3 s offset <<< bits).toNat = (load3 s offset).toNat * 2 ^ bits :=
  toNat_shiftLeft (load3_eq s offset).2 few

/-- The words at the positions of the limbs. -/
def shifted (w : Vector Nat 10) : Fe :=
  #v[(w.get 0 : Int), w.get 1 * 2 ^ 6, w.get 2 * 2 ^ 5, w.get 3 * 2 ^ 3,
    w.get 4 * 2 ^ 2, w.get 5, w.get 6 * 2 ^ 7, w.get 7 * 2 ^ 5,
    w.get 8 * 2 ^ 4, w.get 9 * 2 ^ 2]

private theorem loadLimbs_eq : loadLimbs s = shifted (words s) := by
  have masked : (load3 s 29 &&& 8388607).toNat =
      (load3 s 29).toNat % 2 ^ 23 := by
    rw [BitVec.toNat_and]
    exact Nat.and_two_pow_sub_one_eq_mod _ 23
  have last : (load3 s 29 &&& 8388607).toNat < 2 ^ 24 := by
    rw [masked]
    exact (Nat.mod_lt _ (by decide)).trans (by decide)
  simp only [loadLimbs, load3_shiftLeft, toNat_shiftLeft last, masked,
    Nat.reduceLeDiff, Nat.cast_mul, Nat.cast_pow, Nat.cast_ofNat]
  rfl

end Load

section Words

variable {w : Vector Nat 10} {number : Nat} (words : Words w number)

include words

private theorem value_shifted : radix.value (shifted w) = number := by
  rw [value_eq, words.number]
  change (w.get 0 : Int) + w.get 1 * 2 ^ 6 * 2 ^ 26 +
    w.get 2 * 2 ^ 5 * 2 ^ 51 + w.get 3 * 2 ^ 3 * 2 ^ 77 +
    w.get 4 * 2 ^ 2 * 2 ^ 102 + w.get 5 * 2 ^ 128 +
    w.get 6 * 2 ^ 7 * 2 ^ 153 + w.get 7 * 2 ^ 5 * 2 ^ 179 +
    w.get 8 * 2 ^ 4 * 2 ^ 204 + w.get 9 * 2 ^ 2 * 2 ^ 230 = _
  push_cast
  ring

/-- The limbs before the carries. -/
theorem shifted_bounded :
    Bounded #v[2 ^ 32, 2 ^ 30, 2 ^ 29, 2 ^ 27, 2 ^ 26, 2 ^ 32, 2 ^ 31, 2 ^ 29,
      2 ^ 28, 2 ^ 25] (shifted w) := by
  obtain ⟨w0, w1, w2, w3, w4, w5, w6, w7, w8, w9, -⟩ := words
  have word {number width : Nat} (small : number < 2 ^ width) (bits : Nat) :
      Within (2 ^ width * 2 ^ bits) ((number : Int) * 2 ^ bits) := by
    constructor
    · have nonneg : (0 : Int) ≤ number * 2 ^ bits := by positivity
      omega
    · exact_mod_cast Nat.mul_le_mul_right _ small.le
  have zero {number : Nat} (small : number < 2 ^ 32) :
      Within (2 ^ 32) (number : Int) := by
    simpa using word small 0
  intro i
  fin_cases i
  · exact zero w0
  · exact word w1 6
  · exact word w2 5
  · exact word w3 3
  · exact word w4 2
  · exact zero w5
  · exact word w6 7
  · exact word w7 5
  · exact word w8 4
  · exact word w9 2

/-- The comparison of the limbs is a comparison of the numbers. -/
theorem notCanonical_shifted :
    notCanonical (shifted w) = true ↔ prime ≤ number := by
  have gets : notCanonical (shifted w) = true ↔
      ((((((((((w.get 9 : Int) * 2 ^ 2 = 33554428 ∧
        (w.get 8 : Int) * 2 ^ 4 = 268435440) ∧
        (w.get 7 : Int) * 2 ^ 5 = 536870880) ∧
        (w.get 6 : Int) * 2 ^ 7 = 2147483520) ∧
        (w.get 5 : Int) = 4294967295) ∧
        (w.get 4 : Int) * 2 ^ 2 = 67108860) ∧
        (w.get 3 : Int) * 2 ^ 3 = 134217720) ∧
        (w.get 2 : Int) * 2 ^ 5 = 536870880) ∧
        (w.get 1 : Int) * 2 ^ 6 = 1073741760) ∧
        (w.get 0 : Int) ≥ 4294967277) := by
    simp only [notCanonical, Bool.and_eq_true, beq_iff_eq, decide_eq_true_eq]
    rfl
  obtain ⟨w0, w1, w2, w3, w4, w5, w6, w7, w8, w9, value⟩ := words
  have whole : prime = 2 ^ 255 - 19 := rfl
  rw [gets, whole]
  omega

end Words

/-- The second coordinate of a key that is not refused. -/
theorem loaded_returns {s : Bytes} (size : s.length = 32) :
    Returns (loadCarries.foldlM radix.carryStep (loadLimbs s) >>= fun h =>
        Vector.ofFnM fun i => int32 (h.get i)) fun y =>
      Represents reduced y ((leValue s % 2 ^ 255 : Nat) : Field) := by
  have words := words_words s size
  have bounds : loadCarries.foldlM radix.carryBounds
      #v[2 ^ 32, 2 ^ 30, 2 ^ 29, 2 ^ 27, 2 ^ 26, 2 ^ 32, 2 ^ 31, 2 ^ 29,
        2 ^ 28, 2 ^ 25] =
      some #v[33554432, 16777280, 33554432, 16777224, 33554432, 16777217,
        33554432, 16777248, 33554432, 16777220] := by
    decide
  rw [loadLimbs_eq]
  apply (carrySteps_returns radix (by decide) (shifted_bounded words)
    bounds).bind
  rintro h ⟨bound, turns, value⟩
  apply (int32s_returns bound (by decide)).mono
  rintro stored rfl
  rw [ofFn_get]
  refine ⟨bound.mono (by decide), ?_⟩
  rw [value, value_shifted words, Int.cast_sub, Int.cast_mul, modulus_eq_zero,
    mul_zero, sub_zero, Int.cast_natCast]

private theorem represents_feD : Represents reduced feD d := by
  have divides : radix.modulus ∣ radix.value feD * 121666 + 121665 := by
    decide
  obtain ⟨turns, product⟩ := divides
  have cast := congrArg (Int.cast : Int → Field) product
  push_cast at cast
  rw [modulus_eq_zero, zero_mul] at cast
  refine ⟨by decide, ?_⟩
  rw [d, eq_div_iff divisor_ne_zero]
  exact eq_neg_of_add_eq_zero_left cast

/-- The value of `fe_sqrtm1`. -/
def sqrtm1 : Field :=
  radix.value feSqrtm1

private theorem represents_feSqrtm1 : Represents reduced feSqrtm1 sqrtm1 :=
  ⟨by decide, rfl⟩

private theorem sqrtm1_sq : sqrtm1 ^ 2 = -1 := by
  have divides : radix.modulus ∣ radix.value feSqrtm1 ^ 2 + 1 := by
    decide
  obtain ⟨turns, product⟩ := divides
  have cast := congrArg (Int.cast : Int → Field) product
  push_cast at cast
  rw [modulus_eq_zero, zero_mul] at cast
  exact eq_neg_of_add_eq_zero_left cast

/-- What `rootOfQuotient` finds. -/
def IsRootOfQuotient (u v : Field) : Option Fe → Prop
  | none => ∀ r, v * r ^ 2 ≠ u
  | some x => ∃ r, v * r ^ 2 = u ∧ Represents reduced x r

private theorem rootOfQuotient_returns {fu fv : Fe} {u v : Field}
    (left : Represents (reduced + 1) fu u)
    (right : Represents (reduced + 1) fv v) :
    Returns (rootOfQuotient fu fv) (IsRootOfQuotient u v) := by
  have wide : reduced + 1 ≤ loose := by decide
  have wider : reduced ≤ loose := by decide
  have inside : reduced + (reduced + 1) ≤ tight := by decide
  have card : Fintype.card Field = 8 * (2 ^ 252 - 3) + 5 := ZMod.card prime
  have onlyRoot {r : Field} (root : v * r ^ 2 = u) :=
    square_root_candidate card root
  apply (feDivpowm1_returns (left.mono wide) (right.mono wide)).bind
  intro x candidate
  generalize u * v ^ 3 * (u * v ^ 7) ^ (2 ^ 252 - 3) = c
    at candidate onlyRoot
  apply (feSq_returns (candidate.mono wider)).bind
  intro xx square
  apply (feMul_returns (square.mono wider) (right.mono wide)).bind
  intro vxx product
  rw [mul_comm] at product
  apply (feSub_returns product left (by decide)).bind
  intro check difference
  rw [feIsnonzero_returns (difference.mono inside)]
  by_cases same : v * c ^ 2 = u
  · rw [if_pos (sub_eq_zero.mpr same)]
    exact Returns.pure ⟨c, same, candidate⟩
  · rw [if_neg (sub_ne_zero.mpr same)]
    apply (feAdd_returns product left (by decide)).bind
    intro check sum
    rw [feIsnonzero_returns (sum.mono inside)]
    by_cases opposite : v * c ^ 2 = -u
    · rw [if_pos (add_eq_zero_iff_eq_neg.mpr opposite)]
      apply (feMul_returns (candidate.mono wider)
        (represents_feSqrtm1.mono wider)).bind
      intro root turned
      refine Returns.pure ⟨c * sqrtm1, ?_, turned⟩
      rw [mul_pow, sqrtm1_sq]
      linear_combination -opposite
    · rw [if_neg (add_eq_zero_iff_eq_neg.not.mpr opposite)]
      apply Returns.pure
      intro r root
      exact (onlyRoot root).elim same opposite

/-- The limbs of an affine point. -/
structure GeP3.Represents (point : GeP3) (x y : Field) : Prop where
  first : CryptoOps.Represents reduced point.x x
  second : CryptoOps.Represents reduced point.y y
  denominator : CryptoOps.Represents reduced point.z 1
  product : CryptoOps.Represents reduced point.t (x * y)

/-- What `withSign` makes of the first coordinate. -/
def HasSign (sign : Nat) (x y : Field) : Option GeP3 → Prop
  | none => x = 0 ∧ sign ≠ 0
  | some point => ∃ signed, signed ^ 2 = x ^ 2 ∧ signed.val % 2 = sign ∧
      point.Represents signed y

private theorem withSign_returns
    {s : Bytes} {fx fy : Fe} {x y : Field} {sign : Nat}
    (signEq : ((s.getD 31 0) >>> 7).toNat = sign) (small : sign < 2)
    (left : Represents reduced fx x) (right : Represents reduced fy y) :
    Returns (withSign s fx fy) (HasSign sign x y) := by
  have wider : reduced ≤ loose := by decide
  have one : Represents reduced fe1 1 := represents_fe1.mono (by decide)
  have parity := feIsnegative_returns (left.mono (by decide))
  rw [withSign, parity, signEq, Option.bind_eq_bind, Option.bind_some]
  by_cases differs : x.val % 2 ≠ sign
  · rw [if_pos differs, feIsnonzero_returns (left.mono (by decide)),
      Option.bind_eq_bind, Option.bind_some]
    by_cases zero : x = 0
    · rw [if_pos zero]
      refine Returns.pure ⟨zero, ?_⟩
      rw [zero, ZMod.val_zero] at differs
      exact differs.symm
    · rw [if_neg zero]
      apply (feNeg_returns left (by decide)).bind
      intro fx opposite
      apply (feMul_returns (opposite.mono wider) (right.mono wider)).bind
      intro t product
      have turned := parity_neg zero
      exact Returns.pure ⟨-x, neg_sq x, by omega, opposite, right, one, product⟩
  · rw [if_neg differs]
    apply (feMul_returns (left.mono wider) (right.mono wider)).bind
    intro t product
    exact Returns.pure ⟨x, rfl, not_not.mp differs, left, right, one, product⟩

/-- A point for the keys of points, and none for the others. -/
def Decodes (s : Bytes) : Option GeP3 → Prop
  | none => ∀ x y, OnCurve x y → encodePoint x y ≠ s
  | some point => ∃ x y, OnCurve x y ∧ encodePoint x y = s ∧
      point.Represents x y

/-- The number of a key. -/
theorem encodePoint_eq_iff {s : Bytes} (size : s.length = 32) (x y : Field) :
    encodePoint x y = s ↔ y.val = leValue s % 2 ^ 255 ∧
      x.val % 2 = ((s.getD 31 0) >>> 7).toNat := by
  have bound : prime < 2 ^ 255 := by norm_num [prime]
  have second := ZMod.val_lt y
  have limit : leValue s < 2 ^ 256 := by
    simpa [size] using leValue_lt s
  have last := numberAt_step s 31
  have final : numberAt s (31 + 1) = 0 := by
    rw [numberAt, List.drop_eq_nil_of_le size.le, leValue]
  have split : leValue s = leValue (s.take 31) + 256 ^ 31 * numberAt s 31 := by
    conv_lhs => rw [← List.take_append_drop 31 s, leValue_append]
    rw [List.length_take, size]
    rfl
  have low := leValue_lt (s.take 31)
  rw [List.length_take, size] at low
  have sign : ((s.getD 31 0) >>> 7).toNat = leValue s / 2 ^ 255 := by
    rw [BitVec.toNat_ushiftRight, Nat.shiftRight_eq_div_pow]
    norm_num at low
    omega
  have number : encodePoint x y = s ↔
      y.val + 2 ^ 255 * (x.val % 2) = leValue s := by
    constructor
    · rintro rfl
      rw [encodePoint, leValue_leBytes]
      omega
    · intro same
      rw [encodePoint, same, ← size, leBytes_leValue]
  rw [number, sign]
  omega

/-- `ge_frombytes_vartime` inverts the encoding of points, and its arithmetic
does not overflow. -/
theorem geFrombytesVartime_returns {s : Bytes} (size : s.length = 32) :
    Returns (geFrombytesVartime s) (Decodes s) := by
  have wider : reduced ≤ loose := by decide
  have one : Represents 1 fe1 1 := represents_fe1
  have canonical : notCanonical (loadLimbs s) = true ↔
      prime ≤ leValue s % 2 ^ 255 := by
    rw [loadLimbs_eq]
    exact notCanonical_shifted (words_words s size)
  have encodes := encodePoint_eq_iff size
  rw [geFrombytesVartime]
  by_cases large : notCanonical (loadLimbs s) = true
  · rw [if_pos large]
    apply Returns.pure
    intro x y on same
    have second := ZMod.val_lt y
    rw [((encodes x y).mp same).1] at second
    exact absurd (canonical.mp large) second.not_ge
  rw [if_neg large, ← bind_assoc]
  have small : leValue s % 2 ^ 255 < prime :=
    not_le.mp (canonical.not.mp large)
  have number := ZMod.val_natCast_of_lt small
  apply (loaded_returns size).bind
  intro fy second
  generalize ((leValue s % 2 ^ 255 : Nat) : Field) = y at second number
  apply (feSq_returns (second.mono wider)).bind
  intro fu square
  apply (feMul_returns (square.mono wider) (represents_feD.mono wider)).bind
  intro fv product
  rw [mul_comm] at product
  apply (feSub_returns square one (by decide)).bind
  intro fu numerator
  apply (feAdd_returns product one (by decide)).bind
  intro fv denominator
  apply (rootOfQuotient_returns numerator denominator).bind
  rintro (_ | fx) root
  · apply Returns.pure
    intro x y' on same
    have sameY : y' = y :=
      ZMod.val_injective prime (((encodes x y').mp same).1.trans number.symm)
    subst sameY
    exact root x (square_on_curve.mp on)
  · obtain ⟨x, root, first⟩ := root
    have bit : ((s.getD 31 0) >>> 7).toNat < 2 := by
      have byte := (s.getD 31 0).isLt
      rw [BitVec.toNat_ushiftRight, Nat.shiftRight_eq_div_pow]
      omega
    apply (withSign_returns rfl bit first second).mono
    rintro (_ | point) signed
    · obtain ⟨zero, negative⟩ := signed
      intro x' y' on same
      obtain ⟨sameY, parity⟩ := (encodes x' y').mp same
      have sameY : y' = y :=
        ZMod.val_injective prime (sameY.trans number.symm)
      subst sameY
      -- The only root is 0, and it has the other sign.
      have vanishes : (d * y' ^ 2 + 1) * x' ^ 2 = 0 := by
        rw [square_on_curve.mp on, ← root, zero]
        ring
      have zero' : x' = 0 :=
        (pow_eq_zero_iff (by decide)).mp
          ((mul_eq_zero.mp vanishes).resolve_left (denominator_ne_zero on))
      rw [zero', ZMod.val_zero] at parity
      exact negative parity.symm
    · obtain ⟨x', sameSquare, parity, represents⟩ := signed
      refine ⟨x', y, ?_, (encodes x' y).mpr ⟨number, parity⟩, represents⟩
      rw [square_on_curve, sameSquare]
      exact root

/-- Every key has a result: one point, or none because no point has it. -/
theorem ge_frombytes_vartime_exact (key : Hash) :
    ∃ decoded, geFrombytesVartime key.bytes = some decoded ∧
      (decoded = none ↔ ∀ x y, OnCurve x y → encodePoint x y ≠ key.bytes) ∧
      ∀ point ∈ decoded, ∃ x y, point.Represents x y ∧
        ∀ x' y', OnCurve x' y' ∧ encodePoint x' y' = key.bytes ↔
          x' = x ∧ y' = y := by
  obtain ⟨decoded, result, decodes⟩ :=
    geFrombytesVartime_returns key.length_bytes
  refine ⟨decoded, result, ?_⟩
  rcases decoded with _ | point
  · exact ⟨iff_of_true rfl decodes,
      fun _ mem => absurd mem (Option.not_mem_none _)⟩
  · obtain ⟨x, y, on, same, represents⟩ := decodes
    refine ⟨iff_of_false (Option.some_ne_none _) fun never =>
      never x y on same, ?_⟩
    intro other mem
    obtain rfl := Option.some.inj mem
    refine ⟨x, y, represents, fun x' y' => ⟨?_, ?_⟩⟩
    · rintro ⟨on', same'⟩
      exact encodePoint_inj on' on (same'.trans same.symm)
    · rintro ⟨rfl, rfl⟩
      exact ⟨on, same⟩

/-- The keys of points. -/
def IsPoint (key : Hash) : Prop :=
  ∃ x y, OnCurve x y ∧ encodePoint x y = key.bytes

/-- `check_key` always has a result, and accepts the keys of points. -/
theorem checkKey_returns (key : Hash) :
    Returns (checkKey key) fun accepted => accepted = true ↔ IsPoint key := by
  apply (geFrombytesVartime_returns key.length_bytes).bind
  rintro (_ | point) decodes
  · apply Returns.pure
    constructor
    · rintro ⟨⟩
    · rintro ⟨x, y, on, same⟩
      exact (decodes x y on same).elim
  · apply Returns.pure
    obtain ⟨x, y, on, same, -⟩ := decodes
    exact iff_of_true rfl ⟨x, y, on, same⟩

end BlockTemplate.CryptoOps
