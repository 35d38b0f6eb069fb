import BlockTemplate.Crypto.FieldElement

/-!
# Bytes of field elements

`fe_tobytes` writes the least non-negative number of a field element.  It finds
the quotient by 2 ^ 255 - 19 from the highest limb on its way through all of
them, and then carries without rounding, so that every limb ends up as a digit.
-/

namespace BlockTemplate.CryptoOps

open Signed Radix Edwards

/-- The limbs with their widths. -/
def widthLimbs (h : Fe) : List (Nat × Int) :=
  [(26, h.get 0), (25, h.get 1), (26, h.get 2), (25, h.get 3), (26, h.get 4),
    (25, h.get 5), (26, h.get 6), (25, h.get 7), (26, h.get 8), (25, h.get 9)]

/-- The digits of `h - (2 ^ 255 - 19) * q`. -/
def feDigits (h : Fe) : Option (List Int) := do
  let scaled ← int32 (19 * h.get 9)
  let rounded ← int32 (scaled + 2 ^ 24)
  let q ← Limbs.quotient (rounded >>> (25 : Nat)) (widthLimbs h)
  let scaled ← int32 (19 * q)
  let h0 ← int32 (h.get 0 + scaled)
  Limbs.digits 0 (widthLimbs (put h 0 h0))

section Bytes

variable (h : Int) (right : Nat)

/-- `h >> right`. -/
def byteOf : Byte :=
  ((BitVec.ofInt 32 h).sshiftRight right).setWidth 8

/-- `(h >> right) | (next << left)`, where the shift to the left fits. -/
def byteAcross (next : Int) (left : Nat) : Option Byte := do
  let moved ← int32 (next * 2 ^ left)
  pure (((BitVec.ofInt 32 h).sshiftRight right |||
    BitVec.ofInt 32 moved).setWidth 8)

/-- `(h >> right) | (next << left)`, where the shift to the left may lose the
upper bits of its 32. -/
def byteWrapped (next : Int) (left : Nat) : Byte :=
  ((BitVec.ofInt 32 h).sshiftRight right |||
    BitVec.ofInt 32 next <<< left).setWidth 8

end Bytes

/-- The first five digits fill 16 bytes.  The fifth has up to 26 bits, and
`h4 << 6` needs not fit. -/
def lowBytes (h0 h1 h2 h3 h4 : Int) : Option Bytes := do
  let s3 ← byteAcross h0 24 h1 2
  let s6 ← byteAcross h1 22 h2 3
  let s9 ← byteAcross h2 21 h3 5
  pure [byteOf h0 0, byteOf h0 8, byteOf h0 16, s3,
    byteOf h1 6, byteOf h1 14, s6,
    byteOf h2 5, byteOf h2 13, s9,
    byteOf h3 3, byteOf h3 11, byteWrapped h3 19 h4 6,
    byteOf h4 2, byteOf h4 10, byteOf h4 18]

/-- The other five fill 16 bytes but for the highest bit. -/
def highBytes (h5 h6 h7 h8 h9 : Int) : Option Bytes := do
  let s19 ← byteAcross h5 24 h6 1
  let s22 ← byteAcross h6 23 h7 3
  let s25 ← byteAcross h7 21 h8 4
  let s28 ← byteAcross h8 20 h9 6
  pure [byteOf h5 0, byteOf h5 8, byteOf h5 16, s19,
    byteOf h6 7, byteOf h6 15, s22,
    byteOf h7 5, byteOf h7 13, s25,
    byteOf h8 4, byteOf h8 12, s28,
    byteOf h9 2, byteOf h9 10, byteOf h9 18]

def digitBytes : List Int → Option Bytes
  | [h0, h1, h2, h3, h4, h5, h6, h7, h8, h9] => do
    let low ← lowBytes h0 h1 h2 h3 h4
    let high ← highBytes h5 h6 h7 h8 h9
    pure (low ++ high)
  | _ => none

def feTobytes (h : Fe) : Option Bytes := do
  let digits ← feDigits h
  digitBytes digits

/-- 1 or 0. -/
def feIsnonzero (f : Fe) : Option Int := do
  let s ← feTobytes f
  pure (((((s.foldl (· ||| ·) 0).toNat : Int) - 1) >>> (8 : Nat)) + 1)

/-- The lowest bit. -/
def feIsnegative (f : Fe) : Option Nat := do
  let s ← feTobytes f
  pure (s.headD 0 &&& 1).toNat

private theorem shiftedRight
    {digit : Nat} (right : Nat) (small : digit < 2 ^ 31) :
    ((BitVec.ofInt 32 digit).sshiftRight right).toNat = digit / 2 ^ right := by
  have word : (BitVec.ofInt 32 digit).toNat = digit := by
    rw [BitVec.ofInt_natCast, BitVec.toNat_ofNat]
    omega
  have positive : (BitVec.ofInt 32 digit).msb = false := by
    rw [BitVec.msb_eq_false_iff_two_mul_lt, word]
    omega
  rw [BitVec.sshiftRight_eq_of_msb_false positive, BitVec.toNat_ushiftRight,
    word, Nat.shiftRight_eq_div_pow]

private theorem toNat_byteOf
    {digit : Nat} (right : Nat) (small : digit < 2 ^ 31) :
    (byteOf digit right).toNat = digit / 2 ^ right % 256 := by
  rw [byteOf, BitVec.toNat_setWidth, shiftedRight right small]

private theorem byteAcross_fits {h : Int} {right next left : Nat}
    (fits : next * 2 ^ left < 2 ^ 31) :
    byteAcross h right next left = some (byteWrapped h right next left) := by
  have inside : -2 ^ 31 ≤ (next : Int) * 2 ^ left ∧
      (next : Int) * 2 ^ left < 2 ^ 31 := by
    constructor
    · exact le_trans (by norm_num) (mul_nonneg (Int.natCast_nonneg next)
        (by positivity))
    · exact_mod_cast fits
  have moved : BitVec.ofInt 32 ((next : Int) * 2 ^ left) =
      BitVec.ofInt 32 (next : Int) <<< left := by
    apply BitVec.eq_of_toNat_eq
    have cast : (next : Int) * 2 ^ left = ((next * 2 ^ left : Nat) : Int) := by
      push_cast
      rfl
    rw [cast, BitVec.toNat_shiftLeft, BitVec.ofInt_natCast,
      BitVec.ofInt_natCast, BitVec.toNat_ofNat, BitVec.toNat_ofNat,
      Nat.shiftLeft_eq, Nat.mod_mul_mod]
  rw [byteAcross, int32_eq inside, Option.bind_eq_bind, Option.bind_some,
    moved]
  rfl

private theorem toNat_byteWrapped {digit right next left : Nat}
    (small : digit < 2 ^ 31) (few : digit / 2 ^ right < 2 ^ left) :
    (byteWrapped digit right next left).toNat =
      (digit / 2 ^ right + 2 ^ left * next) % 256 := by
  have moved : (BitVec.ofInt 32 (next : Int) <<< left).toNat % 2 ^ 8 =
      2 ^ left * next % 2 ^ 8 := by
    rw [BitVec.toNat_shiftLeft, BitVec.ofInt_natCast, BitVec.toNat_ofNat,
      Nat.shiftLeft_eq, Nat.mul_comm,
      Nat.mod_mod_of_dvd _ (by decide : 2 ^ 8 ∣ 2 ^ 32), Nat.mul_mod,
      Nat.mod_mod_of_dvd _ (by decide : 2 ^ 8 ∣ 2 ^ 32), ← Nat.mul_mod]
  rw [byteWrapped, BitVec.toNat_setWidth, BitVec.toNat_or,
    shiftedRight right small, Nat.or_mod_two_pow, moved,
    ← Nat.or_mod_two_pow, Nat.or_comm, ← Nat.two_pow_add_eq_or_of_lt few,
    Nat.add_comm]

/-- The first half of the bytes comes from the first five digits. -/
theorem lowBytes_returns {n0 n1 n2 n3 n4 : Nat}
    (s0 : n0 < 2 ^ 26) (s1 : n1 < 2 ^ 25) (s2 : n2 < 2 ^ 26)
    (s3 : n3 < 2 ^ 25) (s4 : n4 < 2 ^ 26) :
    Returns (lowBytes n0 n1 n2 n3 n4) fun bytes =>
      bytes.length = 16 ∧ leValue bytes =
        n0 + 2 ^ 26 * n1 + 2 ^ 51 * n2 + 2 ^ 77 * n3 + 2 ^ 102 * n4 := by
  have l0 : n0 < 2 ^ 31 := by omega
  have l1 : n1 < 2 ^ 31 := by omega
  have l2 : n2 < 2 ^ 31 := by omega
  have l3 : n3 < 2 ^ 31 := by omega
  have l4 : n4 < 2 ^ 31 := by omega
  have a0 := @toNat_byteWrapped n0 24 n1 2 l0 (by omega)
  have a1 := @toNat_byteWrapped n1 22 n2 3 l1 (by omega)
  have a2 := @toNat_byteWrapped n2 21 n3 5 l2 (by omega)
  have a3 := @toNat_byteWrapped n3 19 n4 6 l3 (by omega)
  unfold lowBytes
  rw [byteAcross_fits (by omega), byteAcross_fits (by omega),
    byteAcross_fits (by omega)]
  refine ⟨_, rfl, rfl, ?_⟩
  simp only [leValue, a0, a1, a2, a3, toNat_byteOf _ l0, toNat_byteOf _ l1,
    toNat_byteOf _ l2, toNat_byteOf _ l3, toNat_byteOf _ l4]
  clear a0 a1 a2 a3 l0 l1 l2 l3 l4
  omega

/-- The second half comes from the other five. -/
theorem highBytes_returns {n5 n6 n7 n8 n9 : Nat}
    (s5 : n5 < 2 ^ 25) (s6 : n6 < 2 ^ 26) (s7 : n7 < 2 ^ 25)
    (s8 : n8 < 2 ^ 26) (s9 : n9 < 2 ^ 25) :
    Returns (highBytes n5 n6 n7 n8 n9) fun bytes =>
      bytes.length = 16 ∧ leValue bytes =
        n5 + 2 ^ 25 * n6 + 2 ^ 51 * n7 + 2 ^ 76 * n8 + 2 ^ 102 * n9 := by
  have l5 : n5 < 2 ^ 31 := by omega
  have l6 : n6 < 2 ^ 31 := by omega
  have l7 : n7 < 2 ^ 31 := by omega
  have l8 : n8 < 2 ^ 31 := by omega
  have l9 : n9 < 2 ^ 31 := by omega
  have a5 := @toNat_byteWrapped n5 24 n6 1 l5 (by omega)
  have a6 := @toNat_byteWrapped n6 23 n7 3 l6 (by omega)
  have a7 := @toNat_byteWrapped n7 21 n8 4 l7 (by omega)
  have a8 := @toNat_byteWrapped n8 20 n9 6 l8 (by omega)
  unfold highBytes
  rw [byteAcross_fits (by omega), byteAcross_fits (by omega),
    byteAcross_fits (by omega), byteAcross_fits (by omega)]
  refine ⟨_, rfl, rfl, ?_⟩
  simp only [leValue, a5, a6, a7, a8, toNat_byteOf _ l5, toNat_byteOf _ l6,
    toNat_byteOf _ l7, toNat_byteOf _ l8, toNat_byteOf _ l9]
  clear a5 a6 a7 a8 l5 l6 l7 l8 l9
  omega

private theorem natural_of_isDigit {width : Nat} {digit : Int}
    (isDigit : Limbs.IsDigit width digit) :
    ∃ number : Nat, digit = number ∧ number < 2 ^ width := by
  obtain ⟨nonneg, below⟩ := isDigit
  lift digit to Nat using nonneg
  exact ⟨digit, rfl, by exact_mod_cast below⟩

/-- The widths of the limbs. -/
def widths : List Nat := [26, 25, 26, 25, 26, 25, 26, 25, 26, 25]

private theorem digitBytes_eq {found : List Int}
    (isDigit : List.Forall₂ Limbs.IsDigit widths found) :
    digitBytes found =
      some (leBytes 32 (Limbs.horner (widths.zip found)).toNat) := by
  unfold widths at isDigit
  rcases isDigit with _ | ⟨b0, _ | ⟨b1, _ | ⟨b2, _ | ⟨b3, _ | ⟨b4, _ | ⟨b5,
    _ | ⟨b6, _ | ⟨b7, _ | ⟨b8, _ | ⟨b9, _ | _⟩⟩⟩⟩⟩⟩⟩⟩⟩⟩
  obtain ⟨n0, rfl, s0⟩ := natural_of_isDigit b0
  obtain ⟨n1, rfl, s1⟩ := natural_of_isDigit b1
  obtain ⟨n2, rfl, s2⟩ := natural_of_isDigit b2
  obtain ⟨n3, rfl, s3⟩ := natural_of_isDigit b3
  obtain ⟨n4, rfl, s4⟩ := natural_of_isDigit b4
  obtain ⟨n5, rfl, s5⟩ := natural_of_isDigit b5
  obtain ⟨n6, rfl, s6⟩ := natural_of_isDigit b6
  obtain ⟨n7, rfl, s7⟩ := natural_of_isDigit b7
  obtain ⟨n8, rfl, s8⟩ := natural_of_isDigit b8
  obtain ⟨n9, rfl, s9⟩ := natural_of_isDigit b9
  obtain ⟨low, lowFound, lowLength, lowValue⟩ :=
    lowBytes_returns s0 s1 s2 s3 s4
  obtain ⟨high, highFound, highLength, highValue⟩ :=
    highBytes_returns s5 s6 s7 s8 s9
  have value : leValue (low ++ high) =
      (Limbs.horner
        (widths.zip [n0, n1, n2, n3, n4, n5, n6, n7, n8, n9])).toNat := by
    rw [leValue_append, lowLength, lowValue, highValue]
    simp only [widths, List.zip_cons_cons, List.zip_nil_left, Limbs.horner]
    omega
  have length : (low ++ high).length = 32 := by
    rw [List.length_append, lowLength, highLength]
  rw [digitBytes, lowFound, Option.bind_eq_bind, Option.bind_some, highFound,
    Option.bind_some, Option.pure_def, ← value, ← length, leBytes_leValue]

/-- The number below the prime, from the quotient that `fe_tobytes` finds. -/
theorem reduce_eq {value low high carry q : Int}
    (split : value = low + 2 ^ 230 * high)
    (lowBound : -2 ^ 231 < low ∧ low < 2 ^ 231)
    (highBound : Within (2 ^ 26) high)
    (carryEq : carry = (19 * high + 2 ^ 24) / 2 ^ 25)
    (qEq : q = (carry + value) / 2 ^ 255) :
    (value + 19 * q) % 2 ^ 255 = value % prime := by
  obtain ⟨highLow, highHigh⟩ := highBound
  norm_num at highLow highHigh
  have cast : (prime : Int) = 2 ^ 255 - 19 := by norm_num [prime]
  have nonneg : 0 ≤ value - (2 ^ 255 - 19) * q := by omega
  have below : value - (2 ^ 255 - 19) * q < 2 ^ 255 - 19 := by omega
  have plus : value + 19 * q =
      value - (2 ^ 255 - 19) * q + 2 ^ 255 * q := by ring
  have whole : value =
      value - (2 ^ 255 - 19) * q + (2 ^ 255 - 19) * q := by ring
  rw [cast, plus, Int.add_mul_emod_self_left,
    Int.emod_eq_of_lt nonneg (by omega)]
  conv_rhs => rw [whole, Int.add_mul_emod_self_left]
  exact (Int.emod_eq_of_lt nonneg below).symm

/-- 1.1 * 2 ^ 25: what `fe_tobytes` takes. -/
def tight : Nat := 36909875

private theorem horner_widthLimbs (h : Fe) :
    Limbs.horner (widthLimbs h) = radix.value h := by
  rw [value_eq]
  simp only [widthLimbs, Limbs.horner]
  ring

private theorem small_widthLimbs
    {h : Fe} (inside : ∀ i, Within (2 ^ 29) (h.get i)) :
    Limbs.Small (widthLimbs h) := by
  simp only [Limbs.Small, widthLimbs, List.forall_mem_cons, List.not_mem_nil,
    false_implies, implies_true, inside, and_true]
  decide

/-- What is below the highest limb. -/
theorem value_split {h : Fe} (bounded : Bounded (limbBounds tight) h) :
    ∃ low, radix.value h = low + 2 ^ 230 * h.get 9 ∧
      -2 ^ 231 < low ∧ low < 2 ^ 231 := by
  have even := limbs_within bounded
  have odd {i : Fin 10} (parity : i.val % 2 = 1) := odd_within bounded parity
  obtain ⟨l0, u0⟩ := even 0
  obtain ⟨l1, u1⟩ := @odd 1 rfl
  obtain ⟨l2, u2⟩ := even 2
  obtain ⟨l3, u3⟩ := @odd 3 rfl
  obtain ⟨l4, u4⟩ := even 4
  obtain ⟨l5, u5⟩ := @odd 5 rfl
  obtain ⟨l6, u6⟩ := even 6
  obtain ⟨l7, u7⟩ := @odd 7 rfl
  obtain ⟨l8, u8⟩ := even 8
  norm_num [tight] at l0 u0 l1 u1 l2 u2 l3 u3 l4 u4 l5 u5 l6 u6 l7 u7 l8 u8
  refine ⟨radix.value h - 2 ^ 230 * h.get 9, by ring, ?_, ?_⟩
  · rw [value_eq]
    linarith
  · rw [value_eq]
    linarith

/-- The limbs of the least non-negative number. -/
theorem feDigits_returns {h : Fe} {x : Field}
    (represents : Represents tight h x) :
    Returns (feDigits h) fun found =>
      List.Forall₂ Limbs.IsDigit widths found ∧
        Limbs.horner (widths.zip found) = x.val := by
  have within := limbs_within represents.bounded
  have inside (i : Fin 10) : Within (2 ^ 29) (h.get i) :=
    (within i).mono (by norm_num [tight])
  have last : Within tight (h.get 9) := odd_within represents.bounded rfl
  have half : Within (2 ^ 24) (2 ^ 24) := by decide
  have scaled : Within (19 * tight) (19 * h.get 9) := last.scaled 19
  have rounded := scaled.add half
  have carry := Limbs.within_shifted (rounded.mono (by norm_num [tight]))
    (by decide : 0 < 25)
  obtain ⟨low, split, lowBound⟩ := value_split represents.bounded
  have quotient := Limbs.quotient_eq (small_widthLimbs inside) carry
  rw [horner_widthLimbs] at quotient
  have highBound : Within (2 ^ 26) (h.get 9) := last.mono (by norm_num [tight])
  have least := reduce_eq split lowBound highBound rfl rfl
  have qBound : Within 3 (((19 * h.get 9 + 2 ^ 24) / 2 ^ 25 + radix.value h) /
      2 ^ 255) := by
    obtain ⟨lastLow, lastHigh⟩ := highBound
    norm_num at lastLow lastHigh
    constructor
    · norm_num
      omega
    · norm_num
      omega
  change _ = some
    (((19 * h.get 9 + 2 ^ 24) / 2 ^ 25 + radix.value h) / 2 ^ 255) at quotient
  generalize ((19 * h.get 9 + 2 ^ 24) / 2 ^ 25 + radix.value h) / 2 ^ 255 = q
    at quotient least qBound
  have turned : Within (19 * 3) (19 * q) := qBound.scaled 19
  have first := (within 0).add turned
  have changed (i : Fin 10) :
      Within (2 ^ 29) ((put h 0 (h.get 0 + 19 * q)).get i) := by
    rw [get_put]
    split
    · exact first.mono (by norm_num [tight])
    · exact inside i
  have value : radix.value (put h 0 (h.get 0 + 19 * q)) =
      radix.value h + 19 * q := by
    rw [value_put, position_zero]
    ring
  unfold feDigits
  simp only [Option.bind_eq_bind]
  rw [scaled.int32 (by norm_num [tight]), Option.bind_some,
    rounded.int32 (by norm_num [tight]), Option.bind_some,
    Limbs.shiftRight_eq, quotient, Option.bind_some,
    turned.int32 (by norm_num), Option.bind_some,
    first.int32 (by norm_num [tight]), Option.bind_some]
  have zero : Within (2 ^ 29) 0 := by decide
  apply (Limbs.digits_returns (small_widthLimbs changed) zero).mono
  rintro found ⟨isDigit, total⟩
  refine ⟨isDigit, ?_⟩
  rw [zero_add, horner_widthLimbs, value] at total
  change Limbs.horner (widths.zip found) = (radix.value h + 19 * q) % 2 ^ 255
    at total
  rw [total, least, ← represents.value, ZMod.val_intCast]

/-- The bytes of the least non-negative number. -/
theorem feTobytes_returns {h : Fe} {x : Field}
    (represents : Represents tight h x) :
    feTobytes h = some (leBytes 32 x.val) := by
  obtain ⟨found, digits, isDigit, value⟩ := feDigits_returns represents
  rw [feTobytes, digits, Option.bind_eq_bind, Option.bind_some,
    digitBytes_eq isDigit, value, Int.toNat_natCast]

private theorem byte_toNat_eq_zero {byte : Byte} : byte.toNat = 0 ↔ byte = 0 :=
  ⟨fun zero => BitVec.eq_of_toNat_eq zero, fun zero => congrArg _ zero⟩

private theorem foldl_or_eq_zero {bytes : Bytes} {start : Byte} :
    bytes.foldl (· ||| ·) start = 0 ↔ start = 0 ∧ leValue bytes = 0 := by
  induction bytes generalizing start with
  | nil => simp [leValue]
  | cons byte rest ih =>
      have either : start ||| byte = 0 ↔ start = 0 ∧ byte = 0 :=
        BitVec.or_eq_zero_iff
      rw [List.foldl_cons, ih, either, leValue, and_assoc,
        Nat.add_eq_zero_iff, Nat.mul_eq_zero, byte_toNat_eq_zero]
      simp

theorem feIsnonzero_returns {h : Fe} {x : Field}
    (represents : Represents tight h x) :
    feIsnonzero h = some (if x = 0 then 0 else 1) := by
  have small : x.val < 256 ^ 32 :=
    (ZMod.val_lt x).trans (by norm_num [prime])
  have zero : (leBytes 32 x.val).foldl (· ||| ·) 0 = 0 ↔ x = 0 := by
    rw [foldl_or_eq_zero, leValue_leBytes, Nat.mod_eq_of_lt small,
      ZMod.val_eq_zero]
    simp
  rw [feIsnonzero, feTobytes_returns represents, Option.bind_eq_bind,
    Option.bind_some, Option.pure_def]
  generalize (leBytes 32 x.val).foldl (· ||| ·) 0 = all at zero
  congr 1
  by_cases isZero : x = 0
  · rw [if_pos isZero, zero.mpr isZero]
    rfl
  · rw [if_neg isZero]
    have positive : all.toNat ≠ 0 := by
      rw [Ne, byte_toNat_eq_zero]
      exact fun same => isZero (zero.mp same)
    have bound := all.isLt
    rw [Limbs.shiftRight_eq]
    omega

theorem feIsnegative_returns {h : Fe} {x : Field}
    (represents : Represents tight h x) :
    feIsnegative h = some (x.val % 2) := by
  rw [feIsnegative, feTobytes_returns represents, Option.bind_eq_bind,
    Option.bind_some, Option.pure_def]
  congr 1
  change (BitVec.ofNat 8 x.val &&& 1).toNat = x.val % 2
  rw [BitVec.toNat_and, BitVec.toNat_ofNat]
  change x.val % 2 ^ 8 &&& 2 ^ 1 - 1 = x.val % 2
  rw [Nat.and_two_pow_sub_one_eq_mod]
  omega

/-- Bytes are equal exactly for equal elements, and they spell the least
number. -/
theorem fe_tobytes_canonical {f g : Fe}
    (left : Bounded (limbBounds tight) f)
    (right : Bounded (limbBounds tight) g) :
    (∃ s, feTobytes f = some s ∧ s.length = 32 ∧ leValue s < prime ∧
      (prime : Int) ∣ radix.value f - leValue s) ∧
    (feTobytes f = feTobytes g ↔
      (prime : Int) ∣ radix.value f - radix.value g) := by
  have first := feTobytes_returns ⟨left, rfl⟩
  have second := feTobytes_returns ⟨right, rfl⟩
  have number (x : Field) : leValue (leBytes 32 x.val) = x.val := by
    rw [leValue_leBytes]
    exact Nat.mod_eq_of_lt ((ZMod.val_lt x).trans (by norm_num [prime]))
  constructor
  · refine ⟨_, first, length_leBytes _ _, ?_, ?_⟩
    · rw [number]
      exact ZMod.val_lt _
    · rw [number, ← ZMod.intCast_zmod_eq_zero_iff_dvd]
      push_cast
      rw [ZMod.natCast_zmod_val, sub_self]
  · rw [first, second, Option.some_inj, ← ZMod.intCast_zmod_eq_zero_iff_dvd,
      Int.cast_sub, sub_eq_zero]
    constructor
    · intro same
      apply ZMod.val_injective prime
      rw [← number, same, number]
    · intro same
      rw [same]

/-- Two elements that are the prime apart. -/
theorem fe_tobytes_canonical_apart :
    (∃ s, feTobytes (put fe0 9 (2 ^ 24)) = some s ∧ s.length = 32 ∧
      leValue s < prime ∧
      (prime : Int) ∣ radix.value (put fe0 9 (2 ^ 24)) - leValue s) ∧
    feTobytes (put fe0 9 (2 ^ 24)) =
      feTobytes (put (put fe0 0 19) 9 (-2 ^ 24)) := by
  obtain ⟨written, same⟩ := @fe_tobytes_canonical (put fe0 9 (2 ^ 24))
    (put (put fe0 0 19) 9 (-2 ^ 24)) (by decide) (by decide)
  have apart : radix.value (put fe0 9 (2 ^ 24)) -
      radix.value (put (put fe0 0 19) 9 (-2 ^ 24)) = prime := by
    decide
  exact ⟨written, same.mpr (apart ▸ dvd_rfl)⟩

end BlockTemplate.CryptoOps
