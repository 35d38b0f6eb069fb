import BlockTemplate.Bitcoin.RavenTemplate
import BlockTemplate.Bitcoin.RtmBalance
import BlockTemplate.Word.Rounding
import Mathlib.Data.Rat.Floor

/-!
# Difficulties as doubles

The conversions of `bigint.js` for every kind of target, the templates of
`index.js` that are no more than a difficulty, and how near the double that
the miner gets is to the quotient of base and target.  A double is its value;
all that occur are zero or far inside the normal range.
-/

namespace BlockTemplate

open Rounding

namespace BigInt

def trim (text : JsString) : JsString :=
  (((text.dropWhile isWhiteSpace).reverse).dropWhile isWhiteSpace).reverse

def radixDigits (radix : Nat) : JsString → Nat → Option Nat
  | [], value => some value
  | digit :: rest, value =>
    match hexValue digit with
    | some low =>
      if low < radix then radixDigits radix rest (radix * value + low)
      else none
    | none => none

def numeral (radix : Nat) (digits : JsString) : Option Int :=
  if digits.isEmpty then none
  else (radixDigits radix digits 0).map Int.ofNat

/-- `BigInt(text)`. -/
def ofString (text : JsString) : Option Int :=
  match trim text with
  | [] => some 0
  | '0' :: 'x' :: digits => numeral 16 digits
  | '0' :: 'X' :: digits => numeral 16 digits
  | '0' :: 'o' :: digits => numeral 8 digits
  | '0' :: 'O' :: digits => numeral 8 digits
  | '0' :: 'b' :: digits => numeral 2 digits
  | '0' :: 'B' :: digits => numeral 2 digits
  | '-' :: digits => (numeral 10 digits).map Int.neg
  | '+' :: digits => numeral 10 digits
  | digits => numeral 10 digits

/-- What `parseBigInt` tells apart.  A number is kept as its integral part, an
object as the bigint in its `value` or as what its `toString` makes of a
radix. -/
inductive Source
  | bigint (value : Int)
  | number (truncated : Int)
  | notFinite
  | buffer (bytes : Bytes)
  | string (text : JsString)
  | boxed (value : Int)
  | object (toString : Nat → JsString)
  | boolean (value : Bool)
  | missing

def ofDigits (base : Option Nat) (text : JsString) : Option Int :=
  ofString (if base = some 16 then ['0', 'x'] ++ text else text)

/-- `parseBigInt(value, base)`. -/
def parse (base : Option Nat) : Source → Option Int
  | .bigint value => some value
  | .number truncated => some truncated
  | .notFinite => none
  | .buffer bytes =>
    ofString (['0', 'x'] ++ if bytes.isEmpty then ['0', '0'] else toHex bytes)
  | .string text => ofDigits base text
  | .boxed value => some value
  | .object toString => ofDigits base (toString (base.getD 10))
  | .boolean value => some (if value then 1 else 0)
  | .missing => some 0

def parsePositive (base : Option Nat) (value : Source) (label : String) :
    Except String Nat :=
  match parse base value with
  | none => .error ("Invalid " ++ label)
  | some parsed =>
    if parsed ≤ 0 then .error ("Invalid " ++ label) else .ok parsed.toNat

/-- `Number(quotient) / Number(DIFF_PRECISION)`. -/
def scaledNumber (quotient : Nat) : ℚ :=
  nearest 53 ((toDouble quotient : ℚ) / (toDouble diffPrecision : ℚ))

end BigInt

namespace Index

open BigInt

def stripHexPrefix (value : JsValue) (label : String) :
    Except String JsString :=
  match value with
  | .string ('0' :: 'x' :: digits) => .ok digits
  | .string text => .ok text
  | _ => .error ("Invalid " ++ label)

/-- What `parseInt` gives. -/
inductive ParsedInt
  | notANumber
  | infinite (negative : Bool)
  | finite (value : Int)
deriving DecidableEq

def ParsedInt.neg : ParsedInt → ParsedInt
  | notANumber => notANumber
  | infinite negative => infinite !negative
  | finite value => finite (-value)

/-- No double is as large. -/
def doubleLimit : Int := 2 ^ 1024

/-- The digits of `parseInt(text)` behind the sign. -/
def parseIntDigits (radix : Nat) (text : JsString) : ParsedInt :=
  let digits := text.takeWhile fun char =>
    (hexValue char).any fun low => low < radix
  match numeral radix digits with
  | none => .notANumber
  | some value =>
    if toDouble value < doubleLimit then .finite (toDouble value)
    else .infinite false

/-- `parseInt(text)`. -/
def parseIntText (text : JsString) : ParsedInt :=
  let unsigned : JsString → ParsedInt
    | '0' :: 'x' :: digits => parseIntDigits 16 digits
    | '0' :: 'X' :: digits => parseIntDigits 16 digits
    | digits => parseIntDigits 10 digits
  match text.dropWhile isWhiteSpace with
  | '-' :: digits => (unsigned digits).neg
  | '+' :: digits => unsigned digits
  | digits => unsigned digits

/-- The answer to `eth_getWork`. -/
structure EthRpcData where
  hash : JsString
  seedHash : JsString
  target : JsValue
  height : JsString

structure EthTemplate where
  hash : JsString
  seedHash : JsString
  difficulty : Int
  height : ParsedInt

def EthBlockTemplate (rpcData : EthRpcData) : Except String EthTemplate := do
  let digits ← stripHexPrefix rpcData.target "ETH target"
  let target ← parsePositiveBigInt digits "ETH target"
  pure
    { hash := rpcData.hash.drop 2
      seedHash := rpcData.seedHash.drop 2
      difficulty := toDouble (baseDiff / target : Nat)
      height := parseIntText rpcData.height }

structure ErgRpcData where
  msg : JsString
  pk : JsString
  b : Source
  h : JsString

structure ErgTemplate where
  hash : JsString
  hash2 : JsString
  difficulty : Int
  height : ParsedInt

def ErgBlockTemplate (rpcData : ErgRpcData) : Except String ErgTemplate := do
  let target ← parsePositive none rpcData.b "ERG target"
  pure
    { hash := rpcData.msg
      hash2 := rpcData.pk
      difficulty := toDouble (baseDiff / target : Nat)
      height := parseIntText rpcData.h }

end Index

/-- `Number` of a natural number is its nearest double. -/
theorem toDouble_eq_nearest (value : Nat) :
    (toDouble value : ℚ) = nearest 53 (value : ℚ) := by
  rcases value.eq_zero_or_pos with rfl | positive
  · simp [toDouble]
  by_cases small : value < 2 ^ 53
  · have kept := @nearest_exact ℚ _ _ _ _ 53 value small 0
    rw [zpow_zero, mul_one] at kept
    rw [kept, toDouble_exact (by simpa using small), Int.cast_natCast]
  · have high : 53 ≤ value.log2 :=
      (Nat.le_log2 positive.ne').mpr (not_lt.mp small)
    have place : unit 53 (value : ℚ) = ((2 ^ (value.log2 - 52) : ℕ) : ℚ) := by
      rw [unit, Int.log_natCast, ← Nat.log2_eq_log_two]
      push_cast
      rw [← zpow_natCast, Nat.cast_sub (by omega)]
      congr 1
      push_cast
      ring
    have magnitude : (value : Int).natAbs = value := rfl
    have sign : (value : Int).sign = 1 :=
      Int.sign_eq_one_of_pos (by exact_mod_cast positive)
    rw [nearest, place, toEven_natCast_div _ (Nat.two_pow_pos _), toDouble,
      magnitude, sign, one_mul]
    split_ifs <;> push_cast <;> rfl

namespace BigInt

private theorem scaledNumber_eq (quotient : Nat) :
    scaledNumber quotient =
      nearest 53 (nearest 53 (quotient : ℚ) / diffPrecision) := by
  have exactPrecision : toDouble diffPrecision = diffPrecision :=
    toDouble_exact (by decide)
  rw [scaledNumber, toDouble_eq_nearest, exactPrecision, Int.cast_natCast]

private theorem scaledNumber_zero : scaledNumber 0 = 0 := by
  simp [scaledNumber_eq]

private theorem precision_pos : (0 : ℚ) < diffPrecision := by
  norm_num [diffPrecision]

private theorem roundedQuotient_pos {quotient : Nat} (positive : 0 < quotient) :
    (0 : ℚ) < nearest 53 (quotient : ℚ) / diffPrecision :=
  div_pos (nearest_pos (by decide) (Nat.cast_pos.mpr positive)) precision_pos

private theorem scaledNumber_mono {low high : Nat} (ordered : low ≤ high) :
    scaledNumber low ≤ scaledNumber high := by
  rw [scaledNumber_eq, scaledNumber_eq]
  rcases low.eq_zero_or_pos with rfl | positive
  · rcases high.eq_zero_or_pos with rfl | above
    · exact le_rfl
    · simpa using (nearest_pos (by decide) (roundedQuotient_pos above)).le
  · apply nearest_mono (by decide) (roundedQuotient_pos positive)
    apply div_le_div_of_nonneg_right _ precision_pos.le
    apply nearest_mono (by decide) (Nat.cast_pos.mpr positive)
    exact_mod_cast ordered

/-- Both roundings together. -/
theorem abs_scaledNumber_sub_le (quotient : Nat) :
    |scaledNumber quotient - quotient / diffPrecision| ≤
      quotient / diffPrecision / 2 ^ 51 := by
  rcases quotient.eq_zero_or_pos with rfl | positive
  · simp [scaledNumber_zero]
  · have first := abs_nearest_sub_le 53 (x := (quotient : ℚ))
      (Nat.cast_pos.mpr positive)
    have second := abs_nearest_sub_le 53 (roundedQuotient_pos positive)
    rw [← scaledNumber_eq] at second
    rw [abs_le] at first second ⊢
    have split : nearest 53 (quotient : ℚ) / diffPrecision =
        quotient / diffPrecision +
          (nearest 53 (quotient : ℚ) - quotient) / diffPrecision := by
      ring
    have near := div_le_div_of_nonneg_right first.2 precision_pos.le
    have far := div_le_div_of_nonneg_right first.1 precision_pos.le
    have quotientPos : (0 : ℚ) < quotient / diffPrecision :=
      div_pos (Nat.cast_pos.mpr positive) precision_pos
    rw [split] at second
    generalize scaledNumber quotient = rounded at *
    generalize (nearest 53 (quotient : ℚ) - quotient) / diffPrecision = lost at *
    rw [neg_div, div_right_comm] at far
    rw [div_right_comm] at near
    generalize (quotient : ℚ) / diffPrecision = exact at *
    constructor <;> linarith [second.1, second.2]

/-- Quotients that doubles can hold are rounded once, as a decimal with nine
places is. -/
theorem scaledNumber_of_small {quotient : Nat} (small : quotient < 2 ^ 53) :
    scaledNumber quotient = nearest 53 ((quotient : ℚ) / diffPrecision) := by
  have kept := @nearest_exact ℚ _ _ _ _ 53 quotient small 0
  rw [zpow_zero, mul_one] at kept
  rw [scaledNumber_eq, kept]

example : scaledNumber 1999999999 =
    nearest 53 (1999999999 / 1000000000) := by
  simpa [diffPrecision] using
    @scaledNumber_of_small 1999999999 (by decide)

private theorem least_scaledNumber {quotient : Nat} (positive : 0 < quotient) :
    (2 : ℚ) ^ (-30 : ℤ) ≤ scaledNumber quotient := by
  have kept := @nearest_exact ℚ _ _ _ _ 53 1 (by decide) (-30)
  rw [Nat.cast_one, one_mul] at kept
  apply le_trans _ (scaledNumber_mono (Nat.succ_le_of_lt positive))
  rw [scaledNumber_of_small (by decide), ← kept]
  apply nearest_mono (by decide) (zpow_pos two_pos _)
  norm_num [diffPrecision]

private theorem scaledNumber_eq_zero_iff {quotient : Nat} :
    scaledNumber quotient = 0 ↔ quotient = 0 := by
  constructor
  · intro zero
    by_contra nonzero
    have least := least_scaledNumber (Nat.pos_of_ne_zero nonzero)
    rw [zero] at least
    exact absurd least (not_le.mpr (zpow_pos two_pos _))
  · rintro rfl
    exact scaledNumber_zero

private theorem parsePositiveBigInt_eq_ok {value : JsString} {label : String}
    {parsed : Nat} :
    parsePositiveBigInt value label = .ok parsed ↔
      parseBigInt value = some parsed ∧ 0 < parsed := by
  rw [parsePositiveBigInt]
  cases parseBigInt value with
  | none => simp
  | some number =>
      cases number with
      | zero => simp; omega
      | succ number => simp; omega

private theorem parsePositive_eq_ok {base : Option Nat} {value : Source}
    {label : String} {parsed : Nat} :
    parsePositive base value label = .ok parsed ↔
      parse base value = some (parsed : Int) ∧ 0 < parsed := by
  rw [parsePositive]
  cases parse base value with
  | none => simp
  | some number =>
      simp only [Option.some.injEq]
      split_ifs with negative
      · simp
        omega
      · simp only [Except.ok.injEq]
        omega

private theorem difficultyToFloat_eq_ok {base : Nat} {target : JsString}
    {label : String} {scaled : Nat} :
    difficultyToFloat base target label = .ok scaled ↔
      ∃ divisor : Nat, parseBigInt target = some divisor ∧ 0 < divisor ∧
        scaled = base * diffPrecision / divisor := by
  rw [difficultyToFloat]
  cases parsed : parsePositiveBigInt target label with
  | error message =>
      simp only [Except.map, reduceCtorEq, false_iff]
      rintro ⟨divisor, found, positive, -⟩
      rw [parsePositiveBigInt_eq_ok.mpr ⟨found, positive⟩] at parsed
      cases parsed
  | ok divisor =>
      obtain ⟨found, positive⟩ := parsePositiveBigInt_eq_ok.mp parsed
      simp only [Except.map, Except.ok.injEq]
      constructor
      · intro same
        exact ⟨divisor, found, positive, same.symm⟩
      · rintro ⟨other, parsedTo, -, rfl⟩
        rw [found] at parsedTo
        cases parsedTo
        rfl

/-- What a difficulty of a base and a target has to do with their quotient. -/
structure Measures (base target : Nat) (difficulty : ℚ) : Prop where
  near : |difficulty - base / target| ≤
    base / target / 2 ^ 51 + 1 / diffPrecision
  zero_iff : difficulty = 0 ↔ base * diffPrecision < target
  normal : difficulty ≠ 0 →
    2 ^ (-30 : ℤ) ≤ difficulty ∧ difficulty ≤ 2 * base

private theorem measures_scaledNumber (base : Nat) {target : Nat}
    (positive : 0 < target) :
    Measures base target
      (scaledNumber (base * diffPrecision / target)) := by
  have divisor : (0 : ℚ) < target := Nat.cast_pos.mpr positive
  have rounded :=
    abs_scaledNumber_sub_le (base * diffPrecision / target)
  have lower : ((base * diffPrecision / target : Nat) : ℚ) / diffPrecision ≤
      base / target := by
    rw [div_le_div_iff₀ precision_pos divisor]
    exact_mod_cast Nat.div_mul_le_self _ _
  have upper : (base : ℚ) / target ≤
      ((base * diffPrecision / target : Nat) : ℚ) / diffPrecision +
        1 / diffPrecision := by
    rw [← add_div, div_le_div_iff₀ divisor precision_pos]
    rw [mul_comm _ (target : ℚ)]
    exact_mod_cast (Nat.lt_mul_div_succ _ positive).le
  constructor
  · rw [abs_le] at rounded ⊢
    constructor <;> linarith [rounded.1, rounded.2]
  · rw [scaledNumber_eq_zero_iff, Nat.div_eq_zero_iff]
    omega
  · intro nonzero
    rw [ne_eq, scaledNumber_eq_zero_iff] at nonzero
    refine ⟨least_scaledNumber (Nat.pos_of_ne_zero nonzero), ?_⟩
    have whole : (base : ℚ) / target ≤ base :=
      div_le_self (Nat.cast_nonneg _) (Nat.one_le_cast.mpr positive)
    linarith [(abs_le.mp rounded).2]

private theorem measures_of_difficultyToFloat
    {base scaled : Nat} {target : JsString}
    {label : String} (divided : difficultyToFloat base target label =
      .ok scaled) :
    ∃ divisor, parseBigInt target = some divisor ∧
      Measures base divisor (scaledNumber scaled) := by
  obtain ⟨divisor, parsed, positive, rfl⟩ :=
    difficultyToFloat_eq_ok.mp divided
  exact ⟨divisor, parsed, measures_scaledNumber base positive⟩

/-- The double that Raven and RTM templates carry goes up where the target
goes down, and is the quotient of base and target up to a billionth and two
roundings. -/
theorem difficulty_follows_target {base easy hard : Nat}
    {easyTarget hardTarget : JsString} {easyLabel hardLabel : String}
    (easyOk : difficultyToFloat base easyTarget easyLabel = .ok easy)
    (hardOk : difficultyToFloat base hardTarget hardLabel = .ok hard) :
    ∃ above below : Nat,
      parseBigInt easyTarget = some above ∧
      parseBigInt hardTarget = some below ∧
      (below ≤ above → scaledNumber easy ≤ scaledNumber hard) ∧
      Measures base above (scaledNumber easy) ∧
      Measures base below (scaledNumber hard) := by
  obtain ⟨above, easyParsed, abovePos, rfl⟩ :=
    difficultyToFloat_eq_ok.mp easyOk
  obtain ⟨below, hardParsed, belowPos, rfl⟩ :=
    difficultyToFloat_eq_ok.mp hardOk
  refine ⟨above, below, easyParsed, hardParsed, ?_,
    measures_scaledNumber base abovePos, measures_scaledNumber base belowPos⟩
  intro harder
  apply scaledNumber_mono
  exact Nat.div_le_div_left harder belowPos

theorem difficulty_follows_target_raven :
    scaledNumber (baseRavenDiff * diffPrecision / 16) ≤
      scaledNumber (baseRavenDiff * diffPrecision / 15) := by
  obtain ⟨above, below, easyParsed, hardParsed, ordered, -⟩ :=
    @difficulty_follows_target baseRavenDiff _ _ ['1', '0'] ['f'] "Raven target"
      "Raven target" rfl rfl
  cases easyParsed
  cases hardParsed
  exact ordered (by decide)

end BigInt

/-- The difficulty of a Raven template is measured against its base. -/
theorem Index.ravenBlockTemplate_measures
    {packages : Packages} {rpcData : RavenRpcData} {poolAddress : JsString}
    {cache after : SeedCache} {template : RavenTemplate}
    (built : (RavenBlockTemplate packages rpcData poolAddress).runOn cache =
      (.ok template, after)) :
    ∃ target, BigInt.parseBigInt rpcData.target = some target ∧
      BigInt.Measures BigInt.baseRavenDiff target
        (BigInt.scaledNumber template.difficulty) := by
  obtain ⟨assembled, _, -, built⟩ := Stateful.runOn_bind_eq_ok built
  obtain ⟨updated, _, -, built⟩ := Stateful.runOn_bind_eq_ok built
  obtain ⟨difficulty, _, divided, built⟩ := Stateful.runOn_bind_eq_ok built
  cases built
  exact BigInt.measures_of_difficultyToFloat
    (Stateful.runOn_ofExcept_eq_ok divided).1

/-- The difficulty of an RTM template is measured against its base. -/
theorem Rtm.rtmBlockTemplate_measures
    {packages : Packages} {rpcData : RtmRpcData} {poolAddress : JsValue}
    {now : Int} {template : RtmTemplate}
    (built : RtmBlockTemplate packages rpcData poolAddress now =
      .ok template) :
    ∃ target, BigInt.parseBigInt rpcData.target = some target ∧
      BigInt.Measures BigInt.baseDiff target
        (BigInt.scaledNumber template.difficulty) := by
  obtain ⟨hasDevReward, -, built⟩ := except_bind_eq_ok.mp built
  obtain ⟨version, -, built⟩ := except_bind_eq_ok.mp built
  obtain ⟨part1, -, built⟩ := except_bind_eq_ok.mp built
  obtain ⟨part2, -, built⟩ := except_bind_eq_ok.mp built
  obtain ⟨blob1, -, built⟩ := except_bind_eq_ok.mp built
  obtain ⟨blob2, -, built⟩ := except_bind_eq_ok.mp built
  obtain ⟨header, -, built⟩ := except_bind_eq_ok.mp built
  obtain ⟨txs, -, built⟩ := except_bind_eq_ok.mp built
  obtain ⟨txn, -, built⟩ := except_bind_eq_ok.mp built
  obtain ⟨difficulty, divided, built⟩ := except_bind_eq_ok.mp built
  cases built
  exact BigInt.measures_of_difficultyToFloat divided

namespace BigInt

/-- White space in front of the digits is not skipped. -/
theorem trim_prefixed (value : JsString) :
    trim ('0' :: 'x' :: value) =
      '0' :: 'x' :: (value.reverse.dropWhile isWhiteSpace).reverse := by
  have front : ('0' :: 'x' :: value).dropWhile isWhiteSpace =
      '0' :: 'x' :: value := List.dropWhile_cons_of_neg (by decide)
  have back : ['x', '0'].dropWhile isWhiteSpace = ['x', '0'] := by decide
  rw [trim, front, List.reverse_cons, List.reverse_cons, List.append_assoc,
    List.dropWhile_append]
  split_ifs with only
  · rw [List.isEmpty_iff.mp only]
    simp [back]
  · simp

private theorem radixDigits_sixteen (digits : JsString) (value : Nat) :
    radixDigits 16 digits value = hexDigits digits value := by
  induction digits generalizing value with
  | nil => rfl
  | cons digit digits induction =>
      rw [radixDigits, hexDigits]
      cases found : hexValue digit with
      | none => rfl
      | some low =>
          have small : low < 16 := by
            unfold hexValue at found
            simp only at found
            split_ifs at found <;> simp at found <;> omega
          simp only [small, if_true, induction]

/-- Texts are read as the hexadecimal reader reads them. -/
theorem parse_string (value : JsString) :
    parse (some 16) (.string value) = (parseBigInt value).map Int.ofNat := by
  rw [parse, ofDigits, if_pos rfl, ofString, parseBigInt]
  simp only [List.cons_append, List.nil_append, trim_prefixed]
  rw [numeral, radixDigits_sixteen]
  split_ifs <;> rfl

private theorem hexDigits_toHex (bytes : Bytes) (value : Nat) :
    hexDigits (toHex bytes) value =
      some (256 ^ bytes.length * value + leValue bytes.reverse) := by
  induction bytes generalizing value with
  | nil => simp [toHex, hexDigits, leValue]
  | cons byte bytes induction =>
      have high : byte.toNat / 16 < 16 := by omega
      have low : byte.toNat % 16 < 16 := Nat.mod_lt _ (by decide)
      have whole : 16 * (16 * value + byte.toNat / 16) + byte.toNat % 16 =
          256 * value + byte.toNat := by omega
      simp only [toHex, hexDigits, hexValue_hexDigit high,
        hexValue_hexDigit low, induction, whole, List.reverse_cons,
        leValue_append, List.length_reverse, List.length_cons, leValue]
      congr 1
      ring

private theorem not_isWhiteSpace_hexDigit :
    ∀ value < 16, isWhiteSpace (hexDigit value) = false := by
  decide

private theorem visible_toHex (bytes : Bytes) :
    ∀ char ∈ toHex bytes, isWhiteSpace char = false := by
  induction bytes with
  | nil => simp [toHex]
  | cons byte bytes induction =>
      have high : byte.toNat / 16 < 16 := by omega
      have low : byte.toNat % 16 < 16 := Nat.mod_lt _ (by decide)
      simp only [toHex, List.forall_mem_cons]
      exact ⟨not_isWhiteSpace_hexDigit _ high, not_isWhiteSpace_hexDigit _ low,
        induction⟩

private theorem dropWhile_visible {characters : JsString}
    (visible : ∀ char ∈ characters, isWhiteSpace char = false) :
    characters.dropWhile isWhiteSpace = characters := by
  cases characters with
  | nil => rfl
  | cons char others =>
      apply List.dropWhile_cons_of_neg
      simp [visible char List.mem_cons_self]

private theorem parseBigInt_toHex {bytes : Bytes} (nonempty : bytes ≠ []) :
    parseBigInt (toHex bytes) = some (leValue bytes.reverse) := by
  have kept : (toHex bytes).reverse.dropWhile isWhiteSpace =
      (toHex bytes).reverse :=
    dropWhile_visible fun char member =>
      visible_toHex bytes char (List.mem_reverse.mp member)
  have digits : (toHex bytes).isEmpty = false := by
    cases bytes with
    | nil => exact absurd rfl nonempty
    | cons byte bytes => rfl
  rw [parseBigInt, kept, List.reverse_reverse]
  simp [digits, hexDigits_toHex]

/-- A buffer is read as its bytes, the most significant first. -/
theorem parse_buffer (base : Option Nat) (bytes : Bytes) :
    parse base (.buffer bytes) = some (leValue bytes.reverse : Int) := by
  cases bytes with
  | nil => rfl
  | cons byte bytes =>
      have asText : parse base (.buffer (byte :: bytes)) =
          parse (some 16) (.string (toHex (byte :: bytes))) := rfl
      rw [asText, parse_string, parseBigInt_toHex (List.cons_ne_nil _ _)]
      rfl

/-- What a difficulty without decimals has to do with the quotient of
`BASE_DIFF` and the target. -/
structure Counts (target : Nat) (difficulty : Int) : Prop where
  near : |(difficulty : ℚ) - baseDiff / target| ≤
    baseDiff / target / 2 ^ 53 + 1
  whole : 2 ^ 203 ≤ target → difficulty = baseDiff / target
  zero_iff : difficulty = 0 ↔ baseDiff < target

private theorem toDouble_mono {low high : Nat} (ordered : low ≤ high) :
    toDouble low ≤ toDouble high := by
  rw [← Int.cast_le (R := ℚ), toDouble_eq_nearest, toDouble_eq_nearest]
  rcases low.eq_zero_or_pos with rfl | positive
  · rcases high.eq_zero_or_pos with rfl | above
    · exact le_rfl
    · simpa using (nearest_pos (by decide) (Nat.cast_pos.mpr above)).le
  · apply nearest_mono (by decide) (Nat.cast_pos.mpr positive)
    exact_mod_cast ordered

private theorem counts_toDouble {target : Nat} (positive : 0 < target) :
    Counts target (toDouble (baseDiff / target : Nat)) := by
  have divisor : (0 : ℚ) < target := Nat.cast_pos.mpr positive
  have lower : ((baseDiff / target : Nat) : ℚ) ≤ baseDiff / target := by
    rw [le_div_iff₀ divisor]
    exact_mod_cast Nat.div_mul_le_self _ _
  have upper : (baseDiff : ℚ) / target ≤ ((baseDiff / target : Nat) : ℚ) + 1 := by
    rw [div_le_iff₀ divisor, mul_comm]
    exact_mod_cast (Nat.lt_mul_div_succ _ positive).le
  have zeroIff : toDouble (baseDiff / target : Nat) = 0 ↔
      baseDiff / target = 0 := by
    constructor
    · intro zero
      by_contra nonzero
      have least := toDouble_mono (Nat.one_le_iff_ne_zero.mpr nonzero)
      rw [zero] at least
      exact absurd least (by decide)
    · intro zero
      rw [zero]
      rfl
  constructor
  · rw [toDouble_eq_nearest]
    rcases (baseDiff / target).eq_zero_or_pos with zero | whole
    · rw [zero] at upper ⊢
      simp only [Nat.cast_zero, nearest_zero, zero_add] at upper ⊢
      rw [zero_sub, abs_neg, abs_of_nonneg (by positivity)]
      exact upper.trans (le_add_of_nonneg_left (by positivity))
    · have positive : (0 : ℚ) < (baseDiff / target : Nat) :=
        Nat.cast_pos.mpr whole
      have rounded := abs_nearest_sub_le 53 positive
      have less := div_le_div_of_nonneg_right lower
        (pow_nonneg (zero_le_two (α := ℚ)) 53)
      rw [abs_le] at rounded ⊢
      constructor <;> linarith [rounded.1, rounded.2]
  · intro large
    have small : baseDiff / target < 2 ^ 53 := by
      rw [Nat.div_lt_iff_lt_mul positive]
      calc baseDiff < 2 ^ 53 * 2 ^ 203 := by decide
        _ ≤ 2 ^ 53 * target := Nat.mul_le_mul_left _ large
    rw [toDouble_exact (Int.natAbs_natCast _ ▸ small), Int.natCast_div]
  · rw [zeroIff, Nat.div_eq_zero_iff]
    omega

end BigInt

namespace Index

open BigInt

private theorem ethBlockTemplate_eq_ok
    {rpcData : EthRpcData} {template : EthTemplate}
    (built : EthBlockTemplate rpcData = .ok template) :
    ∃ (digits : JsString) (target : Nat),
      stripHexPrefix rpcData.target "ETH target" = .ok digits ∧
      parse (some 16) (.string digits) = some (target : Int) ∧ 0 < target ∧
      template.difficulty = toDouble (baseDiff / target : Nat) := by
  obtain ⟨digits, stripped, built⟩ := except_bind_eq_ok.mp built
  obtain ⟨target, parsed, built⟩ := except_bind_eq_ok.mp built
  obtain ⟨found, positive⟩ := parsePositiveBigInt_eq_ok.mp parsed
  cases built
  refine ⟨digits, target, stripped, ?_, positive, rfl⟩
  rw [parse_string, found]
  rfl

private theorem ergBlockTemplate_eq_ok
    {rpcData : ErgRpcData} {template : ErgTemplate}
    (built : ErgBlockTemplate rpcData = .ok template) :
    ∃ target : Nat,
      parse none rpcData.b = some (target : Int) ∧ 0 < target ∧
      template.difficulty = toDouble (baseDiff / target : Nat) := by
  obtain ⟨target, parsed, built⟩ := except_bind_eq_ok.mp built
  obtain ⟨found, positive⟩ := parsePositive_eq_ok.mp parsed
  cases built
  exact ⟨target, found, positive, rfl⟩

/-- Both kinds of template measure work on one scale: in whatever form the
targets come, the lower one never has the lower difficulty, and each
difficulty is the rounded quotient of its target.  The target in a buffer is the
number of its bytes, the most significant first. -/
theorem eth_erg_difficulties {ethData : EthRpcData} {ergData : ErgRpcData}
    {ethTemplate : EthTemplate} {ergTemplate : ErgTemplate}
    (ethBuilt : EthBlockTemplate ethData = .ok ethTemplate)
    (ergBuilt : ErgBlockTemplate ergData = .ok ergTemplate) :
    ∃ (digits : JsString) (ethTarget ergTarget : Nat),
      stripHexPrefix ethData.target "ETH target" = .ok digits ∧
      parse (some 16) (.string digits) = some (ethTarget : Int) ∧
      parse none ergData.b = some (ergTarget : Int) ∧
      (ethTarget ≤ ergTarget →
        ergTemplate.difficulty ≤ ethTemplate.difficulty) ∧
      (ergTarget ≤ ethTarget →
        ethTemplate.difficulty ≤ ergTemplate.difficulty) ∧
      Counts ethTarget ethTemplate.difficulty ∧
      Counts ergTarget ergTemplate.difficulty ∧
      ∀ bytes, ergData.b = .buffer bytes →
        ergTarget = leValue bytes.reverse := by
  obtain ⟨digits, ethTarget, stripped, ethParsed, ethPos, ethWork⟩ :=
    ethBlockTemplate_eq_ok ethBuilt
  obtain ⟨ergTarget, ergParsed, ergPos, ergWork⟩ :=
    ergBlockTemplate_eq_ok ergBuilt
  rw [ethWork, ergWork]
  refine ⟨digits, ethTarget, ergTarget, stripped, ethParsed, ergParsed, ?_, ?_,
    counts_toDouble ethPos, counts_toDouble ergPos, ?_⟩
  · intro lower
    exact toDouble_mono (Nat.div_le_div_left lower ethPos)
  · intro lower
    exact toDouble_mono (Nat.div_le_div_left lower ergPos)
  · intro bytes buffer
    rw [buffer, parse_buffer, Option.some_inj] at ergParsed
    exact_mod_cast ergParsed.symm

def sampleGetWork : EthRpcData where
  hash := ['0', 'x', '1', '2']
  seedHash := ['0', 'x', '3', '4']
  target := .string ['0', 'x', 'f', 'f']
  height := ['1', '6']

theorem eth_erg_difficulties_sample :
    ∃ (ethTemplate : EthTemplate) (ergTemplate : ErgTemplate),
      EthBlockTemplate sampleGetWork = .ok ethTemplate ∧
      ErgBlockTemplate ⟨['m'], ['p'], .buffer [1, 0], ['7']⟩ =
        .ok ergTemplate ∧
      ergTemplate.difficulty ≤ ethTemplate.difficulty := by
  have ethBuilt : EthBlockTemplate sampleGetWork = .ok _ := rfl
  have ergBuilt :
      ErgBlockTemplate ⟨['m'], ['p'], .buffer [1, 0], ['7']⟩ = .ok _ := rfl
  obtain ⟨digits, ethTarget, ergTarget, stripped, ethParsed, ergParsed,
    ordered, -⟩ := eth_erg_difficulties ethBuilt ergBuilt
  cases stripped
  cases ethParsed
  cases ergParsed
  exact ⟨_, _, ethBuilt, ergBuilt, ordered (by decide)⟩

end Index

end BlockTemplate
