import BlockTemplate.Bitcoin.HeightPush
import BlockTemplate.Wire.Positional

/-!
# Base58Check

`decodeBase58Check` gets from a text to bytes through a big integer, its
hexadecimal digits and the leading ones of the text.  In positional terms it
rewrites a numeral from base 58 in base 256 and keeps the leading zeros, so
what it accepts is the encoding of what it returns.
-/

namespace BlockTemplate.BitcoinUtils

open Positional

/-- The character of a digit. -/
def base58Char (digit : Nat) : Char := base58Alphabet.getD digit '1'

/-- Base58 as it is documented: a `1` for each leading zero byte, then the
digits of the bytes as one big-endian number, without leading zeros. -/
def base58Encode (bytes : Bytes) : JsString :=
  List.replicate (bytes.takeWhile (· == 0)).length '1' ++
    ((Nat.digits 58 (leValue bytes.reverse)).reverse.map base58Char)

private theorem idxOf?_base58Char : ∀ digit < 58,
    base58Alphabet.idxOf? (base58Char digit) = some digit := by
  decide +kernel

private theorem base58Char_idxOf? {character : Char} {digit : Nat}
    (found : base58Alphabet.idxOf? character = some digit) :
    digit < 58 ∧ base58Char digit = character := by
  obtain ⟨inside, same, -⟩ := List.idxOf?_eq_some_iff.mp found
  refine ⟨inside, ?_⟩
  rw [base58Char, List.getD_eq_getElem?_getD, List.getElem?_eq_getElem inside,
    Option.getD_some]
  exact same

private theorem base58Number_eq_ok {text : JsString} {number result : Nat} :
    base58Number text number = .ok result ↔
      ∃ digits, text = digits.map base58Char ∧ (∀ digit ∈ digits, digit < 58) ∧
        result = number * 58 ^ digits.length + value 58 digits := by
  induction text generalizing number with
  | nil =>
      rw [base58Number, Except.ok.injEq]
      constructor
      · rintro rfl
        exact ⟨[], rfl, by simp, by simp [value]⟩
      · rintro ⟨digits, empty, -, rfl⟩
        rw [List.map_eq_nil_iff.mp empty.symm]
        simp [value]
  | cons character rest ih =>
      have valueCons (digit : Nat) (later : List Nat) :
          number * 58 ^ (digit :: later).length + value 58 (digit :: later) =
            (number * 58 + digit) * 58 ^ later.length + value 58 later := by
        rw [value, Nat.ofDigits_reverse_cons, value, List.length_cons]
        ring
      rw [base58Number]
      cases found : base58Alphabet.idxOf? character with
      | none =>
          constructor
          · intro impossible
            cases impossible
          · rintro ⟨digits, text, small, -⟩
            obtain ⟨digit, later, rfl, rfl, -⟩ :=
              List.map_eq_cons_iff.mp text.symm
            rw [idxOf?_base58Char digit (small digit List.mem_cons_self)]
              at found
            cases found
      | some digit =>
          obtain ⟨digitSmall, rfl⟩ := base58Char_idxOf? found
          dsimp only
          rw [ih]
          constructor
          · rintro ⟨later, rfl, laterSmall, rfl⟩
            refine ⟨digit :: later, rfl, ?_, (valueCons digit later).symm⟩
            exact List.forall_mem_cons.mpr ⟨digitSmall, laterSmall⟩
          · rintro ⟨digits, text, small, rfl⟩
            obtain ⟨same, later, rfl, sameChar, rfl⟩ :=
              List.map_eq_cons_iff.mp text.symm
            obtain ⟨sameSmall, laterSmall⟩ := List.forall_mem_cons.mp small
            have read := idxOf?_base58Char same sameSmall
            rw [sameChar, found] at read
            obtain rfl := Option.some.inj read
            exact ⟨later, rfl, laterSmall, valueCons digit later⟩

private theorem bytes_of_digits {number : Nat} (positive : 0 < number) :
    (Nat.digits 256 number).map (BitVec.ofNat 8) =
      BitVec.ofNat 8 number ::
        (Nat.digits 256 (number / 256)).map (BitVec.ofNat 8) := by
  have lowByte : BitVec.ofNat 8 (number % 256) = BitVec.ofNat 8 number := by
    apply BitVec.eq_of_toNat_eq
    simp
  rw [Nat.digits_def' (by decide) positive, List.map_cons, lowByte]

private theorem leBytes_eq_digits
    {size number : Nat} (low : 256 ^ size ≤ number)
    (high : number < 256 ^ (size + 1)) :
    leBytes (size + 1) number =
      (Nat.digits 256 number).map (BitVec.ofNat 8) := by
  have positive : 0 < number := (Nat.pow_pos (by decide)).trans_le low
  rw [leBytes, bytes_of_digits positive]
  induction size generalizing number with
  | zero =>
      have above : number / 256 = 0 := by
        rw [Nat.zero_add, pow_one] at high
        omega
      rw [above]
      rfl
  | succ size ih =>
      have lowRest : 256 ^ size ≤ number / 256 := by
        rw [Nat.le_div_iff_mul_le (by decide), ← Nat.pow_succ]
        exact low
      have highRest : number / 256 < 256 ^ (size + 1) := by
        rw [Nat.div_lt_iff_lt_mul (by decide), ← Nat.pow_succ]
        exact high
      have positiveRest : 0 < number / 256 :=
        (Nat.pow_pos (by decide)).trans_le lowRest
      rw [leBytes, bytes_of_digits positiveRest,
        ih lowRest highRest positiveRest]

/-- The bytes that `Buffer.from(hex, 'hex')` gets from the digits of a number,
with the special case of zero. -/
theorem hexBytes_eq (number : Nat) :
    (if evenHex (toRadix 16 number) = ['0', '0'] then []
      else ofHex (evenHex (toRadix 16 number))) =
        ((Nat.digits 256 number).map (BitVec.ofNat 8)).reverse := by
  by_cases zero : number = 0
  · subst zero
    rfl
  have positive : 0 < number := Nat.pos_of_ne_zero zero
  have low := Nat.pow_log_le_self 256 zero
  have high := Nat.lt_pow_succ_log_self (show 1 < 256 by decide) number
  have radix : toRadix 16 (number : Int) = Nat.toDigits 16 number := by
    rw [toRadix, if_neg (by omega), List.nil_append, Int.natAbs_natCast]
  rw [radix, evenHex_toDigits low high, ofHex_toHex, if_neg,
    leBytes_eq_digits low high]
  intro zeros
  have single := congrArg ofHex zeros
  rw [ofHex_toHex, List.reverse_eq_iff] at single
  have nothing := congrArg leValue single
  rw [leValue_leBytes, Nat.mod_eq_of_lt high] at nothing
  exact zero nothing

private theorem leValue_eq_ofDigits (bytes : Bytes) :
    leValue bytes = Nat.ofDigits 256 (bytes.map BitVec.toNat) := by
  induction bytes with
  | nil => rfl
  | cons byte rest ih => rw [leValue, List.map_cons, Nat.ofDigits_cons, ih]

/-- A letter is a leading one when its digit is a leading zero. -/
theorem leadingOnes_eq {digits : List Nat}
    (small : ∀ digit ∈ digits, digit < 58) :
    ((digits.map base58Char).takeWhile (· == '1')).length =
      leadingZeros digits := by
  have same : ∀ digit < 58, (base58Char digit == '1') = (digit == 0) := by
    decide +kernel
  induction digits with
  | nil => rfl
  | cons digit rest ih =>
      obtain ⟨digitSmall, restSmall⟩ := List.forall_mem_cons.mp small
      rw [leadingZeros, List.map_cons, List.takeWhile_cons,
        List.takeWhile_cons, same digit digitSmall]
      split
      · rw [List.length_cons, ih restSmall, List.length_cons, leadingZeros]
      · rfl

private theorem leadingZeroBytes_eq (bytes : Bytes) :
    (bytes.takeWhile (· == 0)).length =
      leadingZeros (bytes.map BitVec.toNat) := by
  have same : ∀ byte : Byte, (byte == 0) = (byte.toNat == 0) := by
    decide
  induction bytes with
  | nil => rfl
  | cons byte rest ih =>
      rw [leadingZeros, List.map_cons, List.takeWhile_cons,
        List.takeWhile_cons, same byte]
      split
      · rw [List.length_cons, ih, List.length_cons, leadingZeros]
      · rfl

private theorem base58Encode_eq (bytes : Bytes) :
    base58Encode bytes =
      (rebase 256 58 (bytes.map BitVec.toNat)).map base58Char := by
  have one : base58Char 0 = '1' := by decide +kernel
  rw [base58Encode, rebase, numeral, List.map_append, List.map_replicate, one,
    leadingZeroBytes_eq, value, leValue_eq_ofDigits, List.map_reverse,
    List.map_reverse, List.map_reverse]

/-- The bytes of a text have its number and its leading zeros. -/
theorem decodeBase58_of_digits {digits : List Nat}
    (short : digits.length ≤ maxBase58AddressLength)
    (small : ∀ digit ∈ digits, digit < 58) :
    decodeBase58 (digits.map base58Char) =
      .ok ((rebase 58 256 digits).map (BitVec.ofNat 8)) := by
  have read : base58Number (digits.map base58Char) 0 =
      .ok (value 58 digits) :=
    base58Number_eq_ok.mpr ⟨digits, rfl, small, by simp⟩
  have bytes := hexBytes_eq (value 58 digits)
  rw [decodeBase58, if_neg (by rw [List.length_map]; omega), read,
    leadingOnes_eq small]
  change Except.ok (List.replicate (leadingZeros digits) 0 ++
    if evenHex (toRadix 16 (value 58 digits)) = ['0', '0'] then []
    else ofHex (evenHex (toRadix 16 (value 58 digits)))) = _
  rw [bytes, rebase, numeral, List.map_append, List.map_replicate,
    List.map_reverse]
  rfl

private theorem toNat_ofNat_of_lt {digits : List Nat}
    (small : ∀ digit ∈ digits, digit < 256) :
    (digits.map (BitVec.ofNat 8)).map BitVec.toNat = digits := by
  rw [List.map_map]
  nth_rewrite 2 [← List.map_id digits]
  apply List.map_congr_left
  intro digit member
  rw [Function.comp_apply, BitVec.toNat_ofNat,
    Nat.mod_eq_of_lt (small digit member)]
  rfl

/-- Nothing is accepted but a text of at most 128 characters that encodes the
bytes that are returned. -/
theorem decodeBase58_eq_ok {text : JsString} {decoded : Bytes} :
    decodeBase58 text = .ok decoded ↔
      text.length ≤ maxBase58AddressLength ∧ text = base58Encode decoded := by
  constructor
  · intro accepted
    have short : text.length ≤ maxBase58AddressLength := by
      by_contra long
      rw [decodeBase58, if_pos (by omega)] at accepted
      cases accepted
    obtain ⟨number, read⟩ : ∃ number, base58Number text 0 = .ok number := by
      rw [decodeBase58, if_neg (by omega)] at accepted
      cases read : base58Number text 0 with
      | error message =>
          rw [read] at accepted
          cases accepted
      | ok number => exact ⟨number, rfl⟩
    obtain ⟨digits, rfl, small, -⟩ := base58Number_eq_ok.mp read
    rw [List.length_map] at short
    rw [decodeBase58_of_digits short small] at accepted
    obtain rfl := Except.ok.inj accepted
    have bytesSmall : ∀ byte ∈ rebase 58 256 digits, byte < 256 :=
      fun byte member => lt_of_mem_numeral (by decide) member
    rw [List.length_map, base58Encode_eq, toNat_ofNat_of_lt bytesSmall,
      rebase_rebase (by decide) small]
    exact ⟨short, rfl⟩
  · rintro ⟨short, rfl⟩
    rw [base58Encode_eq] at short ⊢
    rw [List.length_map] at short
    have small : ∀ digit ∈ rebase 256 58 (decoded.map BitVec.toNat),
        digit < 58 :=
      fun digit member => lt_of_mem_numeral (by decide) member
    have bytesSmall : ∀ byte ∈ decoded.map BitVec.toNat, byte < 256 := by
      intro byte member
      obtain ⟨source, -, rfl⟩ := List.mem_map.mp member
      exact source.isLt
    rw [decodeBase58_of_digits short small, rebase_rebase (by decide) bytesSmall,
      List.map_map]
    have same : BitVec.ofNat 8 ∘ BitVec.toNat = (id : Byte → Byte) := by
      funext byte
      simp
    rw [same, List.map_id]

private theorem mem_base58Alphabet_of_mem_encode
    {bytes : Bytes} {character : Char}
    (member : character ∈ base58Encode bytes) :
    character ∈ base58Alphabet := by
  rw [base58Encode_eq, List.mem_map] at member
  obtain ⟨digit, digitMember, rfl⟩ := member
  have small := lt_of_mem_numeral (show 1 < 58 by decide) digitMember
  exact List.isSome_idxOf?.mp (by rw [idxOf?_base58Char digit small]; rfl)

/-- At least a byte in front of four that are the first ones of its hash. -/
structure Checksummed (packages : Packages) (decoded : Bytes) : Prop where
  size : 5 ≤ decoded.length
  checksum : decoded.drop (decoded.length - 4) =
    (packages.hash256 (decoded.take (decoded.length - 4))).bytes.take 4

/-- A text is accepted exactly when it has at most 128 characters, all of them
letters, and is the encoding of bytes with their checksum, which are returned;
so different texts never give the same bytes. -/
theorem decode_base58_check_exact (packages : Packages) :
    (∀ (text : JsString) (decoded : Bytes),
      decodeBase58Check packages text = .ok decoded ↔
        text.length ≤ 128 ∧ (∀ character ∈ text, character ∈ base58Alphabet) ∧
          text = base58Encode decoded ∧ Checksummed packages decoded) ∧
    ∀ (first second : JsString) (decoded : Bytes),
      decodeBase58Check packages first = .ok decoded →
        decodeBase58Check packages second = .ok decoded → first = second := by
  have accepts : ∀ (text : JsString) (decoded : Bytes),
      decodeBase58Check packages text = .ok decoded ↔
        text.length ≤ 128 ∧ (∀ character ∈ text, character ∈ base58Alphabet) ∧
          text = base58Encode decoded ∧ Checksummed packages decoded := by
    intro text decoded
    constructor
    · intro accepted
      obtain ⟨bytes, bytesOk, accepted⟩ := except_bind_eq_ok.mp accepted
      obtain ⟨long, accepted⟩ := throwIf_bind_eq_ok.mp accepted
      obtain ⟨checked, accepted⟩ := throwIf_bind_eq_ok.mp accepted
      obtain rfl := Except.ok.inj accepted
      obtain ⟨short, rfl⟩ := decodeBase58_eq_ok.mp bytesOk
      refine ⟨short, fun character => mem_base58Alphabet_of_mem_encode, rfl, ?_⟩
      exact ⟨Nat.le_of_not_lt (of_decide_eq_false long),
        not_not.mp (of_decide_eq_false checked)⟩
    · rintro ⟨short, -, written, checksummed⟩
      refine except_bind_eq_ok.mpr
        ⟨decoded, decodeBase58_eq_ok.mpr ⟨short, written⟩, ?_⟩
      refine throwIf_bind_eq_ok.mpr
        ⟨decide_eq_false (Nat.not_lt.mpr checksummed.size), ?_⟩
      exact throwIf_bind_eq_ok.mpr
        ⟨decide_eq_false (not_not.mpr checksummed.checksum), rfl⟩
  refine ⟨accepts, ?_⟩
  intro first second decoded firstAccepted secondAccepted
  rw [((accepts first decoded).mp firstAccepted).2.2.1,
    ((accepts second decoded).mp secondAccepted).2.2.1]

end BlockTemplate.BitcoinUtils
