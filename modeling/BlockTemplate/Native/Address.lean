import BlockTemplate.Native.Base58
import BlockTemplate.Cryptonote.PricingRecord

/-!
# Decoding of addresses

`address_decode` and `address_decode_integrated` of `main.cc`, from the checked
buffer argument on.  The two differ in the record they parse the data of an
address as.  A tag comes back as a number only for an address whose record
parses and whose keys are valid; other data comes back with its tag in front.
-/

namespace BlockTemplate

open Serializer

structure AccountPublicAddress where
  spendPublicKey : PublicKey
  viewPublicKey : PublicKey

structure IntegratedAddress where
  adr : AccountPublicAddress
  paymentId : Blob 8

def AccountPublicAddress.serializer :
    Serializer AccountPublicAddress AccountPublicAddress := do
  let spendPublicKey ← field AccountPublicAddress.spendPublicKey (blob 32)
  let viewPublicKey ← field AccountPublicAddress.viewPublicKey (blob 32)
  return { spendPublicKey, viewPublicKey }

def IntegratedAddress.serializer :
    Serializer IntegratedAddress IntegratedAddress := do
  let adr ← field IntegratedAddress.adr AccountPublicAddress.serializer
  let paymentId ← field IntegratedAddress.paymentId (blob 8)
  return { adr, paymentId }

def uint64beToBlob (num : BitVec 64) : Bytes :=
  [(num >>> 56 &&& 0xff).setWidth 8, (num >>> 48 &&& 0xff).setWidth 8,
    (num >>> 40 &&& 0xff).setWidth 8, (num >>> 32 &&& 0xff).setWidth 8,
    (num >>> 24 &&& 0xff).setWidth 8, (num >>> 16 &&& 0xff).setWidth 8,
    (num >>> 8 &&& 0xff).setWidth 8, (num &&& 0xff).setWidth 8]

/-- The return value of a decoder. -/
inductive DecodedAddress where
  | undefined
  | number (value : Nat)
  | buffer (data : Bytes)
deriving DecidableEq

section

variable (cnFastHash : Bytes → Hash) (checkKey : PublicKey → Bool)

/-- What the two decoders share: `codec` parses the data of the address, and
`account` gives the keys of the parsed record. -/
def decodeAddressAs {Adr : Type} (codec : Codec Adr)
    (account : Adr → AccountPublicAddress) (input : Bytes) : DecodedAddress :=
  match Base58.decodeAddr cnFastHash input with
  | none => .undefined
  | some (addrPrefix, data) =>
    let valid := (codec.parse data).any fun adr =>
      checkKey (account adr).spendPublicKey &&
        checkKey (account adr).viewPublicKey
    if !valid then
      if data.isEmpty then .undefined
      else .buffer (uint64beToBlob addrPrefix ++ data)
    else if addrPrefix.toNat > 0xffffffff then .undefined
    else .number (addrPrefix.setWidth 32).toNat

def addressDecode (input : Bytes) : DecodedAddress :=
  decodeAddressAs cnFastHash checkKey AccountPublicAddress.serializer id input

def addressDecodeIntegrated (input : Bytes) : DecodedAddress :=
  decodeAddressAs cnFastHash checkKey IntegratedAddress.serializer
    IntegratedAddress.adr input

end

instance AccountPublicAddress.localSerializer :
    Local AccountPublicAddress.serializer := by
  unfold serializer
  infer_instance

instance AccountPublicAddress.positiveSerializer :
    Positive AccountPublicAddress.serializer := by
  unfold serializer
  infer_instance

instance IntegratedAddress.localSerializer :
    Local IntegratedAddress.serializer := by
  unfold serializer
  infer_instance

instance IntegratedAddress.positiveSerializer :
    Positive IntegratedAddress.serializer := by
  unfold serializer
  infer_instance

theorem AccountPublicAddress.reads_iff {adr : AccountPublicAddress}
    {bytes : Bytes} :
    AccountPublicAddress.serializer.Reads adr bytes ↔
      bytes = adr.spendPublicKey.bytes ++ adr.viewPublicKey.bytes := by
  simp only [serializer, reads_bind, reads_field, reads_iff_encode, reads_pure]
  constructor
  · rintro ⟨spend, _, _, rfl, rfl, view, _, _, rfl, rfl, rfl, rfl⟩
    rw [List.append_nil]
  · rintro rfl
    exact ⟨_, _, _, rfl, rfl, _, _, _, (List.append_nil _).symm, rfl, rfl, rfl⟩

theorem IntegratedAddress.reads_iff {adr : IntegratedAddress}
    {bytes : Bytes} :
    IntegratedAddress.serializer.Reads adr bytes ↔
      bytes = adr.adr.spendPublicKey.bytes ++ adr.adr.viewPublicKey.bytes ++
        adr.paymentId.bytes := by
  simp only [serializer, reads_bind, reads_field, reads_iff_encode, reads_pure,
    AccountPublicAddress.reads_iff]
  constructor
  · rintro ⟨account, _, _, rfl, rfl, paymentId, _, _, rfl, rfl, rfl, rfl⟩
    rw [List.append_nil]
  · rintro rfl
    exact ⟨_, _, _, rfl, rfl, _, _, _, (List.append_nil _).symm, rfl, rfl, rfl⟩

private theorem shifted_byte (num : BitVec 64) (shift : Nat) :
    (num >>> shift &&& 0xff).setWidth 8 =
      BitVec.ofNat 8 (num.toNat / 2 ^ shift) := by
  apply BitVec.eq_of_toNat_eq
  have low : num.toNat / 2 ^ shift &&& 255 = num.toNat / 2 ^ shift % 256 :=
    Nat.and_two_pow_sub_one_eq_mod _ 8
  rw [BitVec.toNat_setWidth, BitVec.toNat_and, BitVec.toNat_ushiftRight,
    Nat.shiftRight_eq_div_pow, BitVec.toNat_ofNat]
  exact (congrArg (· % 256) low).trans (Nat.mod_mod _ _)

private theorem uint64beToBlob_eq (num : BitVec 64) :
    uint64beToBlob num = (leBytes 8 num.toNat).reverse := by
  have lowest := shifted_byte num 0
  rw [BitVec.ushiftRight_zero, Nat.pow_zero, Nat.div_one] at lowest
  simp only [uint64beToBlob, shifted_byte, lowest, leBytes, List.reverse_cons,
    List.reverse_nil, List.nil_append, List.cons_append, Nat.div_div_eq_div_mul,
    Nat.reducePow, Nat.reduceMul]

/-- The tag in front of a buffer can be told from what follows it. -/
theorem uint64beToBlob_append_inj {first second : BitVec 64}
    {firstData secondData : Bytes}
    (same : uint64beToBlob first ++ firstData =
      uint64beToBlob second ++ secondData) :
    first = second ∧ firstData = secondData := by
  obtain ⟨tags, data⟩ := List.append_inj same rfl
  refine ⟨?_, data⟩
  rw [uint64beToBlob_eq, uint64beToBlob_eq, List.reverse_inj] at tags
  exact (encode_append_inj uint64 (congrArg (· ++ []) tags)).1

/-- Both keys of an account pass the check. -/
def AccountPublicAddress.Valid (checkKey : PublicKey → Bool)
    (account : AccountPublicAddress) : Prop :=
  checkKey account.spendPublicKey = true ∧
    checkKey account.viewPublicKey = true

section

variable {cnFastHash : Bytes → Hash} {checkKey : PublicKey → Bool}
  {Adr : Type} {codec : Serializer Adr Adr}
  {account : Adr → AccountPublicAddress} {input : Bytes}

private theorem decodeAddressAs_eq_buffer {data : Bytes}
    (decoded : decodeAddressAs cnFastHash checkKey codec account input =
      .buffer data) :
    ∃ addrPrefix payload, data = uint64beToBlob addrPrefix ++ payload ∧
      input = Base58.encodeAddr cnFastHash addrPrefix payload := by
  unfold decodeAddressAs at decoded
  split at decoded
  · cases decoded
  rename_i addrPrefix payload text
  dsimp only at decoded
  split at decoded
  · split at decoded
    · cases decoded
    · rename_i nonempty
      rw [List.isEmpty_iff] at nonempty
      cases decoded
      exact ⟨addrPrefix, payload, rfl,
        (Base58.decodeAddr_eq_some_iff nonempty).mp text⟩
  · split at decoded <;> cases decoded

/-- A buffer determines the text it was decoded from. -/
theorem decodeAddressAs_buffer_inj {other data : Bytes}
    (first : decodeAddressAs cnFastHash checkKey codec account input =
      .buffer data)
    (second : decodeAddressAs cnFastHash checkKey codec account other =
      .buffer data) :
    input = other := by
  obtain ⟨firstPrefix, firstPayload, rfl, rfl⟩ :=
    decodeAddressAs_eq_buffer first
  obtain ⟨secondPrefix, secondPayload, same, rfl⟩ :=
    decodeAddressAs_eq_buffer second
  obtain ⟨rfl, rfl⟩ := uint64beToBlob_append_inj same
  rfl

variable [Local codec]

private theorem parse_any_iff {data : Bytes} :
    ((codec.parse data).any fun adr =>
      checkKey (account adr).spendPublicKey &&
        checkKey (account adr).viewPublicKey) = true ↔
      ∃ adr, codec.Reads adr data ∧ (account adr).Valid checkKey := by
  simp only [Option.any_eq_true, parse_eq_some, Bool.and_eq_true,
    AccountPublicAddress.Valid]

private theorem decodeAddressAs_eq_number
    [positive : Positive codec] {value : Nat} :
    decodeAddressAs cnFastHash checkKey codec account input = .number value ↔
      value < 2 ^ 32 ∧
        ∃ adr data, codec.Reads adr data ∧ (account adr).Valid checkKey ∧
          input = Base58.encodeAddr cnFastHash (BitVec.ofNat 64 value) data := by
  constructor
  · intro decoded
    unfold decodeAddressAs at decoded
    split at decoded
    · cases decoded
    rename_i addrPrefix data text
    dsimp only at decoded
    split at decoded
    · split at decoded <;> cases decoded
    rename_i parsed
    split at decoded
    · cases decoded
    rename_i small
    rw [Bool.not_eq_true, Bool.not_eq_false', parse_any_iff] at parsed
    obtain ⟨adr, reads, valid⟩ := parsed
    obtain rfl := DecodedAddress.number.inj decoded
    have nonempty := List.ne_nil_of_length_pos (positive.length_pos reads)
    have same : BitVec.ofNat 64 (addrPrefix.setWidth 32).toNat = addrPrefix := by
      apply BitVec.eq_of_toNat_eq
      rw [BitVec.toNat_ofNat, BitVec.toNat_setWidth]
      omega
    refine ⟨BitVec.isLt _, adr, data, reads, valid, ?_⟩
    rw [same]
    exact (Base58.decodeAddr_eq_some_iff nonempty).mp text
  · rintro ⟨small, adr, data, reads, valid, rfl⟩
    have parsed := (@parse_any_iff checkKey _ codec account _ data).mpr
      ⟨adr, reads, valid⟩
    have tag : (BitVec.ofNat 64 value).toNat = value := by
      rw [BitVec.toNat_ofNat]
      omega
    have short : ((BitVec.ofNat 64 value).setWidth 32).toNat = value := by
      rw [BitVec.toNat_setWidth, tag]
      omega
    unfold decodeAddressAs
    rw [Base58.decodeAddr_encodeAddr]
    simp only [parsed, tag, short]
    rw [if_neg (by decide), if_neg (by omega)]

end

section

variable {cnFastHash : Bytes → Hash} {checkKey : PublicKey → Bool}
  {input : Bytes}

theorem addressDecode_eq_number {value : Nat} :
    addressDecode cnFastHash checkKey input = .number value ↔
      value < 2 ^ 32 ∧ ∃ spend view : PublicKey,
        checkKey spend = true ∧ checkKey view = true ∧
          input = Base58.encodeAddr cnFastHash (BitVec.ofNat 64 value)
            (spend.bytes ++ view.bytes) := by
  rw [addressDecode, decodeAddressAs_eq_number]
  refine and_congr_right fun _ => ⟨?_, ?_⟩
  · rintro ⟨adr, data, reads, valid, rfl⟩
    rw [AccountPublicAddress.reads_iff.mp reads]
    exact ⟨adr.spendPublicKey, adr.viewPublicKey, valid.1, valid.2, rfl⟩
  · rintro ⟨spend, view, spendValid, viewValid, rfl⟩
    exact ⟨⟨spend, view⟩, _, AccountPublicAddress.reads_iff.mpr rfl,
      ⟨spendValid, viewValid⟩, rfl⟩

theorem addressDecodeIntegrated_eq_number {value : Nat} :
    addressDecodeIntegrated cnFastHash checkKey input = .number value ↔
      value < 2 ^ 32 ∧ ∃ (spend view : PublicKey) (paymentId : Blob 8),
        checkKey spend = true ∧ checkKey view = true ∧
          input = Base58.encodeAddr cnFastHash (BitVec.ofNat 64 value)
            (spend.bytes ++ view.bytes ++ paymentId.bytes) := by
  rw [addressDecodeIntegrated, decodeAddressAs_eq_number]
  refine and_congr_right fun _ => ⟨?_, ?_⟩
  · rintro ⟨adr, data, reads, valid, rfl⟩
    rw [IntegratedAddress.reads_iff.mp reads]
    exact ⟨adr.adr.spendPublicKey, adr.adr.viewPublicKey, adr.paymentId,
      valid.1, valid.2, rfl⟩
  · rintro ⟨spend, view, paymentId, spendValid, viewValid, rfl⟩
    exact ⟨⟨⟨spend, view⟩, paymentId⟩, _, IntegratedAddress.reads_iff.mpr rfl,
      ⟨spendValid, viewValid⟩, rfl⟩

/-- No text is an address of both kinds: their data differ in length. -/
theorem address_kinds_disjoint {value integrated : Nat}
    (plain : addressDecode cnFastHash checkKey input = .number value) :
    addressDecodeIntegrated cnFastHash checkKey input ≠ .number integrated := by
  intro both
  obtain ⟨-, spend, view, -, -, rfl⟩ := addressDecode_eq_number.mp plain
  obtain ⟨-, otherSpend, otherView, paymentId, -, -, same⟩ :=
    addressDecodeIntegrated_eq_number.mp both
  have decoded := @Base58.decodeAddr_encodeAddr cnFastHash
    (BitVec.ofNat 64 value) (spend.bytes ++ view.bytes)
  rw [same, Base58.decodeAddr_encodeAddr] at decoded
  have lengths := congrArg (fun result => result.2.length)
    (Option.some.inj decoded)
  simp at lengths

end

theorem address_decoders_exact (cnFastHash : Bytes → Hash)
    (checkKey : PublicKey → Bool) :
    (∀ input value,
      addressDecode cnFastHash checkKey input = .number value ↔
        value < 2 ^ 32 ∧ ∃ spend view : PublicKey,
          checkKey spend = true ∧ checkKey view = true ∧
            input = Base58.encodeAddr cnFastHash (BitVec.ofNat 64 value)
              (spend.bytes ++ view.bytes)) ∧
    (∀ input value,
      addressDecodeIntegrated cnFastHash checkKey input = .number value ↔
        value < 2 ^ 32 ∧ ∃ (spend view : PublicKey) (paymentId : Blob 8),
          checkKey spend = true ∧ checkKey view = true ∧
            input = Base58.encodeAddr cnFastHash (BitVec.ofNat 64 value)
              (spend.bytes ++ view.bytes ++ paymentId.bytes)) ∧
    (∀ input value integrated,
      ¬(addressDecode cnFastHash checkKey input = .number value ∧
        addressDecodeIntegrated cnFastHash checkKey input =
          .number integrated)) ∧
    (∀ input other data,
      addressDecode cnFastHash checkKey input = .buffer data →
        addressDecode cnFastHash checkKey other = .buffer data →
          input = other) ∧
    (∀ input other data,
      addressDecodeIntegrated cnFastHash checkKey input = .buffer data →
        addressDecodeIntegrated cnFastHash checkKey other = .buffer data →
          input = other) := by
  refine ⟨fun _ _ => addressDecode_eq_number,
    fun _ _ => addressDecodeIntegrated_eq_number, ?_, ?_, ?_⟩
  · rintro input value integrated ⟨plain, both⟩
    exact address_kinds_disjoint plain both
  · intro input other data first second
    exact decodeAddressAs_buffer_inj first second
  · intro input other data first second
    exact decodeAddressAs_buffer_inj first second

end BlockTemplate
