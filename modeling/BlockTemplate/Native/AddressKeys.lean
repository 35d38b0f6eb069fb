import BlockTemplate.Crypto.PointDecoding
import BlockTemplate.Native.Address

/-!
# Addresses of points

The decoders of addresses take a key for valid when `check_key` accepts it,
which is when it is the key of a point.
-/

namespace BlockTemplate

open Serializer CryptoOps

/-- `crypto::check_key`. -/
def isKey (key : PublicKey) : Bool :=
  checkKey key == some true

private theorem isKey_iff
    {key : PublicKey} : isKey key = true ↔ IsPoint key := by
  obtain ⟨accepted, result, accepts⟩ := checkKey_returns key
  rw [isKey, result, ← accepts]
  cases accepted <;> decide

section

variable (cnFastHash : Bytes → Hash) {Adr : Type} {codec : Serializer Adr Adr}
  [Local codec] [Positive codec] {account : Adr → AccountPublicAddress}

/-- The text of a record with a key that no point has gives its bytes back. -/
theorem decodeAddressAs_invalid {adr : Adr} {data : Bytes} (tag : BitVec 64)
    (reads : codec.Reads adr data)
    (invalid : ¬(IsPoint (account adr).spendPublicKey ∧
      IsPoint (account adr).viewPublicKey)) :
    decodeAddressAs cnFastHash isKey codec account
        (Base58.encodeAddr cnFastHash tag data) =
      .buffer (uint64beToBlob tag ++ data) := by
  have parsed : codec.parse data = some adr := parse_eq_some.mpr reads
  have refused : (isKey (account adr).spendPublicKey &&
      isKey (account adr).viewPublicKey) = false := by
    rw [← Bool.not_eq_true, Bool.and_eq_true, isKey_iff, isKey_iff]
    exact invalid
  have nonempty : data.isEmpty = false := by
    rw [List.isEmpty_eq_false_iff]
    exact List.ne_nil_of_length_pos (Positive.length_pos reads)
  rw [decodeAddressAs, Base58.decodeAddr_encodeAddr]
  simp only [parsed, Option.any_some, refused, nonempty]
  rfl

end

/-- With the real check of keys the decoders answer with a number exactly for
the texts of two points each. -/
theorem addresses_of_points (cnFastHash : Bytes → Hash) :
    (∀ input value,
      addressDecode cnFastHash isKey input = .number value ↔
        value < 2 ^ 32 ∧ ∃ spend view : PublicKey,
          IsPoint spend ∧ IsPoint view ∧
            input = Base58.encodeAddr cnFastHash (BitVec.ofNat 64 value)
              (spend.bytes ++ view.bytes)) ∧
    (∀ input value,
      addressDecodeIntegrated cnFastHash isKey input = .number value ↔
        value < 2 ^ 32 ∧ ∃ (spend view : PublicKey) (paymentId : Blob 8),
          IsPoint spend ∧ IsPoint view ∧
            input = Base58.encodeAddr cnFastHash (BitVec.ofNat 64 value)
              (spend.bytes ++ view.bytes ++ paymentId.bytes)) ∧
    ∀ (tag : BitVec 64) (spend view : PublicKey),
      ¬(IsPoint spend ∧ IsPoint view) →
        addressDecode cnFastHash isKey (Base58.encodeAddr cnFastHash tag
            (spend.bytes ++ view.bytes)) =
          .buffer (uint64beToBlob tag ++ (spend.bytes ++ view.bytes)) := by
  refine ⟨?_, ?_, ?_⟩
  · intro input value
    simp only [addressDecode_eq_number, isKey_iff]
  · intro input value
    simp only [addressDecodeIntegrated_eq_number, isKey_iff]
  · intro tag spend view invalid
    have reads : AccountPublicAddress.serializer.Reads ⟨spend, view⟩
        (spend.bytes ++ view.bytes) := AccountPublicAddress.reads_iff.mpr rfl
    exact decodeAddressAs_invalid cnFastHash tag reads invalid

end BlockTemplate
