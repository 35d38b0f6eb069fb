import BlockTemplate.Cryptonote.TxExtraFields

/-!
# Runs of additions to transaction extra

The functions of `cryptonote_format_utils.cpp` that put keys and nonces behind
an extra and find the key again.  Every addition leaves the fields in front of
it alone; what the parser makes of the additions depends on the lengths of the
nonces among them.
-/

namespace BlockTemplate

open Serializer

def nullPkey : PublicKey :=
  Blob.zero 32

/-- `find_tx_extra_field_by_type`, for the type that `get` gives. -/
def findTxExtraFieldByType {Field : Type} (get : TxExtraField → Option Field)
    (txExtraFields : List TxExtraField) : Option Field :=
  txExtraFields.findSome? get

def TxExtraField.getPubKey : TxExtraField → Option TxExtraPubKey
  | .pubKey field => some field
  | _ => none

def TxExtraField.getNonce : TxExtraField → Option TxExtraNonce
  | .nonce field => some field
  | _ => none

/-- The fields in front of a parse error are looked through, too. -/
def getTxPubKeyFromExtra (txExtra : Bytes) : PublicKey :=
  match findTxExtraFieldByType TxExtraField.getPubKey
      (parseTxExtra txExtra).2 with
  | none => nullPkey
  | some pubKeyField => pubKeyField.pubKey

def addTxPubKeyToExtra (txExtra : Bytes) (txPubKey : PublicKey) : Bytes :=
  let resized := txExtra ++ List.replicate (1 + 32) 0
  let tagged := resized.set (resized.length - 1 - 32) 0x01
  overwrite tagged (tagged.length - 32) txPubKey.bytes

def setPaymentIdToTxExtraNonce (paymentId : Hash) : Bytes :=
  [0x00] ++ paymentId.bytes

def getPaymentIdFromTxExtraNonce (extraNonce : Bytes) : Option Hash :=
  if size : extraNonce.length = 32 + 1 then
    if extraNonce.head? = some 0x00 then
      some ⟨extraNonce.drop 1, by simp [size]⟩
    else none
  else none

inductive TxExtraCall where
  | addTxPubKey (txPubKey : PublicKey)
  | addExtraNonce (extraNonce : Bytes)

namespace TxExtraCall

def run (txExtra : Bytes) : TxExtraCall → Option Bytes
  | .addTxPubKey txPubKey => some (addTxPubKeyToExtra txExtra txPubKey)
  | .addExtraNonce extraNonce => addExtraNonceToTxExtra txExtra extraNonce

/-- The field that is meant. -/
def field : TxExtraCall → TxExtraField
  | .addTxPubKey txPubKey => .pubKey ⟨txPubKey⟩
  | .addExtraNonce extraNonce => .nonce ⟨extraNonce⟩

/-- The bytes that are put behind the extra. -/
def written : TxExtraCall → Bytes
  | .addTxPubKey txPubKey => 0x01 :: txPubKey.bytes
  | .addExtraNonce extraNonce =>
    0x02 :: BitVec.ofNat 8 extraNonce.length :: extraNonce

/-- The bytes that are read as the field. -/
def expected : TxExtraCall → Bytes
  | .addTxPubKey txPubKey => 0x01 :: txPubKey.bytes
  | .addExtraNonce extraNonce => 0x02 :: saveString extraNonce

/-- The nonce of a call has at most so many bytes. -/
def Within (bound : Nat) : TxExtraCall → Prop
  | .addTxPubKey _ => True
  | .addExtraNonce extraNonce => extraNonce.length ≤ bound

end TxExtraCall

def runTxExtraCalls (calls : List TxExtraCall) (txExtra : Bytes) :
    Option Bytes :=
  calls.foldlM TxExtraCall.run txExtra

private theorem addTxPubKeyToExtra_eq (txExtra : Bytes) (txPubKey : PublicKey) :
    addTxPubKeyToExtra txExtra txPubKey =
      txExtra ++ 0x01 :: txPubKey.bytes := by
  have place : (txExtra ++ List.replicate (1 + 32) (0 : Byte)).length - 1 -
      32 = txExtra.length := by
    simp
  have tagged : (txExtra ++ List.replicate (1 + 32) 0).set txExtra.length
      0x01 = txExtra ++ (0x01 :: List.replicate 32 0) := by
    rw [List.set_append_right _ _ le_rfl, Nat.sub_self]
    rfl
  have start : (txExtra ++ ((0x01 : Byte) :: List.replicate 32 0)).length -
      32 = txExtra.length + 1 := by
    simp
  have middle := @overwrite_middle txExtra (0x01 :: List.replicate 32 0) []
    txPubKey.bytes 1 (by simp)
  rw [List.append_nil, List.append_nil] at middle
  rw [addTxPubKeyToExtra, place, tagged, start, middle, overwrite]
  simp

private theorem reads_txExtraPubKey {txPubKey : PublicKey} {bytes : Bytes} :
    TxExtraPubKey.doSerialize.Reads ⟨txPubKey⟩ bytes ↔
      bytes = txPubKey.bytes := by
  rw [TxExtraPubKey.doSerialize, reads_bind]
  constructor
  · rintro ⟨loaded, keyBytes, nothing, rfl, keyReads, built⟩
    rw [Serializer.reads_field, reads_iff_encode] at keyReads
    obtain ⟨same, rfl⟩ := reads_pure.mp built
    cases same
    rw [keyReads, List.append_nil]
  · rintro rfl
    refine ⟨txPubKey, _, [], (List.append_nil _).symm, ?_, ?_⟩
    · rw [Serializer.reads_field, reads_iff_encode]
    · exact reads_pure.mpr ⟨rfl, rfl⟩

private theorem reads_filled_pubKey {txPubKey : PublicKey} {bytes : Bytes} :
    TxExtraField.filled.Reads (.pubKey ⟨txPubKey⟩) bytes ↔
      bytes = 0x01 :: txPubKey.bytes := by
  let alternative := TxExtraField.filledAlternatives.head (by
    unfold TxExtraField.filledAlternatives
    exact List.cons_ne_nil _ _)
  have selected : selectAlternative (TxExtraField.tag (.pubKey ⟨txPubKey⟩))
      TxExtraField.filledAlternatives = alternative.serializer := rfl
  have : Local alternative.codec := localTxExtraPubKey
  have payloads (payload : Bytes) :
      alternative.serializer.Reads (.pubKey ⟨txPubKey⟩) payload ↔
        payload = txPubKey.bytes := by
    rw [Alternative.reads_serializer, ← reads_txExtraPubKey]
    constructor
    · rintro ⟨field, same, reads⟩
      cases same
      exact reads
    · intro reads
      exact ⟨_, rfl, reads⟩
  rw [TxExtraField.filled, reads_variant, selected]
  simp only [payloads]
  constructor
  · rintro ⟨_, rfl, rfl⟩
    rfl
  · rintro rfl
    exact ⟨_, rfl, rfl⟩

namespace TxExtraCall

private theorem run_eq_some {txExtra longer : Bytes} {call : TxExtraCall} :
    call.run txExtra = some longer ↔
      call.Within 255 ∧ longer = txExtra ++ call.written := by
  cases call with
  | addTxPubKey txPubKey =>
      simp [run, Within, written, addTxPubKeyToExtra_eq, eq_comm]
  | addExtraNonce extraNonce => exact addExtraNonceToTxExtra_eq_some

theorem Within.mono {call : TxExtraCall} {bound larger : Nat}
    (short : call.Within bound) (le : bound ≤ larger) : call.Within larger := by
  cases call with
  | addTxPubKey txPubKey => trivial
  | addExtraNonce extraNonce => exact short.trans le

theorem reads_field {call : TxExtraCall} {bytes : Bytes} :
    TxExtraField.filled.Reads call.field bytes ↔
      call.Within 255 ∧ bytes = call.expected := by
  cases call with
  | addExtraNonce extraNonce => exact reads_filled_nonce
  | addTxPubKey txPubKey =>
      rw [field, reads_filled_pubKey, expected]
      simp [Within]

private theorem expected_eq_written_iff
    {call : TxExtraCall} (short : call.Within 255) :
    call.expected = call.written ↔ call.Within 127 := by
  cases call with
  | addTxPubKey txPubKey => simp [expected, written, Within]
  | addExtraNonce extraNonce =>
      rw [expected, written, List.cons.injEq, saveString_eq_cons_iff short]
      simp [Within]

end TxExtraCall

private theorem runTxExtraCalls_eq_some {calls : List TxExtraCall}
    {txExtra longer : Bytes} :
    runTxExtraCalls calls txExtra = some longer ↔
      (∀ call ∈ calls, call.Within 255) ∧
        longer = txExtra ++ calls.flatMap TxExtraCall.written := by
  induction calls generalizing txExtra with
  | nil => simp [runTxExtraCalls, eq_comm]
  | cons call calls induction =>
      have step : runTxExtraCalls (call :: calls) txExtra =
          (call.run txExtra).bind (runTxExtraCalls calls) := rfl
      rw [step, Option.bind_eq_some_iff]
      simp only [TxExtraCall.run_eq_some, induction, List.forall_mem_cons,
        List.flatMap_cons]
      constructor
      · rintro ⟨_, ⟨short, rfl⟩, others, rfl⟩
        exact ⟨⟨short, others⟩, List.append_assoc _ _ _⟩
      · rintro ⟨⟨short, others⟩, rfl⟩
        exact ⟨_, ⟨short, rfl⟩, others, (List.append_assoc _ _ _).symm⟩

private theorem readsEach_fields_iff
    {calls : List TxExtraCall} {bytes : Bytes} :
    ReadsEach TxExtraField.filled (calls.map TxExtraCall.field) bytes ↔
      (∀ call ∈ calls, call.Within 255) ∧
        bytes = calls.flatMap TxExtraCall.expected := by
  induction calls generalizing bytes with
  | nil =>
      constructor
      · intro each
        cases each
        exact ⟨fun _ member => absurd member List.not_mem_nil, rfl⟩
      · rintro ⟨-, rfl⟩
        exact .nil
  | cons call calls induction =>
      rw [List.map_cons, List.forall_mem_cons, List.flatMap_cons]
      constructor
      · intro each
        cases each with
        | cons reads later =>
            obtain ⟨short, rfl⟩ := TxExtraCall.reads_field.mp reads
            obtain ⟨others, rfl⟩ := induction.mp later
            exact ⟨⟨short, others⟩, rfl⟩
      · rintro ⟨⟨short, others⟩, rfl⟩
        exact .cons (TxExtraCall.reads_field.mpr ⟨short, rfl⟩)
          (induction.mpr ⟨others, rfl⟩)

private theorem TxExtraCall.length_written_le (call : TxExtraCall) :
    call.written.length ≤ call.expected.length := by
  cases call with
  | addTxPubKey txPubKey => exact le_rfl
  | addExtraNonce extraNonce =>
      have positive := List.length_pos_iff.mpr
        (writeVarint_ne_nil (BitVec.ofNat 64 extraNonce.length))
      simp only [written, expected, saveString, List.length_cons,
        List.length_append]
      omega

/-- The shorter bytes of a long nonce are not made up for by another field. -/
theorem written_eq_expected_iff {calls : List TxExtraCall}
    (short : ∀ call ∈ calls, call.Within 255) :
    calls.flatMap TxExtraCall.written = calls.flatMap TxExtraCall.expected ↔
      ∀ call ∈ calls, call.Within 127 := by
  have total (calls : List TxExtraCall) :
      (calls.flatMap TxExtraCall.written).length ≤
        (calls.flatMap TxExtraCall.expected).length := by
    induction calls with
    | nil => exact le_rfl
    | cons call calls induction =>
        simp only [List.flatMap_cons, List.length_append]
        exact Nat.add_le_add call.length_written_le induction
  induction calls with
  | nil => simp
  | cons call calls induction =>
      obtain ⟨here, others⟩ := List.forall_mem_cons.mp short
      have front := TxExtraCall.expected_eq_written_iff here
      have back := induction others
      rw [List.forall_mem_cons, List.flatMap_cons, List.flatMap_cons]
      constructor
      · intro same
        have sum := congrArg List.length same
        rw [List.length_append, List.length_append] at sum
        have first := call.length_written_le
        have rest := total calls
        obtain ⟨head, tail⟩ := List.append_inj same (by omega)
        exact ⟨front.mp head.symm, back.mp tail⟩
      · rintro ⟨head, tail⟩
        rw [front.mpr head, back.mpr tail]

private theorem getPaymentId_eq_some_iff
    {extraNonce : Bytes} {paymentId : Hash} :
    getPaymentIdFromTxExtraNonce extraNonce = some paymentId ↔
      extraNonce = setPaymentIdToTxExtraNonce paymentId := by
  unfold getPaymentIdFromTxExtraNonce setPaymentIdToTxExtraNonce
  constructor
  · intro found
    split_ifs at found with size tagged
    obtain rfl := Option.some.inj found
    obtain ⟨rest, rfl⟩ := List.head?_eq_some_iff.mp tagged
    rfl
  · rintro rfl
    simp

private theorem eq_nil_of_readsEach {fields : List TxExtraField}
    (each : ReadsEach TxExtraField.filled fields []) : fields = [] := by
  have count := each.length_le positiveFilled.length_pos
  rw [List.length_nil, Nat.mul_one] at count
  exact List.length_eq_zero_iff.mp (Nat.le_zero.mp count)

/-- The fields in front of any bytes are found. -/
theorem parseTxExtraLoop_begins
    {fields : List TxExtraField} {bytes : Bytes}
    (each : ReadsEach TxExtraField.filled fields bytes) (rest : Bytes)
    {fuel : Nat} (enough : (bytes ++ rest).length ≤ fuel) :
    ∃ more, (parseTxExtraLoop fuel ⟨bytes ++ rest, true⟩).2 =
      fields ++ more := by
  induction each generalizing fuel with
  | nil => exact ⟨_, rfl⟩
  | @cons field others bytes later reads each induction =>
      have positive := positiveFilled.length_pos reads
      rw [List.append_assoc, List.length_append] at enough
      obtain ⟨fuel, rfl⟩ : ∃ left, fuel = left + 1 :=
        ⟨fuel - 1, by omega⟩
      have loaded := TxExtraField.reads_of_filled reads (later ++ rest)
      rw [List.append_assoc, parseTxExtraLoop, loaded]
      obtain ⟨more, found⟩ := @induction fuel (by omega)
      by_cases ended : IStream.atEnd ⟨later ++ rest, true⟩ = true
      · have nothing : later ++ rest = [] := by
          simpa [IStream.atEnd] using ended
        obtain ⟨rfl, rfl⟩ := List.append_eq_nil_iff.mp nothing
        obtain rfl := eq_nil_of_readsEach each
        exact ⟨[], by simp [IStream.atEnd]⟩
      · simp [ended, found]

private theorem parseTxExtra_begins
    {fields : List TxExtraField} {bytes : Bytes}
    (each : ReadsEach TxExtraField.filled fields bytes) (rest : Bytes) :
    ∃ more, (parseTxExtra (bytes ++ rest)).2 = fields ++ more := by
  unfold parseTxExtra
  split_ifs with empty
  · obtain ⟨rfl, rfl⟩ := List.append_eq_nil_iff.mp (List.isEmpty_iff.mp empty)
    exact ⟨[], by rw [eq_nil_of_readsEach each]; rfl⟩
  · exact parseTxExtraLoop_begins each rest le_rfl

/-- A field that is found stays found with more fields behind it. -/
theorem findTxExtraFieldByType_append {Field : Type}
    {get : TxExtraField → Option Field} {fields more : List TxExtraField}
    {found : Field} (first : findTxExtraFieldByType get fields = some found) :
    findTxExtraFieldByType get (fields ++ more) = some found := by
  rw [findTxExtraFieldByType] at first
  rw [findTxExtraFieldByType, List.findSome?_append, first, Option.some_or]

private theorem ended_fields
    {fields : List TxExtraField} {calls : List TxExtraCall}
    (ended : ∀ padding, fields.getLast? ≠ some (.padding padding)) :
    ∀ padding, (fields ++ calls.map TxExtraCall.field).getLast? ≠
      some (.padding padding) := by
  intro padding
  rw [List.getLast?_append]
  cases found : (calls.map TxExtraCall.field).getLast? with
  | none => exact ended padding
  | some last =>
      obtain ⟨call, -, rfl⟩ := List.mem_map.mp (List.mem_of_getLast? found)
      cases call <;> exact nofun

/-- The additions up to a place are read in front of anything that is put
behind them. -/
theorem parseTxExtra_begins_with_calls
    {txExtra : Bytes} {fields : List TxExtraField}
    {before : List TxExtraCall}
    (each : ReadsEach TxExtraField.filled fields txExtra)
    (short : ∀ call ∈ before, call.Within 127) (rest : Bytes) :
    ∃ more,
      (parseTxExtra
        (txExtra ++ before.flatMap TxExtraCall.written ++ rest)).2 =
        fields ++ before.map TxExtraCall.field ++ more := by
  have fits : ∀ call ∈ before, call.Within 255 := fun call member =>
    (short call member).mono (by decide)
  have beforeEach : ReadsEach TxExtraField.filled
      (before.map TxExtraCall.field) (before.flatMap TxExtraCall.written) :=
    readsEach_fields_iff.mpr ⟨fits, (written_eq_expected_iff fits).mpr short⟩
  exact parseTxExtra_begins
    (readsEach_append.mpr ⟨_, _, rfl, each, beforeEach⟩) rest

/-- A run of additions is read back field by field exactly when the length of
every nonce takes one byte.  The first key and the payment id in the first nonce
among fields that are read stay those of the extra, whatever comes behind
them. -/
theorem tx_extra_runs {txExtra longer : Bytes} {fields : List TxExtraField}
    {calls : List TxExtraCall}
    (parsed : parseTxExtra txExtra = (true, fields))
    (ended : ∀ padding, fields.getLast? ≠ some (.padding padding))
    (run : runTxExtraCalls calls txExtra = some longer) :
    (parseTxExtra longer = (true, fields ++ calls.map TxExtraCall.field) ↔
      ∀ call ∈ calls, call.Within 127) ∧
    ∀ before after, calls = before ++ after →
      (∀ call ∈ before, call.Within 127) →
      (∀ pubKeyField, findTxExtraFieldByType TxExtraField.getPubKey
          (fields ++ before.map TxExtraCall.field) = some pubKeyField →
        ∀ rest, getTxPubKeyFromExtra (longer ++ rest) =
          pubKeyField.pubKey) ∧
      ∀ paymentId, findTxExtraFieldByType TxExtraField.getNonce
          (fields ++ before.map TxExtraCall.field) =
            some ⟨setPaymentIdToTxExtraNonce paymentId⟩ →
        ∀ rest, ((findTxExtraFieldByType TxExtraField.getNonce
            (parseTxExtra (longer ++ rest)).2).bind fun nonceField =>
          getPaymentIdFromTxExtraNonce nonceField.nonce) =
            some paymentId := by
  obtain ⟨short, rfl⟩ := runTxExtraCalls_eq_some.mp run
  have each := parseTxExtra_iff.mp ⟨parsed, ended⟩
  constructor
  · have behind : parseTxExtra
        (txExtra ++ calls.flatMap TxExtraCall.written) =
          (true, fields ++ calls.map TxExtraCall.field) ↔
        ReadsEach TxExtraField.filled (calls.map TxExtraCall.field)
          (calls.flatMap TxExtraCall.written) := by
      constructor
      · intro extended
        obtain ⟨front, back, split, frontEach, backEach⟩ :=
          readsEach_append.mp
            (parseTxExtra_iff.mp ⟨extended, ended_fields ended⟩)
        obtain ⟨-, same⟩ := each.unique frontEach split
        rwa [same]
      · intro backEach
        exact (parseTxExtra_iff.mpr
          (readsEach_append.mpr ⟨_, _, rfl, each, backEach⟩)).1
    rw [behind, readsEach_fields_iff, written_eq_expected_iff short]
    exact and_iff_right short
  · rintro before after rfl beforeShort
    have begins (rest : Bytes) := parseTxExtra_begins_with_calls each
      beforeShort (after.flatMap TxExtraCall.written ++ rest)
    rw [List.flatMap_append, ← List.append_assoc]
    simp only [← List.append_assoc] at begins
    constructor
    · intro pubKeyField found rest
      obtain ⟨more, same⟩ := begins rest
      rw [getTxPubKeyFromExtra, same, findTxExtraFieldByType_append found]
    · intro paymentId found rest
      obtain ⟨more, same⟩ := begins rest
      rw [same, findTxExtraFieldByType_append found, Option.bind_some]
      exact getPaymentId_eq_some_iff.mpr rfl

def sampleKey : PublicKey :=
  ⟨List.replicate 32 5, List.length_replicate⟩

def samplePaymentId : Hash :=
  ⟨List.replicate 32 9, List.length_replicate⟩

theorem tx_extra_runs_long :
    ∃ longer,
      runTxExtraCalls [.addTxPubKey sampleKey,
        .addExtraNonce (setPaymentIdToTxExtraNonce samplePaymentId),
        .addExtraNonce (List.replicate 200 0)] [] = some longer ∧
      parseTxExtra longer ≠ (true,
        [.pubKey ⟨sampleKey⟩,
          .nonce ⟨setPaymentIdToTxExtraNonce samplePaymentId⟩,
          .nonce ⟨List.replicate 200 0⟩]) ∧
      ∀ rest, getTxPubKeyFromExtra (longer ++ rest) = sampleKey ∧
        ((findTxExtraFieldByType TxExtraField.getNonce
            (parseTxExtra (longer ++ rest)).2).bind fun nonceField =>
          getPaymentIdFromTxExtraNonce nonceField.nonce) =
            some samplePaymentId := by
  have sizes (limit : ℕ) : (∀ call ∈ [TxExtraCall.addTxPubKey sampleKey,
      .addExtraNonce (setPaymentIdToTxExtraNonce samplePaymentId),
      .addExtraNonce (List.replicate 200 0)], call.Within limit) ↔
        33 ≤ limit ∧ 200 ≤ limit := by
    rw [List.forall_mem_cons, List.forall_mem_cons, List.forall_mem_singleton,
      TxExtraCall.Within, TxExtraCall.Within, TxExtraCall.Within,
      List.length_replicate, true_and]
    rfl
  have run := (@runTxExtraCalls_eq_some _ [] _).mpr
    ⟨(sizes 255).mpr (by decide), rfl⟩
  obtain ⟨readBack, kept⟩ :=
    @tx_extra_runs [] _ [] _ rfl (fun _ => nofun) run
  refine ⟨_, run, ?_, fun rest => ?_⟩
  · intro parsed
    have short := (sizes 127).mp (readBack.mp parsed)
    omega
  · obtain ⟨key, payment⟩ := kept [.addTxPubKey sampleKey,
        .addExtraNonce (setPaymentIdToTxExtraNonce samplePaymentId)]
      [.addExtraNonce (List.replicate 200 0)] rfl
      (List.forall_mem_cons.mpr
        ⟨trivial, List.forall_mem_singleton.mpr (show 33 ≤ 127 by decide)⟩)
    exact ⟨key ⟨sampleKey⟩ rfl rest, payment samplePaymentId rfl rest⟩

end BlockTemplate
