import BlockTemplate.Bitcoin.RtmCoinbase
import BlockTemplate.Bitcoin.Walk

/-!
# Consuming RTM templates

Which templates the walk over the transactions takes apart as they were put
together.  The coinbase that is built is the one that is read, except for a
payload behind a version 1 coinbase: it is left to the search for the next
transaction.
-/

namespace BlockTemplate.Rtm

variable {packages : Packages}

namespace Parts

/-- The end of the coinbase as the reader sees it. -/
def ending (parts : Parts) (rpcData : RtmRpcData) : Bytes :=
  leBytes 4 0 ++ if hasDevReward rpcData then [] else parts.payload

/-- What the reader leaves of the coinbase. -/
def suffix (parts : Parts) (rpcData : RtmRpcData) : Bytes :=
  if hasDevReward rpcData then parts.payload else []

/-- What the reader takes of the coinbase. -/
def core (parts : Parts) (rpcData : RtmRpcData) : Bytes :=
  versionBytes rpcData ++ (markerBytes rpcData ++ (parts.body ++
    (parts.groups.witness ++ parts.ending rpcData)))

theorem core_append_suffix (parts : Parts) (rpcData : RtmRpcData) :
    parts.core rpcData ++ parts.suffix rpcData = parts.coinbase rpcData := by
  have payload : (if hasDevReward rpcData then [] else parts.payload) ++
      (if hasDevReward rpcData then parts.payload else []) =
        parts.payload := by
    split_ifs
    · rfl
    · exact List.append_nil _
  simp only [core, suffix, ending, coinbase, List.append_assoc, payload]

def parsedInput (parts : Parts) : ParsedInput where
  hash := List.replicate 32 0
  index := uint32LE (leBytes 4 0xffffffff)
  script := parts.script
  sequence := uint32LE (leBytes 4 0)
  witness := []

private theorem reads_body {parts : Parts}
    (script : parts.script.length ≤ 0xffffffff)
    (few : parts.groups.all.length ≤ 0xffffffff)
    (short : ∀ output ∈ parts.groups.all,
      output.script.length ≤ 0xffffffff) :
    (dialect true).readInsOuts.Reads
      ([parts.parsedInput],
        parts.groups.all.map TransactionOutput.parsed) parts.body := by
  have input : (dialect true).readInput.Reads parts.parsedInput parts.input :=
    (dialect true).reads_input List.length_replicate (length_leBytes 4 _)
      (length_leBytes 4 _) (small_is_safe script)
  have one : 1 ≤ CompactSize.maxSafeInteger := by decide
  have counted : [parts.parsedInput].length ≤ CompactSize.maxSafeInteger := one
  have reads := (dialect true).reads_insOuts counted
    (by rw [List.length_map]; exact small_is_safe few)
    (.cons input .nil) (reads_outputs true short)
  rw [List.length_map, List.flatten_singleton] at reads
  exact reads

end Parts

theorem versionBytes_supported (rpcData : RtmRpcData) :
    (versionBytes rpcData).length = 4 ∧
      (dialect true).isSupported (uint32LE (versionBytes rpcData)) = true := by
  unfold versionBytes
  cases hasDevReward rpcData <;> decide

/-- Only type 5 has a payload. -/
theorem hasPayload_versionBytes (rpcData : RtmRpcData) :
    (dialect true).hasPayload (uint32LE (versionBytes rpcData)) =
      !hasDevReward rpcData := by
  unfold versionBytes
  cases hasDevReward rpcData <;> decide

private theorem payload_of_payloadBytes {rpcData : RtmRpcData} {bytes : Bytes}
    (written : payloadBytes packages rpcData (versionBytes rpcData) =
      .ok bytes) :
    (hasDevReward rpcData = true ∧ rpcData.coinbasePayload.truthy = false ∧
        bytes = []) ∨
      ∃ payload,
        (hasDevReward rpcData = false ∨
          rpcData.coinbasePayload.truthy = true) ∧
        coinbasePayload packages rpcData = .ok payload ∧
        payload.length ≤ 0xffffffff ∧ bytes = Dialect.sizedBytes payload := by
  have type : (leValue ((versionBytes rpcData).drop 2) != 0) =
      !hasDevReward rpcData := by
    unfold versionBytes
    cases hasDevReward rpcData <;> rfl
  rw [payloadBytes, type] at written
  split_ifs at written with present
  · right
    obtain ⟨payload, payloadOk, written⟩ := except_bind_eq_ok.mp written
    obtain ⟨size, sizeOk, written⟩ := except_bind_eq_ok.mp written
    obtain ⟨short, rfl⟩ := varIntBuffer_eq_ok.mp sizeOk
    rw [Bool.or_eq_true, Bool.not_eq_true'] at present
    exact ⟨payload, present.symm, payloadOk, short,
      (Except.ok.inj written).symm⟩
  · left
    rw [Bool.or_eq_true, not_or, Bool.not_eq_true, Bool.not_eq_true,
      Bool.not_eq_false'] at present
    exact ⟨present.2, present.1, (Except.ok.inj written).symm⟩

/-- Behind the lock time, the reader takes the payload of type 5. -/
theorem Parts.reads_ending
    {parts : Parts} {rpcData : RtmRpcData} {template : RtmTemplate}
    (made : parts.Of packages rpcData template) :
    ∃ payload,
      ((dialect true).readEnding (uint32LE (versionBytes rpcData))).Reads
        (uint32LE (leBytes 4 0), payload) (parts.ending rpcData) := by
  have locktime := (dialect true).reads_slice "locktime" (length_leBytes 4 0)
  unfold ending Dialect.readEnding
  rw [hasPayload_versionBytes]
  cases version : hasDevReward rpcData with
  | true =>
      refine ⟨none, ?_⟩
      rw [if_pos rfl, List.append_nil]
      exact locktime.bind_pure rfl
  | false =>
      rcases payload_of_payloadBytes made.payload with
        ⟨isVersion1, -⟩ | ⟨payload, -, -, short, written⟩
      · rw [version] at isVersion1
        cases isVersion1
      · refine ⟨some payload, ?_⟩
        rw [if_neg Bool.false_ne_true, written]
        apply locktime.bind
        exact ((dialect true).reads_varSlice _ (small_is_safe short)).bind_pure
          rfl

section Coinbase

variable {parts : Parts} {rpcData : RtmRpcData} {template : RtmTemplate}
  (made : parts.Of packages rpcData template)

include made

private theorem Parts.reads_body_of_made :
    (dialect true).readInsOuts.Reads
      ([parts.parsedInput],
        parts.groups.all.map TransactionOutput.parsed) parts.body :=
  reads_body made.script made.affordable.count
    (Groups.short_of_affordable made.affordable)

/-- The coinbase is read, with the script around the placeholder. -/
theorem Parts.reads_coinbase
    (commitment : rpcData.defaultWitnessCommitment.isUndefined = true ∨
      rpcData.defaultWitnessCommitment.truthy = true) :
    ∃ coinbase,
      (readTransaction true).Reads coinbase (parts.core rpcData) ∧
      coinbase.isCoinbase = true ∧
      coinbase.ins.map ParsedInput.script = [parts.script] := by
  obtain ⟨size, supported⟩ := versionBytes_supported rpcData
  obtain ⟨payload, endingReads⟩ := parts.reads_ending made
  have bodyReads := parts.reads_body_of_made made
  rw [readTransaction_eq]
  unfold core markerBytes isWitness
  rcases commitment with missing | present
  · have absent : parts.groups.commitment = none := by
      have found := made.hasCommitment
      cases value : rpcData.defaultWitnessCommitment with
      | undefined =>
          rw [value] at found
          exact Option.isNone_iff_eq_none.mp
            (Option.isSome_eq_false_iff.mp found)
      | _ =>
          rw [value] at missing
          cases missing
    have nothing : parts.groups.witness = [] := by
      rw [Groups.witness, absent]
      rfl
    have unmarked : ¬advancedMarker <+: parts.body ++ parts.ending rpcData :=
      Dialect.not_marker_of_count Nat.one_pos _ _
    rw [missing, Bool.not_true, if_neg Bool.false_ne_true, List.nil_append,
      nothing, List.nil_append]
    exact ⟨_, (dialect true).reads_unmarked size supported unmarked bodyReads
      endingReads, rfl, rfl⟩
  · obtain ⟨output, committed⟩ :=
      Option.isSome_iff_exists.mp (made.hasCommitment.trans present)
    have witnessReads := (dialect true).reads_witnesses_single
      parts.parsedInput (show [List.replicate 32 0].length ≤
        CompactSize.maxSafeInteger by decide)
      (show ∀ item ∈ [List.replicate 32 (0 : Byte)],
        item.length ≤ CompactSize.maxSafeInteger by decide)
    have witness : parts.groups.witness = CompactSize.encode 1 ++
        ([List.replicate 32 0].map Dialect.sizedBytes).flatten := by
      rw [Groups.witness, committed]
      rfl
    have defined : rpcData.defaultWitnessCommitment.isUndefined = false := by
      cases value : rpcData.defaultWitnessCommitment with
      | undefined =>
          rw [value] at present
          cases present
      | _ => rfl
    rw [defined, Bool.not_false, if_pos rfl, witness]
    exact ⟨_, (dialect true).reads_marked size supported bodyReads
      witnessReads rfl endingReads, rfl, rfl⟩

/-- A marker without a commitment has no witness behind it. -/
theorem Parts.rejects_coinbase
    (defined : rpcData.defaultWitnessCommitment.isUndefined = false)
    (falsy : rpcData.defaultWitnessCommitment.truthy = false) :
    ∃ head tail, parts.coinbase rpcData = head ++ tail ∧
      (readTransaction true).Rejects head
        "Transaction has superfluous witness data" := by
  obtain ⟨size, supported⟩ := versionBytes_supported rpcData
  have bodyReads := parts.reads_body_of_made made
  have unsigned := (dialect true).reads_witnesses_single parts.parsedInput
    (show ([] : List Bytes).length ≤ CompactSize.maxSafeInteger by decide)
    nofun
  have absent : parts.groups.commitment = none :=
    Option.isNone_iff_eq_none.mp
      (Option.isSome_eq_false_iff.mp (made.hasCommitment.trans falsy))
  have marked : markerBytes rpcData = advancedMarker := by
    rw [markerBytes, isWitness, defined]
    rfl
  rw [readTransaction_eq]
  refine ⟨_, [0, 0, 0] ++ parts.payload, ?_,
    (dialect true).rejects_superfluous size supported bodyReads unsigned rfl⟩
  rw [coinbase, marked, Groups.witness, absent]
  have locktime : leBytes 4 0 =
      CompactSize.encode ([] : List Bytes).length ++
        (([] : List Bytes).map Dialect.sizedBytes).flatten ++ [0, 0, 0] := rfl
  rw [locktime]
  simp only [List.append_assoc]
  rfl

end Coinbase

/-- The reader up to the script of the first input, whose size it gives. -/
def readToScript : Reader Nat := do
  let _ ← (dialect true).readVersion
  let _ ← Reader.marker advancedMarker
  let _ ← (dialect true).readVarInt "input count"
  let _ ← (dialect true).slice 32 "input hash"
  let _ ← (dialect true).slice 4 "input index"
  (dialect true).readVarInt "input script length"

variable (packages) in
/-- Where the first script of a blob begins, and its size. -/
def coinbaseScript (blob : Bytes) : Except String (Nat × Nat) := do
  let (_, size) ← packages.varuint_decode (blob.drop 80)
  let (scriptSize, rest) ← readToScript.run (blob.drop (80 + size))
  pure (blob.length - rest.length, scriptSize)

private theorem reads_beforeScript {parts : Parts} (rpcData : RtmRpcData)
    (short : parts.script.length ≤ 0xffffffff) :
    readToScript.Reads parts.script.length (parts.beforeScript rpcData) := by
  obtain ⟨size, supported⟩ := versionBytes_supported rpcData
  have one : 1 ≤ CompactSize.maxSafeInteger := by decide
  have input : (do
      let _ ← (dialect true).readVarInt "input count"
      let _ ← (dialect true).slice 32 "input hash"
      let _ ← (dialect true).slice 4 "input index"
      (dialect true).readVarInt "input script length" : Reader Nat).Reads
        parts.script.length (CompactSize.encode 1 ++
          (List.replicate 32 0 ++ (leBytes 4 0xffffffff ++
            CompactSize.encode parts.script.length))) := by
    apply ((dialect true).reads_varInt _ one).bind
    apply ((dialect true).reads_slice _ List.length_replicate).bind
    apply ((dialect true).reads_slice _ (length_leBytes 4 _)).bind
    exact (dialect true).reads_varInt _ (small_is_safe short)
  unfold readToScript Parts.beforeScript markerBytes
  apply ((dialect true).reads_version size supported).bind
  split_ifs
  · exact (Reader.reads_marker advancedMarker).bind input
  · rw [List.nil_append]
    apply Reader.Reads.unmarked input
    · simp only [List.length_append, List.length_replicate, length_leBytes]
      exact (show advancedMarker.length ≤ 1 + 32 by decide).trans (by omega)
    · rw [← List.append_nil (_ ++ (_ ++ _)), List.append_assoc,
        ← List.append_assoc]
      exact Dialect.not_marker_of_count Nat.one_pos _ _

section Placeholder

variable {parts : Parts} {rpcData : RtmRpcData} {template : RtmTemplate}
  (made : parts.Of packages rpcData template)

/-- The blob around the script of the coinbase. -/
theorem Parts.blob_around_script (parts : Parts) (rpcData : RtmRpcData) :
    ∃ after, parts.blob rpcData =
      parts.fields ++ (CompactSize.encode (parts.txs.length + 1) ++
        (parts.beforeScript rpcData ++ (parts.script ++ after))) := by
  refine ⟨leBytes 4 0 ++ (CompactSize.encode parts.groups.all.length ++
    ((parts.groups.all.map TransactionOutput.bytes).flatten ++
      (parts.groups.witness ++ (leBytes 4 0 ++ (parts.payload ++
        parts.txs.flatten))))), ?_⟩
  simp only [blob, coinbase, body, input, beforeScript, Dialect.sizedBytes,
    List.append_assoc]

include made

theorem Parts.count_safe :
    parts.txs.length + 1 ≤ CompactSize.maxSafeInteger :=
  (Nat.succ_le_succ made.few).trans (by decide)

private theorem coinbaseScript_of_made
    (documented : packages.VaruintDocumented) :
    coinbaseScript packages (parts.blob rpcData) =
      .ok (80 + (CompactSize.encode (parts.txs.length + 1)).length +
        (parts.beforeScript rpcData).length, parts.script.length) := by
  obtain ⟨after, around⟩ := parts.blob_around_script rpcData
  have body : (parts.blob rpcData).drop 80 =
      CompactSize.encode (parts.txs.length + 1) ++
        (parts.beforeScript rpcData ++ (parts.script ++ after)) := by
    rw [around, List.drop_left' made.fields]
  have counted := Index.varuint_decode_encode documented
    (parts.count_safe made)
    (parts.beforeScript rpcData ++ (parts.script ++ after))
  have transactions : (parts.blob rpcData).drop
      (80 + (CompactSize.encode (parts.txs.length + 1)).length) =
        parts.beforeScript rpcData ++ (parts.script ++ after) := by
    rw [← List.drop_drop, body, List.drop_left]
  have size : (parts.blob rpcData).length =
      80 + (CompactSize.encode (parts.txs.length + 1)).length +
        (parts.beforeScript rpcData).length +
          (parts.script ++ after).length := by
    rw [around]
    simp only [List.length_append, made.fields, Nat.add_assoc]
  apply except_bind_eq_ok.mpr
  refine ⟨_, body ▸ counted, except_bind_eq_ok.mpr ?_⟩
  refine ⟨_, transactions ▸ reads_beforeScript rpcData made.script _, ?_⟩
  have start := (congrArg (· - (parts.script ++ after).length) size).trans
    (Nat.add_sub_cancel_right _ _)
  exact congrArg (fun start => Except.ok (start, parts.script.length)) start

/-- The placeholder lies inside of the script, where the template says. -/
theorem placeholder_of_made :
    ((parts.blob rpcData).drop template.reservedOffset).take 17 =
      extraNoncePlaceholder := by
  obtain ⟨after, around⟩ := parts.blob_around_script rpcData
  have start : (parts.fields ++
      (CompactSize.encode (parts.txs.length + 1) ++
        (parts.beforeScript rpcData ++ parts.part1))).length =
          template.reservedOffset := by
    rw [made.reservedOffset]
    simp only [List.length_append, made.fields, Nat.add_assoc]
  have split : parts.blob rpcData =
      (parts.fields ++ (CompactSize.encode (parts.txs.length + 1) ++
        (parts.beforeScript rpcData ++ parts.part1))) ++
          (extraNoncePlaceholder ++ (parts.part2 ++ after)) := by
    rw [around, Parts.script]
    simp only [List.append_assoc]
  rw [split, List.drop_left' start]
  exact List.take_left' List.length_replicate

private theorem script_of_made :
    ((parts.blob rpcData).drop
      (80 + (CompactSize.encode (parts.txs.length + 1)).length +
        (parts.beforeScript rpcData).length)).take parts.script.length =
          parts.script := by
  obtain ⟨after, around⟩ := parts.blob_around_script rpcData
  have before : (parts.fields ++ (CompactSize.encode (parts.txs.length + 1) ++
      parts.beforeScript rpcData)).length =
        80 + (CompactSize.encode (parts.txs.length + 1)).length +
          (parts.beforeScript rpcData).length := by
    simp only [List.length_append, made.fields, Nat.add_assoc]
  rw [around, ← List.append_assoc, ← List.append_assoc, List.append_assoc
    parts.fields, List.drop_left' before, List.take_left]

end Placeholder

variable (packages) in
/-- The walk over the blob of a template finds what was requested. -/
structure Consumed (rpcData : RtmRpcData) (template : RtmTemplate)
    (coinbase : ParsedTransaction) (others : List ParsedTransaction) :
    Prop where
  converted : ∃ header after, (Index.convertRtmBlob packages).runOn
    (ofHex template.blocktemplateBlob) = (.ok header, after)
  walked : Index.blockTransactions packages true
    ((ofHex template.blocktemplateBlob).drop 80) = .ok (coinbase :: others)
  isCoinbase : coinbase.isCoinbase = true
  others : others.map ParsedTransaction.rawWithWitness =
    requestedTransactions rpcData
  body : (ofHex template.blocktemplateBlob).drop 80 =
    CompactSize.encode ((requestedTransactions rpcData).length + 1) ++
      (coinbase.rawWithWitness ++ (requestedTransactions rpcData).flatten)
  placeholder : ((ofHex template.blocktemplateBlob).drop
    template.reservedOffset).take 17 = List.replicate 17 0xcc
  inScript : ∃ start size,
    coinbaseScript packages (ofHex template.blocktemplateBlob) =
      .ok (start, size) ∧
    coinbase.ins.map ParsedInput.script =
      [((ofHex template.blocktemplateBlob).drop start).take size] ∧
    start ≤ template.reservedOffset ∧
    template.reservedOffset + 17 ≤ start + size

variable (packages) in
/-- A commitment that is defined is not falsy, and the payload of a version 1
coinbase is what the search in front of the next transaction skips. -/
structure Consumable (rpcData : RtmRpcData) : Prop where
  commitment : rpcData.defaultWitnessCommitment.isUndefined = true ∨
    rpcData.defaultWitnessCommitment.truthy = true
  payload : rpcData.coinbasedevreward.isMissing = false →
    rpcData.coinbasePayload.truthy = true →
      ∀ payload, packages.hexBuffer rpcData.coinbasePayload = .ok payload →
        requestedTransactions rpcData ≠ [] ∧
        Recoverable true (Dialect.sizedBytes payload)
          (requestedTransactions rpcData).flatten

section Walked

variable (documented : packages.VaruintDocumented)
  {parts : Parts} {rpcData : RtmRpcData} {template : RtmTemplate}
  (made : parts.Of packages rpcData template)

include made

theorem body_of_made :
    (ofHex template.blocktemplateBlob).drop 80 =
      CompactSize.encode ((requestedTransactions rpcData).length + 1) ++
        (parts.coinbase rpcData ++
          (requestedTransactions rpcData).flatten) := by
  rw [made.blob, Parts.blob, List.drop_left' made.fields, made.txs]

include documented

private theorem items_of_walked {transactions : List ParsedTransaction}
    (walked : Index.blockTransactions packages true
      ((ofHex template.blocktemplateBlob).drop 80) = .ok transactions) :
    ∃ items, Index.Laid packages true items ∧
      items.length = (requestedTransactions rpcData).length + 1 ∧
      transactions = items.map Index.Item.extended ∧
      Index.blockBytes items = parts.coinbase rpcData ++
        (requestedTransactions rpcData).flatten := by
  obtain ⟨items, size, decoded, -, -, same, laid, rfl⟩ :=
    (Index.blockTransactions_iff_items documented).mp walked
  have safe := parts.count_safe made
  rw [made.txs] at safe
  rw [body_of_made made] at decoded same
  rw [CompactSize.decode_encode safe] at decoded
  simp only [Option.some.injEq, Prod.mk.injEq] at decoded
  obtain ⟨counted, rfl⟩ := decoded
  rw [List.drop_left] at same
  exact ⟨items, laid, counted.symm, rfl, same.symm⟩

/-- What is consumed was not given a marker without a witness. -/
theorem commitment_of_consumed
    {coinbase : ParsedTransaction} {others : List ParsedTransaction}
    (consumed : Consumed packages rpcData template coinbase others) :
    rpcData.defaultWitnessCommitment.isUndefined = true ∨
      rpcData.defaultWitnessCommitment.truthy = true := by
  by_contra neither
  rw [not_or, Bool.not_eq_true, Bool.not_eq_true] at neither
  obtain ⟨head, tail, split, rejects⟩ :=
    parts.rejects_coinbase made neither.1 neither.2
  obtain ⟨items, laid, counted, -, same⟩ :=
    items_of_walked documented made consumed.walked
  cases items with
  | nil => cases counted
  | cons item items =>
      have reads : (readTransaction true).Reads item.transaction item.bytes :=
        laid.1
      have accepted := reads (item.tail ++ Index.blockBytes items)
      rw [← Index.blockBytes_cons, same, split, List.append_assoc,
        rejects] at accepted
      cases accepted

private theorem consumable_of_consumed
    {coinbase : ParsedTransaction} {others : List ParsedTransaction}
    (consumed : Consumed packages rpcData template coinbase others) :
    Consumable packages rpcData := by
  have commitment := commitment_of_consumed documented made consumed
  refine ⟨commitment, ?_⟩
  intro present truthy payload payloadOk
  have version1 : hasDevReward rpcData = true := by
    rw [hasDevReward, present]
    rfl
  obtain ⟨read, reads, -, -⟩ := parts.reads_coinbase made commitment
  obtain ⟨items, laid, counted, extended, same⟩ :=
    items_of_walked documented made consumed.walked
  have suffix : parts.suffix rpcData = Dialect.sizedBytes payload := by
    rcases payload_of_payloadBytes made.payload with
      ⟨-, falsy, -⟩ | ⟨found, -, foundOk, -, written⟩
    · rw [truthy] at falsy
      cases falsy
    · rw [coinbasePayload, if_pos truthy, payloadOk] at foundOk
      obtain rfl := Except.ok.inj foundOk
      rw [Parts.suffix, if_pos version1, written]
  cases items with
  | nil => cases counted
  | cons item items =>
      have first : (readTransaction true).Reads item.transaction item.bytes :=
        laid.1
      rw [List.map_cons] at extended
      obtain ⟨rfl, -⟩ := List.cons.inj extended
      rw [Index.blockBytes_cons, ← parts.core_append_suffix,
        List.append_assoc] at same
      obtain ⟨-, core, rest⟩ := first.unique reads same
      -- the transactions follow the coinbase, so the tail is the suffix
      have body := consumed.body
      rw [body_of_made made, List.append_cancel_left_eq,
        ← parts.core_append_suffix, Index.Item.extended,
        rawWithWitness_extendTransactionRaw,
        rawWithWitness_of_reads first, core,
        List.append_assoc, List.append_assoc,
        List.append_cancel_left_eq] at body
      have tail : item.tail = parts.suffix rpcData :=
        (List.append_cancel_right body).symm
      rw [tail, List.append_cancel_left_eq] at rest
      have ends := laid.2.1
      rw [tail, suffix, Index.Ends] at ends
      split_ifs at ends with searched
      · rw [rest] at ends
        refine ⟨?_, ends⟩
        intro none
        rw [none] at counted
        rw [Nat.succ.inj counted] at searched
        cases searched
      · have positive := CompactSize.length_encode_pos payload.length
        rw [Dialect.sizedBytes, List.append_eq_nil_iff] at ends
        rw [ends.1] at positive
        cases positive

omit documented in
/-- The payload of a version 1 coinbase is skipped. -/
theorem ends_of_consumable
    (consumable : Consumable packages rpcData) {items : List Index.Item}
    (count : items.length = (requestedTransactions rpcData).length)
    (others : Index.blockBytes items =
      (requestedTransactions rpcData).flatten) :
    Index.Ends true (parts.suffix rpcData) items := by
  unfold Parts.suffix
  split_ifs with version1
  · rcases payload_of_payloadBytes made.payload with
      ⟨-, -, nothing⟩ | ⟨payload, needed, payloadOk, -, written⟩
    · rw [nothing]
      exact Index.ends_nil _ _
    · have truthy : rpcData.coinbasePayload.truthy = true := by
        rcases needed with other | truthy
        · rw [version1] at other
          cases other
        · exact truthy
      have present : rpcData.coinbasedevreward.isMissing = false := by
        rwa [hasDevReward, Bool.not_eq_true'] at version1
      rw [coinbasePayload, if_pos truthy] at payloadOk
      obtain ⟨nonempty, recoverable⟩ :=
        consumable.payload present truthy payload payloadOk
      rw [Index.Ends, others, count, written, if_pos]
      · exact recoverable
      · rw [Bool.true_and]
        exact decide_eq_true (List.length_pos_iff.mpr nonempty)
  · exact Index.ends_nil _ _

/-- A request of the kind is taken apart as it was put together. -/
theorem consumed_of_consumable (consumable : Consumable packages rpcData) :
    ∃ coinbase others,
      Consumed packages rpcData template coinbase others := by
  obtain ⟨read, reads, isCoinbase, script⟩ :=
    parts.reads_coinbase made consumable.commitment
  obtain ⟨transactions, readable⟩ := made.readable
  rw [made.txs] at readable
  have itemReads : List.Forall₂ (Index.itemReader packages true).Reads
      transactions (requestedTransactions rpcData) := readable
  have others := Index.blockBytes_untailed itemReads
  have count : (Index.untailed transactions
      (requestedTransactions rpcData)).length =
        (requestedTransactions rpcData).length := by
    rw [Index.untailed, List.length_zipWith, readable.length_eq, Nat.min_self]
  have ends := ends_of_consumable made consumable count others
  let items : List Index.Item :=
    ⟨read, parts.core rpcData, parts.suffix rpcData⟩ ::
      Index.untailed transactions (requestedTransactions rpcData)
  have walked : Index.blockTransactions packages true
      ((ofHex template.blocktemplateBlob).drop 80) =
        .ok (items.map Index.Item.extended) := by
    have few := made.few
    rw [made.txs] at few
    have size : items.length = (requestedTransactions rpcData).length + 1 :=
      congrArg Nat.succ count
    have bytes : Index.blockBytes items = parts.coinbase rpcData ++
        (requestedTransactions rpcData).flatten := by
      rw [Index.blockBytes_cons, others, ← List.append_assoc,
        parts.core_append_suffix]
    rw [body_of_made made, ← size, ← bytes]
    have laid : Index.Laid packages true items :=
      ⟨reads, ends, Index.laid_untailed itemReads⟩
    apply Index.blockTransactions_of_items documented laid (Nat.succ_pos _)
    rw [size]
    exact Nat.succ_le_succ few
  rw [List.map_cons, Index.extended_untailed itemReads] at walked
  have raw := rawWithWitness_of_reads reads
  refine ⟨_, transactions, ?_, walked, ?_, ?_, ?_, ?_, ?_⟩
  · have root := @Index.blockRoot_of_walked _
      (Index.Family.rtm.layout packages) _ _ walked
    exact ⟨_, _, Index.Family.convert_ok root⟩
  · rw [Index.Item.extended, isCoinbase_extendTransactionRaw, isCoinbase]
  · rw [← List.forall₂_eq_eq_eq, List.forall₂_map_left_iff]
    exact readable.imp fun _ _ => rawWithWitness_of_reads
  · rw [body_of_made made, Index.Item.extended,
      rawWithWitness_extendTransactionRaw, raw, parts.core_append_suffix]
  · rw [made.blob]
    exact placeholder_of_made made
  · rw [made.blob]
    refine ⟨_, _, coinbaseScript_of_made made documented, ?_, ?_, ?_⟩
    · rw [script_of_made made, Index.Item.extended, ins_extendTransactionRaw,
        script]
    · rw [made.reservedOffset]
      omega
    · rw [made.reservedOffset, Parts.script, List.length_append,
        List.length_append, extraNoncePlaceholder, List.length_replicate]
      omega

end Walked

/-- A template is consumed, unless its request is one of the two kinds for
which the tests of the builder disagree with those of the reader. -/
theorem rtmBlockTemplate_consumed_iff
    (documented : packages.VaruintDocumented)
    {rpcData : RtmRpcData} {poolAddress : JsValue} {now : Int}
    {template : RtmTemplate}
    (built : RtmBlockTemplate packages rpcData poolAddress now =
      .ok template) :
    (∃ coinbase others,
        Consumed packages rpcData template coinbase others) ↔
      Consumable packages rpcData := by
  obtain ⟨parts, made⟩ := parts_of_built built
  constructor
  · rintro ⟨coinbase, others, consumed⟩
    exact consumable_of_consumed documented made consumed
  · exact consumed_of_consumable documented made

def samplePoolAddress : JsValue :=
  .string "RUCyaEZxQu3Eure73XPQ57si813RYAMQKC".toList

/-- The request of the tests, without transactions. -/
def sampleRequest (defaultWitnessCommitment : JsValue) : RtmRpcData where
  height := 1
  version := .number 0x20000000
  curtime := 1710000000
  bits := .string "1d00ffff".toList
  previousblockhash := .string (List.replicate 64 '0')
  target :=
    "00000000ffff0000000000000000000000000000000000000000000000000000".toList
  coinbaseaux := .object [(.flags, .string [])]
  coinbasevalue := 5000000000
  coinbasePayload := .undefined
  coinbasedevreward := .undefined
  defaultWitnessCommitment := defaultWitnessCommitment
  smartnode := .undefined
  superblock := .undefined
  founder := .undefined
  founderPaymentsStarted := .undefined
  transactions := .array []

theorem sampleRequest_built :
    ∃ template, RtmBlockTemplate .documented (sampleRequest .undefined)
      samplePoolAddress 1710000000 = .ok template :=
  exists_of_isOk (by decide +kernel)

theorem rtmBlockTemplate_consumed_sample :
    ∃ template coinbase others,
      RtmBlockTemplate .documented (sampleRequest .undefined)
        samplePoolAddress 1710000000 = .ok template ∧
      Consumed .documented (sampleRequest .undefined) template coinbase
        others := by
  obtain ⟨template, built⟩ := sampleRequest_built
  obtain ⟨coinbase, others, consumed⟩ :=
    (rtmBlockTemplate_consumed_iff Packages.documented_varuint built).mpr
      ⟨.inl rfl, nofun⟩
  exact ⟨template, coinbase, others, built, consumed⟩

/-- The commitment `null` gives a marker and no witness. -/
theorem rtmBlockTemplate_not_consumed_null :
    ∃ template,
      RtmBlockTemplate .documented (sampleRequest .null) samplePoolAddress
        1710000000 = .ok template ∧
      ¬∃ coinbase others, Consumed .documented (sampleRequest .null) template
        coinbase others := by
  obtain ⟨template, built⟩ : ∃ template,
      RtmBlockTemplate .documented (sampleRequest .null) samplePoolAddress
        1710000000 = .ok template :=
    exists_of_isOk (by decide +kernel)
  refine ⟨template, built, ?_⟩
  rintro ⟨coinbase, others, consumed⟩
  obtain ⟨parts, made⟩ := parts_of_built built
  rcases commitment_of_consumed Packages.documented_varuint made
    consumed with impossible | impossible <;> cases impossible

end BlockTemplate.Rtm
