import BlockTemplate.Bitcoin.RtmPayouts

/-!
# The coinbase of an RTM template

What `RtmBlockTemplate` puts together, as one record, and how the reader takes
its coinbase apart.  The marker, the witness and the payload are each decided
by a test of their own.  A commitment that is defined but falsy gives a marker
without a witness, and the payload of a version 1 coinbase lies behind the end
of the transaction.
-/

namespace BlockTemplate.Rtm

variable {packages : Packages}

theorem small_is_safe {size : Nat} (small : size ≤ 0xffffffff) :
    size ≤ CompactSize.maxSafeInteger :=
  small.trans (by decide)

private theorem Payouts.short_of_coversAll
    {payouts : Payouts} {outputs : List TransactionOutput}
    (covered : payouts.CoversAll outputs) :
    ∀ output ∈ outputs, output.script.length ≤ 0xffffffff := by
  induction outputs generalizing payouts with
  | nil => exact nofun
  | cons first outputs ih =>
      intro output member
      rcases List.mem_cons.mp member with rfl | later
      · exact covered.1.2.2
      · exact ih covered.2 output later

theorem Groups.short_of_affordable
    {groups : Groups} {rpcData : RtmRpcData}
    (affordable : groups.Affordable rpcData) :
    ∀ output ∈ groups.all, output.script.length ≤ 0xffffffff := by
  intro output member
  rcases List.mem_append.mp member with member | committed
  · rcases List.mem_append.mp member with requested | pool
    · exact Payouts.short_of_coversAll affordable.requested output requested
    · obtain rfl := List.mem_singleton.mp pool
      exact affordable.pool.2.2
  · exact Payouts.short_of_coversAll affordable.commitment output committed

def TransactionOutput.parsed (output : TransactionOutput) : ParsedOutput where
  valueBuffer := leBytes 8 output.amount
  script := output.script

theorem reads_outputs (readPayload : Bool) {outputs : List TransactionOutput}
    (short : ∀ output ∈ outputs, output.script.length ≤ 0xffffffff) :
    List.Forall₂ (dialect readPayload).readOutput.Reads
      (outputs.map TransactionOutput.parsed)
      (outputs.map TransactionOutput.bytes) := by
  rw [List.forall₂_map_left_iff, List.forall₂_map_right_iff, List.forall₂_same]
  intro output member
  exact (dialect readPayload).reads_output (length_leBytes 8 _)
    (small_is_safe (short output member))

/-- The bytes that a transaction of a request stands for. -/
def transactionData (tx : JsValue) : Bytes :=
  match tx.get .data with
  | .ok (.string data) => ofHex data
  | _ => []

private theorem data_of_decodeRtmTransactionData
    {tx : JsValue} {txBuffer : Bytes}
    (decoded : decodeRtmTransactionData tx = .ok txBuffer) :
    txBuffer = transactionData tx := by
  unfold decodeRtmTransactionData at decoded
  split at decoded
  · cases decoded
  · obtain ⟨data, dataOk, decoded⟩ := except_bind_eq_ok.mp decoded
    cases data with
    | string data =>
        obtain ⟨-, decoded⟩ := throwIf_bind_eq_ok.mp decoded
        obtain ⟨-, decoded⟩ := throwIf_bind_eq_ok.mp decoded
        obtain ⟨-, decoded⟩ := throwIf_bind_eq_ok.mp decoded
        obtain rfl := Except.ok.inj decoded
        rw [transactionData, dataOk]
    | _ => cases decoded

private theorem reads_of_validateRtmTransaction {buffer : Bytes}
    (valid : validateRtmTransaction buffer = .ok ()) :
    ∃ transaction, (readTransaction true).Reads transaction buffer := by
  obtain ⟨⟨transaction, rest⟩, read, valid⟩ := except_bind_eq_ok.mp valid
  have ended := throwIf_eq_ok.mp valid
  rw [Bool.not_eq_false', List.isEmpty_iff] at ended
  subst ended
  exact ⟨transaction, Reader.Local.reads read⟩

private theorem reads_of_readDaemonTransaction {tx : JsValue} {txBuffer : Bytes}
    (read : readDaemonTransaction tx = .ok txBuffer) :
    txBuffer = transactionData tx ∧
      ∃ transaction, (readTransaction true).Reads transaction txBuffer := by
  unfold readDaemonTransaction at read
  split at read
  · rename_i attempt attempted
    obtain rfl := Except.ok.inj read
    obtain ⟨decodedBuffer, decoded, attempted⟩ := except_bind_eq_ok.mp attempted
    obtain ⟨⟨⟩, valid, attempted⟩ := except_bind_eq_ok.mp attempted
    obtain rfl := Except.ok.inj attempted
    exact ⟨data_of_decodeRtmTransactionData decoded,
      reads_of_validateRtmTransaction valid⟩
  · cases read

private theorem reads_of_readDaemonTransactions
    {items : List JsValue} {txBytes : Nat} {txs : List Bytes}
    (read : readDaemonTransactions items txBytes = .ok txs) :
    txs = items.map transactionData ∧
      ∃ transactions,
        List.Forall₂ (readTransaction true).Reads transactions txs := by
  induction items generalizing txBytes txs with
  | nil =>
      cases read
      exact ⟨rfl, [], .nil⟩
  | cons item items ih =>
      obtain ⟨txBuffer, first, read⟩ := except_bind_eq_ok.mp read
      obtain ⟨-, read⟩ := throwIf_bind_eq_ok.mp read
      obtain ⟨others, othersOk, read⟩ := except_bind_eq_ok.mp read
      obtain rfl := Except.ok.inj read
      obtain ⟨rfl, transaction, firstReads⟩ :=
        reads_of_readDaemonTransaction first
      obtain ⟨rfl, transactions, reads⟩ := ih othersOk
      exact ⟨rfl, transaction :: transactions, .cons firstReads reads⟩

/-- The byte strings of the transactions of a request. -/
def requestedTransactions (rpcData : RtmRpcData) : List Bytes :=
  rpcData.transactions.entries.map transactionData

private theorem reads_of_daemonTransactions
    {rpcData : RtmRpcData} {txs : List Bytes}
    (read : daemonTransactions rpcData.transactions = .ok txs) :
    txs = requestedTransactions rpcData ∧
      txs.length ≤ maxRtmTemplateTransactions ∧
      ∃ transactions,
        List.Forall₂ (readTransaction true).Reads transactions txs := by
  unfold daemonTransactions at read
  unfold requestedTransactions
  cases transactions : rpcData.transactions with
  | array items =>
      rw [transactions] at read
      obtain ⟨few, read⟩ := throwIf_bind_eq_ok.mp read
      obtain ⟨rfl, reads⟩ := reads_of_readDaemonTransactions read
      refine ⟨rfl, ?_, reads⟩
      rw [List.length_map]
      exact Nat.le_of_not_lt (of_decide_eq_false few)
  | _ =>
      rw [transactions] at read
      cases read

def hasDevReward (rpcData : RtmRpcData) : Bool :=
  !rpcData.coinbasedevreward.isMissing

/-- Version 1 of type 0, or version 3 of type 5. -/
def versionBytes (rpcData : RtmRpcData) : Bytes :=
  if hasDevReward rpcData then [1, 0, 0, 0] else [3, 0, 5, 0]

def markerBytes (rpcData : RtmRpcData) : Bytes :=
  if isWitness rpcData then advancedMarker else []

structure Parts where
  fields : Bytes
  part1 : Bytes
  part2 : Bytes
  groups : Groups
  payload : Bytes
  txs : List Bytes

namespace Parts

def script (parts : Parts) : Bytes :=
  parts.part1 ++ extraNoncePlaceholder ++ parts.part2

def input (parts : Parts) : Bytes :=
  List.replicate 32 0 ++ (leBytes 4 0xffffffff ++
    (Dialect.sizedBytes parts.script ++ leBytes 4 0))

/-- Inputs and outputs. -/
def body (parts : Parts) : Bytes :=
  CompactSize.encode 1 ++ (parts.input ++
    (CompactSize.encode parts.groups.all.length ++
      (parts.groups.all.map TransactionOutput.bytes).flatten))

/-- What the builder means to be the coinbase. -/
def coinbase (parts : Parts) (rpcData : RtmRpcData) : Bytes :=
  versionBytes rpcData ++ (markerBytes rpcData ++ (parts.body ++
    (parts.groups.witness ++ (leBytes 4 0 ++ parts.payload))))

/-- The bytes of the coinbase in front of its script. -/
def beforeScript (parts : Parts) (rpcData : RtmRpcData) : Bytes :=
  versionBytes rpcData ++ (markerBytes rpcData ++ (CompactSize.encode 1 ++
    (List.replicate 32 0 ++ (leBytes 4 0xffffffff ++
      CompactSize.encode parts.script.length))))

def blob (parts : Parts) (rpcData : RtmRpcData) : Bytes :=
  parts.fields ++ (CompactSize.encode (parts.txs.length + 1) ++
    (parts.coinbase rpcData ++ parts.txs.flatten))

variable (packages) in
/-- A template is made of these parts. -/
structure Of (parts : Parts) (rpcData : RtmRpcData) (template : RtmTemplate) :
    Prop where
  fields : parts.fields.length = 80
  script : parts.script.length ≤ 0xffffffff
  affordable : parts.groups.Affordable rpcData
  hasCommitment : parts.groups.commitment.isSome =
    rpcData.defaultWitnessCommitment.truthy
  payload : payloadBytes packages rpcData (versionBytes rpcData) =
    .ok parts.payload
  txs : parts.txs = requestedTransactions rpcData
  few : parts.txs.length ≤ maxRtmTemplateTransactions
  readable : ∃ transactions,
    List.Forall₂ (readTransaction true).Reads transactions parts.txs
  blob : ofHex template.blocktemplateBlob = parts.blob rpcData
  reservedOffset : template.reservedOffset =
    80 + (CompactSize.encode (parts.txs.length + 1)).length +
      ((parts.beforeScript rpcData).length + parts.part1.length)

end Parts

private theorem hasDevReward_of_ok {rpcData : RtmRpcData} {found : Bool}
    (checked : hasValidCoinbaseDevReward rpcData = .ok found) :
    found = hasDevReward rpcData := by
  unfold hasValidCoinbaseDevReward at checked
  unfold hasDevReward
  split at checked
  · rename_i missing
    rw [missing]
    exact (Except.ok.inj checked).symm
  · rename_i present
    obtain ⟨valid, -, checked⟩ := except_bind_eq_ok.mp checked
    obtain ⟨-, checked⟩ := throwIf_bind_eq_ok.mp checked
    rw [Bool.not_eq_true] at present
    rw [present]
    exact (Except.ok.inj checked).symm

private theorem coinbaseVersion_eq (rpcData : RtmRpcData) :
    coinbaseVersion (hasDevReward rpcData) = .ok (versionBytes rpcData) := by
  unfold versionBytes
  cases hasDevReward rpcData <;> rfl

private theorem markerBytes_eq (rpcData : RtmRpcData) :
    ofHex (if isWitness rpcData then "0001".toList else []) =
      markerBytes rpcData := by
  unfold markerBytes
  cases isWitness rpcData with
  | false => rfl
  | true => decide

private theorem length_of_packVersion {version : JsValue} {bytes : Bytes}
    (packed : packVersion version = .ok bytes) : bytes.length = 4 := by
  cases version with
  | number num =>
      simp only [packVersion] at packed
      split_ifs at packed
      exact (uint32LE_of_packInt32LE packed).1
  | _ => cases packed

theorem length_of_blockHeader {rpcData : RtmRpcData} {header : Header}
    (built : blockHeader packages rpcData = .ok header) :
    header.version.length = 4 ∧ header.prevHash.length = 32 ∧
      header.curtime.length = 4 ∧ header.bits.length = 4 := by
  obtain ⟨prevHashBuf, -, built⟩ := except_bind_eq_ok.mp built
  obtain ⟨prevHashSize, built⟩ := throwIf_bind_eq_ok.mp built
  obtain ⟨version, versionOk, built⟩ := except_bind_eq_ok.mp built
  obtain ⟨curtime, curtimeOk, built⟩ := except_bind_eq_ok.mp built
  obtain ⟨bits, -, built⟩ := except_bind_eq_ok.mp built
  obtain ⟨bitsSize, built⟩ := throwIf_bind_eq_ok.mp built
  obtain rfl := Except.ok.inj built
  rw [bne_eq_false_iff_eq] at prevHashSize bitsSize
  exact ⟨length_of_packVersion versionOk,
    List.length_reverse.trans prevHashSize,
    length_of_writeUIntLE curtimeOk, List.length_reverse.trans bitsSize⟩

private theorem coinbaseHead_eq
    {rpcData : RtmRpcData} {part1 part2 blob1 : Bytes}
    (built : coinbaseHead rpcData (versionBytes rpcData) part1 part2 =
      .ok blob1) :
    part1.length + extraNoncePlaceholder.length + part2.length ≤ 0xffffffff ∧
      blob1 = versionBytes rpcData ++ (markerBytes rpcData ++
        (CompactSize.encode 1 ++ (List.replicate 32 0 ++
          (leBytes 4 0xffffffff ++ (CompactSize.encode
            (part1.length + extraNoncePlaceholder.length + part2.length) ++
              part1))))) := by
  obtain ⟨txInputsCount, countOk, built⟩ := except_bind_eq_ok.mp built
  obtain ⟨txInPrevOutIndex, indexOk, built⟩ := except_bind_eq_ok.mp built
  obtain ⟨scriptSize, sizeOk, built⟩ := except_bind_eq_ok.mp built
  obtain rfl := Except.ok.inj built
  obtain ⟨-, rfl⟩ := varIntBuffer_eq_ok.mp countOk
  obtain ⟨short, rfl⟩ := varIntBuffer_eq_ok.mp sizeOk
  have index : packUInt32LE (2 ^ 32 - 1) = .ok (leBytes 4 0xffffffff) := rfl
  obtain rfl := Except.ok.inj (index.symm.trans indexOk)
  have hash : uint256BufferFromHash [] = List.replicate 32 0 := by decide
  rw [markerBytes_eq, hash]
  simp only [List.append_assoc]
  exact ⟨short, trivial⟩

private theorem coinbaseTail_eq
    {rpcData : RtmRpcData} {poolAddress : JsValue} {part2 blob2 : Bytes}
    (built : coinbaseTail packages rpcData poolAddress (hasDevReward rpcData)
      (versionBytes rpcData) part2 = .ok blob2) :
    ∃ groups : Groups, ∃ payload, groups.AskedBy packages rpcData poolAddress
        (hasDevReward rpcData) ∧ groups.Affordable rpcData ∧
      payloadBytes packages rpcData (versionBytes rpcData) = .ok payload ∧
      blob2 = part2 ++ (leBytes 4 0 ++ (groups.bytes ++
        (leBytes 4 0 ++ payload))) := by
  obtain ⟨txInSequence, sequenceOk, built⟩ := except_bind_eq_ok.mp built
  obtain ⟨outputs, outputsOk, built⟩ := except_bind_eq_ok.mp built
  obtain ⟨txLockTime, lockTimeOk, built⟩ := except_bind_eq_ok.mp built
  obtain ⟨payload, payloadOk, built⟩ := except_bind_eq_ok.mp built
  obtain rfl := Except.ok.inj built
  have zero : packUInt32LE 0 = .ok (leBytes 4 0) := rfl
  obtain rfl := Except.ok.inj (zero.symm.trans sequenceOk)
  obtain rfl := Except.ok.inj (zero.symm.trans lockTimeOk)
  obtain ⟨groups, asked, affordable, rfl⟩ :=
    generateTransactionOutputs_eq_ok.mp outputsOk
  refine ⟨groups, payload, asked, affordable, payloadOk, ?_⟩
  simp only [List.append_assoc]

theorem parts_of_built
    {rpcData : RtmRpcData} {poolAddress : JsValue} {now : Int}
    {template : RtmTemplate}
    (built : RtmBlockTemplate packages rpcData poolAddress now =
      .ok template) :
    ∃ parts : Parts, parts.Of packages rpcData template := by
  obtain ⟨found, checked, built⟩ := except_bind_eq_ok.mp built
  obtain rfl := hasDevReward_of_ok checked
  obtain ⟨version, versionOk, built⟩ := except_bind_eq_ok.mp built
  rw [coinbaseVersion_eq] at versionOk
  obtain rfl := Except.ok.inj versionOk
  obtain ⟨part1, -, built⟩ := except_bind_eq_ok.mp built
  obtain ⟨part2, -, built⟩ := except_bind_eq_ok.mp built
  obtain ⟨blob1, headOk, built⟩ := except_bind_eq_ok.mp built
  obtain ⟨blob2, tailOk, built⟩ := except_bind_eq_ok.mp built
  obtain ⟨header, headerOk, built⟩ := except_bind_eq_ok.mp built
  obtain ⟨txs, txsOk, built⟩ := except_bind_eq_ok.mp built
  obtain ⟨txn, countOk, built⟩ := except_bind_eq_ok.mp built
  obtain ⟨difficulty, -, built⟩ := except_bind_eq_ok.mp built
  obtain rfl := Except.ok.inj built
  obtain ⟨short, rfl⟩ := coinbaseHead_eq headOk
  obtain ⟨groups, payload, asked, affordable, payloadOk, rfl⟩ :=
    coinbaseTail_eq tailOk
  obtain ⟨same, few, readable⟩ := reads_of_daemonTransactions txsOk
  obtain ⟨-, rfl⟩ := varIntBuffer_eq_ok.mp countOk
  obtain ⟨versionSize, prevHashSize, curtimeSize, bitsSize⟩ :=
    length_of_blockHeader headerOk
  let parts : Parts :=
    { fields := header.version ++ header.prevHash ++ List.replicate 32 0 ++
        header.curtime ++ header.bits ++ List.replicate 4 0
      part1, part2, groups, payload, txs }
  have scriptSize : parts.script.length =
      part1.length + extraNoncePlaceholder.length + part2.length := by
    simp only [Parts.script, List.length_append, parts]
  refine ⟨parts, ?_, scriptSize.le.trans short, affordable,
    asked.hasCommitment, payloadOk, same, few, readable, ?_, ?_⟩
  · simp only [List.length_append, List.length_replicate, versionSize,
      prevHashSize, curtimeSize, bitsSize, parts]
  · simp only [← toHex_append, ofHex_toHex]
    rw [Parts.blob, Parts.coinbase, Parts.body, Parts.input,
      Dialect.sizedBytes, scriptSize]
    simp only [Parts.script, Groups.bytes, List.append_assoc, parts]
  · rw [Parts.beforeScript, scriptSize]
    simp only [List.length_append, Nat.add_assoc, parts]

end BlockTemplate.Rtm
