import BlockTemplate.Cryptonote.FormatUtils

/-!
# What a transaction hash commits to

`get_transaction_hash` serializes the prefix, the base section and the
prunable section of a transaction on its own, with counts it finds by its own
conditions.  For a loaded transaction these are the parts of its blob.
-/

namespace BlockTemplate

open Serializer

set_option synthInstance.maxSize 20000
set_option synthInstance.maxHeartbeats 100000

variable {cnFastHash : Bytes → Hash} {helpers : Rct.Helpers}
  {blobType : BlobType}

section Counts

variable (blobType : BlobType) (head : TransactionPrefixHead)

private theorem hashInputs_eq :
    head.hashInputs blobType = head.inputs blobType := by
  cases blobType <;> rfl

private theorem hashOutputs_eq :
    head.hashOutputs blobType = head.outputs blobType := by
  cases blobType <;> rfl

private theorem guarded_mixinOf {KeyInput : Type}
    (keyOffsets : KeyInput → List (BitVec 64))
    (vin : List (InputBy KeyInput)) :
    (if vin.isEmpty then 0 else mixinOf keyOffsets vin) =
      mixinOf keyOffsets vin := by
  cases vin with
  | nil => rfl
  | cons input vin => rfl

private theorem hashMixin_eq :
    head.hashMixin blobType = head.mixin blobType := by
  simp only [TransactionPrefixHead.hashMixin, guarded_mixinOf]
  cases blobType <;> rfl

end Counts

private theorem reads_rctSig {inputs outputs : Nat} {mixin : BitVec 64}
    {signature : RctSig} {bytes : Bytes}
    (reads : (RctSig.serialize helpers inputs outputs mixin).Reads signature
      bytes) :
    ∃ base prunable, bytes = base ++ prunable ∧
      (Rct.serializeRctsigBase inputs outputs).Reads signature.toSigBase
        base ∧
      if signature.type = Rct.rctTypeNull then prunable = []
      else
        (Rct.serializeRctsigPrunable helpers signature.type inputs outputs
          mixin).Reads signature.p prunable := by
  simp only [RctSig.serialize, reads_bind, reads_field, reads_fieldIf,
    reads_pure] at reads
  obtain ⟨base, baseBytes, _, rfl, baseReads, p, prunable, _, rfl, pReads,
    rfl, rfl⟩ := reads
  refine ⟨baseBytes, prunable, by rw [List.append_nil], baseReads, ?_⟩
  by_cases null : base.type = Rct.rctTypeNull
  · rw [if_pos null]
    simp only [null, ne_eq, not_true_eq_false, decide_false,
      Bool.false_eq_true, if_false] at pReads
    exact pReads.2
  · rw [if_neg null]
    simpa [null] using pReads

/-- A transaction that is not hashed as a whole has its parts one after the
other; without inputs it has a prefix only. -/
theorem reads_parts {tx : Transaction} {bytes : Bytes}
    (reads : (Transaction.doSerialize helpers blobType).Reads tx bytes)
    (parts : hashesWhole blobType tx = false) :
    ∃ txPrefix rct, bytes = txPrefix ++ rct ∧
      (TransactionPrefix.doSerialize blobType).Reads tx.toTransactionPrefix
        txPrefix ∧
      if tx.hasInputs blobType then
        (RctSig.serialize helpers (tx.inputs blobType) (tx.outputs blobType)
          (tx.mixin blobType)).Reads tx.rctSignatures rct
      else tx.rctSignatures = {} ∧ rct = [] := by
  rw [Transaction.doSerialize, reads_bind] at reads
  obtain ⟨loaded, prefixBytes, rct, rfl, prefixReads, rctReads⟩ := reads
  unfold Transaction.serializeRest at rctReads
  split at rctReads
  · rename_i whole
    simp only [reads_bind, reads_pure] at rctReads
    obtain ⟨_, _, _, -, -, rfl, -⟩ := rctReads
    simp [hashesWhole, whole.1, whole.2] at parts
  · simp only [reads_bind, reads_fieldIf, reads_pure] at rctReads
    obtain ⟨signature, rctBytes, _, rfl, signatureReads, rfl, rfl⟩ := rctReads
    exact ⟨prefixBytes, rctBytes, by rw [List.append_nil],
      reads_field.mp prefixReads, signatureReads⟩

/-- The transactions of a loaded block are loaded ones. -/
theorem reads_transactions {block : Block} {bytes : Bytes}
    (reads : (Block.doSerialize helpers blobType).Reads block bytes)
    {tx : Transaction} (member : tx ∈ block.transactions blobType) :
    ∃ txBytes,
      (Transaction.doSerialize helpers blobType).Reads tx txBytes := by
  simp only [Block.doSerialize, reads_bind, reads_field, reads_fieldIf,
    reads_pure] at reads
  obtain ⟨_, _, _, -, -, miner, minerBytes, _, -, minerReads, protocol,
    protocolBytes, _, -, protocolReads, _, _, _, -, -, _, _, _, -, -, rfl,
    -⟩ := reads
  unfold Block.transactions at member
  split at member
  · rename_i salvium
    rw [if_pos (decide_eq_true salvium)] at protocolReads
    rcases List.mem_pair.mp member with rfl | rfl
    · exact ⟨minerBytes, minerReads⟩
    · exact ⟨protocolBytes, protocolReads⟩
  · rw [List.mem_singleton.mp member]
    exact ⟨minerBytes, minerReads⟩

/-- The three strings that are hashed for a transaction. -/
structure HashedParts (helpers : Rct.Helpers) (blobType : BlobType)
    (tx : Transaction) (txPrefix base prunable : Bytes) : Prop where
  prefix_eq : (TransactionPrefix.doSerialize blobType).dump
    tx.toTransactionPrefix = some txPrefix
  base_eq : rctsigBaseBlob blobType tx = some base
  prunable_eq :
    if tx.rctSignatures.type = Rct.rctTypeNull then prunable = []
    else rctsigPrunableBlob helpers blobType tx = some prunable

private theorem hashedParts_of_reads {tx : Transaction} {bytes : Bytes}
    (reads : (Transaction.doSerialize helpers blobType).Reads tx bytes)
    (parts : hashesWhole blobType tx = false) :
    ∃ txPrefix base prunable,
      HashedParts helpers blobType tx txPrefix base prunable ∧
      txPrefix ++ (base ++ prunable) =
        if tx.hasInputs blobType then bytes else bytes ++ [0] := by
  obtain ⟨txPrefix, rct, rfl, prefixReads, rctReads⟩ := reads_parts reads parts
  split at rctReads
  · rename_i inputs
    obtain ⟨base, prunable, rfl, baseReads, prunableReads⟩ :=
      reads_rctSig rctReads
    refine ⟨txPrefix, base, prunable, ⟨prefixReads.dump, ?_, ?_⟩, ?_⟩
    · rw [rctsigBaseBlob, hashInputs_eq, hashOutputs_eq]
      exact baseReads.dump
    · split at prunableReads
      · rename_i null
        rwa [if_pos null]
      · rename_i notNull
        rw [if_neg notNull, rctsigPrunableBlob, hashInputs_eq, hashOutputs_eq,
          hashMixin_eq]
        exact prunableReads.dump
    · rw [if_pos inputs]
  · rename_i noRct
    obtain ⟨empty, rfl⟩ := rctReads
    refine ⟨txPrefix, [0], [], ⟨prefixReads.dump, ?_, ?_⟩, ?_⟩
    · rw [rctsigBaseBlob, empty]
      rfl
    · rw [empty]
      rfl
    · rw [if_neg noRct, List.append_nil, List.append_nil]

private theorem getTransactionHash_of_parts
    {tx : Transaction} {txPrefix base prunable : Bytes}
    (hashed : HashedParts helpers blobType tx txPrefix base prunable)
    (parts : hashesWhole blobType tx = false) :
    getTransactionHash cnFastHash helpers blobType tx =
      some (cnFastHash
        ((cnFastHash (prefixDomain blobType ++ txPrefix)).bytes ++
          (cnFastHash base).bytes ++
          (if tx.rctSignatures.type = Rct.rctTypeNull then nullHash
            else cnFastHash prunable).bytes)) := by
  have prefixHash :
      getTransactionPrefixHash cnFastHash blobType tx.toTransactionPrefix =
        cnFastHash (prefixDomain blobType ++ txPrefix) := by
    rw [getTransactionPrefixHash, tSerializableObjectToBlob, hashed.prefix_eq]
    rfl
  have whole : ¬hashesWhole blobType tx = true := by
    rw [parts]
    exact Bool.false_ne_true
  have prunableHash := hashed.prunable_eq
  rw [getTransactionHash, if_neg whole, prefixHash, hashed.base_eq]
  split at prunableHash
  · rename_i null
    simp [null]
  · rename_i notNull
    simp [notNull, prunableHash]

/-- The hash of a loaded transaction that is hashed in parts covers its blob:
no part fails, the counts are those it was loaded with, and the parts are the
blob, with the byte of a null type where there are no inputs. -/
theorem getTransactionHash_covers_blob
    (cnFastHash : Bytes → Hash) (helpers : Rct.Helpers) (blobType : BlobType)
    (blob : Bytes) (block : Block) (tx : Transaction)
    (parsed : parseAndValidateBlockFromBlob helpers blobType blob = some block)
    (member : tx ∈ block.transactions blobType)
    (parts : ¬(tx.version = 1 ∧ blobType ≠ .cryptonote3)) :
    ∃ full txPrefix base prunable,
      (Transaction.doSerialize helpers blobType).dump tx = some full ∧
      (TransactionPrefix.doSerialize blobType).dump tx.toTransactionPrefix =
        some txPrefix ∧
      rctsigBaseBlob blobType tx = some base ∧
      (if tx.rctSignatures.type = Rct.rctTypeNull then prunable = []
        else rctsigPrunableBlob helpers blobType tx = some prunable) ∧
      getTransactionHash cnFastHash helpers blobType tx =
        some (cnFastHash
          ((cnFastHash (prefixDomain blobType ++ txPrefix)).bytes ++
            (cnFastHash base).bytes ++
            (if tx.rctSignatures.type = Rct.rctTypeNull then nullHash
              else cnFastHash prunable).bytes)) ∧
      txPrefix ++ (base ++ prunable) =
        (if tx.hasInputs blobType then full else full ++ [0]) ∧
      tx.hashInputs blobType = tx.inputs blobType ∧
      tx.hashOutputs blobType = tx.outputs blobType ∧
      tx.hashMixin blobType = tx.mixin blobType := by
  have inParts : hashesWhole blobType tx = false := decide_eq_false parts
  obtain ⟨full, reads⟩ :=
    reads_transactions (parse_block_iff.mp parsed) member
  obtain ⟨txPrefix, base, prunable, hashed, joined⟩ :=
    hashedParts_of_reads reads inParts
  exact ⟨full, txPrefix, base, prunable, reads.dump, hashed.prefix_eq,
    hashed.base_eq, hashed.prunable_eq,
    getTransactionHash_of_parts hashed inParts, joined,
    hashInputs_eq blobType _, hashOutputs_eq blobType _,
    hashMixin_eq blobType _⟩

theorem getTransactionHash_covers_blob_coinbase :
    ∃ block,
      parseAndValidateBlockFromBlob emptyProofs .cryptonote coinbaseBlob =
        some block ∧
      (getTransactionHash Keccak.cnFastHash emptyProofs .cryptonote
        block.minerTx).isSome := by
  obtain ⟨block, parsed, version, -⟩ := coinbaseBlob_accepted
  have notOne : ¬(block.minerTx.version = 1 ∧
      BlobType.cryptonote ≠ .cryptonote3) := by
    rw [version]
    decide
  obtain ⟨_, _, _, _, -, -, -, -, result, -⟩ :=
    getTransactionHash_covers_blob Keccak.cnFastHash emptyProofs .cryptonote
      coinbaseBlob block block.minerTx parsed List.mem_cons_self notOne
  exact ⟨block, parsed, Option.isSome_of_eq_some result⟩

end BlockTemplate
