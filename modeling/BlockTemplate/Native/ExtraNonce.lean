import BlockTemplate.Native.Main

/-!
# Writing an extra nonce

A pool writes into the `extra` field of the miner transaction.  Nothing that
is loaded after the field depends on its contents, so the blob stays accepted
and the hashing blob changes in the root of the hash tree only.
-/

namespace BlockTemplate

open Serializer

set_option synthInstance.maxSize 20000
set_option synthInstance.maxHeartbeats 100000

variable {cnFastHash : Bytes → Hash} {helpers : Rct.Helpers}
  {number : Int} {blobType : BlobType} {template : Bytes} {block : Block}

def TransactionPrefix.withExtra (txPrefix : TransactionPrefix)
    (extra : Bytes) : TransactionPrefix :=
  { txPrefix with extra }

def Transaction.withExtra (tx : Transaction) (extra : Bytes) : Transaction :=
  { tx with toTransactionPrefix := tx.toTransactionPrefix.withExtra extra }

/-- A block with other contents of its miner transaction's `extra`. -/
def Block.withExtra (block : Block) (extra : Bytes) : Block :=
  { block with minerTx := block.minerTx.withExtra extra }

/-- No member of a prefix after `extra` depends on it. -/
theorem maps_prefixRest (head : TransactionPrefixHead) (extra other : Bytes) :
    Maps (·.withExtra other)
      (TransactionPrefix.serializeRest blobType head extra)
      (TransactionPrefix.serializeRest blobType head other) := by
  unfold TransactionPrefix.serializeRest
  split
  · iterate 13 refine maps_bind fun _ => ?_
    exact maps_pure _ _
  · iterate 3 refine maps_bind fun _ => ?_
    exact maps_pure _ _

/-- No signature of a transaction depends on `extra`. -/
theorem maps_transactionRest (txPrefix : TransactionPrefix) (other : Bytes) :
    Maps (·.withExtra other)
      (Transaction.serializeRest helpers blobType txPrefix)
      (Transaction.serializeRest helpers blobType
        (txPrefix.withExtra other)) := by
  have version : (txPrefix.withExtra other).version = txPrefix.version := rfl
  unfold Transaction.serializeRest
  rw [version]
  split
  · refine maps_bind fun _ => ?_
    exact maps_pure _ _
  · refine maps_bind fun _ => ?_
    exact maps_pure _ _

/-- The bytes of a value, split at the contents of its `extra`: `front` are
the bytes before the count, and contents of the same length can be put
there. -/
structure ExtraAt {Obj : Type} (codec : Codec Obj) (value : Obj)
    (withExtra : Obj → Bytes → Obj) (front extra after bytes : Bytes) :
    Prop where
  split : bytes = front ++
    (writeVarint (BitVec.ofNat 64 extra.length) ++ (extra ++ after))
  reads_other : ∀ other, other.length = extra.length →
    codec.Reads (withExtra value other) (front ++
      (writeVarint (BitVec.ofNat 64 extra.length) ++ (other ++ after)))

private theorem TransactionPrefix.extraAt {txPrefix : TransactionPrefix}
    {bytes : Bytes}
    (reads : (doSerialize blobType).Reads txPrefix bytes) :
    ∃ headBytes after,
      (TransactionPrefixHead.doSerialize blobType).Reads
        txPrefix.toTransactionPrefixHead headBytes ∧
      ExtraAt (doSerialize blobType) txPrefix withExtra headBytes
        txPrefix.extra after bytes := by
  simp only [doSerialize, reads_bind, reads_field] at reads
  obtain ⟨head, headBytes, _, rfl, headReads, extra, _, after, rfl, extraReads,
    restReads⟩ := reads
  obtain rfl : txPrefix.toTransactionPrefixHead = head :=
    (yieldsPrefixHead blobType head extra).of_load restReads.load
  obtain rfl : txPrefix.extra = extra :=
    (yieldsPrefixExtra blobType _ extra).of_load restReads.load
  obtain ⟨small, rfl⟩ := reads_vector_uint8.mp extraReads
  refine ⟨headBytes, after, headReads, ?_, fun other sameLength => ?_⟩
  · rw [List.append_assoc]
  · simp only [doSerialize, reads_bind, reads_field]
    refine ⟨_, headBytes, _, rfl, headReads, other, _, after, ?_,
      reads_vector_uint8.mpr ⟨sameLength ▸ small, rfl⟩,
      maps_prefixRest _ _ other _ _ restReads⟩
    rw [sameLength, List.append_assoc]

private theorem Transaction.extraAt {tx : Transaction} {bytes : Bytes}
    (reads : (doSerialize helpers blobType).Reads tx bytes) :
    ∃ headBytes after,
      (TransactionPrefixHead.doSerialize blobType).Reads
        tx.toTransactionPrefixHead headBytes ∧
      ExtraAt (doSerialize helpers blobType) tx withExtra headBytes
        tx.extra after bytes := by
  simp only [doSerialize, reads_bind, reads_field] at reads
  obtain ⟨txPrefix, _, rest, rfl, prefixReads, restReads⟩ := reads
  obtain rfl : tx.toTransactionPrefix = txPrefix :=
    (yieldsTransactionPrefix helpers blobType txPrefix).of_load restReads.load
  obtain ⟨headBytes, after, headReads, split, others⟩ :=
    TransactionPrefix.extraAt prefixReads
  refine ⟨headBytes, after ++ rest, headReads, ?_, fun other sameLength => ?_⟩
  · simp only [split, List.append_assoc]
  · simp only [doSerialize, reads_bind, reads_field]
    refine ⟨_, _, rest, ?_, others other sameLength,
      maps_transactionRest _ other _ _ restReads⟩
    simp only [List.append_assoc]

private theorem Block.extraAt {bytes : Bytes}
    (reads : (doSerialize helpers blobType).Reads block bytes) :
    ∃ headerBytes headBytes after,
      (BlockHeader.doSerialize blobType).Reads block.toBlockHeader
        headerBytes ∧
      (TransactionPrefixHead.doSerialize blobType).Reads
        block.minerTx.toTransactionPrefixHead headBytes ∧
      ExtraAt (doSerialize helpers blobType) block withExtra
        (headerBytes ++ headBytes) block.minerTx.extra after bytes := by
  simp only [doSerialize, reads_bind, reads_field, reads_pure] at reads
  obtain ⟨header, headerBytes, _, rfl, headerReads, miner, _, rest, rfl,
    minerReads, protocol, protocolBytes, _, rfl, protocolReads, hashes,
    hashBytes, _, rfl, hashesRead, uncle, uncleBytes, _, rfl, uncleReads, rfl,
    rfl⟩ := reads
  obtain ⟨headBytes, after, headReads, split, others⟩ :=
    Transaction.extraAt minerReads
  refine ⟨headerBytes, headBytes,
    after ++ (protocolBytes ++ (hashBytes ++ uncleBytes)), headerReads,
    headReads, ?_, fun other sameLength => ?_⟩
  · simp only [split, List.append_assoc, List.append_nil]
  · simp only [doSerialize, reads_bind, reads_field, reads_pure]
    refine ⟨header, headerBytes, _, ?_, headerReads, miner.withExtra other, _,
      _, rfl, others other sameLength, protocol, protocolBytes, _, rfl,
      protocolReads, hashes, hashBytes, _, rfl, hashesRead, uncle, uncleBytes,
      _, rfl, uncleReads, rfl, rfl⟩
    simp only [List.append_assoc, List.append_nil]

/-- Where the contents of the miner transaction's `extra` start: after the
header, the members of the transaction before `extra`, and the count. -/
def minerExtraOffset (blobType : BlobType) (template : Bytes) :
    Option Nat := do
  let (_, stream) ←
    (BlockHeader.doSerialize blobType).load ⟨template, true⟩
  let (_, stream) ← (TransactionPrefixHead.doSerialize blobType).load stream
  let (_, stream) := serializeUvarint 64 stream
  return template.length - stream.rest.length

private theorem minerExtraOffset_eq
    {header : BlockHeader} {head : TransactionPrefixHead}
    {headerBytes headBytes rest : Bytes} {count : BitVec 64}
    (headerReads : (BlockHeader.doSerialize blobType).Reads header headerBytes)
    (headReads : (TransactionPrefixHead.doSerialize blobType).Reads head
      headBytes) :
    minerExtraOffset blobType
        (headerBytes ++ headBytes ++ (writeVarint count ++ rest)) =
      some (headerBytes ++ headBytes ++ writeVarint count).length := by
  have headerLoad :
      (BlockHeader.doSerialize blobType).load
          ⟨headerBytes ++ headBytes ++ (writeVarint count ++ rest), true⟩ =
        some (header, ⟨headBytes ++ (writeVarint count ++ rest), true⟩) := by
    rw [List.append_assoc]
    exact headerReads _
  have countLoad : serializeUvarint 64 ⟨writeVarint count ++ rest, true⟩ =
      (count, ⟨rest, true⟩) :=
    serializeUvarint_writeVarint (by decide) count rest
  simp only [minerExtraOffset, headerLoad, headReads _, countLoad,
    Option.bind_eq_bind, Option.bind_some, Option.pure_def,
    Option.some.injEq, List.length_append]
  omega

/-- Writing into the contents of the miner transaction's `extra` changes
these bytes of the parsed block, and of the hashing blob only the root. -/
theorem writing_extra_is_transparent
    (cnFastHash : Bytes → Hash) (helpers : Rct.Helpers) (number : Int)
    (blobType : BlobType) (template data : Bytes) (offset : Nat)
    (block : Block)
    (supported : BlobType.ofInt number = some blobType)
    (parsed : parseAndValidateBlockFromBlob helpers blobType template =
      some block)
    (inside : offset + data.length ≤ block.minerTx.extra.length) :
    ∃ start,
      minerExtraOffset blobType template = some start ∧
      (template.drop start).take block.minerTx.extra.length =
        block.minerTx.extra ∧
      let changed := overwrite template (start + offset) data
      parseAndValidateBlockFromBlob helpers blobType changed =
        some { block with
          minerTx.extra := overwrite block.minerTx.extra offset data } ∧
      (convertBlob cnFastHash helpers number changed).isOk =
        (convertBlob cnFastHash helpers number template).isOk ∧
      ∀ hashing, convertBlob cnFastHash helpers number template = .ok hashing →
        ∃ before root newRoot after,
          root.length = 32 ∧ newRoot.length = 32 ∧
          root = (getTxTreeHash cnFastHash helpers blobType block).bytes ∧
          hashing = before ++ (root ++ after) ∧
          convertBlob cnFastHash helpers number changed =
            .ok (before ++ (newRoot ++ after)) := by
  obtain ⟨headerBytes, headBytes, after, headerReads, headReads, split,
    others⟩ := Block.extraAt (parse_block_iff.mp parsed)
  generalize countEq :
    BitVec.ofNat 64 block.minerTx.extra.length = count at split others
  let front := headerBytes ++ headBytes ++ writeVarint count
  have whole (extra : Bytes) :
      headerBytes ++ headBytes ++ (writeVarint count ++ (extra ++ after)) =
        front ++ (extra ++ after) :=
    (List.append_assoc _ _ _).symm
  have changed : overwrite template (front.length + offset) data =
      front ++ (overwrite block.minerTx.extra offset data ++ after) := by
    rw [split, whole]
    exact overwrite_middle inside
  have again : parseAndValidateBlockFromBlob helpers blobType
      (overwrite template (front.length + offset) data) =
        some (block.withExtra (overwrite block.minerTx.extra offset data)) := by
    rw [changed, ← whole]
    exact parse_block_iff.mpr (others _ (length_overwrite inside))
  refine ⟨front.length, ?_, ?_, again, ?_, fun hashing success => ?_⟩
  · rw [split]
    exact minerExtraOffset_eq headerReads headReads
  · rw [split, whole, List.drop_left, List.take_left]
  · rw [convertBlob_isOk supported again, convertBlob_isOk supported parsed]
    rfl
  · obtain ⟨few, rfl⟩ := (convertBlob_eq_ok supported parsed).mp success
    refine ⟨hashingHeader blobType block.toBlockHeader, _,
      (getTxTreeHash cnFastHash helpers blobType (block.withExtra
        (overwrite block.minerTx.extra offset data))).bytes,
      hashingTail blobType block, Blob.length_bytes _, Blob.length_bytes _,
      rfl, rfl, ?_⟩
    exact (convertBlob_eq_ok supported again).mpr ⟨few, rfl⟩

theorem writing_extra_is_transparent_coinbase :
    ∃ block before newRoot after,
      parseAndValidateBlockFromBlob emptyProofs .cryptonote coinbaseBlob =
        some block ∧
      minerExtraOffset .cryptonote coinbaseBlob = some 46 ∧
      parseAndValidateBlockFromBlob emptyProofs .cryptonote
          (overwrite coinbaseBlob 48 [7]) =
        some { block with minerTx.extra := [2, 1, 7] } ∧
      newRoot.length = 32 ∧
      convertBlob Keccak.cnFastHash emptyProofs 0 coinbaseBlob =
        .ok (before ++ ((getTxTreeHash Keccak.cnFastHash emptyProofs
          .cryptonote block).bytes ++ after)) ∧
      convertBlob Keccak.cnFastHash emptyProofs 0
          (overwrite coinbaseBlob 48 [7]) =
        .ok (before ++ (newRoot ++ after)) := by
  obtain ⟨block, parsed, -, extra, empty⟩ := coinbaseBlob_accepted
  have supported : BlobType.ofInt 0 = some .cryptonote := rfl
  have inside : 2 + ([7] : Bytes).length ≤ block.minerTx.extra.length := by
    rw [extra]
    decide
  have found : minerExtraOffset .cryptonote coinbaseBlob = some 46 := by
    decide
  obtain ⟨start, startEq, -, again, -, roots⟩ :=
    writing_extra_is_transparent Keccak.cnFastHash emptyProofs 0 .cryptonote
      coinbaseBlob [7] 2 block supported parsed inside
  obtain rfl := Option.some.inj (found.symm.trans startEq)
  have few : block.txHashes.length ≤ maxBlockTxHashes := by
    rw [empty]
    exact Nat.zero_le _
  have converted := (@convertBlob_eq_ok Keccak.cnFastHash _ _ _ _ _ _ supported
    parsed).mpr ⟨few, rfl⟩
  obtain ⟨before, root, newRoot, after, -, size, rfl, split, changed⟩ :=
    roots _ converted
  rw [split] at converted
  rw [extra] at again
  exact ⟨block, before, newRoot, after, parsed, found, again, size, converted,
    changed⟩

end BlockTemplate
