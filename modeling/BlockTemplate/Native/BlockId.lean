import BlockTemplate.Native.Main

/-!
# Block ids and hashing blobs

`get_block_id` and `convert_blob` limit the number of transaction hashes by
two constants of different files, which differ by one.
-/

namespace BlockTemplate

open Serializer

set_option synthInstance.maxSize 20000
set_option synthInstance.maxHeartbeats 100000

variable {cnFastHash : Bytes → Hash} {helpers : Rct.Helpers}
  {number : Int} {blobType : BlobType} {input : Bytes} {block : Block}

/-- The id of a hashing blob. -/
def blockIdOf (cnFastHash : Bytes → Hash) (output : Bytes) : Hash :=
  cnFastHash (getVarintData output.length ++ output)

private theorem getBlockHash_eq :
    getBlockHash cnFastHash helpers blobType block =
      (getBlockHashingBlob cnFastHash helpers blobType block).map
        (blockIdOf cnFastHash) := rfl

private theorem getBlockHashingBlob_few
    (few : block.txHashes.length ≤ maxBlockTxHashes) :
    ∃ output, getBlockHashingBlob cnFastHash helpers blobType block =
      some output := by
  rw [getBlockHashingBlob, if_neg (Nat.not_lt.mpr few)]
  exact ⟨_, rfl⟩

private theorem getBlockHashingBlob_many
    (many : maxBlockTxHashes < block.txHashes.length) :
    getBlockHashingBlob cnFastHash helpers blobType block = none := by
  rw [getBlockHashingBlob, if_pos many]

/-- `get_block_id` agrees with `convert_blob`. -/
def BlockIdAgrees (cnFastHash : Bytes → Hash) (helpers : Rct.Helpers)
    (number : Int) (input : Bytes) : Prop :=
  (getBlockId cnFastHash helpers number input).isOk =
      (convertBlob cnFastHash helpers number input).isOk ∧
    ∀ output, convertBlob cnFastHash helpers number input = .ok output →
      getBlockId cnFastHash helpers number input =
        .ok (blockIdOf cnFastHash output)

/-- On a parsed block the two agree but at the one number of hashes that lies
between their limits. -/
theorem blockIdAgrees_of_parsed
    (supported : BlobType.ofInt number = some blobType)
    (parsed : parseAndValidateBlockFromBlob helpers blobType input =
      some block) :
    BlockIdAgrees cnFastHash helpers number input ↔
      block.txHashes.length ≠ 65536 := by
  have blockId : getBlockId cnFastHash helpers number input = _ :=
    getBlockId_of_parsed supported parsed
  have converted : convertBlob cnFastHash helpers number input = _ :=
    convertBlob_of_parsed supported parsed
  rw [BlockIdAgrees, blockId, converted, getBlockHash_eq]
  rcases Nat.lt_trichotomy block.txHashes.length 65536 with few | limit | many
  · obtain ⟨output, hashing⟩ := @getBlockHashingBlob_few cnFastHash helpers
      blobType block few.le
    have allowed : ¬block.txHashes.length > maxBlockIdTxHashes := by
      unfold maxBlockIdTxHashes
      omega
    rw [if_neg allowed, hashing]
    refine iff_of_true ⟨rfl, fun other success => ?_⟩ few.ne
    cases success
    rfl
  · obtain ⟨output, hashing⟩ := @getBlockHashingBlob_few cnFastHash helpers
      blobType block limit.le
    have refused : block.txHashes.length > maxBlockIdTxHashes := by
      unfold maxBlockIdTxHashes
      omega
    rw [if_pos refused, hashing]
    exact iff_of_false (fun agrees => Bool.false_ne_true agrees.1)
      (fun different => different limit)
  · have refused : block.txHashes.length > maxBlockIdTxHashes := by
      unfold maxBlockIdTxHashes
      omega
    rw [if_pos refused, getBlockHashingBlob_many many]
    exact iff_of_true ⟨rfl, nofun⟩ many.ne'

private theorem blockIdAgrees_of_unparsed
    (refused : ∀ blobType, BlobType.ofInt number = some blobType →
      parseAndValidateBlockFromBlob helpers blobType input = none) :
    BlockIdAgrees cnFastHash helpers number input := by
  cases supported : BlobType.ofInt number with
  | none =>
      simp [BlockIdAgrees, getBlockId, convertBlob, supportedBlobType,
        supported, bind, Except.bind, Except.isOk, Except.toBool]
  | some blobType =>
      simp [BlockIdAgrees, getBlockId, convertBlob,
        supportedBlobType_eq supported, refused blobType supported, bind,
        Except.bind, Except.isOk, Except.toBool]

/-- `get_block_id` agrees with `convert_blob` on every blob but those of
blocks with exactly 65536 transaction hashes. -/
theorem getBlockId_agrees_iff
    (cnFastHash : Bytes → Hash) (helpers : Rct.Helpers) (number : Int)
    (input : Bytes) :
    ((getBlockId cnFastHash helpers number input).isOk =
        (convertBlob cnFastHash helpers number input).isOk ∧
      ∀ output, convertBlob cnFastHash helpers number input = .ok output →
        getBlockId cnFastHash helpers number input =
          .ok (cnFastHash (getVarintData output.length ++ output))) ↔
    ∀ blobType block, BlobType.ofInt number = some blobType →
      parseAndValidateBlockFromBlob helpers blobType input = some block →
      block.txHashes.length ≠ 65536 := by
  by_cases parsed : ∃ blobType block,
      BlobType.ofInt number = some blobType ∧
        parseAndValidateBlockFromBlob helpers blobType input = some block
  · obtain ⟨blobType, block, supported, accepted⟩ := parsed
    refine (blockIdAgrees_of_parsed supported accepted).trans ?_
    constructor
    · intro different otherType other otherSupported otherAccepted
      rw [supported, Option.some.injEq] at otherSupported
      subst otherSupported
      rw [accepted, Option.some.injEq] at otherAccepted
      exact otherAccepted ▸ different
    · intro all
      exact all blobType block supported accepted
  · have refused : ∀ blobType, BlobType.ofInt number = some blobType →
        parseAndValidateBlockFromBlob helpers blobType input = none := by
      intro blobType supported
      rw [Option.eq_none_iff_forall_ne_some]
      intro block accepted
      exact parsed ⟨blobType, block, supported, accepted⟩
    exact iff_of_true (blockIdAgrees_of_unparsed refused)
      fun blobType block supported accepted =>
        (parsed ⟨blobType, block, supported, accepted⟩).elim

/-- The coinbase block with a number of zero hashes for transactions. -/
def crowdedBlob (count : Nat) : Bytes :=
  coinbaseBlob.dropLast ++ (getVarintData count ++
    (List.replicate count nullHash).flatMap Blob.bytes)

/-- Transaction hashes may be put after a coinbase. -/
theorem crowdedBlob_accepted {count : Nat} (small : count < 2 ^ 64) :
    ∃ block,
      parseAndValidateBlockFromBlob emptyProofs .cryptonote
        (crowdedBlob count) = some block ∧ block.txHashes.length = count := by
  obtain ⟨block, parsed, -, -, empty⟩ := coinbaseBlob_accepted
  have reads := parse_block_iff.mp parsed
  simp only [Block.doSerialize, reads_bind, reads_field, reads_pure] at reads
  obtain ⟨header, headerBytes, _, split, headerReads, miner, minerBytes, _,
    rfl, minerReads, protocol, protocolBytes, _, rfl, protocolReads, hashes,
    hashBytes, _, rfl, hashesRead, uncle, uncleBytes, _, rfl, uncleReads, rfl,
    rfl⟩ := reads
  obtain rfl : hashes = [] := empty
  obtain ⟨-, elementBytes, rfl, each⟩ := reads_vector.mp hashesRead
  cases each
  obtain ⟨-, rfl⟩ := reads_fieldIf.mp protocolReads
  obtain ⟨-, rfl⟩ := reads_fieldIf.mp uncleReads
  have front : coinbaseBlob.dropLast = headerBytes ++ minerBytes := by
    have ended : coinbaseBlob = (headerBytes ++ minerBytes) ++ [0] := by
      rw [split, show writeVarint (BitVec.ofNat 64 ([] : List Hash).length) =
        [0] from rfl]
      simp
    rw [ended, List.dropLast_concat]
  let crowd := List.replicate count nullHash
  have crowdSize : crowd.length = count := List.length_replicate
  have crowdReads : (vector (blob 32)).Reads crowd
      (getVarintData count ++ crowd.flatMap Blob.bytes) := by
    apply reads_vector.mpr
    rw [crowdSize]
    exact ⟨small, _, rfl, readsEach_encode crowd⟩
  refine ⟨{ toBlockHeader := header, minerTx := miner, protocolTx := {},
            txHashes := crowd, uncle := Blob.zero 32 }, ?_, crowdSize⟩
  apply parse_block_iff.mpr
  simp only [Block.doSerialize, reads_bind, reads_field, reads_pure]
  refine ⟨header, headerBytes, _, ?_, headerReads, miner, minerBytes, _, rfl,
    minerReads, {}, [], _, rfl, reads_fieldIf.mpr ⟨rfl, rfl⟩, crowd, _, _, rfl,
    crowdReads, Blob.zero 32, [], _, rfl, reads_fieldIf.mpr ⟨rfl, rfl⟩, rfl,
    rfl⟩
  rw [crowdedBlob, front]
  simp only [List.append_assoc, List.nil_append, List.append_nil]
  rfl

theorem getBlockId_refuses_converted :
    (convertBlob Keccak.cnFastHash emptyProofs 0 (crowdedBlob 65536)).isOk ∧
      getBlockId Keccak.cnFastHash emptyProofs 0 (crowdedBlob 65536) =
        .error "Block has too many transaction hashes" := by
  obtain ⟨block, parsed, count⟩ :=
    @crowdedBlob_accepted 65536 (by decide)
  have supported : BlobType.ofInt 0 = some .cryptonote := rfl
  have refused : block.txHashes.length > maxBlockIdTxHashes := by
    rw [count]
    decide
  constructor
  · rw [convertBlob_isOk supported parsed, count]
    rfl
  · rw [getBlockId_of_parsed supported parsed, if_pos refused]

end BlockTemplate
