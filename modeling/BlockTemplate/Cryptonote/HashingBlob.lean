import BlockTemplate.Cryptonote.FormatUtils

/-!
# The hashing blob binds the block

Two blocks with one hashing blob have the same header fields, the same number
of transactions and the same leaves of the hash tree, unless two different
strings that were hashed for their trees have one hash.
-/

namespace BlockTemplate

open Serializer

variable {cnFastHash : Bytes → Hash} {helpers : Rct.Helpers}
  {blobType : BlobType} {first second : Block}

/-- The header in a hashing blob can be loaded again. -/
theorem reads_hashingHeader
    (other : blobType ≠ .cryptonoteCuckoo) {blob : Bytes} {block : Block}
    (parsed : parseAndValidateBlockFromBlob helpers blobType blob =
      some block) :
    (BlockHeader.doSerialize blobType).Reads block.toBlockHeader
      (hashingHeader blobType block.toBlockHeader) := by
  obtain ⟨_, _, -, headerReads⟩ :=
    Block.reads_header (parse_block_iff.mp parsed)
  obtain ⟨saved, dumped, again, -⟩ :=
    (BlockHeader.resaves blobType _).dump headerReads
  rw [hashingHeader, if_neg other, tSerializableObjectToBlob, dumped]
  exact again

/-- A Cuckoo hashing blob starts with 42 bytes of four members. -/
theorem hashingHeader_cuckoo (header : BlockHeader) :
    hashingHeader .cryptonoteCuckoo header =
      [header.majorVersion] ++ ([header.minorVersion] ++
        (leBytes 8 header.timestamp.toNat ++ header.prevId.bytes)) := by
  rw [hashingHeader, if_pos rfl]
  simp [tSerializableObjectToBlob, dump_encode]

private theorem hashingHeader_cuckoo_inj
    {first second : BlockHeader} {firstRest secondRest : Bytes}
    (same : hashingHeader .cryptonoteCuckoo first ++ firstRest =
      hashingHeader .cryptonoteCuckoo second ++ secondRest) :
    first.majorVersion = second.majorVersion ∧
      first.minorVersion = second.minorVersion ∧
      first.timestamp = second.timestamp ∧ first.prevId = second.prevId ∧
      firstRest = secondRest := by
  simp only [hashingHeader_cuckoo, List.append_assoc, List.cons_append,
    List.nil_append, List.cons.injEq] at same
  obtain ⟨major, minor, later⟩ := same
  obtain ⟨times, later⟩ := encode_append_inj (uint 8) later
  obtain ⟨previous, rests⟩ := encode_append_inj (blob 32) later
  exact ⟨major, minor, times, previous, rests⟩

/-- A tail gives the number of transaction hashes and what follows it. -/
theorem hashingTail_inj
    (sameMajor : first.majorVersion = second.majorVersion)
    (firstCount : first.txHashes.length ≤ maxBlockTxHashes)
    (secondCount : second.txHashes.length ≤ maxBlockTxHashes)
    (same : hashingTail blobType first = hashingTail blobType second) :
    first.txHashes.length = second.txHashes.length ∧
      (blobType = .cryptonote3 → first.uncle = second.uncle) ∧
      (blobType = .cryptonoteCuckoo → first.nonce8 = second.nonce8) := by
  have extra : ∀ block : Block, ∃ more, more ≤ 2 ∧
      (if blobType = .cryptonoteSalvium then
        if block.majorVersion.toNat ≥ hfVersionEnableNOuts then 2 else 1
      else 1) = more := by
    intro block
    split_ifs <;> simp
  obtain ⟨more, moreSmall, moreEq⟩ := extra second
  simp only [hashingTail, sameMajor, List.append_assoc, getVarintData, moreEq]
    at same
  obtain ⟨counts, later⟩ := encode_append_inj (uvarint 64) same
  have lengths : first.txHashes.length = second.txHashes.length := by
    have values := congrArg BitVec.toNat counts
    rw [BitVec.toNat_ofNat, BitVec.toNat_ofNat] at values
    unfold maxBlockTxHashes at firstCount secondCount
    omega
  refine ⟨lengths, fun masari => ?_, fun cuckoo => ?_⟩
  · rw [if_pos masari, if_pos masari] at later
    exact (encode_append_inj (blob 32) later).1
  · subst cuckoo
    simp only [reduceCtorEq, if_false, if_true, List.nil_append] at later
    have ended : leBytes 8 first.nonce8.toNat ++ [] =
        leBytes 8 second.nonce8.toNat ++ [] := congrArg (· ++ []) later
    exact (encode_append_inj (uint 8) ended).1

/-- The header members that a hashing blob has in front of the root. -/
def SameHashedHeader (blobType : BlobType) (first second : BlockHeader) :
    Prop :=
  if blobType = .cryptonoteCuckoo then
    first.majorVersion = second.majorVersion ∧
      first.minorVersion = second.minorVersion ∧
      first.timestamp = second.timestamp ∧ first.prevId = second.prevId
  else first = second

theorem SameHashedHeader.majorVersion {first second : BlockHeader}
    (same : SameHashedHeader blobType first second) :
    first.majorVersion = second.majorVersion := by
  unfold SameHashedHeader at same
  split at same
  · exact same.1
  · rw [same]

/-- Where the header of a hashing blob ends does not depend on what follows. -/
theorem hashingHeader_inj
    {firstBlob secondBlob firstRest secondRest : Bytes}
    (firstParsed : parseAndValidateBlockFromBlob helpers blobType firstBlob =
      some first)
    (secondParsed : parseAndValidateBlockFromBlob helpers blobType secondBlob =
      some second)
    (same : hashingHeader blobType first.toBlockHeader ++ firstRest =
      hashingHeader blobType second.toBlockHeader ++ secondRest) :
    SameHashedHeader blobType first.toBlockHeader second.toBlockHeader ∧
      firstRest = secondRest := by
  unfold SameHashedHeader
  split
  · rename_i cuckoo
    subst cuckoo
    obtain ⟨major, minor, time, previous, rests⟩ :=
      hashingHeader_cuckoo_inj same
    exact ⟨⟨major, minor, time, previous⟩, rests⟩
  · rename_i other
    have unique := (reads_hashingHeader other firstParsed).unique
      (reads_hashingHeader other secondParsed) same
    exact ⟨unique.1, unique.2.2⟩

private theorem length_txsIds (block : Block) :
    (txsIds cnFastHash helpers blobType block).length =
      (if blobType = .cryptonoteSalvium then 2 else 1) +
        block.txHashes.length := by
  rw [txsIds, List.length_append, List.length_map, Block.transactions]
  split <;> rfl

private theorem txsIds_inj
    (lengths : first.txHashes.length = second.txHashes.length)
    (count : first.txHashes.length ≤ maxBlockTxHashes)
    (same : getTxTreeHash cnFastHash helpers blobType first =
      getTxTreeHash cnFastHash helpers blobType second) :
    txsIds cnFastHash helpers blobType first =
        txsIds cnFastHash helpers blobType second ∨
      Merkle.Collision cnFastHash
        (treeHash cnFastHash (txsIds cnFastHash helpers blobType first)).2
        (treeHash cnFastHash (txsIds cnFastHash helpers blobType second)).2 := by
  have more : (if blobType = .cryptonoteSalvium then 2 else 1) ≤ 2 ∧
      1 ≤ (if blobType = .cryptonoteSalvium then 2 else 1) := by
    split <;> decide
  unfold maxBlockTxHashes at count
  apply treeHash_inj
  · rw [length_txsIds, length_txsIds, lengths]
  · rw [length_txsIds]
    omega
  · rw [length_txsIds]
    omega
  · exact same

/-- Blocks with one hashing blob have the same hashed header, the same number
of transaction hashes, the same uncle or `nonce8`, and the same leaves, or
else two different 64-byte strings that were hashed for them collide. -/
theorem getBlockHashingBlob_binds
    (cnFastHash : Bytes → Hash) (helpers : Rct.Helpers) (blobType : BlobType)
    (firstBlob secondBlob : Bytes) (first second : Block)
    (firstParsed : parseAndValidateBlockFromBlob helpers blobType firstBlob =
      some first)
    (secondParsed : parseAndValidateBlockFromBlob helpers blobType secondBlob =
      some second)
    (firstCount : first.txHashes.length ≤ 65536)
    (secondCount : second.txHashes.length ≤ 65536)
    (same : getBlockHashingBlob cnFastHash helpers blobType first =
      getBlockHashingBlob cnFastHash helpers blobType second) :
    SameHashedHeader blobType first.toBlockHeader second.toBlockHeader ∧
    first.txHashes.length = second.txHashes.length ∧
    (blobType = .cryptonote3 → first.uncle = second.uncle) ∧
    (blobType = .cryptonoteCuckoo → first.nonce8 = second.nonce8) ∧
    (txsIds cnFastHash helpers blobType first =
        txsIds cnFastHash helpers blobType second ∨
      ∃ x ∈ (treeHash cnFastHash
          (txsIds cnFastHash helpers blobType first)).2,
        ∃ y ∈ (treeHash cnFastHash
          (txsIds cnFastHash helpers blobType second)).2,
        x.length = 64 ∧ y.length = 64 ∧ x ≠ y ∧
          cnFastHash x = cnFastHash y) := by
  have firstFew : ¬first.txHashes.length > maxBlockTxHashes :=
    Nat.not_lt.mpr firstCount
  have secondFew : ¬second.txHashes.length > maxBlockTxHashes :=
    Nat.not_lt.mpr secondCount
  rw [getBlockHashingBlob, getBlockHashingBlob, if_neg firstFew,
    if_neg secondFew, Option.some.injEq, List.append_assoc,
    List.append_assoc] at same
  obtain ⟨headers, later⟩ := hashingHeader_inj firstParsed secondParsed same
  obtain ⟨roots, tails⟩ := encode_append_inj (blob 32) later
  obtain ⟨counts, uncles, numbers⟩ :=
    hashingTail_inj headers.majorVersion firstCount secondCount tails
  refine ⟨headers, counts, uncles, numbers, ?_⟩
  rcases txsIds_inj counts firstCount roots with leaves | collision
  · exact .inl leaves
  · obtain ⟨x, xMember, y, yMember, different, sameHash⟩ := collision
    exact .inr ⟨x, xMember, y, yMember, length_hashed cnFastHash xMember,
      length_hashed cnFastHash yMember, different, sameHash⟩

/-- A Cuckoo block of one coinbase whose cycle has one value everywhere. -/
def cuckooBlob (edge : Byte) : Bytes :=
  [1, 1, 0] ++ List.replicate 32 0 ++ [9, 0, 0, 0, 0, 0, 0, 0] ++
    [1, 2, 3, 4] ++ List.replicate 128 edge ++
    [2, 0, 1, 0xff, 0, 0, 3, 2, 1, 0, 0] ++ [0]

/-- The hashing blob of a Cuckoo block does not have the cycle. -/
theorem getBlockHashingBlob_cycle (block : Block) (cycle : Cycle) :
    getBlockHashingBlob cnFastHash helpers .cryptonoteCuckoo
        { block with cycle } =
      getBlockHashingBlob cnFastHash helpers .cryptonoteCuckoo block :=
  rfl

theorem getBlockHashingBlob_binds_cuckoo :
    ∃ first second,
      parseAndValidateBlockFromBlob emptyProofs .cryptonoteCuckoo
        (cuckooBlob 1) = some first ∧
      parseAndValidateBlockFromBlob emptyProofs .cryptonoteCuckoo
        (cuckooBlob 2) = some second ∧
      first.cycle ≠ second.cycle ∧
      SameHashedHeader .cryptonoteCuckoo first.toBlockHeader
        second.toBlockHeader ∧
      first.nonce8 = second.nonce8 := by
  obtain ⟨first, parsed⟩ := Option.isSome_iff_exists.mp
    (show (parseAndValidateBlockFromBlob emptyProofs .cryptonoteCuckoo
      (cuckooBlob 1)).isSome by decide +kernel)
  have members : (parseAndValidateBlockFromBlob emptyProofs .cryptonoteCuckoo
      (cuckooBlob 1)).map (fun block => (block.cycle, block.txHashes)) =
        some (⟨List.replicate 128 1, List.length_replicate⟩, []) := by
    decide +kernel
  have other : parseAndValidateBlockFromBlob emptyProofs .cryptonoteCuckoo
      (cuckooBlob 2) =
        (parseAndValidateBlockFromBlob emptyProofs .cryptonoteCuckoo
          (cuckooBlob 1)).map fun block =>
            { block with
              cycle := ⟨List.replicate 128 2, List.length_replicate⟩ } := by
    decide +kernel
  rw [parsed, Option.map_some] at members other
  obtain ⟨ones, empty⟩ := Prod.mk.inj (Option.some.inj members)
  have count : first.txHashes.length ≤ 65536 := by
    rw [empty]
    exact Nat.zero_le _
  obtain ⟨headers, -, -, numbers, -⟩ :=
    getBlockHashingBlob_binds Keccak.cnFastHash emptyProofs .cryptonoteCuckoo
      (cuckooBlob 1) (cuckooBlob 2) first _ parsed other count count
      (getBlockHashingBlob_cycle first _).symm
  refine ⟨first, _, parsed, other, ?_, headers, numbers rfl⟩
  rw [ones]
  exact (show (⟨List.replicate 128 1, List.length_replicate⟩ : Cycle) ≠
    ⟨List.replicate 128 2, List.length_replicate⟩ by decide)

end BlockTemplate
