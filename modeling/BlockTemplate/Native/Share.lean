import BlockTemplate.Native.Main

/-!
# Submitting a share

`construct_block_blob` puts the nonce of a share, for Cuckoo also its cycle,
into a template.  It changes nothing else, and the block it gives is the one
whose hashing blob the miner worked on.
-/

namespace BlockTemplate

open Serializer

variable {cnFastHash : Bytes → Hash} {helpers : Rct.Helpers}
  {number : Int} {blobType : BlobType} {template nonceBuf : Bytes}
  {block : Block} {words : Vector (BitVec 32) 32}
  {arguments : List CycleArgument}

/-- The block that a share makes of a template's block. -/
def submittedBlock (blobType : BlobType) (block : Block) (nonceBuf : Bytes)
    (words : Vector (BitVec 32) 32) : Block :=
  block.withShare blobType (BitVec.ofNat 32 (leValue nonceBuf))
    (.ofWords words)

private theorem nonceBytes_submittedBlock (nonceSize : nonceBuf.length = 4) :
    (submittedBlock blobType block nonceBuf words).nonceBytes = nonceBuf := by
  have low : ((BitVec.ofNat 32 (leValue nonceBuf)).setWidth 64).setWidth 32 =
      BitVec.ofNat 32 (leValue nonceBuf) :=
    BitVec.setWidth_setWidth_of_le _ (by decide)
  rw [BlockHeader.nonceBytes, submittedBlock, Block.withShare,
    BlockHeader.withShare, low]
  exact leBytes_ofNat_leValue nonceSize

private theorem cycleBytes_submittedBlock :
    (submittedBlock blobType block nonceBuf words).cycleBytes blobType =
      if blobType = .cryptonoteCuckoo then (Cycle.ofWords words).bytes
      else [] := by
  unfold BlockHeader.cycleBytes
  split
  · rename_i cuckoo
    simp [submittedBlock, Block.withShare, BlockHeader.withShare, cuckoo]
  · rfl

private theorem constructBlockBlob_submits
    (supported : BlobType.ofInt number = some blobType)
    (parsed : parseAndValidateBlockFromBlob helpers blobType template =
      some block)
    (nonceSize : nonceBuf.length = 4)
    (cycleGiven : blobType = .cryptonoteCuckoo →
      arguments = [.ofWords words]) :
    ∃ records rest submitted,
      template = block.layout blobType records ++ rest ∧
      constructBlockBlob helpers number template nonceBuf arguments =
        .ok submitted ∧
      parseAndValidateBlockFromBlob helpers blobType submitted =
        some (submittedBlock blobType block nonceBuf words) ∧
      (block.RecordsKept blobType → submitted =
        (submittedBlock blobType block nonceBuf words).layout blobType
          records ++ rest) := by
  obtain ⟨records, rest, split, shared⟩ :=
    Block.reads_withShare (parse_block_iff.mp parsed)
  obtain ⟨submitted, dumped, again, exactly⟩ :=
    (Block.resaves helpers blobType _).dump
      (shared (BitVec.ofNat 32 (leValue nonceBuf)) (.ofWords words))
  refine ⟨records, rest, submitted, split, ?_, parse_block_iff.mpr again,
    exactly⟩
  rw [constructBlockBlob_of_parsed supported parsed nonceSize cycleGiven,
    blockToBlob, dumped]
  rfl

/-- A share changes the nonce, for Cuckoo also the cycle, and nothing else of
a template, and the result is the template's block with the share in it. -/
theorem constructBlockBlob_in_place
    (helpers : Rct.Helpers) (number : Int) (blobType : BlobType)
    (template nonceBuf : Bytes) (block : Block)
    (words : Vector (BitVec 32) 32) (arguments : List CycleArgument)
    (supported : BlobType.ofInt number = some blobType)
    (parsed : parseAndValidateBlockFromBlob helpers blobType template =
      some block)
    (version : blobType = .cryptonoteZephyr → 3 ≤ block.majorVersion.toNat)
    (nonceSize : nonceBuf.length = 4)
    (cycleGiven : blobType = .cryptonoteCuckoo →
      arguments = [.ofWords words]) :
    ∃ nonce cycle after,
      nonce.length = 4 ∧
      cycle.length = (if blobType = .cryptonoteCuckoo then 128 else 0) ∧
      template =
        block.beforeNonce blobType ++ (nonce ++ (cycle ++ after)) ∧
      let result := block.beforeNonce blobType ++ (nonceBuf ++
        ((if blobType = .cryptonoteCuckoo then (Cycle.ofWords words).bytes
          else []) ++ after))
      constructBlockBlob helpers number template nonceBuf arguments =
        .ok result ∧
      parseAndValidateBlockFromBlob helpers blobType result =
        some { block with
          nonce := (BitVec.ofNat 32 (leValue nonceBuf)).setWidth 64
          cycle := if blobType = .cryptonoteCuckoo then .ofWords words
            else block.cycle } := by
  obtain ⟨records, rest, submitted, rfl, result, again, exactly⟩ :=
    constructBlockBlob_submits supported parsed nonceSize cycleGiven
  have same : submitted = block.beforeNonce blobType ++ (nonceBuf ++
      ((if blobType = .cryptonoteCuckoo then (Cycle.ofWords words).bytes
        else []) ++ (records ++ rest))) := by
    rw [exactly version, BlockHeader.layout,
      nonceBytes_submittedBlock nonceSize, cycleBytes_submittedBlock]
    simp only [List.append_assoc]
    rfl
  refine ⟨block.nonceBytes, block.cycleBytes blobType, records ++ rest, ?_, ?_,
    ?_, ?_, ?_⟩
  · exact length_leBytes _ _
  · unfold BlockHeader.cycleBytes
    split
    · exact block.cycle.length_bytes
    · rfl
  · simp only [BlockHeader.layout, List.append_assoc]
  · exact same ▸ result
  · exact same ▸ again

theorem constructBlockBlob_in_place_coinbase :
    ∃ submitted,
      constructBlockBlob emptyProofs 0 coinbaseBlob [5, 6, 7, 8] [] =
        .ok submitted ∧
      (parseAndValidateBlockFromBlob emptyProofs .cryptonote
        submitted).isSome := by
  obtain ⟨block, parsed, -⟩ := coinbaseBlob_accepted
  obtain ⟨_, _, _, -, -, -, result, again⟩ :=
    constructBlockBlob_in_place emptyProofs 0 .cryptonote coinbaseBlob
      [5, 6, 7, 8] block (.replicate 32 0) [] rfl parsed nofun rfl nofun
  exact ⟨_, result, Option.isSome_of_eq_some again⟩

private theorem hashingHeader_eq (other : blobType ≠ .cryptonoteCuckoo)
    (header : BlockHeader) {records : Bytes}
    (dumped : (header.withoutRecords.serializeRecords blobType).dump header =
      some records) :
    hashingHeader blobType header = header.layout blobType records := by
  rw [hashingHeader, if_neg other, tSerializableObjectToBlob,
    BlockHeader.dump_doSerialize, dumped]
  rfl

private theorem hashingHeader_submittedBlock_cuckoo :
    hashingHeader .cryptonoteCuckoo
        (submittedBlock .cryptonoteCuckoo block nonceBuf words).toBlockHeader =
      hashingHeader .cryptonoteCuckoo block.toBlockHeader := by
  rw [hashingHeader, hashingHeader, if_pos rfl, if_pos rfl]
  rfl

/-- Nothing after the header depends on a share. -/
theorem getBlockHashingBlob_submittedBlock :
    getBlockHashingBlob cnFastHash helpers blobType
        (submittedBlock blobType block nonceBuf words) =
      if block.txHashes.length > maxBlockTxHashes then none
      else
        some (hashingHeader blobType
            (submittedBlock blobType block nonceBuf words).toBlockHeader ++
          (getTxTreeHash cnFastHash helpers blobType block).bytes ++
          hashingTail blobType block) := rfl

/-- The header that is hashed, before and after a share is put in. -/
theorem hashingHeader_submittedBlock
    (parsed : parseAndValidateBlockFromBlob helpers blobType template =
      some block)
    (nonceSize : nonceBuf.length = 4)
    (other : blobType ≠ .cryptonoteCuckoo) :
    ∃ records,
      hashingHeader blobType block.toBlockHeader =
        block.beforeNonce blobType ++ (block.nonceBytes ++ records) ∧
      hashingHeader blobType
          (submittedBlock blobType block nonceBuf words).toBlockHeader =
        block.beforeNonce blobType ++ (nonceBuf ++ records) := by
  obtain ⟨_, _, -, headerReads⟩ :=
    Block.reads_header (parse_block_iff.mp parsed)
  obtain ⟨_, _, recordsRead, -, -⟩ :=
    BlockHeader.reads_doSerialize.mp headerReads
  obtain ⟨records, dumped, -, -⟩ :=
    (BlockHeader.resaves_records blobType _ _).dump recordsRead
  let submitted := (submittedBlock blobType block nonceBuf words).toBlockHeader
  have dumpedAgain :
      (submitted.withoutRecords.serializeRecords blobType).dump submitted =
        some records :=
    (BlockHeader.dump_records_withShare block.withoutRecords _ _).trans dumped
  refine ⟨records, ?_, ?_⟩
  · rw [hashingHeader_eq other _ dumped, BlockHeader.layout,
      BlockHeader.cycleBytes, if_neg other, List.nil_append]
  · rw [hashingHeader_eq other _ dumpedAgain, BlockHeader.layout,
      nonceBytes_submittedBlock nonceSize, cycleBytes_submittedBlock,
      if_neg other, List.nil_append]
    rfl

/-- The block that is submitted is the one that was hashed: its hashing blob
is the template's with the nonce in it, for Cuckoo the template's. -/
theorem convertBlob_constructBlockBlob
    (cnFastHash : Bytes → Hash) (helpers : Rct.Helpers) (number : Int)
    (blobType : BlobType) (template nonceBuf : Bytes) (block : Block)
    (words : Vector (BitVec 32) 32) (arguments : List CycleArgument)
    (supported : BlobType.ofInt number = some blobType)
    (parsed : parseAndValidateBlockFromBlob helpers blobType template =
      some block)
    (nonceSize : nonceBuf.length = 4)
    (cycleGiven : blobType = .cryptonoteCuckoo →
      arguments = [.ofWords words]) :
    ∃ submitted,
      constructBlockBlob helpers number template nonceBuf arguments =
        .ok submitted ∧
      (convertBlob cnFastHash helpers number submitted).isOk =
        (convertBlob cnFastHash helpers number template).isOk ∧
      (blobType = .cryptonoteCuckoo →
        convertBlob cnFastHash helpers number submitted =
          convertBlob cnFastHash helpers number template) ∧
      (blobType ≠ .cryptonoteCuckoo → ∀ hashing,
        convertBlob cnFastHash helpers number template = .ok hashing →
        ∃ nonce records,
          nonce.length = 4 ∧
          let after := records ++
            ((getTxTreeHash cnFastHash helpers blobType block).bytes ++
              hashingTail blobType block)
          hashing = block.beforeNonce blobType ++ (nonce ++ after) ∧
          convertBlob cnFastHash helpers number submitted =
            .ok (block.beforeNonce blobType ++ (nonceBuf ++ after))) := by
  obtain ⟨_, _, submitted, -, result, again, -⟩ :=
    constructBlockBlob_submits supported parsed nonceSize cycleGiven
  refine ⟨submitted, result, ?_, ?_, ?_⟩
  · rw [convertBlob_isOk supported again, convertBlob_isOk supported parsed]
    rfl
  · rintro rfl
    rw [convertBlob_of_parsed supported parsed,
      convertBlob_of_parsed supported again,
      getBlockHashingBlob_submittedBlock, hashingHeader_submittedBlock_cuckoo,
      getBlockHashingBlob]
  · intro other hashing success
    obtain ⟨records, header, headerAgain⟩ :=
      hashingHeader_submittedBlock parsed nonceSize other
    obtain ⟨few, rfl⟩ := (convertBlob_eq_ok supported parsed).mp success
    refine ⟨block.nonceBytes, records, length_leBytes _ _, ?_, ?_⟩
    · rw [header]
      simp only [List.append_assoc]
    · apply (convertBlob_eq_ok supported again).mpr
      refine ⟨few, ?_⟩
      rw [headerAgain]
      simp only [List.append_assoc]
      rfl

theorem convertBlob_constructBlockBlob_coinbase :
    ∃ submitted, ∃ root : Hash,
      constructBlockBlob emptyProofs 0 coinbaseBlob [5, 6, 7, 8] [] =
        .ok submitted ∧
      convertBlob Keccak.cnFastHash emptyProofs 0 coinbaseBlob =
        .ok (coinbaseBlob.take 35 ++ ([1, 2, 3, 4] ++ (root.bytes ++ [1]))) ∧
      convertBlob Keccak.cnFastHash emptyProofs 0 submitted =
        .ok (coinbaseBlob.take 35 ++ ([5, 6, 7, 8] ++ (root.bytes ++ [1]))) := by
  obtain ⟨block, parsed, -, -, empty⟩ := coinbaseBlob_accepted
  have supported : BlobType.ofInt 0 = some .cryptonote := rfl
  have fields : (parseAndValidateBlockFromBlob emptyProofs .cryptonote
      coinbaseBlob).map (fun block =>
        (hashingHeader .cryptonote block.toBlockHeader,
          block.beforeNonce .cryptonote, hashingTail .cryptonote block)) =
      some (coinbaseBlob.take 35 ++ [1, 2, 3, 4], coinbaseBlob.take 35, [1]) := by
    decide
  rw [parsed, Option.map_some, Option.some.injEq, Prod.mk.injEq,
    Prod.mk.injEq] at fields
  obtain ⟨header, before, tail⟩ := fields
  have few : block.txHashes.length ≤ maxBlockTxHashes := by
    rw [empty]
    exact Nat.zero_le _
  have converted := (@convertBlob_eq_ok Keccak.cnFastHash _ _ _ _ _ _ supported
    parsed).mpr ⟨few, rfl⟩
  rw [header, tail, List.append_assoc] at converted
  obtain ⟨submitted, result, -, -, others⟩ :=
    convertBlob_constructBlockBlob Keccak.cnFastHash emptyProofs 0
      .cryptonote coinbaseBlob [5, 6, 7, 8] block (.replicate 32 0) []
      supported parsed rfl nofun
  obtain ⟨nonce, records, size, split, again⟩ := others nofun _ converted
  rw [before, tail] at split again
  obtain ⟨old, behind⟩ :=
    List.append_inj (List.append_cancel_left split) size.symm
  rw [List.self_eq_append_left] at behind
  rw [behind] at again
  exact ⟨submitted, _, result, converted, again⟩

end BlockTemplate
