import BlockTemplate.Cryptonote.FormatUtils

/-!
# Price records of Zephyr blocks

Which bytes of a loaded block are its price record, and which ones are written
in their place.  The copies into and out of the record in memory give back
every layout but the first one, whose members have no counterpart there.
-/

namespace BlockTemplate

open Serializer

set_option synthInstance.maxSize 20000
set_option synthInstance.maxHeartbeats 100000

private theorem sized_uint64 : Sized 8 uint64 := by
  intro value bytes reads
  rw [reads_iff_encode.mp reads, length_leBytes]

private theorem sized_blob (size : Nat) : Sized size (blob size) := by
  intro value bytes reads
  rw [reads_iff_encode.mp reads, value.length_bytes]

namespace ZephyrOracle

/-- The sizes of the four layouts. -/
def pricingRecordSize (majorVersion : Nat) : Nat :=
  if majorVersion ≥ 6 then 10 * 8 + 64
  else if majorVersion ≥ 4 then 9 * 8 + 64
  else if majorVersion ≥ 3 then 7 * 8 + 64
  else 3 * 8

private theorem sized_pricingRecord (majorVersion : Nat) :
    Sized (pricingRecordSize majorVersion) (pricingRecord majorVersion) := by
  have full : Sized 144 PricingRecord.blob := by
    unfold PricingRecord.blob
    iterate 10
      refine sized_raw_bind sized_uint64 (by decide) fun _ => ?_
    refine sized_raw_bind (sized_blob 64) (by decide) fun _ => ?_
    exact sized_pure _
  have third : Sized 136 PricingRecordV3.blob := by
    unfold PricingRecordV3.blob
    iterate 9
      refine sized_raw_bind sized_uint64 (by decide) fun _ => ?_
    refine sized_raw_bind (sized_blob 64) (by decide) fun _ => ?_
    exact sized_pure _
  have second : Sized 120 PricingRecordV2.blob := by
    unfold PricingRecordV2.blob
    iterate 7
      refine sized_raw_bind sized_uint64 (by decide) fun _ => ?_
    refine sized_raw_bind (sized_blob 64) (by decide) fun _ => ?_
    exact sized_pure _
  have first : Sized 24 PricingRecordV1.blob := by
    unfold PricingRecordV1.blob
    iterate 3
      refine sized_raw_bind sized_uint64 (by decide) fun _ => ?_
    exact sized_pure _
  unfold pricingRecord pricingRecordSize
  split_ifs
  · exact full
  · exact sized_via third
  · exact sized_via second
  · exact sized_via first

/-- Before version 3 zeros are written, whatever the record is. -/
theorem dump_pricingRecord_of_lt {majorVersion : Nat}
    (early : majorVersion < 3) (record : PricingRecord) :
    (pricingRecord majorVersion).dump record = some (List.replicate 24 0) := by
  let zero : PricingRecordV1 := { zephUsd := 0, zephRsv := 0, timestamp := 0 }
  have zeroDumped : PricingRecordV1.blob.dump zero =
      some (List.replicate 24 0) := by
    decide
  rw [pricingRecord, if_neg (by omega), if_neg (by omega), if_neg (by omega),
    dump_via]
  exact zeroDumped

/-- What is written for a record that was read. -/
theorem dump_of_reads_pricingRecord
    {majorVersion : Nat} {record : PricingRecord} {bytes : Bytes}
    (reads : (pricingRecord majorVersion).Reads record bytes) :
    (pricingRecord majorVersion).dump record =
      some (if majorVersion < 3 then List.replicate 24 0 else bytes) := by
  split_ifs with early
  · exact dump_pricingRecord_of_lt early record
  · have := canonical_pricingRecord (Nat.le_of_not_lt early)
    exact reads.dump

end ZephyrOracle

namespace BlockHeader

variable {version header : BlockHeader}

private theorem reads_records_zephyr {records : Bytes}
    (reads : (version.serializeRecords .cryptonoteZephyr).Reads header
      records) :
    (ZephyrOracle.pricingRecord version.majorVersion.toNat).Reads
      header.zephyrPricingRecord records := by
  simp only [serializeRecords, reads_bind, reads_pure, reads_fieldIf] at reads
  obtain ⟨_, _, _, rfl, salvium, record, recordBytes, _, rfl, recordReads, _,
    _, _, rfl, signature, rfl, rfl⟩ := reads
  simp only [reduceCtorEq, false_and, decide_false, decide_true, if_true,
    Bool.false_eq_true, if_false] at salvium recordReads signature
  obtain ⟨-, rfl⟩ := salvium
  obtain ⟨-, rfl⟩ := signature
  simpa using recordReads

private theorem dump_records_zephyr {bytes : Bytes}
    (dumped : (ZephyrOracle.pricingRecord version.majorVersion.toNat).dump
      header.zephyrPricingRecord = some bytes) :
    (version.serializeRecords .cryptonoteZephyr).dump header = some bytes := by
  have built (built : BlockHeader) :
      (pure built : Serializer BlockHeader BlockHeader).dump header =
        some [] := rfl
  simp only [serializeRecords, reduceCtorEq, false_and, decide_false,
    decide_true]
  rw [dump_fieldIf_false_bind, dump_fieldIf_bind dumped,
    dump_fieldIf_false_bind, built, if_pos rfl, Option.map_some,
    List.append_nil]

/-- The bytes of a Zephyr header, and what is saved in their place. -/
theorem pricingRecord_of_reads {bytes : Bytes}
    (reads : (doSerialize .cryptonoteZephyr).Reads header bytes) :
    ∃ record, bytes = header.layout .cryptonoteZephyr record ∧
      (ZephyrOracle.pricingRecord header.majorVersion.toNat).Reads
        header.zephyrPricingRecord record ∧
      (doSerialize .cryptonoteZephyr).dump header =
        some (header.layout .cryptonoteZephyr
          (if header.majorVersion.toNat < 3 then List.replicate 24 0
          else record)) := by
  obtain ⟨record, rfl, recordsRead, -, -⟩ := reads_doSerialize.mp reads
  have recordReads := reads_records_zephyr recordsRead
  have dumped := dump_records_zephyr
    (ZephyrOracle.dump_of_reads_pricingRecord recordReads)
  refine ⟨record, rfl, recordReads, ?_⟩
  rw [dump_doSerialize, dumped]
  rfl

end BlockHeader

variable {helpers : Rct.Helpers} {blobType : BlobType} {block : Block}

/-- Behind its header a loaded block is saved as it was loaded. -/
theorem Block.dump_of_reads {bytes : Bytes}
    (reads : (Block.doSerialize helpers blobType).Reads block bytes) :
    ∃ headerBytes rest, bytes = headerBytes ++ rest ∧
      (BlockHeader.doSerialize blobType).Reads block.toBlockHeader
        headerBytes ∧
      ∀ saved, (BlockHeader.doSerialize blobType).dump block.toBlockHeader =
        some saved →
          (Block.doSerialize helpers blobType).dump block =
            some (saved ++ rest) := by
  unfold Block.doSerialize at reads ⊢
  obtain ⟨header, headerBytes, rest, rfl, headerReads, restReads⟩ :=
    reads_bind.mp reads
  have members := restReads
  simp only [reads_bind, reads_pure] at members
  obtain ⟨_, _, _, -, -, _, _, _, -, -, _, _, _, -, -, _, _, _, -, -, built,
    -⟩ := members
  have sameHeader : block.toBlockHeader = header := by
    rw [built]
  rw [← sameHeader] at headerReads restReads
  refine ⟨headerBytes, rest, rfl, reads_field.mp headerReads, ?_⟩
  intro saved dumped
  rw [dump_field_bind dumped, restReads.dump]
  rfl

/-- Where the price record of a Zephyr block lies, and what the blob and the
hashing blob of the loaded block have there: the same bytes from version 3 on,
zeros before. -/
theorem zephyr_pricing_record_bytes
    (cnFastHash : Bytes → Hash) (helpers : Rct.Helpers) (template : Bytes)
    (block : Block)
    (parsed : parseAndValidateBlockFromBlob helpers .cryptonoteZephyr
      template = some block) :
    ∃ record written rest,
      template = block.beforeNonce .cryptonoteZephyr ++
        (block.nonceBytes ++ (record ++ rest)) ∧
      record.length =
        ZephyrOracle.pricingRecordSize block.majorVersion.toNat ∧
      (ZephyrOracle.pricingRecord block.majorVersion.toNat).Reads
        block.zephyrPricingRecord record ∧
      blockToBlob helpers .cryptonoteZephyr block =
        some (block.beforeNonce .cryptonoteZephyr ++
          (block.nonceBytes ++ (written ++ rest))) ∧
      (∀ hashing, getBlockHashingBlob cnFastHash helpers .cryptonoteZephyr
        block = some hashing → ∃ after,
          hashing = block.beforeNonce .cryptonoteZephyr ++
            (block.nonceBytes ++ (written ++ after))) ∧
      written.length = record.length ∧
      (3 ≤ block.majorVersion.toNat → written = record) ∧
      (block.majorVersion.toNat < 3 → written = List.replicate 24 0) := by
  obtain ⟨headerBytes, rest, rfl, headerReads, saves⟩ :=
    Block.dump_of_reads (parse_block_iff.mp parsed)
  obtain ⟨record, rfl, recordReads, dumped⟩ :=
    BlockHeader.pricingRecord_of_reads headerReads
  have size := ZephyrOracle.sized_pricingRecord _ _ _ recordReads
  have layoutEq (records : Bytes) :
      block.layout .cryptonoteZephyr records =
        block.beforeNonce .cryptonoteZephyr ++
          (block.nonceBytes ++ records) := rfl
  refine ⟨record, if block.majorVersion.toNat < 3 then List.replicate 24 0
    else record, rest, ?_, size, recordReads, ?_, ?_, ?_, ?_, ?_⟩
  · rw [layoutEq]
    simp only [List.append_assoc]
  · rw [blockToBlob, saves _ dumped, layoutEq]
    simp only [List.append_assoc]
  · intro hashing hashed
    rw [getBlockHashingBlob] at hashed
    split_ifs at hashed
    obtain rfl := Option.some.inj hashed
    rw [hashingHeader, if_neg (by decide), tSerializableObjectToBlob, dumped,
      Option.getD_some, layoutEq]
    simp only [List.append_assoc]
    exact ⟨_, rfl⟩
  · split_ifs with early
    · rw [size, ZephyrOracle.pricingRecordSize, if_neg (by omega),
        if_neg (by omega), if_neg (by omega), List.length_replicate]
    · rfl
  · exact fun late => if_neg (Nat.not_lt.mpr late)
  · exact fun early => if_pos early

/-- A Zephyr block of one coinbase. -/
def zephyrBlob (majorVersion : Byte) (record : Bytes) : Bytes :=
  [majorVersion, 1, 0] ++ List.replicate 32 0 ++ [1, 2, 3, 4] ++ record ++
    [2, 0, 1, 0xff, 0, 0, 3, 2, 1, 0, 0, 0, 0, 0] ++ [0]

theorem zephyr_pricing_record_bytes_full :
    ∃ block,
      parseAndValidateBlockFromBlob emptyProofs .cryptonoteZephyr
        (zephyrBlob 6 (List.replicate 144 1)) = some block ∧
      blockToBlob emptyProofs .cryptonoteZephyr block =
        some (zephyrBlob 6 (List.replicate 144 1)) := by
  have members : (parseAndValidateBlockFromBlob emptyProofs .cryptonoteZephyr
      (zephyrBlob 6 (List.replicate 144 1))).map
        (fun block => block.majorVersion) = some 6 := by
    decide +kernel
  rw [Option.map_eq_some_iff] at members
  obtain ⟨block, parsed, version⟩ := members
  obtain ⟨record, written, rest, split, -, -, saved, -, -, kept, -⟩ :=
    zephyr_pricing_record_bytes Keccak.cnFastHash emptyProofs _ block parsed
  have same : written = record := by
    apply kept
    rw [version]
    decide
  rw [same, ← split] at saved
  exact ⟨block, parsed, saved⟩

/-- A record of version 1 that is not zero is lost. -/
theorem zephyr_pricing_record_lost :
    ∃ block,
      parseAndValidateBlockFromBlob emptyProofs .cryptonoteZephyr
        (zephyrBlob 1 (List.replicate 24 1)) = some block ∧
      blockToBlob emptyProofs .cryptonoteZephyr block =
        some (zephyrBlob 1 (List.replicate 24 0)) ∧
      zephyrBlob 1 (List.replicate 24 0) ≠
        zephyrBlob 1 (List.replicate 24 1) := by
  have saved : (parseAndValidateBlockFromBlob emptyProofs .cryptonoteZephyr
      (zephyrBlob 1 (List.replicate 24 1))).map
        (blockToBlob emptyProofs .cryptonoteZephyr) =
      some (some (zephyrBlob 1 (List.replicate 24 0))) := by
    decide +kernel
  rw [Option.map_eq_some_iff] at saved
  obtain ⟨block, parsed, blob⟩ := saved
  exact ⟨block, parsed, blob, by decide⟩

end BlockTemplate
