import BlockTemplate.Cryptonote.Transaction

/-!
# Block headers and blocks

`block_header` and `block` of `cryptonote_basic.h`.  The members in front of
the nonce, the nonce, the Cuckoo cycle and the price records after them are
kept apart, since the nonce and the cycle are what a share replaces.
-/

namespace BlockTemplate

open Serializer

set_option synthInstance.maxSize 20000
set_option synthInstance.maxHeartbeats 100000

/-- `crypto::cycle`: 32 little-endian `uint32_t`. -/
abbrev Cycle := Blob 128

structure BlockHeader where
  majorVersion : Byte := 0
  minorVersion : Byte := 0
  timestamp : BitVec 64 := 0
  prevId : Hash := Blob.zero 32
  nonce : BitVec 64 := 0
  nonce8 : BitVec 64 := 0
  zephyrPricingRecord : ZephyrOracle.PricingRecord := {}
  salviumPricingRecord : SalviumOracle.PricingRecord := {}
  cycle : Cycle := Blob.zero 128
  signature : Signature := Blob.zero 64
deriving DecidableEq

/-- The low half of the nonce; a load leaves the high half zero. -/
def nonce32 : Codec (BitVec 64) :=
  via (fun nonce => nonce.setWidth 32) (fun nonce => nonce.setWidth 64) uint32

private theorem reads_nonce32 {nonce : BitVec 64} {bytes : Bytes} :
    nonce32.Reads nonce bytes ↔
      ∃ low : BitVec 32, nonce = low.setWidth 64 ∧
        bytes = leBytes 4 low.toNat := by
  simp only [nonce32, reads_via, reads_iff_encode]

/-- `block_header::do_serialize` after the nonce and the cycle. -/
def BlockHeader.serializeRecords (blobType : BlobType) (header : BlockHeader) :
    Serializer BlockHeader BlockHeader := do
  let salviumPricingRecord ← fieldIf
    (blobType = .cryptonoteSalvium ∧ header.majorVersion.toNat ≥ 255)
    (·.salviumPricingRecord) SalviumOracle.PricingRecord.doSerialize {}
  let zephyrPricingRecord ← fieldIf (blobType = .cryptonoteZephyr)
    (·.zephyrPricingRecord)
    (ZephyrOracle.pricingRecord header.majorVersion.toNat) {}
  let signature ← fieldIf
    (blobType = .cryptonoteXla ∧ header.majorVersion.toNat ≥ 13)
    (·.signature) (blob 64) (Blob.zero 64)
  return { header with salviumPricingRecord, zephyrPricingRecord, signature }

/-- `block_header::do_serialize`. -/
def BlockHeader.doSerialize (blobType : BlobType) :
    Serializer BlockHeader BlockHeader := do
  let majorVersion ← field (·.majorVersion) (uvarint 8)
  let minorVersion ← field (·.minorVersion) (uvarint 8)
  let timestamp ← field (·.timestamp) (uvarint 64)
  let prevId ← field (·.prevId) (blob 32)
  let nonce8 ← fieldIf (blobType = .cryptonoteCuckoo) (·.nonce8) uint64 0
  let nonce ← field (·.nonce) nonce32
  let cycle ← fieldIf (blobType = .cryptonoteCuckoo) (·.cycle)
    (blob 128) (Blob.zero 128)
  serializeRecords blobType
    { majorVersion, minorVersion, timestamp, prevId, nonce8, nonce, cycle }

structure Block extends BlockHeader where
  minerTx : Transaction := {}
  protocolTx : Transaction := {}
  txHashes : List Hash := []
  uncle : Hash := Blob.zero 32
deriving DecidableEq

/-- `block::do_serialize_object`. -/
def Block.doSerialize (helpers : Rct.Helpers) (blobType : BlobType) :
    Serializer Block Block := do
  let header ← field (·.toBlockHeader) (BlockHeader.doSerialize blobType)
  let minerTx ← field (·.minerTx) (Transaction.doSerialize helpers blobType)
  let protocolTx ← fieldIf (blobType = .cryptonoteSalvium) (·.protocolTx)
    (Transaction.doSerialize helpers blobType) {}
  let txHashes ← field (·.txHashes) (vector (blob 32))
  let uncle ← fieldIf (blobType = .cryptonote3) (·.uncle) (blob 32)
    (Blob.zero 32)
  return { toBlockHeader := header, minerTx, protocolTx, txHashes, uncle }

instance localNonce32 : Local nonce32 := by
  unfold nonce32
  infer_instance

instance canonicalNonce32 : Canonical nonce32 :=
  canonical_via fun nonce => BitVec.setWidth_setWidth_of_le nonce (by decide)

instance localHeaderRecords (blobType : BlobType) (header : BlockHeader) :
    Local (header.serializeRecords blobType) := by
  unfold BlockHeader.serializeRecords
  infer_instance

instance localBlockHeader (blobType : BlobType) :
    Local (BlockHeader.doSerialize blobType) := by
  unfold BlockHeader.doSerialize
  infer_instance

instance localBlock (helpers : Rct.Helpers) (blobType : BlobType) :
    Local (Block.doSerialize helpers blobType) := by
  unfold Block.doSerialize
  infer_instance

/-- A header whose bytes determine its price record: every one but a Zephyr
header before version 3. -/
def BlockHeader.RecordsKept (blobType : BlobType) (header : BlockHeader) :
    Prop :=
  blobType = .cryptonoteZephyr → 3 ≤ header.majorVersion.toNat

instance (blobType : BlobType) (header : BlockHeader) :
    Decidable (header.RecordsKept blobType) := by
  unfold BlockHeader.RecordsKept
  infer_instance

/-- A Zephyr price record is saved as bytes it is loaded from. -/
theorem ZephyrOracle.resaves_pricingRecord
    (majorVersion : Nat) (record : PricingRecord) :
    Resaves (3 ≤ majorVersion) (pricingRecord majorVersion) record record := by
  by_cases version : 3 ≤ majorVersion
  · have := canonical_pricingRecord version
    exact Canonical.resaves _ record
  refine Resaves.of_not_exact ?_ version
  intro bytes reads
  have layout : pricingRecord majorVersion =
      via PricingRecordV1.readFromPr (·.writeToPr {}) PricingRecordV1.blob := by
    unfold pricingRecord
    rw [if_neg (by omega), if_neg (by omega), if_neg (by omega)]
  rw [layout] at reads ⊢
  obtain ⟨loaded, rfl, -⟩ := reads_via.mp reads
  -- The first layout keeps nothing of the record: it is saved as zeros, and
  -- whatever it is loaded from, the record is zero.
  let zero : PricingRecordV1 := { zephUsd := 0, zephRsv := 0, timestamp := 0 }
  have zeroReads : PricingRecordV1.blob.Reads zero
      (leBytes 8 0 ++ (leBytes 8 0 ++ (leBytes 8 0 ++ []))) := by
    intro rest
    rfl
  refine ⟨_, ?_, reads_via.mpr ⟨zero, rfl, zeroReads⟩⟩
  rfl

theorem BlockHeader.resaves_records
    (blobType : BlobType) (version object : BlockHeader) :
    Resaves (version.RecordsKept blobType)
      (version.serializeRecords blobType) object object := by
  unfold serializeRecords
  refine resaves_bind (resaves_fieldIf fun _ => Canonical.resaves _ _) ?_
  refine resaves_bind (resaves_fieldIf fun zephyr => ?_) ?_
  · exact (ZephyrOracle.resaves_pricingRecord _ _).mono
      fun kept => kept (of_decide_eq_true zephyr)
  · exact Canonical.resaves _ _

theorem BlockHeader.resaves (blobType : BlobType) (header : BlockHeader) :
    Resaves (header.RecordsKept blobType) (doSerialize blobType) header
      header := by
  unfold doSerialize serializeRecords
  refine resaves_bind (resaves_field (Canonical.resaves _ _)) ?_
  refine resaves_bind (resaves_field (Canonical.resaves _ _)) ?_
  refine resaves_bind (resaves_field (Canonical.resaves _ _)) ?_
  refine resaves_bind (resaves_field (Canonical.resaves _ _)) ?_
  refine resaves_bind (resaves_fieldIf fun _ => Canonical.resaves _ _) ?_
  refine resaves_bind (resaves_field (Canonical.resaves _ _)) ?_
  refine resaves_bind (resaves_fieldIf fun _ => Canonical.resaves _ _) ?_
  exact resaves_records _ _ _

/-- A loaded block is saved as bytes it is loaded from, and as the ones it was
loaded from when these determine its price record. -/
theorem Block.resaves (helpers : Rct.Helpers) (blobType : BlobType)
    (block : Block) :
    Resaves (block.RecordsKept blobType) (doSerialize helpers blobType) block
      block := by
  unfold doSerialize
  refine resaves_bind (resaves_field (BlockHeader.resaves _ _)) ?_
  exact Canonical.resaves _ _

namespace BlockHeader

variable (blobType : BlobType) (header : BlockHeader)

/-- The bytes of a header in front of its nonce. -/
def beforeNonce : Bytes :=
  writeVarint header.majorVersion ++ (writeVarint header.minorVersion ++
    (writeVarint header.timestamp ++ (header.prevId.bytes ++
      if blobType = .cryptonoteCuckoo then
        leBytes 8 header.nonce8.toNat
      else [])))

/-- The bytes of the nonce. -/
def nonceBytes : Bytes :=
  leBytes 4 (header.nonce.setWidth 32).toNat

/-- The bytes of the cycle. -/
def cycleBytes : Bytes :=
  if blobType = .cryptonoteCuckoo then header.cycle.bytes else []

/-- What a share puts into a block: a nonce and, for Cuckoo, a cycle. -/
def withShare (nonce : BitVec 32) (cycle : Cycle) : BlockHeader :=
  { header with
    nonce := nonce.setWidth 64
    cycle := if blobType = .cryptonoteCuckoo then cycle else header.cycle }

/-- A header whose bytes after the nonce and the cycle are `records`. -/
def layout (records : Bytes) : Bytes :=
  header.beforeNonce blobType ++
    (header.nonceBytes ++ (header.cycleBytes blobType ++ records))

variable {blobType header}

private theorem reads_records_withShare
    {version : BlockHeader} {records : Bytes}
    (reads : (version.serializeRecords blobType).Reads header records)
    (nonce : BitVec 32) (cycle : Cycle) :
    ((version.withShare blobType nonce cycle).serializeRecords blobType).Reads
      (header.withShare blobType nonce cycle) records := by
  simp only [serializeRecords, reads_bind, reads_pure] at reads ⊢
  obtain ⟨salvium, salviumBytes, _, rfl, salviumReads, zephyr, zephyrBytes, _,
    rfl, zephyrReads, signature, signatureBytes, _, rfl, signatureReads, rfl,
    rfl⟩ := reads
  exact ⟨salvium, salviumBytes, _, rfl, salviumReads, zephyr, zephyrBytes, _,
    rfl, zephyrReads, signature, signatureBytes, _, rfl, signatureReads, rfl,
    rfl⟩

/-- The members of a header up to its cycle. -/
def withoutRecords (header : BlockHeader) : BlockHeader :=
  { header with
    salviumPricingRecord := {}
    zephyrPricingRecord := {}
    signature := Blob.zero 64 }

private theorem withoutRecords_of_reads
    {version : BlockHeader} {records : Bytes}
    (start : version.withoutRecords = version)
    (reads : (version.serializeRecords blobType).Reads header records) :
    header.withoutRecords = version := by
  simp only [serializeRecords, reads_bind, reads_pure] at reads
  obtain ⟨_, _, _, -, -, _, _, _, -, -, _, _, _, -, -, rfl, -⟩ := reads
  exact start

/-- What a load of a header accepts, member by member. -/
theorem reads_doSerialize {bytes : Bytes} :
    (doSerialize blobType).Reads header bytes ↔
      ∃ records, bytes = header.layout blobType records ∧
        (header.withoutRecords.serializeRecords blobType).Reads header
          records ∧
        (∃ low : BitVec 32, header.nonce = low.setWidth 64) ∧
        (blobType ≠ .cryptonoteCuckoo →
          header.nonce8 = 0 ∧ header.cycle = Blob.zero 128) := by
  simp only [doSerialize, reads_bind, reads_field, reads_iff_encode,
    reads_fieldIf, reads_nonce32]
  constructor
  · rintro ⟨major, _, _, rfl, rfl, minor, _, _, rfl, rfl, time, _, _, rfl,
      rfl, prev, _, _, rfl, rfl, number, numberBytes, _, rfl, numberReads, _,
      _, _, rfl, ⟨low, rfl, rfl⟩, graph, graphBytes, records, rfl, graphReads,
      recordsRead⟩
    have members := withoutRecords_of_reads rfl recordsRead
    rw [← members] at recordsRead
    simp only [withoutRecords, mk.injEq] at members
    obtain ⟨majorEq, minorEq, timeEq, prevEq, nonceEq, numberEq, -, -, graphEq,
      -⟩ := members
    refine ⟨records, ?_, recordsRead, ⟨low, nonceEq⟩, fun other => ?_⟩
    · simp only [layout, beforeNonce, nonceBytes, cycleBytes, majorEq,
        minorEq, timeEq, prevEq, nonceEq, numberEq, graphEq]
      by_cases cuckoo : blobType = .cryptonoteCuckoo
      · simp_all
      · simp_all
    · simp only [other, decide_false, Bool.false_eq_true, if_false]
        at numberReads graphReads
      exact ⟨numberEq.trans numberReads.1, graphEq.trans graphReads.1⟩
  · rintro ⟨records, rfl, recordsRead, ⟨low, nonceEq⟩, others⟩
    have lowEq : header.nonce.setWidth 32 = low := by
      rw [nonceEq]
      exact BitVec.setWidth_setWidth_of_le low (by decide)
    refine ⟨_, _, _, ?_, rfl, _, _, _, rfl, rfl, _, _, _, rfl, rfl, _, _, _,
      rfl, rfl, _, (if blobType = .cryptonoteCuckoo then
        leBytes 8 header.nonce8.toNat else []), _, rfl, ?_, _, _, _, rfl,
      ⟨low, nonceEq, rfl⟩, _, header.cycleBytes blobType, records, rfl, ?_,
      recordsRead⟩
    · simp [layout, beforeNonce, nonceBytes, lowEq]
    · by_cases cuckoo : blobType = .cryptonoteCuckoo
      · simp [cuckoo]
      · simp [cuckoo, (others cuckoo).1]
    · by_cases cuckoo : blobType = .cryptonoteCuckoo
      · simp [cuckoo, cycleBytes]
      · simp [cuckoo, cycleBytes, (others cuckoo).2]

/-- The bytes of a header, and those of the header with another nonce and
cycle: only these members' bytes change. -/
theorem reads_withShare {bytes : Bytes}
    (reads : (doSerialize blobType).Reads header bytes) :
    ∃ records, bytes = header.layout blobType records ∧
      ∀ nonce cycle, (doSerialize blobType).Reads
        (header.withShare blobType nonce cycle)
        ((header.withShare blobType nonce cycle).layout blobType records) := by
  obtain ⟨records, rfl, recordsRead, -, others⟩ := reads_doSerialize.mp reads
  refine ⟨records, rfl, fun nonce cycle => ?_⟩
  refine reads_doSerialize.mpr ⟨records, rfl,
    reads_records_withShare recordsRead nonce cycle, ⟨nonce, rfl⟩,
    fun other => ?_⟩
  simpa [withShare, other] using others other

/-- A share does not move the bytes after the cycle. -/
theorem dump_records_withShare
    (version : BlockHeader) (nonce : BitVec 32) (cycle : Cycle) :
    ((version.withShare blobType nonce cycle).serializeRecords blobType).dump
        (header.withShare blobType nonce cycle) =
      (version.serializeRecords blobType).dump header := by
  simp only [dump, serializeRecords, save_bind, Option.map_bind, save_pure,
    Option.map_some, Function.comp_def, withShare]
  rfl

/-- What a save of a header gives, member by member. -/
theorem dump_doSerialize :
    (doSerialize blobType).dump header =
      ((header.withoutRecords.serializeRecords blobType).dump header).map
        (header.layout blobType) := by
  have nonceDumped : nonce32.dump header.nonce = some header.nonceBytes := rfl
  rw [doSerialize, dump_field_bind (dump_encode _),
    dump_field_bind (dump_encode _), dump_field_bind (dump_encode _),
    dump_field_bind (dump_encode _), dump_fieldIf_bind (dump_encode _),
    dump_field_bind nonceDumped, dump_fieldIf_bind (dump_encode _)]
  simp only [Option.map_map]
  congr 1
  funext records
  by_cases cuckoo : blobType = .cryptonoteCuckoo
  · simp [layout, beforeNonce, cycleBytes, cuckoo]
  · simp [layout, beforeNonce, cycleBytes, cuckoo]
end BlockHeader

namespace Block

variable {helpers : Rct.Helpers} {blobType : BlobType} {block : Block}

/-- A block with a share in it. -/
def withShare (blobType : BlobType) (block : Block) (nonce : BitVec 32)
    (cycle : Cycle) : Block :=
  { block with
    toBlockHeader := block.toBlockHeader.withShare blobType nonce cycle }

theorem reads_header {bytes : Bytes}
    (reads : (doSerialize helpers blobType).Reads block bytes) :
    ∃ headerBytes rest, bytes = headerBytes ++ rest ∧
      (BlockHeader.doSerialize blobType).Reads block.toBlockHeader
        headerBytes := by
  simp only [doSerialize, reads_bind, reads_field, reads_pure] at reads
  obtain ⟨header, headerBytes, rest, rfl, headerReads, _, _, _, -, -, _, _, _,
    -, -, _, _, _, -, -, _, _, _, -, -, rfl, -⟩ := reads
  exact ⟨headerBytes, rest, rfl, headerReads⟩

/-- The bytes of a block, and those of the block with another share. -/
theorem reads_withShare {bytes : Bytes}
    (reads : (doSerialize helpers blobType).Reads block bytes) :
    ∃ records rest, bytes = block.layout blobType records ++ rest ∧
      ∀ nonce cycle, (doSerialize helpers blobType).Reads
        (block.withShare blobType nonce cycle)
        ((block.withShare blobType nonce cycle).layout blobType records ++
          rest) := by
  simp only [doSerialize, reads_bind, reads_field, reads_pure] at reads
  obtain ⟨header, headerBytes, rest, rfl, headerReads, miner, _, _, rfl,
    minerReads, protocol, _, _, rfl, protocolReads, hashes, _, _, rfl,
    hashesRead, uncle, _, _, rfl, uncleReads, rfl, rfl⟩ := reads
  obtain ⟨records, rfl, shared⟩ := BlockHeader.reads_withShare headerReads
  refine ⟨records, _, rfl, fun nonce cycle => ?_⟩
  simp only [doSerialize, reads_bind, reads_field, reads_pure]
  exact ⟨_, _, _, rfl, shared nonce cycle, miner, _, _, rfl, minerReads,
    protocol, _, _, rfl, protocolReads, hashes, _, _, rfl, hashesRead, uncle,
    _, _, rfl, uncleReads, rfl, rfl⟩

end Block

end BlockTemplate
