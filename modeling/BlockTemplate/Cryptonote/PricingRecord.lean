import BlockTemplate.Wire.Containers

/-!
# Pricing records

The oracle records that Zephyr and Salvium block headers carry.  Zephyr keeps
one record in memory and has four layouts of it on the wire; the two middle
ones leave out members that a load fills with zero, the first one has nothing
in common with the record.
-/

namespace BlockTemplate

open Serializer

set_option synthInstance.maxSize 1000

abbrev Hash := Blob 32
abbrev PublicKey := Blob 32
abbrev KeyImage := Blob 32
abbrev KeyDerivation := Blob 32
abbrev Signature := Blob 64

/-- A `uint64_t` member of a blob. -/
def uint64 : Codec (BitVec 64) := uint 8

/-- A `uint32_t` field. -/
def uint32 : Codec (BitVec 32) := uint 4

instance encodesUint64 :
    Encodes uint64 (fun value => leBytes 8 value.toNat) := encodesUint 8

instance encodesUint32 :
    Encodes uint32 (fun value => leBytes 4 value.toNat) := encodesUint 4

namespace ZephyrOracle

structure PricingRecord where
  spot : BitVec 64 := 0
  movingAverage : BitVec 64 := 0
  stable : BitVec 64 := 0
  stableMa : BitVec 64 := 0
  reserve : BitVec 64 := 0
  reserveMa : BitVec 64 := 0
  reserveRatio : BitVec 64 := 0
  reserveRatioMa : BitVec 64 := 0
  yieldPrice : BitVec 64 := 0
  timestamp : BitVec 64 := 0
  signature : Signature := Blob.zero 64
deriving DecidableEq

structure PricingRecordV1 where
  zephUsd : BitVec 64
  zephRsv : BitVec 64
  timestamp : BitVec 64

structure PricingRecordV2 where
  spot : BitVec 64
  movingAverage : BitVec 64
  stable : BitVec 64
  stableMa : BitVec 64
  reserve : BitVec 64
  reserveMa : BitVec 64
  timestamp : BitVec 64
  signature : Signature

structure PricingRecordV3 where
  spot : BitVec 64
  movingAverage : BitVec 64
  stable : BitVec 64
  stableMa : BitVec 64
  reserve : BitVec 64
  reserveMa : BitVec 64
  reserveRatio : BitVec 64
  reserveRatioMa : BitVec 64
  timestamp : BitVec 64
  signature : Signature

def PricingRecordV1.writeToPr (_ : PricingRecordV1) (pr : PricingRecord) :
    PricingRecord :=
  { pr with
    spot := 0, movingAverage := 0, stable := 0, stableMa := 0, reserve := 0,
    reserveMa := 0, timestamp := 0, signature := Blob.zero 64 }

def PricingRecordV1.readFromPr (_ : PricingRecord) : PricingRecordV1 :=
  { zephUsd := 0, zephRsv := 0, timestamp := 0 }

def PricingRecordV2.writeToPr (record : PricingRecordV2) (pr : PricingRecord) :
    PricingRecord :=
  { pr with
    spot := record.spot
    movingAverage := record.movingAverage
    stable := record.stable
    stableMa := record.stableMa
    reserve := record.reserve
    reserveMa := record.reserveMa
    reserveRatio := 0
    reserveRatioMa := 0
    timestamp := record.timestamp
    signature := record.signature }

def PricingRecordV2.readFromPr (pr : PricingRecord) : PricingRecordV2 :=
  { spot := pr.spot
    movingAverage := pr.movingAverage
    stable := pr.stable
    stableMa := pr.stableMa
    reserve := pr.reserve
    reserveMa := pr.reserveMa
    timestamp := pr.timestamp
    signature := pr.signature }

def PricingRecordV3.writeToPr (record : PricingRecordV3) (pr : PricingRecord) :
    PricingRecord :=
  { pr with
    spot := record.spot
    movingAverage := record.movingAverage
    stable := record.stable
    stableMa := record.stableMa
    reserve := record.reserve
    reserveMa := record.reserveMa
    reserveRatio := record.reserveRatio
    reserveRatioMa := record.reserveRatioMa
    yieldPrice := 0
    timestamp := record.timestamp
    signature := record.signature }

def PricingRecordV3.readFromPr (pr : PricingRecord) : PricingRecordV3 :=
  { spot := pr.spot
    movingAverage := pr.movingAverage
    stable := pr.stable
    stableMa := pr.stableMa
    reserve := pr.reserve
    reserveMa := pr.reserveMa
    reserveRatio := pr.reserveRatio
    reserveRatioMa := pr.reserveRatioMa
    timestamp := pr.timestamp
    signature := pr.signature }

-- The records are blobs: their bytes are those of the members in order.

def PricingRecord.blob : Serializer PricingRecord PricingRecord := do
  let spot ← raw (·.spot) uint64
  let movingAverage ← raw (·.movingAverage) uint64
  let stable ← raw (·.stable) uint64
  let stableMa ← raw (·.stableMa) uint64
  let reserve ← raw (·.reserve) uint64
  let reserveMa ← raw (·.reserveMa) uint64
  let reserveRatio ← raw (·.reserveRatio) uint64
  let reserveRatioMa ← raw (·.reserveRatioMa) uint64
  let yieldPrice ← raw (·.yieldPrice) uint64
  let timestamp ← raw (·.timestamp) uint64
  let signature ← raw (·.signature) (Serializer.blob 64)
  return { spot, movingAverage, stable, stableMa, reserve, reserveMa,
           reserveRatio, reserveRatioMa, yieldPrice, timestamp, signature }

def PricingRecordV1.blob : Serializer PricingRecordV1 PricingRecordV1 := do
  let zephUsd ← raw (·.zephUsd) uint64
  let zephRsv ← raw (·.zephRsv) uint64
  let timestamp ← raw (·.timestamp) uint64
  return { zephUsd, zephRsv, timestamp }

def PricingRecordV2.blob : Serializer PricingRecordV2 PricingRecordV2 := do
  let spot ← raw (·.spot) uint64
  let movingAverage ← raw (·.movingAverage) uint64
  let stable ← raw (·.stable) uint64
  let stableMa ← raw (·.stableMa) uint64
  let reserve ← raw (·.reserve) uint64
  let reserveMa ← raw (·.reserveMa) uint64
  let timestamp ← raw (·.timestamp) uint64
  let signature ← raw (·.signature) (Serializer.blob 64)
  return { spot, movingAverage, stable, stableMa, reserve, reserveMa,
           timestamp, signature }

def PricingRecordV3.blob : Serializer PricingRecordV3 PricingRecordV3 := do
  let spot ← raw (·.spot) uint64
  let movingAverage ← raw (·.movingAverage) uint64
  let stable ← raw (·.stable) uint64
  let stableMa ← raw (·.stableMa) uint64
  let reserve ← raw (·.reserve) uint64
  let reserveMa ← raw (·.reserveMa) uint64
  let reserveRatio ← raw (·.reserveRatio) uint64
  let reserveRatioMa ← raw (·.reserveRatioMa) uint64
  let timestamp ← raw (·.timestamp) uint64
  let signature ← raw (·.signature) (Serializer.blob 64)
  return { spot, movingAverage, stable, stableMa, reserve, reserveMa,
           reserveRatio, reserveRatioMa, timestamp, signature }

/-- The layout that a header of this major version has; a load starts from
the record of a new block. -/
def pricingRecord (majorVersion : Nat) : Codec PricingRecord :=
  if majorVersion ≥ 6 then
    PricingRecord.blob
  else if majorVersion ≥ 4 then
    via PricingRecordV3.readFromPr (·.writeToPr {}) PricingRecordV3.blob
  else if majorVersion ≥ 3 then
    via PricingRecordV2.readFromPr (·.writeToPr {}) PricingRecordV2.blob
  else
    via PricingRecordV1.readFromPr (·.writeToPr {}) PricingRecordV1.blob

instance localPricingRecordBlob : Local PricingRecord.blob := by
  unfold PricingRecord.blob
  infer_instance

instance canonicalPricingRecordBlob : Canonical PricingRecord.blob := by
  unfold PricingRecord.blob
  infer_instance

instance localPricingRecordV1 : Local PricingRecordV1.blob := by
  unfold PricingRecordV1.blob
  infer_instance

instance canonicalPricingRecordV1 : Canonical PricingRecordV1.blob := by
  unfold PricingRecordV1.blob
  infer_instance

instance localPricingRecordV2 : Local PricingRecordV2.blob := by
  unfold PricingRecordV2.blob
  infer_instance

instance canonicalPricingRecordV2 : Canonical PricingRecordV2.blob := by
  unfold PricingRecordV2.blob
  infer_instance

instance localPricingRecordV3 : Local PricingRecordV3.blob := by
  unfold PricingRecordV3.blob
  infer_instance

instance canonicalPricingRecordV3 : Canonical PricingRecordV3.blob := by
  unfold PricingRecordV3.blob
  infer_instance

instance localPricingRecord (majorVersion : Nat) :
    Local (pricingRecord majorVersion) := by
  unfold pricingRecord
  infer_instance

/-- From major version 3 on a record is saved as it was loaded. -/
theorem canonical_pricingRecord
    {majorVersion : Nat} (version : 3 ≤ majorVersion) :
    Canonical (pricingRecord majorVersion) := by
  have v3 : Canonical (via PricingRecordV3.readFromPr (·.writeToPr {})
      PricingRecordV3.blob) := canonical_via fun _ => rfl
  have v2 : Canonical (via PricingRecordV2.readFromPr (·.writeToPr {})
      PricingRecordV2.blob) := canonical_via fun _ => rfl
  unfold pricingRecord
  split
  · infer_instance
  split
  · exact v3
  · exact v2

end ZephyrOracle

namespace SalviumOracle

structure SupplyData where
  sal : BitVec 64 := 0
  vsd : BitVec 64 := 0
deriving DecidableEq

def SupplyData.doSerialize : Serializer SupplyData SupplyData := do
  let sal ← field (·.sal) (uvarint 64)
  let vsd ← field (·.vsd) (uvarint 64)
  return { sal, vsd }

structure AssetData where
  assetType : Bytes
  spotPrice : BitVec 64
  maPrice : BitVec 64
deriving DecidableEq

def AssetData.doSerialize : Serializer AssetData AssetData := do
  let assetType ← field (·.assetType) string
  let spotPrice ← field (·.spotPrice) (uvarint 64)
  let maPrice ← field (·.maPrice) (uvarint 64)
  return { assetType, spotPrice, maPrice }

structure PricingRecord where
  prVersion : BitVec 64 := 0
  height : BitVec 64 := 0
  supply : SupplyData := {}
  assets : List AssetData := []
  timestamp : BitVec 64 := 0
  signature : Bytes := []
deriving DecidableEq

instance localSupplyData : Local SupplyData.doSerialize := by
  unfold SupplyData.doSerialize
  infer_instance

instance canonicalSupplyData : Canonical SupplyData.doSerialize := by
  unfold SupplyData.doSerialize
  infer_instance

instance localAssetData : Local AssetData.doSerialize := by
  unfold AssetData.doSerialize
  infer_instance

instance canonicalAssetData : Canonical AssetData.doSerialize := by
  unfold AssetData.doSerialize
  infer_instance

instance positiveAssetData : Positive AssetData.doSerialize := by
  unfold AssetData.doSerialize
  infer_instance

def PricingRecord.doSerialize : Serializer PricingRecord PricingRecord := do
  let prVersion ← field (·.prVersion) (uvarint 64)
  let height ← field (·.height) (uvarint 64)
  let supply ← field (·.supply) SupplyData.doSerialize
  let assets ← field (·.assets) (vector AssetData.doSerialize)
  let timestamp ← field (·.timestamp) (uvarint 64)
  let signature ← field (·.signature) (vector uint8)
  return { prVersion, height, supply, assets, timestamp, signature }

instance localPricingRecord : Local PricingRecord.doSerialize := by
  unfold PricingRecord.doSerialize
  infer_instance

instance canonicalPricingRecord : Canonical PricingRecord.doSerialize := by
  unfold PricingRecord.doSerialize
  infer_instance

end SalviumOracle

end BlockTemplate
