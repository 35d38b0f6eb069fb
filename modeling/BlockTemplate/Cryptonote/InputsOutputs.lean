import BlockTemplate.Cryptonote.PricingRecord

/-!
# Inputs and outputs

The output targets and inputs of `cryptonote_basic.h`.  Zephyr and Salvium
transactions have their own variants of both, which name an asset.
-/

namespace BlockTemplate

open Serializer

set_option synthInstance.maxSize 4000

abbrev ViewTag := Blob 1
abbrev CarrotViewTag := Blob 3
abbrev EncryptedJanusAnchor := Blob 16
abbrev RollupBindingTag := Blob 8

structure TxoutToScript where
  keys : List PublicKey
  script : Bytes
deriving DecidableEq

def TxoutToScript.doSerialize : Serializer TxoutToScript TxoutToScript := do
  let keys ← field (·.keys) (vector (blob 32))
  let script ← field (·.script) (vector uint8)
  return { keys, script }

structure TxoutToTaggedKey where
  key : PublicKey
  viewTag : ViewTag
deriving DecidableEq

def TxoutToTaggedKey.doSerialize :
    Serializer TxoutToTaggedKey TxoutToTaggedKey := do
  let key ← field (·.key) (blob 32)
  let viewTag ← field (·.viewTag) (blob 1)
  return { key, viewTag }

structure TxoutZephyrTaggedKey where
  key : PublicKey
  assetType : Bytes
  viewTag : ViewTag
deriving DecidableEq

def TxoutZephyrTaggedKey.doSerialize :
    Serializer TxoutZephyrTaggedKey TxoutZephyrTaggedKey := do
  let key ← field (·.key) (blob 32)
  let assetType ← field (·.assetType) string
  let viewTag ← field (·.viewTag) (blob 1)
  return { key, assetType, viewTag }

structure TxoutSalviumKey where
  key : PublicKey
  assetType : Bytes
  unlockTime : BitVec 64
deriving DecidableEq

def TxoutSalviumKey.doSerialize :
    Serializer TxoutSalviumKey TxoutSalviumKey := do
  let key ← field (·.key) (blob 32)
  let assetType ← field (·.assetType) string
  let unlockTime ← field (·.unlockTime) (uvarint 64)
  return { key, assetType, unlockTime }

structure TxoutSalviumTaggedKey where
  key : PublicKey
  assetType : Bytes
  unlockTime : BitVec 64
  viewTag : ViewTag
deriving DecidableEq

def TxoutSalviumTaggedKey.doSerialize :
    Serializer TxoutSalviumTaggedKey TxoutSalviumTaggedKey := do
  let key ← field (·.key) (blob 32)
  let assetType ← field (·.assetType) string
  let unlockTime ← field (·.unlockTime) (uvarint 64)
  let viewTag ← field (·.viewTag) (blob 1)
  return { key, assetType, unlockTime, viewTag }

structure TxoutToCarrotV1 where
  key : PublicKey
  assetType : Bytes
  viewTag : CarrotViewTag
  encryptedJanusAnchor : EncryptedJanusAnchor
deriving DecidableEq

def TxoutToCarrotV1.doSerialize :
    Serializer TxoutToCarrotV1 TxoutToCarrotV1 := do
  let key ← field (·.key) (blob 32)
  let assetType ← field (·.assetType) string
  let viewTag ← field (·.viewTag) (blob 3)
  let encryptedJanusAnchor ← field (·.encryptedJanusAnchor) (blob 16)
  return { key, assetType, viewTag, encryptedJanusAnchor }

inductive TxoutTargetV where
  | toScript (output : TxoutToScript)
  | toScripthash (hash : Hash)
  | toKey (key : PublicKey)
  | toTaggedKey (output : TxoutToTaggedKey)
deriving DecidableEq

def TxoutTargetV.tag : TxoutTargetV → Byte
  | .toScript _ => 0x0
  | .toScripthash _ => 0x1
  | .toKey _ => 0x2
  | .toTaggedKey _ => 0x3

def TxoutTargetV.doSerialize : Serializer TxoutTargetV TxoutTargetV :=
  variant TxoutTargetV.tag [
    { Payload := TxoutToScript, tag := 0x0, inject := .toScript
      project := fun | .toScript output => some output | _ => none
      codec := TxoutToScript.doSerialize },
    { Payload := Hash, tag := 0x1, inject := .toScripthash
      project := fun | .toScripthash hash => some hash | _ => none
      codec := blob 32 },
    { Payload := PublicKey, tag := 0x2, inject := .toKey
      project := fun | .toKey key => some key | _ => none
      codec := blob 32 },
    { Payload := TxoutToTaggedKey, tag := 0x3, inject := .toTaggedKey
      project := fun | .toTaggedKey output => some output | _ => none
      codec := TxoutToTaggedKey.doSerialize }]

inductive TxoutStableroTargetV where
  | toScript (output : TxoutToScript)
  | toScripthash (hash : Hash)
  | zephyrTaggedKey (output : TxoutZephyrTaggedKey)
deriving DecidableEq

def TxoutStableroTargetV.tag : TxoutStableroTargetV → Byte
  | .toScript _ => 0x0
  | .toScripthash _ => 0x1
  | .zephyrTaggedKey _ => 0x2

def TxoutStableroTargetV.doSerialize :
    Serializer TxoutStableroTargetV TxoutStableroTargetV :=
  variant TxoutStableroTargetV.tag [
    { Payload := TxoutToScript, tag := 0x0, inject := .toScript
      project := fun | .toScript output => some output | _ => none
      codec := TxoutToScript.doSerialize },
    { Payload := Hash, tag := 0x1, inject := .toScripthash
      project := fun | .toScripthash hash => some hash | _ => none
      codec := blob 32 },
    { Payload := TxoutZephyrTaggedKey, tag := 0x2, inject := .zephyrTaggedKey
      project := fun | .zephyrTaggedKey output => some output | _ => none
      codec := TxoutZephyrTaggedKey.doSerialize }]

inductive TxoutCarrotTargetV where
  | toScript (output : TxoutToScript)
  | toScripthash (hash : Hash)
  | salviumKey (output : TxoutSalviumKey)
  | salviumTaggedKey (output : TxoutSalviumTaggedKey)
  | toCarrotV1 (output : TxoutToCarrotV1)
deriving DecidableEq

def TxoutCarrotTargetV.tag : TxoutCarrotTargetV → Byte
  | .toScript _ => 0x0
  | .toScripthash _ => 0x1
  | .salviumKey _ => 0x2
  | .salviumTaggedKey _ => 0x3
  | .toCarrotV1 _ => 0x4

def TxoutCarrotTargetV.doSerialize :
    Serializer TxoutCarrotTargetV TxoutCarrotTargetV :=
  variant TxoutCarrotTargetV.tag [
    { Payload := TxoutToScript, tag := 0x0, inject := .toScript
      project := fun | .toScript output => some output | _ => none
      codec := TxoutToScript.doSerialize },
    { Payload := Hash, tag := 0x1, inject := .toScripthash
      project := fun | .toScripthash hash => some hash | _ => none
      codec := blob 32 },
    { Payload := TxoutSalviumKey, tag := 0x2, inject := .salviumKey
      project := fun | .salviumKey output => some output | _ => none
      codec := TxoutSalviumKey.doSerialize },
    { Payload := TxoutSalviumTaggedKey, tag := 0x3, inject := .salviumTaggedKey
      project := fun | .salviumTaggedKey output => some output | _ => none
      codec := TxoutSalviumTaggedKey.doSerialize },
    { Payload := TxoutToCarrotV1, tag := 0x4, inject := .toCarrotV1
      project := fun | .toCarrotV1 output => some output | _ => none
      codec := TxoutToCarrotV1.doSerialize }]

/-- The members that `tx_out`, `tx_out_zephyr` and `tx_out_salvium` share. -/
structure OutputTo (Target : Type) where
  amount : BitVec 64
  target : Target
deriving DecidableEq

def OutputTo.doSerialize {Target : Type} (targetCodec : Codec Target) :
    Serializer (OutputTo Target) (OutputTo Target) := do
  let amount ← field (·.amount) (uvarint 64)
  let target ← field (·.target) targetCodec
  return { amount, target }

abbrev TxOut := OutputTo TxoutTargetV

def TxOut.doSerialize : Codec TxOut :=
  OutputTo.doSerialize TxoutTargetV.doSerialize

abbrev TxOutZephyr := OutputTo TxoutStableroTargetV

def TxOutZephyr.doSerialize : Codec TxOutZephyr :=
  OutputTo.doSerialize TxoutStableroTargetV.doSerialize

abbrev TxOutSalvium := OutputTo TxoutCarrotTargetV

def TxOutSalvium.doSerialize : Codec TxOutSalvium :=
  OutputTo.doSerialize TxoutCarrotTargetV.doSerialize

structure TxinGen where
  height : BitVec 64
deriving DecidableEq

def TxinGen.doSerialize : Serializer TxinGen TxinGen := do
  let height ← field (·.height) (uvarint 64)
  return { height }

structure TxinToScript where
  prev : Hash
  prevout : BitVec 64
  sigset : Bytes
deriving DecidableEq

def TxinToScript.doSerialize : Serializer TxinToScript TxinToScript := do
  let prev ← field (·.prev) (blob 32)
  let prevout ← field (·.prevout) (uvarint 64)
  let sigset ← field (·.sigset) (vector uint8)
  return { prev, prevout, sigset }

structure TxinToScripthash where
  prev : Hash
  prevout : BitVec 64
  script : TxoutToScript
  sigset : Bytes
deriving DecidableEq

def TxinToScripthash.doSerialize :
    Serializer TxinToScripthash TxinToScripthash := do
  let prev ← field (·.prev) (blob 32)
  let prevout ← field (·.prevout) (uvarint 64)
  let script ← field (·.script) TxoutToScript.doSerialize
  let sigset ← field (·.sigset) (vector uint8)
  return { prev, prevout, script, sigset }

structure TxinToKey where
  amount : BitVec 64
  keyOffsets : List (BitVec 64)
  kImage : KeyImage
deriving DecidableEq

def TxinToKey.doSerialize : Serializer TxinToKey TxinToKey := do
  let amount ← field (·.amount) (uvarint 64)
  let keyOffsets ← field (·.keyOffsets) (vector (uvarint 64))
  let kImage ← field (·.kImage) (blob 32)
  return { amount, keyOffsets, kImage }

/-- The members that `txin_zephyr_key` and `txin_salvium_key` share. -/
structure TxinAssetKey where
  amount : BitVec 64
  assetType : Bytes
  keyOffsets : List (BitVec 64)
  kImage : KeyImage
deriving DecidableEq

def TxinAssetKey.doSerialize : Serializer TxinAssetKey TxinAssetKey := do
  let amount ← field (·.amount) (uvarint 64)
  let assetType ← field (·.assetType) string
  let keyOffsets ← field (·.keyOffsets) (vector (uvarint 64))
  let kImage ← field (·.kImage) (blob 32)
  return { amount, assetType, keyOffsets, kImage }

abbrev TxinZephyrKey := TxinAssetKey

abbrev TxinSalviumKey := TxinAssetKey

/-- The alternatives of `txin_v`, `txin_zephyr_v` and `txin_salvium_v`, which
differ in the input that spends a key. -/
inductive InputBy (KeyInput : Type) where
  | gen (input : TxinGen)
  | toScript (input : TxinToScript)
  | toScripthash (input : TxinToScripthash)
  | toKey (input : KeyInput)
deriving DecidableEq

def InputBy.tag {KeyInput : Type} : InputBy KeyInput → Byte
  | .gen _ => 0xff
  | .toScript _ => 0x0
  | .toScripthash _ => 0x1
  | .toKey _ => 0x2

def InputBy.doSerialize {KeyInput : Type} (keyInput : Codec KeyInput) :
    Serializer (InputBy KeyInput) (InputBy KeyInput) :=
  variant InputBy.tag [
    { Payload := TxinGen, tag := 0xff, inject := .gen
      project := fun | .gen input => some input | _ => none
      codec := TxinGen.doSerialize },
    { Payload := TxinToScript, tag := 0x0, inject := .toScript
      project := fun | .toScript input => some input | _ => none
      codec := TxinToScript.doSerialize },
    { Payload := TxinToScripthash, tag := 0x1, inject := .toScripthash
      project := fun | .toScripthash input => some input | _ => none
      codec := TxinToScripthash.doSerialize },
    { Payload := KeyInput, tag := 0x2, inject := .toKey
      project := fun | .toKey input => some input | _ => none
      codec := keyInput }]

abbrev TxinV := InputBy TxinToKey

def TxinV.doSerialize : Codec TxinV :=
  InputBy.doSerialize TxinToKey.doSerialize

abbrev TxinZephyrV := InputBy TxinZephyrKey

def TxinZephyrV.doSerialize : Codec TxinZephyrV :=
  InputBy.doSerialize TxinAssetKey.doSerialize

abbrev TxinSalviumV := InputBy TxinSalviumKey

def TxinSalviumV.doSerialize : Codec TxinSalviumV :=
  InputBy.doSerialize TxinAssetKey.doSerialize

instance localTxoutToScript : Local TxoutToScript.doSerialize := by
  unfold TxoutToScript.doSerialize
  infer_instance

instance canonicalTxoutToScript : Canonical TxoutToScript.doSerialize := by
  unfold TxoutToScript.doSerialize
  infer_instance

instance localTxoutToTaggedKey : Local TxoutToTaggedKey.doSerialize := by
  unfold TxoutToTaggedKey.doSerialize
  infer_instance

instance canonicalTxoutToTaggedKey : Canonical TxoutToTaggedKey.doSerialize := by
  unfold TxoutToTaggedKey.doSerialize
  infer_instance

instance localTxoutZephyrTaggedKey : Local TxoutZephyrTaggedKey.doSerialize := by
  unfold TxoutZephyrTaggedKey.doSerialize
  infer_instance

instance canonicalTxoutZephyrTaggedKey : Canonical TxoutZephyrTaggedKey.doSerialize := by
  unfold TxoutZephyrTaggedKey.doSerialize
  infer_instance

instance localTxoutSalviumKey : Local TxoutSalviumKey.doSerialize := by
  unfold TxoutSalviumKey.doSerialize
  infer_instance

instance canonicalTxoutSalviumKey : Canonical TxoutSalviumKey.doSerialize := by
  unfold TxoutSalviumKey.doSerialize
  infer_instance

instance localTxoutSalviumTaggedKey : Local TxoutSalviumTaggedKey.doSerialize := by
  unfold TxoutSalviumTaggedKey.doSerialize
  infer_instance

instance canonicalTxoutSalviumTaggedKey : Canonical TxoutSalviumTaggedKey.doSerialize := by
  unfold TxoutSalviumTaggedKey.doSerialize
  infer_instance

instance localTxoutToCarrotV1 : Local TxoutToCarrotV1.doSerialize := by
  unfold TxoutToCarrotV1.doSerialize
  infer_instance

instance canonicalTxoutToCarrotV1 : Canonical TxoutToCarrotV1.doSerialize := by
  unfold TxoutToCarrotV1.doSerialize
  infer_instance

instance localTxoutTargetV : Local TxoutTargetV.doSerialize := by
  unfold TxoutTargetV.doSerialize
  infer_instance

instance canonicalTxoutTargetV : Canonical TxoutTargetV.doSerialize := by
  unfold TxoutTargetV.doSerialize
  infer_instance

instance localTxoutStableroTargetV : Local TxoutStableroTargetV.doSerialize := by
  unfold TxoutStableroTargetV.doSerialize
  infer_instance

instance canonicalTxoutStableroTargetV : Canonical TxoutStableroTargetV.doSerialize := by
  unfold TxoutStableroTargetV.doSerialize
  infer_instance

instance localTxoutCarrotTargetV : Local TxoutCarrotTargetV.doSerialize := by
  unfold TxoutCarrotTargetV.doSerialize
  infer_instance

instance canonicalTxoutCarrotTargetV : Canonical TxoutCarrotTargetV.doSerialize := by
  unfold TxoutCarrotTargetV.doSerialize
  infer_instance

section OutputTo

variable {Target : Type} (targetCodec : Codec Target)
  [Local targetCodec] [Canonical targetCodec]

instance localOutputTo : Local (OutputTo.doSerialize targetCodec) := by
  unfold OutputTo.doSerialize
  infer_instance

instance canonicalOutputTo : Canonical (OutputTo.doSerialize targetCodec) := by
  unfold OutputTo.doSerialize
  infer_instance

instance positiveOutputTo : Positive (OutputTo.doSerialize targetCodec) := by
  unfold OutputTo.doSerialize
  infer_instance

end OutputTo

instance localTxOut : Local TxOut.doSerialize := by
  unfold TxOut.doSerialize
  infer_instance

instance canonicalTxOut : Canonical TxOut.doSerialize := by
  unfold TxOut.doSerialize
  infer_instance

instance positiveTxOut : Positive TxOut.doSerialize := by
  unfold TxOut.doSerialize
  infer_instance

instance localTxOutZephyr : Local TxOutZephyr.doSerialize := by
  unfold TxOutZephyr.doSerialize
  infer_instance

instance canonicalTxOutZephyr : Canonical TxOutZephyr.doSerialize := by
  unfold TxOutZephyr.doSerialize
  infer_instance

instance positiveTxOutZephyr : Positive TxOutZephyr.doSerialize := by
  unfold TxOutZephyr.doSerialize
  infer_instance

instance localTxOutSalvium : Local TxOutSalvium.doSerialize := by
  unfold TxOutSalvium.doSerialize
  infer_instance

instance canonicalTxOutSalvium : Canonical TxOutSalvium.doSerialize := by
  unfold TxOutSalvium.doSerialize
  infer_instance

instance positiveTxOutSalvium : Positive TxOutSalvium.doSerialize := by
  unfold TxOutSalvium.doSerialize
  infer_instance

instance localTxinGen : Local TxinGen.doSerialize := by
  unfold TxinGen.doSerialize
  infer_instance

instance canonicalTxinGen : Canonical TxinGen.doSerialize := by
  unfold TxinGen.doSerialize
  infer_instance

instance localTxinToScript : Local TxinToScript.doSerialize := by
  unfold TxinToScript.doSerialize
  infer_instance

instance canonicalTxinToScript : Canonical TxinToScript.doSerialize := by
  unfold TxinToScript.doSerialize
  infer_instance

instance localTxinToScripthash : Local TxinToScripthash.doSerialize := by
  unfold TxinToScripthash.doSerialize
  infer_instance

instance canonicalTxinToScripthash : Canonical TxinToScripthash.doSerialize := by
  unfold TxinToScripthash.doSerialize
  infer_instance

instance localTxinToKey : Local TxinToKey.doSerialize := by
  unfold TxinToKey.doSerialize
  infer_instance

instance canonicalTxinToKey : Canonical TxinToKey.doSerialize := by
  unfold TxinToKey.doSerialize
  infer_instance

instance localTxinAssetKey : Local TxinAssetKey.doSerialize := by
  unfold TxinAssetKey.doSerialize
  infer_instance

instance canonicalTxinAssetKey : Canonical TxinAssetKey.doSerialize := by
  unfold TxinAssetKey.doSerialize
  infer_instance

section InputBy

variable {KeyInput : Type} (keyInput : Codec KeyInput)
  [Local keyInput] [Canonical keyInput]

instance localInputBy : Local (InputBy.doSerialize keyInput) := by
  unfold InputBy.doSerialize
  infer_instance

instance canonicalInputBy : Canonical (InputBy.doSerialize keyInput) := by
  unfold InputBy.doSerialize
  infer_instance

instance positiveInputBy : Positive (InputBy.doSerialize keyInput) := by
  unfold InputBy.doSerialize
  infer_instance

end InputBy

instance localTxinV : Local TxinV.doSerialize := by
  unfold TxinV.doSerialize
  infer_instance

instance canonicalTxinV : Canonical TxinV.doSerialize := by
  unfold TxinV.doSerialize
  infer_instance

instance positiveTxinV : Positive TxinV.doSerialize := by
  unfold TxinV.doSerialize
  infer_instance

instance localTxinZephyrV : Local TxinZephyrV.doSerialize := by
  unfold TxinZephyrV.doSerialize
  infer_instance

instance canonicalTxinZephyrV : Canonical TxinZephyrV.doSerialize := by
  unfold TxinZephyrV.doSerialize
  infer_instance

instance positiveTxinZephyrV : Positive TxinZephyrV.doSerialize := by
  unfold TxinZephyrV.doSerialize
  infer_instance

instance localTxinSalviumV : Local TxinSalviumV.doSerialize := by
  unfold TxinSalviumV.doSerialize
  infer_instance

instance canonicalTxinSalviumV : Canonical TxinSalviumV.doSerialize := by
  unfold TxinSalviumV.doSerialize
  infer_instance

instance positiveTxinSalviumV : Positive TxinSalviumV.doSerialize := by
  unfold TxinSalviumV.doSerialize
  infer_instance

end BlockTemplate
