import BlockTemplate.Cryptonote.PricingRecord

/-!
# Transaction extra

`tx_extra.h`: the sixteen kinds of fields in the extra of a transaction.  A
padding field runs to the end of the stream; the other kinds end where their
members end.
-/

namespace BlockTemplate

open Serializer

set_option synthInstance.maxSize 4000

abbrev SecretKey := Blob 32

def txExtraPaddingMaxCount : Nat := 255
def txExtraNonceMaxCount : Nat := 255

structure TxExtraPadding where
  size : Nat
deriving DecidableEq

/-- The loop of the load; `left` is the number of sizes left. -/
def TxExtraPadding.loadLoop : (left size : Nat) → IStream →
    Option (TxExtraPadding × IStream)
  | 0, size, stream =>
    if size ≤ txExtraPaddingMaxCount then some (⟨size⟩, stream) else none
  | left + 1, size, stream =>
    if stream.atEnd then
      if size ≤ txExtraPaddingMaxCount then some (⟨size⟩, stream) else none
    else
      let (zero, next) := stream.get
      if zero = 0 then loadLoop left (size + 1) next else none

def TxExtraPadding.doSerialize : Codec TxExtraPadding where
  load := loadLoop txExtraPaddingMaxCount 1
  save padding :=
    if txExtraPaddingMaxCount < padding.size then none
    else some (padding, List.replicate (padding.size - 1) 0)

structure TxExtraPubKey where
  pubKey : PublicKey
deriving DecidableEq

def TxExtraPubKey.doSerialize : Serializer TxExtraPubKey TxExtraPubKey := do
  let pubKey ← field (·.pubKey) (blob 32)
  return { pubKey }

structure TxExtraNonce where
  nonce : Bytes
deriving DecidableEq

def TxExtraNonce.doSerialize : Serializer TxExtraNonce TxExtraNonce := do
  let nonce ← field (·.nonce) string
  require (nonce.length ≤ txExtraNonceMaxCount)
  return { nonce }

structure TxExtraMergeMiningTag where
  depth : BitVec 64
  merkleRoot : Hash
deriving DecidableEq

/-- `serialize_helper`. -/
def TxExtraMergeMiningTag.serializeHelper :
    Serializer TxExtraMergeMiningTag TxExtraMergeMiningTag := do
  let depth ← field (·.depth) (uvarint 64)
  let merkleRoot ← field (·.merkleRoot) (blob 32)
  return { depth, merkleRoot }

def TxExtraMergeMiningTag.doSerialize : Codec TxExtraMergeMiningTag :=
  nested serializeHelper

structure TxExtraAdditionalPubKeys where
  data : List PublicKey
deriving DecidableEq

def TxExtraAdditionalPubKeys.doSerialize :
    Serializer TxExtraAdditionalPubKeys TxExtraAdditionalPubKeys := do
  let data ← field (·.data) (vector (blob 32))
  return { data }

structure TxExtraMysteriousMinergate where
  data : Bytes
deriving DecidableEq

def TxExtraMysteriousMinergate.doSerialize :
    Serializer TxExtraMysteriousMinergate TxExtraMysteriousMinergate := do
  let data ← field (·.data) string
  return { data }

structure TxExtraMemo where
  data : Bytes
deriving DecidableEq

def TxExtraMemo.doSerialize : Serializer TxExtraMemo TxExtraMemo := do
  let data ← field (·.data) string
  return { data }

structure TxExtraServiceNodeWinner where
  serviceNodeKey : PublicKey
deriving DecidableEq

def TxExtraServiceNodeWinner.doSerialize :
    Serializer TxExtraServiceNodeWinner TxExtraServiceNodeWinner := do
  let serviceNodeKey ← field (·.serviceNodeKey) (blob 32)
  return { serviceNodeKey }

structure TxExtraServiceNodePubkey where
  serviceNodeKey : PublicKey
deriving DecidableEq

def TxExtraServiceNodePubkey.doSerialize :
    Serializer TxExtraServiceNodePubkey TxExtraServiceNodePubkey := do
  let serviceNodeKey ← field (·.serviceNodeKey) (blob 32)
  return { serviceNodeKey }

structure TxExtraServiceNodeRegister where
  publicSpendKeys : List PublicKey
  publicViewKeys : List PublicKey
  portionsForOperator : BitVec 64
  portions : List (BitVec 64)
  expirationTimestamp : BitVec 64
  serviceNodeSignature : Signature
deriving DecidableEq

/-- The elements of a vector of 64-bit integers are varints, the integers
next to it are not. -/
def TxExtraServiceNodeRegister.doSerialize :
    Serializer TxExtraServiceNodeRegister TxExtraServiceNodeRegister := do
  let publicSpendKeys ← field (·.publicSpendKeys) (vector (blob 32))
  let publicViewKeys ← field (·.publicViewKeys) (vector (blob 32))
  let portionsForOperator ← field (·.portionsForOperator) uint64
  let portions ← field (·.portions) (vector (uvarint 64))
  let expirationTimestamp ← field (·.expirationTimestamp) uint64
  let serviceNodeSignature ← field (·.serviceNodeSignature) (blob 64)
  return {
    publicSpendKeys, publicViewKeys, portionsForOperator, portions
    expirationTimestamp, serviceNodeSignature }

structure TxExtraServiceNodeContributor where
  spendPublicKey : PublicKey
  viewPublicKey : PublicKey
deriving DecidableEq

def TxExtraServiceNodeContributor.doSerialize :
    Serializer TxExtraServiceNodeContributor TxExtraServiceNodeContributor := do
  let spendPublicKey ← field (·.spendPublicKey) (blob 32)
  let viewPublicKey ← field (·.viewPublicKey) (blob 32)
  return { spendPublicKey, viewPublicKey }

structure TxExtraServiceNodeDeregister.Vote where
  signature : Signature
  votersQuorumIndex : BitVec 32
deriving DecidableEq

/-- A vote is read and written as a blob. -/
def TxExtraServiceNodeDeregister.Vote.doSerialize : Serializer Vote Vote := do
  let signature ← raw (·.signature) (blob 64)
  let votersQuorumIndex ← raw (·.votersQuorumIndex) uint32
  return { signature, votersQuorumIndex }

structure TxExtraServiceNodeDeregister where
  blockHeight : BitVec 64
  serviceNodeIndex : BitVec 32
  votes : List TxExtraServiceNodeDeregister.Vote
deriving DecidableEq

def TxExtraServiceNodeDeregister.doSerialize :
    Serializer TxExtraServiceNodeDeregister TxExtraServiceNodeDeregister := do
  let blockHeight ← field (·.blockHeight) uint64
  let serviceNodeIndex ← field (·.serviceNodeIndex) uint32
  let votes ← field (·.votes) (vector Vote.doSerialize)
  return { blockHeight, serviceNodeIndex, votes }

namespace ServiceNodes

inductive NewState
  | deregister
  | decommission
  | recommission
  | ipChangePenalty
deriving DecidableEq

def NewState.count : Nat := 4

def NewState.toInt : NewState → BitVec 16
  | .deregister => 0
  | .decommission => 1
  | .recommission => 2
  | .ipChangePenalty => 3

/-- The cast of an integer below `_count`. -/
def NewState.ofInt (value : BitVec 16) : NewState :=
  if value = 0 then .deregister
  else if value = 1 then .decommission
  else if value = 2 then .recommission
  else .ipChangePenalty

/-- `ENUM_FIELD`. -/
def NewState.doSerialize : Codec NewState :=
  via toInt ofInt (checked (fun value => value.toNat < count) (uvarint 16))

end ServiceNodes

structure TxExtraServiceNodeStateChange.Vote where
  signature : Signature
  validatorIndex : BitVec 32
deriving DecidableEq

def TxExtraServiceNodeStateChange.Vote.doSerialize : Serializer Vote Vote := do
  let validatorIndex ← field (·.validatorIndex) (uvarint 32)
  let signature ← field (·.signature) (blob 64)
  return { signature, validatorIndex }

structure TxExtraServiceNodeStateChange where
  state : ServiceNodes.NewState
  blockHeight : BitVec 64
  serviceNodeIndex : BitVec 32
  votes : List TxExtraServiceNodeStateChange.Vote
deriving DecidableEq

def TxExtraServiceNodeStateChange.doSerialize :
    Serializer TxExtraServiceNodeStateChange TxExtraServiceNodeStateChange := do
  let state ← field (·.state) ServiceNodes.NewState.doSerialize
  let blockHeight ← field (·.blockHeight) uint64
  let serviceNodeIndex ← field (·.serviceNodeIndex) uint32
  let votes ← field (·.votes) (vector Vote.doSerialize)
  return { state, blockHeight, serviceNodeIndex, votes }

structure TxExtraTxSecretKey where
  key : SecretKey
deriving DecidableEq

def TxExtraTxSecretKey.doSerialize :
    Serializer TxExtraTxSecretKey TxExtraTxSecretKey := do
  let key ← field (·.key) (blob 32)
  return { key }

structure TxExtraTxKeyImageProofs.Proof where
  keyImage : KeyImage
  signature : Signature
deriving DecidableEq

/-- A proof is read and written as a blob. -/
def TxExtraTxKeyImageProofs.Proof.doSerialize : Serializer Proof Proof := do
  let keyImage ← raw (·.keyImage) (blob 32)
  let signature ← raw (·.signature) (blob 64)
  return { keyImage, signature }

structure TxExtraTxKeyImageProofs where
  proofs : List TxExtraTxKeyImageProofs.Proof
deriving DecidableEq

def TxExtraTxKeyImageProofs.doSerialize :
    Serializer TxExtraTxKeyImageProofs TxExtraTxKeyImageProofs := do
  let proofs ← field (·.proofs) (vector Proof.doSerialize)
  return { proofs }

structure TxExtraTxKeyImageUnlock where
  keyImage : KeyImage
  signature : Signature
  nonce : BitVec 32
deriving DecidableEq

def TxExtraTxKeyImageUnlock.doSerialize :
    Serializer TxExtraTxKeyImageUnlock TxExtraTxKeyImageUnlock := do
  let keyImage ← field (·.keyImage) (blob 32)
  let signature ← field (·.signature) (blob 64)
  let nonce ← field (·.nonce) uint32
  return { keyImage, signature, nonce }

inductive TxExtraField where
  | padding (field : TxExtraPadding)
  | pubKey (field : TxExtraPubKey)
  | nonce (field : TxExtraNonce)
  | mergeMiningTag (field : TxExtraMergeMiningTag)
  | additionalPubKeys (field : TxExtraAdditionalPubKeys)
  | mysteriousMinergate (field : TxExtraMysteriousMinergate)
  | memo (field : TxExtraMemo)
  | serviceNodePubkey (field : TxExtraServiceNodePubkey)
  | serviceNodeRegister (field : TxExtraServiceNodeRegister)
  | serviceNodeContributor (field : TxExtraServiceNodeContributor)
  | serviceNodeWinner (field : TxExtraServiceNodeWinner)
  | serviceNodeStateChange (field : TxExtraServiceNodeStateChange)
  | txSecretKey (field : TxExtraTxSecretKey)
  | txKeyImageProofs (field : TxExtraTxKeyImageProofs)
  | txKeyImageUnlock (field : TxExtraTxKeyImageUnlock)
  | serviceNodeDeregister (field : TxExtraServiceNodeDeregister)
deriving DecidableEq

namespace TxExtraField

def tag : TxExtraField → Byte
  | .padding _ => 0x00
  | .pubKey _ => 0x01
  | .nonce _ => 0x02
  | .mergeMiningTag _ => 0x03
  | .additionalPubKeys _ => 0x04
  | .mysteriousMinergate _ => 0xDE
  | .memo _ => 0x18
  | .serviceNodePubkey _ => 0x74
  | .serviceNodeRegister _ => 0x70
  | .serviceNodeContributor _ => 0x73
  | .serviceNodeWinner _ => 0x72
  | .serviceNodeStateChange _ => 0x71
  | .txSecretKey _ => 0x75
  | .txKeyImageProofs _ => 0x76
  | .txKeyImageUnlock _ => 0x77
  | .serviceNodeDeregister _ => 0x78

def paddingAlternative : Alternative TxExtraField tag :=
  { Payload := TxExtraPadding, tag := 0x00, inject := .padding
    project := fun | .padding field => some field | _ => none
    codec := TxExtraPadding.doSerialize }

def nonceAlternative : Alternative TxExtraField tag :=
  { Payload := TxExtraNonce, tag := 0x02, inject := .nonce
    project := fun | .nonce field => some field | _ => none
    codec := TxExtraNonce.doSerialize }

/-- Every kind but padding. -/
def filledAlternatives : List (Alternative TxExtraField tag) := [
  { Payload := TxExtraPubKey, tag := 0x01, inject := .pubKey
    project := fun | .pubKey field => some field | _ => none
    codec := TxExtraPubKey.doSerialize },
  nonceAlternative,
  { Payload := TxExtraMergeMiningTag, tag := 0x03, inject := .mergeMiningTag
    project := fun | .mergeMiningTag field => some field | _ => none
    codec := TxExtraMergeMiningTag.doSerialize },
  { Payload := TxExtraAdditionalPubKeys, tag := 0x04
    inject := .additionalPubKeys
    project := fun | .additionalPubKeys field => some field | _ => none
    codec := TxExtraAdditionalPubKeys.doSerialize },
  { Payload := TxExtraMysteriousMinergate, tag := 0xDE
    inject := .mysteriousMinergate
    project := fun | .mysteriousMinergate field => some field | _ => none
    codec := TxExtraMysteriousMinergate.doSerialize },
  { Payload := TxExtraMemo, tag := 0x18, inject := .memo
    project := fun | .memo field => some field | _ => none
    codec := TxExtraMemo.doSerialize },
  { Payload := TxExtraServiceNodePubkey, tag := 0x74
    inject := .serviceNodePubkey
    project := fun | .serviceNodePubkey field => some field | _ => none
    codec := TxExtraServiceNodePubkey.doSerialize },
  { Payload := TxExtraServiceNodeRegister, tag := 0x70
    inject := .serviceNodeRegister
    project := fun | .serviceNodeRegister field => some field | _ => none
    codec := TxExtraServiceNodeRegister.doSerialize },
  { Payload := TxExtraServiceNodeContributor, tag := 0x73
    inject := .serviceNodeContributor
    project := fun | .serviceNodeContributor field => some field | _ => none
    codec := TxExtraServiceNodeContributor.doSerialize },
  { Payload := TxExtraServiceNodeWinner, tag := 0x72
    inject := .serviceNodeWinner
    project := fun | .serviceNodeWinner field => some field | _ => none
    codec := TxExtraServiceNodeWinner.doSerialize },
  { Payload := TxExtraServiceNodeStateChange, tag := 0x71
    inject := .serviceNodeStateChange
    project := fun | .serviceNodeStateChange field => some field | _ => none
    codec := TxExtraServiceNodeStateChange.doSerialize },
  { Payload := TxExtraTxSecretKey, tag := 0x75, inject := .txSecretKey
    project := fun | .txSecretKey field => some field | _ => none
    codec := TxExtraTxSecretKey.doSerialize },
  { Payload := TxExtraTxKeyImageProofs, tag := 0x76
    inject := .txKeyImageProofs
    project := fun | .txKeyImageProofs field => some field | _ => none
    codec := TxExtraTxKeyImageProofs.doSerialize },
  { Payload := TxExtraTxKeyImageUnlock, tag := 0x77
    inject := .txKeyImageUnlock
    project := fun | .txKeyImageUnlock field => some field | _ => none
    codec := TxExtraTxKeyImageUnlock.doSerialize },
  { Payload := TxExtraServiceNodeDeregister, tag := 0x78
    inject := .serviceNodeDeregister
    project := fun | .serviceNodeDeregister field => some field | _ => none
    codec := TxExtraServiceNodeDeregister.doSerialize }]

/-- A field of any kind but padding. -/
def filled : Serializer TxExtraField TxExtraField :=
  variant tag filledAlternatives

def doSerialize : Serializer TxExtraField TxExtraField :=
  variant tag (paddingAlternative :: filledAlternatives)

end TxExtraField

instance localTxExtraPubKey :
    Local TxExtraPubKey.doSerialize := by
  unfold TxExtraPubKey.doSerialize
  infer_instance

instance canonicalTxExtraPubKey :
    Canonical TxExtraPubKey.doSerialize := by
  unfold TxExtraPubKey.doSerialize
  infer_instance

instance localTxExtraNonce :
    Local TxExtraNonce.doSerialize := by
  unfold TxExtraNonce.doSerialize
  infer_instance

instance canonicalTxExtraNonce :
    Canonical TxExtraNonce.doSerialize := by
  unfold TxExtraNonce.doSerialize
  infer_instance

instance localMergeMiningHelper :
    Local TxExtraMergeMiningTag.serializeHelper := by
  unfold TxExtraMergeMiningTag.serializeHelper
  infer_instance

instance canonicalMergeMiningHelper :
    Canonical TxExtraMergeMiningTag.serializeHelper := by
  unfold TxExtraMergeMiningTag.serializeHelper
  infer_instance

instance localTxExtraMergeMiningTag :
    Local TxExtraMergeMiningTag.doSerialize := by
  unfold TxExtraMergeMiningTag.doSerialize
  infer_instance

instance canonicalTxExtraMergeMiningTag :
    Canonical TxExtraMergeMiningTag.doSerialize := by
  unfold TxExtraMergeMiningTag.doSerialize
  infer_instance

instance localTxExtraAdditionalPubKeys :
    Local TxExtraAdditionalPubKeys.doSerialize := by
  unfold TxExtraAdditionalPubKeys.doSerialize
  infer_instance

instance canonicalTxExtraAdditionalPubKeys :
    Canonical TxExtraAdditionalPubKeys.doSerialize := by
  unfold TxExtraAdditionalPubKeys.doSerialize
  infer_instance

instance localTxExtraMysteriousMinergate :
    Local TxExtraMysteriousMinergate.doSerialize := by
  unfold TxExtraMysteriousMinergate.doSerialize
  infer_instance

instance canonicalTxExtraMysteriousMinergate :
    Canonical TxExtraMysteriousMinergate.doSerialize := by
  unfold TxExtraMysteriousMinergate.doSerialize
  infer_instance

instance localTxExtraMemo :
    Local TxExtraMemo.doSerialize := by
  unfold TxExtraMemo.doSerialize
  infer_instance

instance canonicalTxExtraMemo :
    Canonical TxExtraMemo.doSerialize := by
  unfold TxExtraMemo.doSerialize
  infer_instance

instance localTxExtraServiceNodeWinner :
    Local TxExtraServiceNodeWinner.doSerialize := by
  unfold TxExtraServiceNodeWinner.doSerialize
  infer_instance

instance canonicalTxExtraServiceNodeWinner :
    Canonical TxExtraServiceNodeWinner.doSerialize := by
  unfold TxExtraServiceNodeWinner.doSerialize
  infer_instance

instance localTxExtraServiceNodePubkey :
    Local TxExtraServiceNodePubkey.doSerialize := by
  unfold TxExtraServiceNodePubkey.doSerialize
  infer_instance

instance canonicalTxExtraServiceNodePubkey :
    Canonical TxExtraServiceNodePubkey.doSerialize := by
  unfold TxExtraServiceNodePubkey.doSerialize
  infer_instance

instance localTxExtraServiceNodeRegister :
    Local TxExtraServiceNodeRegister.doSerialize := by
  unfold TxExtraServiceNodeRegister.doSerialize
  infer_instance

instance canonicalTxExtraServiceNodeRegister :
    Canonical TxExtraServiceNodeRegister.doSerialize := by
  unfold TxExtraServiceNodeRegister.doSerialize
  infer_instance

instance localTxExtraServiceNodeContributor :
    Local TxExtraServiceNodeContributor.doSerialize := by
  unfold TxExtraServiceNodeContributor.doSerialize
  infer_instance

instance canonicalTxExtraServiceNodeContributor :
    Canonical TxExtraServiceNodeContributor.doSerialize := by
  unfold TxExtraServiceNodeContributor.doSerialize
  infer_instance

instance localTxExtraServiceNodeDeregisterVote :
    Local TxExtraServiceNodeDeregister.Vote.doSerialize := by
  unfold TxExtraServiceNodeDeregister.Vote.doSerialize
  infer_instance

instance canonicalTxExtraServiceNodeDeregisterVote :
    Canonical TxExtraServiceNodeDeregister.Vote.doSerialize := by
  unfold TxExtraServiceNodeDeregister.Vote.doSerialize
  infer_instance

instance positiveTxExtraServiceNodeDeregisterVote :
    Positive TxExtraServiceNodeDeregister.Vote.doSerialize := by
  unfold TxExtraServiceNodeDeregister.Vote.doSerialize
  infer_instance

instance localTxExtraServiceNodeDeregister :
    Local TxExtraServiceNodeDeregister.doSerialize := by
  unfold TxExtraServiceNodeDeregister.doSerialize
  infer_instance

instance canonicalTxExtraServiceNodeDeregister :
    Canonical TxExtraServiceNodeDeregister.doSerialize := by
  unfold TxExtraServiceNodeDeregister.doSerialize
  infer_instance

instance localNewState :
    Local ServiceNodes.NewState.doSerialize := by
  unfold ServiceNodes.NewState.doSerialize
  infer_instance

theorem ServiceNodes.NewState.toInt_ofInt {value : BitVec 16}
    (small : value.toNat < count) : (ofInt value).toInt = value := by
  rw [count] at small
  have cases : value = 0 ∨ value = 1 ∨ value = 2 ∨ value = 3 := by
    bv_omega
  rcases cases with rfl | rfl | rfl | rfl <;> rfl

instance canonicalNewState :
    Canonical ServiceNodes.NewState.doSerialize where
  save_of_reads := by
    intro state bytes reads
    obtain ⟨value, rfl, valueReads⟩ := reads_via.mp reads
    have small := of_decide_eq_true (reads_checked.mp valueReads).2
    have inverse := ServiceNodes.NewState.toInt_ofInt small
    have saved := (canonicalChecked _ _).save_of_reads valueReads
    simp only [ServiceNodes.NewState.doSerialize, via, inverse, saved,
      Option.map_some]

instance localTxExtraServiceNodeStateChangeVote :
    Local TxExtraServiceNodeStateChange.Vote.doSerialize := by
  unfold TxExtraServiceNodeStateChange.Vote.doSerialize
  infer_instance

instance canonicalTxExtraServiceNodeStateChangeVote :
    Canonical TxExtraServiceNodeStateChange.Vote.doSerialize := by
  unfold TxExtraServiceNodeStateChange.Vote.doSerialize
  infer_instance

instance positiveTxExtraServiceNodeStateChangeVote :
    Positive TxExtraServiceNodeStateChange.Vote.doSerialize := by
  unfold TxExtraServiceNodeStateChange.Vote.doSerialize
  infer_instance

instance localTxExtraServiceNodeStateChange :
    Local TxExtraServiceNodeStateChange.doSerialize := by
  unfold TxExtraServiceNodeStateChange.doSerialize
  infer_instance

instance canonicalTxExtraServiceNodeStateChange :
    Canonical TxExtraServiceNodeStateChange.doSerialize := by
  unfold TxExtraServiceNodeStateChange.doSerialize
  infer_instance

instance localTxExtraTxSecretKey :
    Local TxExtraTxSecretKey.doSerialize := by
  unfold TxExtraTxSecretKey.doSerialize
  infer_instance

instance canonicalTxExtraTxSecretKey :
    Canonical TxExtraTxSecretKey.doSerialize := by
  unfold TxExtraTxSecretKey.doSerialize
  infer_instance

instance localTxExtraTxKeyImageProofsProof :
    Local TxExtraTxKeyImageProofs.Proof.doSerialize := by
  unfold TxExtraTxKeyImageProofs.Proof.doSerialize
  infer_instance

instance canonicalTxExtraTxKeyImageProofsProof :
    Canonical TxExtraTxKeyImageProofs.Proof.doSerialize := by
  unfold TxExtraTxKeyImageProofs.Proof.doSerialize
  infer_instance

instance positiveTxExtraTxKeyImageProofsProof :
    Positive TxExtraTxKeyImageProofs.Proof.doSerialize := by
  unfold TxExtraTxKeyImageProofs.Proof.doSerialize
  infer_instance

instance localTxExtraTxKeyImageProofs :
    Local TxExtraTxKeyImageProofs.doSerialize := by
  unfold TxExtraTxKeyImageProofs.doSerialize
  infer_instance

instance canonicalTxExtraTxKeyImageProofs :
    Canonical TxExtraTxKeyImageProofs.doSerialize := by
  unfold TxExtraTxKeyImageProofs.doSerialize
  infer_instance

instance localTxExtraTxKeyImageUnlock :
    Local TxExtraTxKeyImageUnlock.doSerialize := by
  unfold TxExtraTxKeyImageUnlock.doSerialize
  infer_instance

instance canonicalTxExtraTxKeyImageUnlock :
    Canonical TxExtraTxKeyImageUnlock.doSerialize := by
  unfold TxExtraTxKeyImageUnlock.doSerialize
  infer_instance

instance localNonceAlternative :
    Local TxExtraField.nonceAlternative.codec :=
  localTxExtraNonce

instance canonicalNonceAlternative :
    Canonical TxExtraField.nonceAlternative.codec :=
  canonicalTxExtraNonce

instance lawfulFilled :
    LawfulAlternatives TxExtraField.filledAlternatives := by
  unfold TxExtraField.filledAlternatives
  infer_instance

instance localFilled : Local TxExtraField.filled :=
  localVariant _

instance positiveFilled : Positive TxExtraField.filled :=
  positiveVariant _

/-- A padding ends with the stream. -/
theorem TxExtraPadding.loadLoop_end
    {left size : Nat} {stream next : IStream} {padding : TxExtraPadding}
    (total : left + size = txExtraPaddingMaxCount + 1)
    (loaded : loadLoop left size stream = some (padding, next)) :
    next.atEnd = true := by
  induction left generalizing size stream with
  | zero =>
      rw [loadLoop, if_neg (by omega)] at loaded
      cases loaded
  | succ left ih =>
      rw [loadLoop] at loaded
      split_ifs at loaded with ended
      · cases loaded
        exact ended
      · split at loaded
        rename_i zero later
        split_ifs at loaded
        exact ih (by omega) loaded

namespace TxExtraField

private theorem load_doSerialize (stream : IStream) :
    doSerialize.load stream =
      if stream.get.1 = 0 then
        paddingAlternative.serializer.load stream.get.2
      else filled.load stream := by
  have tagged (alternatives : List (Alternative TxExtraField tag)) :
      (variant tag alternatives).load stream =
        (selectAlternative stream.get.1 alternatives).load stream.get.2 :=
    rfl
  rw [doSerialize, filled, tagged, tagged, selectAlternative]
  by_cases isPadding : stream.get.1 = 0
  · have same : paddingAlternative.tag = stream.get.1 := isPadding.symm
    rw [if_pos isPadding, if_pos same]
  · have different : paddingAlternative.tag ≠ stream.get.1 := Ne.symm isPadding
    rw [if_neg isPadding, if_neg different]

/-- No other kind has the tag of padding. -/
theorem tag_ne_zero_of_filled {field : TxExtraField} {bytes : Bytes}
    (reads : filled.Reads field bytes) : field.tag ≠ 0 := by
  obtain ⟨payload, -, selected⟩ := reads_variant.mp reads
  intro isPadding
  rw [isPadding] at selected
  cases selected.load

theorem reads_of_filled {field : TxExtraField} {bytes : Bytes}
    (reads : filled.Reads field bytes) : doSerialize.Reads field bytes := by
  intro rest
  obtain ⟨payload, rfl, -⟩ := reads_variant.mp reads
  have loaded := load_doSerialize ⟨field.tag :: payload ++ rest, true⟩
  rw [loaded, List.cons_append, IStream.get_cons,
    if_neg (tag_ne_zero_of_filled reads)]
  exact reads rest

/-- A load gives a padding that ends with the stream, or it is the load of
another kind. -/
theorem load_cases {stream next : IStream} {field : TxExtraField}
    (loaded : doSerialize.load stream = some (field, next)) :
    (∃ padding, field = .padding padding) ∧ next.atEnd = true ∨
      filled.load stream = some (field, next) := by
  rw [load_doSerialize] at loaded
  split_ifs at loaded with isPadding
  · left
    simp only [Alternative.serializer, Option.map_eq_some_iff] at loaded
    obtain ⟨⟨padding, last⟩, padded, pairEq⟩ := loaded
    cases pairEq
    exact ⟨⟨padding, rfl⟩, TxExtraPadding.loadLoop_end rfl padded⟩
  · exact .inr loaded

end TxExtraField

end BlockTemplate
