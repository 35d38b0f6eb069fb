import BlockTemplate.Cryptonote.Config
import BlockTemplate.Cryptonote.InputsOutputs
import BlockTemplate.Cryptonote.RctTypes

/-!
# Transactions

The transaction of `cryptonote_basic.h`: the versioned prefix of every
supported blob type, then ring signatures or RingCT sections.  The prefix is
described in three pieces, what comes before `extra`, `extra` itself and what
comes after it, because the bytes of `extra` are the ones a pool writes to.
-/

namespace BlockTemplate

open Serializer

set_option synthInstance.maxSize 20000
set_option synthInstance.maxHeartbeats 100000

structure ProtocolTxData where
  version : Byte := 0
  returnAddress : PublicKey := Blob.zero 32
  returnPubkey : PublicKey := Blob.zero 32
  returnViewTag : CarrotViewTag := Blob.zero 3
  returnAnchorEnc : EncryptedJanusAnchor := Blob.zero 16
deriving DecidableEq

def ProtocolTxData.doSerialize :
    Serializer ProtocolTxData ProtocolTxData := do
  let version ← field (·.version) (uvarint 8)
  let returnAddress ← field (·.returnAddress) (blob 32)
  let returnPubkey ← field (·.returnPubkey) (blob 32)
  let returnViewTag ← field (·.returnViewTag) (blob 3)
  let returnAnchorEnc ← field (·.returnAnchorEnc) (blob 16)
  return { version, returnAddress, returnPubkey, returnViewTag,
           returnAnchorEnc }

structure ErcToken where
  version : Byte := 0
  contractAddress : Bytes := []
  lockboxAddress : Bytes := []
  ticker : Bytes := []
  erc20AssetId : BitVec 64 := 0
deriving DecidableEq

def ErcToken.doSerialize : Serializer ErcToken ErcToken := do
  let version ← field (·.version) (uvarint 8)
  let contractAddress ← field (·.contractAddress) string
  let lockboxAddress ← field (·.lockboxAddress) string
  let ticker ← field (·.ticker) string
  let erc20AssetId ← field (·.erc20AssetId) (uvarint 64)
  return { version, contractAddress, lockboxAddress, ticker, erc20AssetId }

structure SalToken where
  version : Byte
  supply : BitVec 64
  size : BitVec 64
  name : Bytes
  url : Bytes
  signature : Hash
deriving DecidableEq

def SalToken.doSerialize : Serializer SalToken SalToken := do
  let version ← field (·.version) (uvarint 8)
  let supply ← field (·.supply) (uvarint 64)
  let size ← field (·.size) (uvarint 64)
  let name ← field (·.name) string
  let url ← field (·.url) string
  let signature ← field (·.signature) (blob 32)
  return { version, supply, size, name, url, signature }

inductive TokenV where
  | ercToken (token : ErcToken)
  | salToken (token : SalToken)
deriving DecidableEq

def TokenV.tag : TokenV → Byte
  | .ercToken _ => 0x0
  | .salToken _ => 0x1

def TokenV.doSerialize : Serializer TokenV TokenV :=
  variant TokenV.tag [
    { Payload := ErcToken, tag := 0x0, inject := .ercToken
      project := fun | .ercToken token => some token | _ => none
      codec := ErcToken.doSerialize },
    { Payload := SalToken, tag := 0x1, inject := .salToken
      project := fun | .salToken token => some token | _ => none
      codec := SalToken.doSerialize }]

structure TokenMetadata where
  version : Byte := 0
  assetType : Bytes := []
  token : TokenV := .ercToken {}
deriving DecidableEq

def TokenMetadata.doSerialize : Serializer TokenMetadata TokenMetadata := do
  let version ← field (·.version) (uvarint 8)
  let assetType ← field (·.assetType) string
  let token ← field (·.token) TokenV.doSerialize
  return { version, assetType, token }

structure Layer2RollupTx where
  txPrefixHash : Hash
  firstKeyImage : KeyImage
  txFee : BitVec 64
deriving DecidableEq

def Layer2RollupTx.doSerialize :
    Serializer Layer2RollupTx Layer2RollupTx := do
  let txPrefixHash ← field (·.txPrefixHash) (blob 32)
  let firstKeyImage ← field (·.firstKeyImage) (blob 32)
  let txFee ← field (·.txFee) (uvarint 64)
  return { txPrefixHash, firstKeyImage, txFee }

structure Layer2RollupData where
  version : Byte := 0
  txs : List Layer2RollupTx := []
deriving DecidableEq

def Layer2RollupData.doSerialize :
    Serializer Layer2RollupData Layer2RollupData := do
  let version ← field (·.version) (uvarint 8)
  let txs ← field (·.txs) (vector Layer2RollupTx.doSerialize)
  return { version, txs }

structure TransactionPrefixHead where
  version : BitVec 64 := 0
  unlockTime : BitVec 64 := 0
  arqTxType : BitVec 16 := 0
  vin : List TxinV := []
  vinZephyr : List TxinZephyrV := []
  vinSalvium : List TxinSalviumV := []
  vout : List TxOut := []
  voutZephyr : List TxOutZephyr := []
  voutSalvium : List TxOutSalvium := []
  outputUnlockTimes : List (BitVec 64) := []
deriving DecidableEq

/-- `transaction_prefix::do_serialize` before `FIELD(extra)`. -/
def TransactionPrefixHead.doSerialize (blobType : BlobType) :
    Serializer TransactionPrefixHead TransactionPrefixHead :=
  if blobType = .cryptonoteSalvium then do
    let version ← field (·.version) (uvarint 64)
    require (isSupportedTransactionVersion blobType version.toNat)
    let unlockTime ← field (·.unlockTime) (uvarint 64)
    let vinSalvium ← field (·.vinSalvium) (vector TxinSalviumV.doSerialize)
    let voutSalvium ← field (·.voutSalvium) (vector TxOutSalvium.doSerialize)
    return { version, unlockTime, vinSalvium, voutSalvium }
  else do
    let version ← field (·.version) (uvarint 64)
    require (isSupportedTransactionVersion blobType version.toNat)
    let arqTxType ← fieldIf
      (version.toNat ≥ Arq.txversionV3 ∧ blobType = .cryptonoteArqma)
      (·.arqTxType)
      (checked (fun type => type.toNat < Arq.txtypeCount) (uvarint 16)) 0
    let outputUnlockTimes ← fieldIf
      (version.toNat ≥ Arq.txversionV3 ∧ blobType = .cryptonoteArqma)
      (·.outputUnlockTimes) (vector (uvarint 64)) []
    let unlockTime ← field (·.unlockTime) (uvarint 64)
    let vinZephyr ← fieldIf (blobType = .cryptonoteZephyr) (·.vinZephyr)
      (vector TxinZephyrV.doSerialize) []
    let vin ← fieldIf (blobType ≠ .cryptonoteZephyr) (·.vin)
      (vector TxinV.doSerialize) []
    let voutZephyr ← fieldIf (blobType = .cryptonoteZephyr) (·.voutZephyr)
      (vector TxOutZephyr.doSerialize) []
    let vout ← fieldIf (blobType ≠ .cryptonoteZephyr) (·.vout)
      (vector TxOut.doSerialize) []
    require (!(blobType = .cryptonoteArqma ∧
      version.toNat ≥ Arq.txversionV3 ∧
      vout.length ≠ outputUnlockTimes.length))
    return { version, unlockTime, arqTxType, vin, vinZephyr, vout, voutZephyr,
             outputUnlockTimes }

structure TransactionPrefix extends TransactionPrefixHead where
  extra : Bytes := []
  pricingRecordHeight : BitVec 64 := 0
  amountBurnt : BitVec 64 := 0
  amountMinted : BitVec 64 := 0
  salTxType : BitVec 32 := SalviumTransactionType.unset
  returnAddress : PublicKey := Blob.zero 32
  returnAddressList : List PublicKey := []
  returnAddressChangeMask : Bytes := []
  returnPubkey : PublicKey := Blob.zero 32
  sourceAssetType : Bytes := []
  destinationAssetType : Bytes := []
  amountSlippageLimit : BitVec 64 := 0
  protocolTxData : ProtocolTxData := {}
  rollupBindingTag : RollupBindingTag := Blob.zero 8
  tokenMetadata : TokenMetadata := {}
  layer2RollupData : Layer2RollupData := {}
deriving DecidableEq

namespace Salvium

open SalviumTransactionType

/-- The conditions under which a Salvium prefix has its optional members. -/
def hasAmountBurnt (salTxType : BitVec 32) : Bool :=
  salTxType ≠ unset ∧ salTxType ≠ protocol

def hasAssets (salTxType : BitVec 32) : Bool :=
  hasAmountBurnt salTxType ∧ salTxType ≠ miner

def hasReturnAddressList (version : Nat) (salTxType : BitVec 32) : Bool :=
  salTxType = transfer ∧ version ≥ transactionVersionNOuts

def hasProtocolTxData (version : Nat) (salTxType : BitVec 32) : Bool :=
  !hasReturnAddressList version salTxType ∧
    (salTxType = stake ∨ salTxType = createToken) ∧
    version ≥ transactionVersionCarrot

def hasReturnAddress (version : Nat) (salTxType : BitVec 32) : Bool :=
  !hasReturnAddressList version salTxType ∧
    !hasProtocolTxData version salTxType

def hasTokens (version : Nat) : Bool :=
  version ≥ transactionVersionEnableTokens

end Salvium

/-- `transaction_prefix::do_serialize` after `FIELD(extra)`. -/
def TransactionPrefix.serializeRest (blobType : BlobType)
    (head : TransactionPrefixHead) (extra : Bytes) :
    Serializer TransactionPrefix TransactionPrefix :=
  if blobType = .cryptonoteSalvium then do
    let salTxType ← field (·.salTxType) (uvarint 32)
    let amountBurnt ← fieldIf (Salvium.hasAmountBurnt salTxType)
      (·.amountBurnt) (uvarint 64) 0
    let returnAddressList ← fieldIf
      (Salvium.hasAssets salTxType &&
        Salvium.hasReturnAddressList head.version.toNat salTxType)
      (·.returnAddressList) (vector (blob 32)) []
    let returnAddressChangeMask ← fieldIf
      (Salvium.hasAssets salTxType &&
        Salvium.hasReturnAddressList head.version.toNat salTxType)
      (·.returnAddressChangeMask) (vector uint8) []
    let protocolTxData ← fieldIf
      (Salvium.hasAssets salTxType &&
        Salvium.hasProtocolTxData head.version.toNat salTxType)
      (·.protocolTxData) ProtocolTxData.doSerialize {}
    let returnAddress ← fieldIf
      (Salvium.hasAssets salTxType &&
        Salvium.hasReturnAddress head.version.toNat salTxType)
      (·.returnAddress) (blob 32) (Blob.zero 32)
    let returnPubkey ← fieldIf
      (Salvium.hasAssets salTxType &&
        Salvium.hasReturnAddress head.version.toNat salTxType)
      (·.returnPubkey) (blob 32) (Blob.zero 32)
    let sourceAssetType ← fieldIf (Salvium.hasAssets salTxType)
      (·.sourceAssetType) string []
    let destinationAssetType ← fieldIf (Salvium.hasAssets salTxType)
      (·.destinationAssetType) string []
    let amountSlippageLimit ← fieldIf (Salvium.hasAssets salTxType)
      (·.amountSlippageLimit) (uvarint 64) 0
    let tokenMetadata ← fieldIf
      (Salvium.hasTokens head.version.toNat &&
        salTxType = SalviumTransactionType.createToken)
      (·.tokenMetadata) TokenMetadata.doSerialize {}
    let rollupBindingTag ← fieldIf
      (Salvium.hasTokens head.version.toNat &&
        (salTxType = SalviumTransactionType.transfer ∨
          salTxType = SalviumTransactionType.rollup))
      (·.rollupBindingTag) (blob 8) (Blob.zero 8)
    let layer2RollupData ← fieldIf
      (Salvium.hasTokens head.version.toNat &&
        salTxType = SalviumTransactionType.rollup)
      (·.layer2RollupData) Layer2RollupData.doSerialize {}
    return {
      toTransactionPrefixHead := head, extra, salTxType, amountBurnt
      returnAddressList, returnAddressChangeMask, protocolTxData
      returnAddress, returnPubkey, sourceAssetType, destinationAssetType
      amountSlippageLimit, tokenMetadata, rollupBindingTag, layer2RollupData }
  else do
    let pricingRecordHeight ← fieldIf (blobType = .cryptonoteZephyr)
      (·.pricingRecordHeight) (uvarint 64) 0
    let amountBurnt ← fieldIf (blobType = .cryptonoteZephyr)
      (·.amountBurnt) (uvarint 64) 0
    let amountMinted ← fieldIf (blobType = .cryptonoteZephyr)
      (·.amountMinted) (uvarint 64) 0
    return {
      toTransactionPrefixHead := head, extra, pricingRecordHeight
      amountBurnt, amountMinted }

/-- `transaction_prefix::do_serialize`. -/
def TransactionPrefix.doSerialize (blobType : BlobType) :
    Serializer TransactionPrefix TransactionPrefix := do
  let head ← field (·.toTransactionPrefixHead)
    (TransactionPrefixHead.doSerialize blobType)
  let extra ← field (·.extra) (vector uint8)
  serializeRest blobType head extra

/-- `get_signature_size`. -/
def getSignatureSize : TxinV → Nat
  | .toKey input => input.keyOffsets.length
  | _ => 0

/-- `do_serialize` of a `std::vector<crypto::signature>`, whose size the
caller has set. -/
def ringSignature (size : Nat) : Codec (List Signature) :=
  guardRemaining (size * 64 % 2 ^ 64) (elements size (blob 64))

def signaturesLoop :
    List TxinV → Serializer (List (List Signature)) (List (List Signature))
  | [] => pure []
  | input :: inputs => do
    let first ← field (·.headD []) (ringSignature (getSignatureSize input))
    let later ← field List.tail (signaturesLoop inputs)
    return first :: later

/-- The signatures of a version 1 transaction.  No signatures at all is the
same as an empty one for every input; else there has to be one each. -/
def ringSignatures (vin : List TxinV) : Codec (List (List Signature)) :=
  checked (fun signatures =>
      signatures.isEmpty || signatures.length == vin.length)
    (signaturesLoop vin)

structure RctSig extends Rct.SigBase where
  p : Rct.SigPrunable := {}
deriving DecidableEq

def RctSig.serialize (helpers : Rct.Helpers) (inputs outputs : Nat)
    (mixin : BitVec 64) : Serializer RctSig RctSig := do
  let base ← field (·.toSigBase) (Rct.serializeRctsigBase inputs outputs)
  let p ← fieldIf (base.type ≠ Rct.rctTypeNull) (·.p)
    (Rct.serializeRctsigPrunable helpers base.type inputs outputs mixin) {}
  return { toSigBase := base, p }

structure Transaction extends TransactionPrefix where
  signatures : List (List Signature) := []
  rctSignatures : RctSig := {}
deriving DecidableEq

/-- The ring size of the first input less one, in `size_t` arithmetic. -/
def mixinOf {KeyInput : Type} (keyOffsets : KeyInput → List (BitVec 64)) :
    List (InputBy KeyInput) → BitVec 64
  | .toKey input :: _ => BitVec.ofNat 64 (keyOffsets input).length - 1
  | _ => 0

namespace TransactionPrefixHead

variable (blobType : BlobType) (head : TransactionPrefixHead)

def hasInputs : Bool :=
  if blobType = .cryptonoteSalvium then !head.vinSalvium.isEmpty
  else if blobType = .cryptonoteZephyr then !head.vinZephyr.isEmpty
  else !head.vin.isEmpty

def inputs : Nat :=
  if blobType = .cryptonoteZephyr then head.vinZephyr.length
  else if blobType = .cryptonoteSalvium then head.vinSalvium.length
  else head.vin.length

def outputs : Nat :=
  if blobType = .cryptonoteZephyr then head.voutZephyr.length
  else if blobType = .cryptonoteSalvium then head.voutSalvium.length
  else head.vout.length

def mixin : BitVec 64 :=
  if blobType = .cryptonoteZephyr then
    mixinOf TxinAssetKey.keyOffsets head.vinZephyr
  else if blobType = .cryptonoteSalvium then
    mixinOf TxinAssetKey.keyOffsets head.vinSalvium
  else
    mixinOf TxinToKey.keyOffsets head.vin

end TransactionPrefixHead

/-- `transaction::do_serialize_object` after the prefix. -/
def Transaction.serializeRest (helpers : Rct.Helpers) (blobType : BlobType)
    (txPrefix : TransactionPrefix) : Serializer Transaction Transaction :=
  if txPrefix.version = 1 ∧ blobType ≠ .cryptonote3 then do
    let signatures ← field (·.signatures) (ringSignatures txPrefix.vin)
    return { toTransactionPrefix := txPrefix, signatures }
  else do
    let rctSignatures ← fieldIf (txPrefix.hasInputs blobType)
      (·.rctSignatures)
      (RctSig.serialize helpers (txPrefix.inputs blobType)
        (txPrefix.outputs blobType) (txPrefix.mixin blobType)) {}
    return { toTransactionPrefix := txPrefix, rctSignatures }

/-- `transaction::do_serialize_object`. -/
def Transaction.doSerialize (helpers : Rct.Helpers) (blobType : BlobType) :
    Serializer Transaction Transaction := do
  let txPrefix ← field (·.toTransactionPrefix)
    (TransactionPrefix.doSerialize blobType)
  serializeRest helpers blobType txPrefix

instance localProtocolTxData : Local ProtocolTxData.doSerialize := by
  unfold ProtocolTxData.doSerialize
  infer_instance

instance canonicalProtocolTxData : Canonical ProtocolTxData.doSerialize := by
  unfold ProtocolTxData.doSerialize
  infer_instance

instance localErcToken : Local ErcToken.doSerialize := by
  unfold ErcToken.doSerialize
  infer_instance

instance canonicalErcToken : Canonical ErcToken.doSerialize := by
  unfold ErcToken.doSerialize
  infer_instance

instance localSalToken : Local SalToken.doSerialize := by
  unfold SalToken.doSerialize
  infer_instance

instance canonicalSalToken : Canonical SalToken.doSerialize := by
  unfold SalToken.doSerialize
  infer_instance

instance localTokenV : Local TokenV.doSerialize := by
  unfold TokenV.doSerialize
  infer_instance

instance canonicalTokenV : Canonical TokenV.doSerialize := by
  unfold TokenV.doSerialize
  infer_instance

instance localTokenMetadata : Local TokenMetadata.doSerialize := by
  unfold TokenMetadata.doSerialize
  infer_instance

instance canonicalTokenMetadata : Canonical TokenMetadata.doSerialize := by
  unfold TokenMetadata.doSerialize
  infer_instance

instance localLayer2RollupTx : Local Layer2RollupTx.doSerialize := by
  unfold Layer2RollupTx.doSerialize
  infer_instance

instance canonicalLayer2RollupTx : Canonical Layer2RollupTx.doSerialize := by
  unfold Layer2RollupTx.doSerialize
  infer_instance

instance positiveLayer2RollupTx : Positive Layer2RollupTx.doSerialize := by
  unfold Layer2RollupTx.doSerialize
  infer_instance

instance localLayer2RollupData : Local Layer2RollupData.doSerialize := by
  unfold Layer2RollupData.doSerialize
  infer_instance

instance canonicalLayer2RollupData :
    Canonical Layer2RollupData.doSerialize := by
  unfold Layer2RollupData.doSerialize
  infer_instance

instance localTransactionPrefixHead (blobType : BlobType) :
    Local (TransactionPrefixHead.doSerialize blobType) := by
  unfold TransactionPrefixHead.doSerialize
  infer_instance

instance canonicalTransactionPrefixHead (blobType : BlobType) :
    Canonical (TransactionPrefixHead.doSerialize blobType) := by
  unfold TransactionPrefixHead.doSerialize
  infer_instance

section PrefixRest

variable (blobType : BlobType) (head : TransactionPrefixHead) (extra : Bytes)

instance localPrefixRest :
    Local (TransactionPrefix.serializeRest blobType head extra) := by
  unfold TransactionPrefix.serializeRest
  infer_instance

instance canonicalPrefixRest :
    Canonical (TransactionPrefix.serializeRest blobType head extra) := by
  unfold TransactionPrefix.serializeRest
  infer_instance

instance yieldsPrefixHead :
    Yields (TransactionPrefix.serializeRest blobType head extra)
      (·.toTransactionPrefixHead) head := by
  unfold TransactionPrefix.serializeRest
  infer_instance

instance yieldsPrefixExtra :
    Yields (TransactionPrefix.serializeRest blobType head extra)
      (·.extra) extra := by
  unfold TransactionPrefix.serializeRest
  infer_instance

end PrefixRest

instance localTransactionPrefix (blobType : BlobType) :
    Local (TransactionPrefix.doSerialize blobType) := by
  unfold TransactionPrefix.doSerialize
  infer_instance

instance canonicalTransactionPrefix (blobType : BlobType) :
    Canonical (TransactionPrefix.doSerialize blobType) := by
  unfold TransactionPrefix.doSerialize
  infer_instance

private theorem ringSignature_enough {size : Nat} {values : List Signature}
    {bytes : Bytes}
    (reads : (elements size (blob 64)).Reads values bytes) :
    size * 64 % 2 ^ 64 ≤ bytes.length := by
  obtain ⟨rfl, each⟩ := reads_elements.mp reads
  have total : values.length * 64 ≤ bytes.length :=
    each.length_le fun {value} _ signatureReads => by
      rw [reads_iff_encode.mp signatureReads, value.length_bytes]
  exact (Nat.mod_le _ _).trans total

instance localRingSignature (size : Nat) : Local (ringSignature size) :=
  local_guardRemaining ringSignature_enough

instance canonicalRingSignature (size : Nat) :
    Canonical (ringSignature size) :=
  canonical_guardRemaining ringSignature_enough

instance localSignaturesLoop (vin : List TxinV) :
    Local (signaturesLoop vin) := by
  induction vin with
  | nil => exact localPure []
  | cons input inputs ih =>
      unfold signaturesLoop
      infer_instance

instance yieldsHeadD (first : List Signature)
    (later : List (List Signature)) :
    Yields
      (pure (first :: later) :
        Serializer (List (List Signature)) (List (List Signature)))
      (fun signatures => signatures.headD []) first where
  of_load result := by
    cases result
    rfl

instance yieldsTail (first : List Signature)
    (later : List (List Signature)) :
    Yields
      (pure (first :: later) :
        Serializer (List (List Signature)) (List (List Signature)))
      List.tail later where
  of_load result := by
    cases result
    rfl

instance canonicalSignaturesLoop (vin : List TxinV) :
    Canonical (signaturesLoop vin) := by
  induction vin with
  | nil => exact canonicalPure []
  | cons input inputs ih =>
      unfold signaturesLoop
      infer_instance

instance localRingSignatures (vin : List TxinV) :
    Local (ringSignatures vin) := by
  unfold ringSignatures
  infer_instance

instance canonicalRingSignatures (vin : List TxinV) :
    Canonical (ringSignatures vin) := by
  unfold ringSignatures
  infer_instance

instance localRctSig (helpers : Rct.Helpers) (inputs outputs : Nat)
    (mixin : BitVec 64) :
    Local (RctSig.serialize helpers inputs outputs mixin) := by
  unfold RctSig.serialize
  infer_instance

instance canonicalRctSig (helpers : Rct.Helpers) (inputs outputs : Nat)
    (mixin : BitVec 64) :
    Canonical (RctSig.serialize helpers inputs outputs mixin) := by
  unfold RctSig.serialize
  infer_instance

section TransactionRest

variable (helpers : Rct.Helpers) (blobType : BlobType)
  (txPrefix : TransactionPrefix)

instance localTransactionRest :
    Local (Transaction.serializeRest helpers blobType txPrefix) := by
  unfold Transaction.serializeRest
  infer_instance

instance canonicalTransactionRest :
    Canonical (Transaction.serializeRest helpers blobType txPrefix) := by
  unfold Transaction.serializeRest
  infer_instance

instance yieldsTransactionPrefix :
    Yields (Transaction.serializeRest helpers blobType txPrefix)
      (·.toTransactionPrefix) txPrefix := by
  unfold Transaction.serializeRest
  infer_instance

end TransactionRest

instance localTransaction (helpers : Rct.Helpers) (blobType : BlobType) :
    Local (Transaction.doSerialize helpers blobType) := by
  unfold Transaction.doSerialize
  infer_instance

instance canonicalTransaction (helpers : Rct.Helpers) (blobType : BlobType) :
    Canonical (Transaction.doSerialize helpers blobType) := by
  unfold Transaction.doSerialize
  infer_instance

end BlockTemplate
