import BlockTemplate.Cryptonote.PricingRecord

/-!
# RingCT sections

`ringct/rctTypes.h`: the base and the prunable section of a transaction's
RingCT signatures.  Neither stores the sizes of its vectors; they come from
the numbers of inputs and outputs and the ring size of the transaction, so
both sections are layouts that take these as arguments.
-/

namespace BlockTemplate

namespace Rct

open Serializer

set_option synthInstance.maxSize 4000

def maxLegacyRingctOutputs : Nat := 1024

abbrev Key := Blob 32

structure ZkProof where
  R : Key := Blob.zero 32
  z1 : Key := Blob.zero 32
  z2 : Key := Blob.zero 32
deriving DecidableEq

def ZkProof.doSerialize : Serializer ZkProof ZkProof := do
  let R ← field (·.R) (blob 32)
  let z1 ← field (·.z1) (blob 32)
  let z2 ← field (·.z2) (blob 32)
  return { R, z1, z2 }

/-- The commitment of an output; its destination is not serialized. -/
structure Ctkey where
  mask : Key
deriving DecidableEq

structure EcdhTuple where
  mask : Key
  amount : Key
deriving DecidableEq

def EcdhTuple.doSerialize : Serializer EcdhTuple EcdhTuple := do
  let mask ← field (·.mask) (blob 32)
  let amount ← field (·.amount) (blob 32)
  return { mask, amount }

abbrev Key64 := Blob (64 * 32)

/-- Two `key64` arrays and a key. -/
abbrev BoroSig := Blob (2 * (64 * 32) + 32)

structure MgSig where
  ss : List (List Key)
  cc : Key
deriving DecidableEq

structure Clsag where
  s : List Key
  c1 : Key
  D : Key
deriving DecidableEq

structure Tclsag where
  sx : List Key
  sy : List Key
  c1 : Key
  D : Key
deriving DecidableEq

structure RangeSig where
  asig : BoroSig
  Ci : Key64
deriving DecidableEq

def RangeSig.doSerialize : Serializer RangeSig RangeSig := do
  let asig ← field (·.asig) (blob (2 * (64 * 32) + 32))
  let Ci ← field (·.Ci) (blob (64 * 32))
  return { asig, Ci }

structure Bulletproof where
  A : Key
  S : Key
  T1 : Key
  T2 : Key
  taux : Key
  mu : Key
  L : List Key
  R : List Key
  a : Key
  b : Key
  t : Key
deriving DecidableEq

def Bulletproof.doSerialize : Serializer Bulletproof Bulletproof := do
  let A ← field (·.A) (blob 32)
  let S ← field (·.S) (blob 32)
  let T1 ← field (·.T1) (blob 32)
  let T2 ← field (·.T2) (blob 32)
  let taux ← field (·.taux) (blob 32)
  let mu ← field (·.mu) (blob 32)
  let L ← field (·.L) (vector (blob 32))
  let R ← field (·.R) (vector (blob 32))
  let a ← field (·.a) (blob 32)
  let b ← field (·.b) (blob 32)
  let t ← field (·.t) (blob 32)
  require (!L.isEmpty && L.length == R.length)
  return { A, S, T1, T2, taux, mu, L, R, a, b, t }

structure BulletproofPlus where
  A : Key
  A1 : Key
  B : Key
  r1 : Key
  s1 : Key
  d1 : Key
  L : List Key
  R : List Key
deriving DecidableEq

def BulletproofPlus.doSerialize :
    Serializer BulletproofPlus BulletproofPlus := do
  let A ← field (·.A) (blob 32)
  let A1 ← field (·.A1) (blob 32)
  let B ← field (·.B) (blob 32)
  let r1 ← field (·.r1) (blob 32)
  let s1 ← field (·.s1) (blob 32)
  let d1 ← field (·.d1) (blob 32)
  let L ← field (·.L) (vector (blob 32))
  let R ← field (·.R) (vector (blob 32))
  require (!L.isEmpty && L.length == R.length)
  return { A, A1, B, r1, s1, d1, L, R }

/-- The functions over proof lists that `rctTypes.h` declares and the
repository does not define. -/
structure Helpers where
  nBulletproofMaxAmounts : List Bulletproof → BitVec 64
  nBulletproofPlusMaxAmounts : List BulletproofPlus → BitVec 64

def rctTypeNull : Byte := 0
def rctTypeFull : Byte := 1
def rctTypeSimple : Byte := 2
def rctTypeBulletproof : Byte := 3
def rctTypeBulletproof2 : Byte := 4
def rctTypeClsag : Byte := 5
def rctTypeBulletproofPlus : Byte := 6
def rctTypeFullProofs : Byte := 7
def rctTypeSalviumZero : Byte := 8
def rctTypeSalviumOne : Byte := 9

def isKnownType (type : Byte) : Bool :=
  type == rctTypeFull || type == rctTypeSimple || type == rctTypeBulletproof ||
  type == rctTypeBulletproof2 || type == rctTypeClsag ||
  type == rctTypeBulletproofPlus || type == rctTypeFullProofs ||
  type == rctTypeSalviumZero || type == rctTypeSalviumOne

def salviumZeroAudit : Byte := 1

structure SalviumInputData where
  aR : KeyDerivation
  amount : BitVec 64
  i : BitVec 64
  originTxType : Byte
  aRStake : KeyDerivation
  iStake : BitVec 64
deriving DecidableEq

def SalviumInputData.doSerialize :
    Serializer SalviumInputData SalviumInputData := do
  let aR ← field (·.aR) (blob 32)
  let amount ← field (·.amount) (uvarint 64)
  let i ← field (·.i) (uvarint 64)
  let originTxType ← field (·.originTxType) (uvarint 8)
  let aRStake ←
    fieldIf (originTxType != 0) (·.aRStake) (blob 32) (Blob.zero 32)
  let iStake ← fieldIf (originTxType != 0) (·.iStake) uint64 0
  return { aR, amount, i, originTxType, aRStake, iStake }

structure SalviumData where
  salviumDataType : Byte := 0
  prProof : ZkProof := {}
  saProof : ZkProof := {}
  czProof : ZkProof := {}
  inputVerificationData : List SalviumInputData := []
  spendPubkey : PublicKey := Blob.zero 32
  encViewPrivkeyStr : Bytes := []
deriving DecidableEq

instance localZkProof : Local ZkProof.doSerialize := by
  unfold ZkProof.doSerialize
  infer_instance

instance canonicalZkProof : Canonical ZkProof.doSerialize := by
  unfold ZkProof.doSerialize
  infer_instance

instance localSalviumInputData : Local SalviumInputData.doSerialize := by
  unfold SalviumInputData.doSerialize
  infer_instance

instance canonicalSalviumInputData :
    Canonical SalviumInputData.doSerialize := by
  unfold SalviumInputData.doSerialize
  infer_instance

instance positiveSalviumInputData :
    Positive SalviumInputData.doSerialize := by
  unfold SalviumInputData.doSerialize
  infer_instance

def SalviumData.doSerialize : Serializer SalviumData SalviumData := do
  let salviumDataType ← field (·.salviumDataType) (uvarint 8)
  let prProof ← field (·.prProof) ZkProof.doSerialize
  let saProof ← field (·.saProof) ZkProof.doSerialize
  let czProof ← fieldIf (salviumDataType == salviumZeroAudit) (·.czProof)
    ZkProof.doSerialize {}
  let inputVerificationData ←
    fieldIf (salviumDataType == salviumZeroAudit) (·.inputVerificationData)
      (vector SalviumInputData.doSerialize) []
  let spendPubkey ← fieldIf (salviumDataType == salviumZeroAudit)
    (·.spendPubkey) (blob 32) (Blob.zero 32)
  let encViewPrivkeyStr ← fieldIf (salviumDataType == salviumZeroAudit)
    (·.encViewPrivkeyStr) string []
  return { salviumDataType, prProof, saProof, czProof, inputVerificationData,
           spendPubkey, encViewPrivkeyStr }

instance localSalviumData : Local SalviumData.doSerialize := by
  unfold SalviumData.doSerialize
  infer_instance

instance canonicalSalviumData : Canonical SalviumData.doSerialize := by
  unfold SalviumData.doSerialize
  infer_instance

structure SigBase where
  type : Byte := rctTypeNull
  ecdhInfo : List EcdhTuple := []
  outPk : List Ctkey := []
  txnFee : BitVec 64 := 0
  pR : Key := Blob.zero 32
  prProof : ZkProof := {}
  saProof : ZkProof := {}
  salviumData : SalviumData := {}
deriving DecidableEq

/-- The first eight bytes of an encrypted amount. -/
def EcdhTuple.hash8 (tuple : EcdhTuple) : Blob 8 :=
  ⟨tuple.amount.bytes.take 8, by simp⟩

/-- A new tuple whose amount starts with eight bytes and is zero after. -/
def EcdhTuple.ofHash8 (amount : Blob 8) : EcdhTuple :=
  { mask := Blob.zero 32
    amount := ⟨amount.bytes ++ List.replicate 24 0, by simp⟩ }

private theorem EcdhTuple.hash8_ofHash8 (amount : Blob 8) :
    (EcdhTuple.ofHash8 amount).hash8 = amount := by
  apply Blob.ext
  simp [EcdhTuple.hash8, EcdhTuple.ofHash8]

/-- The types whose encrypted amounts are stored as eight bytes. -/
def hasShortAmounts (type : Byte) : Bool :=
  type == rctTypeBulletproof2 || type == rctTypeClsag ||
  type == rctTypeBulletproofPlus || type == rctTypeFullProofs ||
  type == rctTypeSalviumZero || type == rctTypeSalviumOne

def ecdhTuple (type : Byte) : Codec EcdhTuple :=
  if hasShortAmounts type then
    via EcdhTuple.hash8 EcdhTuple.ofHash8 (blob 8)
  else
    EcdhTuple.doSerialize

def Ctkey.serializeMask : Serializer Ctkey Ctkey := do
  let mask ← field (·.mask) (blob 32)
  return { mask }

def serializeRctsigBase (_inputs outputs : Nat) :
    Serializer SigBase SigBase := do
  let type ← field (·.type) uint8
  if type = rctTypeNull then
    return { type }
  else
    require (isKnownType type)
    let txnFee ← field (·.txnFee) (uvarint 64)
    let ecdhInfo ← field (·.ecdhInfo) (elements outputs (ecdhTuple type))
    let outPk ← field (·.outPk) (elements outputs Ctkey.serializeMask)
    let pR ← field (·.pR) (blob 32)
    let salviumData ←
      fieldIf (type == rctTypeSalviumZero || type == rctTypeSalviumOne)
        (·.salviumData) SalviumData.doSerialize {}
    let prProof ← fieldIf (type == rctTypeFullProofs) (·.prProof)
      ZkProof.doSerialize {}
    let saProof ← fieldIf (type == rctTypeFullProofs) (·.saProof)
      ZkProof.doSerialize {}
    return { type, ecdhInfo, outPk, txnFee, pR, prProof, saProof, salviumData }

instance localEcdhTuple (type : Byte) : Local (ecdhTuple type) := by
  unfold ecdhTuple EcdhTuple.doSerialize
  infer_instance

instance canonicalEcdhTuple (type : Byte) : Canonical (ecdhTuple type) := by
  have short : Canonical (via EcdhTuple.hash8 EcdhTuple.ofHash8 (blob 8)) :=
    canonical_via EcdhTuple.hash8_ofHash8
  unfold ecdhTuple EcdhTuple.doSerialize
  infer_instance

instance localCtkey : Local Ctkey.serializeMask := by
  unfold Ctkey.serializeMask
  infer_instance

instance canonicalCtkey : Canonical Ctkey.serializeMask := by
  unfold Ctkey.serializeMask
  infer_instance

instance localRctsigBase (inputs outputs : Nat) :
    Local (serializeRctsigBase inputs outputs) := by
  unfold serializeRctsigBase
  infer_instance

instance canonicalRctsigBase (inputs outputs : Nat) :
    Canonical (serializeRctsigBase inputs outputs) := by
  unfold serializeRctsigBase
  infer_instance

structure SigPrunable where
  rangeSigs : List RangeSig := []
  bulletproofs : List Bulletproof := []
  bulletproofsPlus : List BulletproofPlus := []
  MGs : List MgSig := []
  CLSAGs : List Clsag := []
  TCLSAGs : List Tclsag := []
  pseudoOuts : List Key := []
deriving DecidableEq

def MgSig.serialize (rows columns : Nat) : Serializer MgSig MgSig := do
  let ss ← field (·.ss) (elements rows (elements columns (blob 32)))
  let cc ← field (·.cc) (blob 32)
  return { ss, cc }

def Clsag.serialize (ringSize : Nat) : Serializer Clsag Clsag := do
  let s ← field (·.s) (elements ringSize (blob 32))
  let c1 ← field (·.c1) (blob 32)
  let D ← field (·.D) (blob 32)
  return { s, c1, D }

def Tclsag.serialize (ringSize : Nat) : Serializer Tclsag Tclsag := do
  let sx ← field (·.sx) (elements ringSize (blob 32))
  let sy ← field (·.sy) (elements ringSize (blob 32))
  let c1 ← field (·.c1) (blob 32)
  let D ← field (·.D) (blob 32)
  return { sx, sy, c1, D }

def usesBulletproofsPlus (type : Byte) : Bool :=
  type == rctTypeBulletproofPlus || type == rctTypeFullProofs ||
  type == rctTypeSalviumZero || type == rctTypeSalviumOne

def usesBulletproofs (type : Byte) : Bool :=
  type == rctTypeBulletproof || type == rctTypeBulletproof2 ||
  type == rctTypeClsag

def usesTclsags (type : Byte) : Bool :=
  type == rctTypeSalviumOne

def usesClsags (type : Byte) : Bool :=
  type == rctTypeClsag || type == rctTypeBulletproofPlus ||
  type == rctTypeFullProofs || type == rctTypeSalviumZero

/-- The types with one MLSAG for every input, over one column each. -/
def isSimple (type : Byte) : Bool :=
  type == rctTypeSimple || type == rctTypeBulletproof ||
  type == rctTypeBulletproof2

/-- The proofs of an output list: their number, at most one for each output,
then the proofs, which have to be enough for the outputs. -/
def countedProofs {Proof : Type} (size : Codec (BitVec 32))
    (proof : Codec Proof) (maxAmounts : List Proof → BitVec 64)
    (outputs : Nat) : Serializer (List Proof) (List Proof) := do
  let nbp ← field (fun proofs => BitVec.ofNat 32 proofs.length) size
  require (nbp.toNat ≤ outputs)
  checked (fun proofs => outputs ≤ (maxAmounts proofs).toNat)
    (elements nbp.toNat proof)

def serializeRctsigPrunable (helpers : Helpers) (type : Byte)
    (inputs outputs : Nat) (mixin : BitVec 64) :
    Serializer SigPrunable SigPrunable := do
  require (inputs < 0xffffffff)
  require (outputs < 0xffffffff)
  require (mixin.toNat < 0xffffffff)
  if type = rctTypeNull then
    return {}
  else
    require (isKnownType type)
    let bulletproofsPlus ← fieldIf (usesBulletproofsPlus type)
      (·.bulletproofsPlus)
      (countedProofs (uvarint 32) BulletproofPlus.doSerialize
        helpers.nBulletproofPlusMaxAmounts outputs) []
    let bulletproofs ← fieldIf (usesBulletproofs type)
      (·.bulletproofs)
      (countedProofs
        (if type = rctTypeBulletproof2 ∨ type = rctTypeClsag then uvarint 32
          else uint32)
        Bulletproof.doSerialize helpers.nBulletproofMaxAmounts outputs) []
    -- The remaining types have range signatures, at most 1024 of them.
    require (usesBulletproofsPlus type || usesBulletproofs type ||
      outputs ≤ maxLegacyRingctOutputs)
    let rangeSigs ←
      fieldIf (!usesBulletproofsPlus type && !usesBulletproofs type)
        (·.rangeSigs) (elements outputs RangeSig.doSerialize) []
    let TCLSAGs ← fieldIf (usesTclsags type) (·.TCLSAGs)
      (elements inputs (Tclsag.serialize (mixin.toNat + 1))) []
    let CLSAGs ← fieldIf (!usesTclsags type && usesClsags type) (·.CLSAGs)
      (elements inputs (Clsag.serialize (mixin.toNat + 1))) []
    let MGs ← fieldIf (!usesTclsags type && !usesClsags type) (·.MGs)
      (elements (if isSimple type then inputs else 1)
        (MgSig.serialize (mixin.toNat + 1)
          ((if isSimple type then 1 else inputs) + 1))) []
    let pseudoOuts ←
      fieldIf (usesBulletproofs type || usesBulletproofsPlus type)
        (·.pseudoOuts) (elements inputs (blob 32)) []
    return { rangeSigs, bulletproofs, bulletproofsPlus, MGs, CLSAGs, TCLSAGs,
             pseudoOuts }

instance localRangeSig : Local RangeSig.doSerialize := by
  unfold RangeSig.doSerialize
  infer_instance

instance canonicalRangeSig : Canonical RangeSig.doSerialize := by
  unfold RangeSig.doSerialize
  infer_instance

instance localBulletproof : Local Bulletproof.doSerialize := by
  unfold Bulletproof.doSerialize
  infer_instance

instance canonicalBulletproof : Canonical Bulletproof.doSerialize := by
  unfold Bulletproof.doSerialize
  infer_instance

instance localBulletproofPlus : Local BulletproofPlus.doSerialize := by
  unfold BulletproofPlus.doSerialize
  infer_instance

instance canonicalBulletproofPlus :
    Canonical BulletproofPlus.doSerialize := by
  unfold BulletproofPlus.doSerialize
  infer_instance

instance localMgSig (rows columns : Nat) :
    Local (MgSig.serialize rows columns) := by
  unfold MgSig.serialize
  infer_instance

instance canonicalMgSig (rows columns : Nat) :
    Canonical (MgSig.serialize rows columns) := by
  unfold MgSig.serialize
  infer_instance

instance localClsag (ringSize : Nat) : Local (Clsag.serialize ringSize) := by
  unfold Clsag.serialize
  infer_instance

instance canonicalClsag (ringSize : Nat) :
    Canonical (Clsag.serialize ringSize) := by
  unfold Clsag.serialize
  infer_instance

instance localTclsag (ringSize : Nat) : Local (Tclsag.serialize ringSize) := by
  unfold Tclsag.serialize
  infer_instance

instance canonicalTclsag (ringSize : Nat) :
    Canonical (Tclsag.serialize ringSize) := by
  unfold Tclsag.serialize
  infer_instance

section CountedProofs

variable {Proof : Type} (size : Codec (BitVec 32)) (proof : Codec Proof)
  (maxAmounts : List Proof → BitVec 64) (outputs : Nat)

instance localCountedProofs [Local size] [Local proof] :
    Local (countedProofs size proof maxAmounts outputs) := by
  unfold countedProofs
  infer_instance

instance canonicalCountedProofs [Local size] [Canonical size]
    [Local proof] [Canonical proof] :
    Canonical (countedProofs size proof maxAmounts outputs) := by
  unfold countedProofs
  infer_instance

end CountedProofs

instance localRctsigPrunable (helpers : Helpers) (type : Byte)
    (inputs outputs : Nat) (mixin : BitVec 64) :
    Local (serializeRctsigPrunable helpers type inputs outputs mixin) := by
  unfold serializeRctsigPrunable
  infer_instance

instance canonicalRctsigPrunable (helpers : Helpers) (type : Byte)
    (inputs outputs : Nat) (mixin : BitVec 64) :
    Canonical
      (serializeRctsigPrunable helpers type inputs outputs mixin) := by
  unfold serializeRctsigPrunable
  infer_instance

end Rct

end BlockTemplate
