import BlockTemplate.Bitcoin.BigInt
import BlockTemplate.Bitcoin.Walk

/-!
# Raven templates

`RavenBlockTemplate` of `index.js`: a header, a count, a coinbase and the
transactions of the daemon, as hex.  The builder takes any number of
transactions, the walk over the blob at most five thousand; a template is
consumed when the two agree.
-/

namespace BlockTemplate.Index

variable (packages : Packages)

structure RavenTransaction where
  data : JsString

/-- The answer of the daemon.  Missing members are `none`. -/
structure RavenRpcData where
  height : Int
  version : Int
  curtime : Int
  bits : JsString
  previousblockhash : JsString
  target : JsString
  coinbasevalue : Int
  communityAutonomousAddress : Option JsString
  communityAutonomousValue : Option Int
  defaultWitnessCommitment : JsValue
  transactions : List RavenTransaction

/-- `difficulty` is in units of `1 / DIFF_PRECISION`. -/
structure RavenTemplate where
  blocktemplateBlob : JsString
  reservedOffset : Nat
  seedHash : JsString
  difficulty : Nat
  height : Int
  bits : JsString
  prevHash : JsString

/-- `last_epoch_number` and `last_seed_hash`. -/
structure SeedCache where
  lastEpochNumber : Option Int
  lastSeedHash : Hash

def bytesHeight (height : Int) : Nat :=
  ((toRadix 2 (height * 2)).length + 7) / 8

/-- The push of the height and an `OP_0`. -/
def serializedBlockHeight (height : Int) : Bytes :=
  let blockHeightSerial := BitcoinUtils.evenHex (toRadix 16 height)
  let lengthDiff := blockHeightSerial.length / 2 - bytesHeight height
  let padded := blockHeightSerial ++ List.replicate (2 * lengthDiff) '0'
  ofHex ('0' :: toRadix 10 (bytesHeight height)) ++
    reverseBuffer (ofHex padded) ++ [0x00]

def extraNoncePlaceholder : Bytes :=
  List.replicate 17 0xcc

/-- The `CommunityAutonomousAddress` output, if both members are there. -/
def communityOutputs (rpcData : RavenRpcData) :
    Except String (List BitcoinUtils.OutputDescription) :=
  match rpcData.communityAutonomousAddress,
      rpcData.communityAutonomousValue with
  | some address, some value =>
    if address.isEmpty || value == 0 then .ok []
    else do
      let addrHash ← BitcoinUtils.base58AddressToHash160 packages address
      let script ← BitcoinUtils.p2pkhScript addrHash
      pure [{ value, script := some script }]
  | _, _ => .ok []

def commitmentOutputs (rpcData : RavenRpcData) :
    Except String (List BitcoinUtils.OutputDescription) :=
  if rpcData.defaultWitnessCommitment.truthy then do
    let script ← packages.hexBuffer rpcData.defaultWitnessCommitment
    pure [{ value := 0, script := some script }]
  else .ok []

def coinbaseOutputs (rpcData : RavenRpcData) (poolAddrHash : Bytes) :
    Except String (List BitcoinUtils.OutputDescription) := do
  let script ← BitcoinUtils.p2pkhScript poolAddrHash
  let community ← communityOutputs packages rpcData
  let commitment ← commitmentOutputs packages rpcData
  pure ({ value := rpcData.coinbasevalue, script := some script } ::
    (community ++ commitment))

/-- The coinbase with its outputs, as `serializeTransaction` gets it. -/
def coinbaseDescription (rpcData : RavenRpcData)
    (outputs : List BitcoinUtils.OutputDescription) :
    BitcoinUtils.TransactionDescription where
  version := some 1
  inputs :=
    [{ hash := List.replicate 32 0
       index := 0xffffffff
       sequence := some 0xffffffff
       script := some
         (serializedBlockHeight rpcData.height ++ extraNoncePlaceholder) }]
  outputs := outputs
  locktime := some 0

def blockHeader (rpcData : RavenRpcData) : Except String Bytes := do
  let height ← writeUIntBE 4 rpcData.height
  let header := overwrite (List.replicate 80 0) 0 height
  let header := writeHex rpcData.bits 4 4 header
  let curtime ← writeUIntBE 4 rpcData.curtime
  let header := overwrite header 8 curtime
  let header := writeHex (List.replicate 64 'D') 12 32 header
  let header := writeHex rpcData.previousblockhash 44 32 header
  let version ← writeUIntBE 4 rpcData.version
  let header := overwrite header 76 version
  pure (reverseBuffer header)

/-- The blob and the offset of the coinbase in it. -/
def assembleBlob (rpcData : RavenRpcData) (poolAddress : JsString) :
    Except String (Bytes × Nat) := do
  let poolAddrHash ← BitcoinUtils.base58AddressToHash160 packages poolAddress
  let outputs ← coinbaseOutputs packages rpcData poolAddrHash
  let header ← blockHeader rpcData
  let count ← packages.varuint_encode (rpcData.transactions.length + 1)
  let blob := header ++ List.replicate 8 0xaa ++ List.replicate 32 0xbb ++ count
  let offset1 := blob.length
  let txCoinbase ←
    BitcoinUtils.serializeTransaction packages
      (coinbaseDescription rpcData outputs)
  let datas := rpcData.transactions.map fun value => ofHex value.data
  pure (blob ++ txCoinbase ++ datas.flatten, offset1)

def epochLength : Int := 7500

/-- The hash of the hash and so on, `count` times. -/
def iterateSeed : Nat → Hash → Hash
  | 0, seed => seed
  | count + 1, seed => iterateSeed count (packages.sha3Hash seed.bytes)

/-- An epoch that follows the last one, unless that was the first of all,
takes one hash more; any other one is computed from the start. -/
def SeedCache.update (cache : SeedCache) (epochNumber : Int) : SeedCache :=
  if cache.lastEpochNumber = some epochNumber then cache
  else
    { lastEpochNumber := some epochNumber
      lastSeedHash :=
        match cache.lastEpochNumber with
        | some last =>
          if last ≠ 0 ∧ last + 1 = epochNumber then
            packages.sha3Hash cache.lastSeedHash.bytes
          else iterateSeed packages epochNumber.toNat (Blob.zero 32)
        | none => iterateSeed packages epochNumber.toNat (Blob.zero 32) }

/-- `RavenBlockTemplate`.  The cache keeps its update when the target is
refused afterwards. -/
def RavenBlockTemplate (rpcData : RavenRpcData) (poolAddress : JsString) :
    Stateful SeedCache RavenTemplate := do
  let (blob, offset1) ←
    MonadExcept.ofExcept (assembleBlob packages rpcData poolAddress)
  modify fun cache => cache.update packages (rpcData.height / epochLength)
  let difficulty ←
    MonadExcept.ofExcept
      (BigInt.difficultyToFloat BigInt.baseRavenDiff rpcData.target
        "Raven target")
  let cache ← get
  pure
    { blocktemplateBlob := toHex blob
      reservedOffset :=
        offset1 + 4 + 1 + 32 + 4 + 1 + 1 + bytesHeight rpcData.height + 1
      seedHash := toHex cache.lastSeedHash.bytes
      difficulty
      height := rpcData.height
      bits := rpcData.bits
      prevHash := rpcData.previousblockhash }

/-- The built coinbase. -/
def ravenCoinbase (rpcData : RavenRpcData) (poolAddress : JsString) :
    Except String Bytes := do
  let poolAddrHash ← BitcoinUtils.base58AddressToHash160 packages poolAddress
  let outputs ← coinbaseOutputs packages rpcData poolAddrHash
  BitcoinUtils.serializeTransaction packages
    (coinbaseDescription rpcData outputs)

private theorem length_writeHex
    {text : JsString} {offset size length : Nat} {buffer : Bytes}
    (same : buffer.length = length) (room : offset + size ≤ length) :
    (writeHex text offset size buffer).length = length := by
  apply length_overwrite_of_eq same
  rw [List.length_take]
  omega

private theorem length_of_writeUIntBE
    {size : Nat} {value : Int} {bytes : Bytes}
    (written : writeUIntBE size value = .ok bytes) : bytes.length = size := by
  unfold writeUIntBE at written
  cases little : writeUIntLE size value with
  | error message =>
      rw [little] at written
      cases written
  | ok result =>
      rw [little] at written
      cases written
      rw [List.length_reverse]
      exact length_of_writeUIntLE little

private theorem length_blockHeader {rpcData : RavenRpcData} {header : Bytes}
    (built : blockHeader rpcData = .ok header) : header.length = 80 := by
  obtain ⟨height, heightOk, built⟩ := except_bind_eq_ok.mp built
  obtain ⟨curtime, curtimeOk, built⟩ := except_bind_eq_ok.mp built
  obtain ⟨version, versionOk, built⟩ := except_bind_eq_ok.mp built
  have heightSize := length_of_writeUIntBE heightOk
  have curtimeSize := length_of_writeUIntBE curtimeOk
  have versionSize := length_of_writeUIntBE versionOk
  obtain rfl := Except.ok.inj built
  rw [reverseBuffer, List.length_reverse]
  apply length_overwrite_of_eq _ (by omega)
  apply length_writeHex _ (by decide)
  apply length_writeHex _ (by decide)
  apply length_overwrite_of_eq _ (by omega)
  apply length_writeHex _ (by decide)
  exact length_overwrite_of_eq List.length_replicate (by omega)

variable {packages}

theorem assembleBlob_eq_ok
    {rpcData : RavenRpcData} {poolAddress : JsString} {blob : Bytes}
    {offset1 : Nat}
    (assembled : assembleBlob packages rpcData poolAddress =
      .ok (blob, offset1)) :
    ∃ fields count outputs coinbase,
      fields.length = 120 ∧
      packages.varuint_encode (rpcData.transactions.length + 1) = .ok count ∧
      BitcoinUtils.serializeTransaction packages
        (coinbaseDescription rpcData outputs) = .ok coinbase ∧
      ravenCoinbase packages rpcData poolAddress = .ok coinbase ∧
      blob = fields ++ (count ++ (coinbase ++
        (rpcData.transactions.map fun value => ofHex value.data).flatten)) ∧
      offset1 = 120 + count.length := by
  obtain ⟨poolAddrHash, hashOk, assembled⟩ := except_bind_eq_ok.mp assembled
  obtain ⟨outputs, outputsOk, assembled⟩ := except_bind_eq_ok.mp assembled
  obtain ⟨header, headerOk, assembled⟩ := except_bind_eq_ok.mp assembled
  obtain ⟨count, countOk, assembled⟩ := except_bind_eq_ok.mp assembled
  obtain ⟨coinbase, coinbaseOk, assembled⟩ := except_bind_eq_ok.mp assembled
  cases assembled
  have fieldsSize : (header ++ List.replicate 8 0xaa ++
      List.replicate 32 0xbb).length = 120 := by
    simp only [List.length_append, List.length_replicate,
      length_blockHeader headerOk]
  refine ⟨header ++ List.replicate 8 0xaa ++ List.replicate 32 0xbb, count,
    outputs, coinbase, fieldsSize, countOk, coinbaseOk, ?_, ?_, ?_⟩
  · apply except_bind_eq_ok.mpr
    refine ⟨poolAddrHash, hashOk, except_bind_eq_ok.mpr ?_⟩
    exact ⟨outputs, outputsOk, coinbaseOk⟩
  · simp only [List.append_assoc]
  · rw [List.length_append, fieldsSize]

private theorem assembleBlob_of_parts
    {rpcData : RavenRpcData} {poolAddress : JsString}
    {poolAddrHash header count coinbase : Bytes}
    {outputs : List BitcoinUtils.OutputDescription}
    (hashOk : BitcoinUtils.base58AddressToHash160 packages poolAddress =
      .ok poolAddrHash)
    (outputsOk : coinbaseOutputs packages rpcData poolAddrHash = .ok outputs)
    (headerOk : blockHeader rpcData = .ok header)
    (countOk : packages.varuint_encode (rpcData.transactions.length + 1) =
      .ok count)
    (coinbaseOk : BitcoinUtils.serializeTransaction packages
      (coinbaseDescription rpcData outputs) = .ok coinbase) :
    ∃ blob offset1,
      assembleBlob packages rpcData poolAddress = .ok (blob, offset1) := by
  simp only [assembleBlob, hashOk, outputsOk, headerOk, countOk, coinbaseOk,
    bind, Except.bind]
  exact ⟨_, _, rfl⟩

theorem assembled_of_built
    {rpcData : RavenRpcData} {poolAddress : JsString}
    {cache after : SeedCache} {template : RavenTemplate}
    (built : (RavenBlockTemplate packages rpcData poolAddress).runOn cache =
      (.ok template, after)) :
    ∃ blob offset1,
      assembleBlob packages rpcData poolAddress = .ok (blob, offset1) ∧
      template.blocktemplateBlob = toHex blob ∧
      template.reservedOffset =
        offset1 + 4 + 1 + 32 + 4 + 1 + 1 + bytesHeight rpcData.height + 1 := by
  obtain ⟨⟨blob, offset1⟩, middle, assembled, built⟩ :=
    Stateful.runOn_bind_eq_ok built
  obtain ⟨updated, middle, -, built⟩ := Stateful.runOn_bind_eq_ok built
  obtain ⟨difficulty, middle, -, built⟩ := Stateful.runOn_bind_eq_ok built
  cases built
  exact ⟨blob, offset1, (Stateful.runOn_ofExcept_eq_ok assembled).1, rfl,
    rfl⟩

section Consumed

variable (documented : packages.VaruintDocumented)

include documented

/-- The built coinbase is read back. -/
theorem reads_ravenCoinbase
    {rpcData : RavenRpcData}
    {outputs : List BitcoinUtils.OutputDescription} {coinbase : Bytes}
    (written : BitcoinUtils.serializeTransaction packages
      (coinbaseDescription rpcData outputs) = .ok coinbase) :
    ∃ transaction, transaction.isCoinbase = true ∧
      transaction.rawWithWitness = coinbase ∧
      (itemReader packages false).Reads transaction coinbase :=
  ⟨_, rfl, rfl, BitcoinUtils.reads_serializeTransaction documented written
    (List.cons_ne_nil _ _)⟩

/-- The parts of the blob that the walk goes over. -/
theorem body_of_built
    {rpcData : RavenRpcData} {poolAddress : JsString}
    {cache after : SeedCache} {template : RavenTemplate}
    (built : (RavenBlockTemplate packages rpcData poolAddress).runOn cache =
      (.ok template, after)) :
    ∃ coinbase, coinbase.isCoinbase = true ∧
      ravenCoinbase packages rpcData poolAddress =
        .ok coinbase.rawWithWitness ∧
      (itemReader packages false).Reads coinbase coinbase.rawWithWitness ∧
      rpcData.transactions.length + 1 ≤ CompactSize.maxSafeInteger ∧
      (ofHex template.blocktemplateBlob).drop 120 =
        CompactSize.encode (rpcData.transactions.length + 1) ++
          (coinbase.rawWithWitness :: rpcData.transactions.map fun value =>
            ofHex value.data).flatten := by
  obtain ⟨blob, offset1, assembled, text, -⟩ := assembled_of_built built
  obtain ⟨fields, count, outputs, coinbase, fieldsSize, counted, written,
    isCoinbase, rfl, -⟩ := assembleBlob_eq_ok assembled
  obtain ⟨transaction, first, rfl, reads⟩ :=
    reads_ravenCoinbase documented written
  obtain ⟨safe, rfl⟩ := documented.encode_eq_ok counted
  refine ⟨transaction, first, isCoinbase, reads, safe, ?_⟩
  rw [text, ofHex_toHex, List.drop_left' fieldsSize, List.flatten_cons]

/-- The walk refuses what the builder does not: one transaction more than it
takes, counting the coinbase. -/
theorem not_converted_of_crowded
    {rpcData : RavenRpcData} {poolAddress : JsString}
    {cache after : SeedCache} {template : RavenTemplate}
    (built : (RavenBlockTemplate packages rpcData poolAddress).runOn cache =
      (.ok template, after))
    (crowded : 4999 < rpcData.transactions.length) (converted blob : Bytes) :
    (convertRavenBlob packages).runOn (ofHex template.blocktemplateBlob) ≠
      (.ok converted, blob) := by
  intro accepted
  obtain ⟨coinbase, -, -, -, safe, body⟩ := body_of_built documented built
  obtain ⟨root, found⟩ :=
    @Family.blockRoot_of_convert _ .raven _ _ _ accepted
  obtain ⟨transactions, walked⟩ := walked_of_blockRoot found
  have counted : blockTransactions packages false
      ((ofHex template.blocktemplateBlob).drop 120) = .ok transactions :=
    walked
  rw [body] at counted
  have bounded := count_le_of_blockTransactions documented safe counted
  exact absurd (Nat.lt_of_succ_le bounded) (Nat.not_lt.mpr crowded)

end Consumed

/-- A template is consumed, up to the number of its transactions. -/
theorem ravenBlockTemplate_consumed_iff
    (documented : packages.VaruintDocumented)
    (fastRoot : packages.FastRootDocumented)
    {rpcData : RavenRpcData} {poolAddress : JsString}
    {cache after : SeedCache} {template : RavenTemplate}
    (built : (RavenBlockTemplate packages rpcData poolAddress).runOn cache =
      (.ok template, after))
    {transactions : List ParsedTransaction}
    (complete : List.Forall₂
      (fun value transaction =>
        (BitcoinUtils.readRawBitcoinTransaction packages).run
          (ofHex value.data) = .ok (transaction, []))
      rpcData.transactions transactions) :
    (∃ coinbase root converted blob,
      coinbase.isCoinbase = true ∧
      ravenCoinbase packages rpcData poolAddress =
        .ok coinbase.rawWithWitness ∧
      blockTransactions packages false
        ((ofHex template.blocktemplateBlob).drop 120) =
          .ok (coinbase :: transactions) ∧
      (convertRavenBlob packages).runOn (ofHex template.blocktemplateBlob) =
        (.ok converted, blob) ∧
      (blob.drop 36).take 32 = Blob.bytes root ∧
      Merkle.oddRoot (Packages.joined packages.hash256)
        ((coinbase :: transactions).map fun transaction =>
          packages.hash256 transaction.rawNoWitness) = some root) ↔
      rpcData.transactions.length ≤ 4999 := by
  obtain ⟨coinbase, first, isCoinbase, coinbaseReads, safe, body⟩ :=
    body_of_built documented built
  have sameLength := complete.length_eq
  have itemLocal := local_itemReader documented false
  constructor
  · rintro ⟨_, _, converted, blob, -, -, -, accepted, -⟩
    by_contra crowded
    exact not_converted_of_crowded documented built
      (Nat.lt_of_not_le crowded) converted blob accepted
  · intro few
    have reads : List.Forall₂ (itemReader packages false).Reads
        (coinbase :: transactions)
        (coinbase.rawWithWitness :: rpcData.transactions.map fun value =>
          ofHex value.data) := by
      apply List.Forall₂.cons coinbaseReads
      rw [List.forall₂_map_right_iff]
      exact (complete.imp fun _ _ result => itemLocal.reads result).flip
    have walked := blockTransactions_of_reads documented reads
      (Nat.succ_pos _) (by
        rw [List.length_cons, ← sameLength]
        exact Nat.succ_le_succ few)
    rw [List.length_cons, ← sameLength, ← body] at walked
    have found : blockRoot packages (Family.raven.layout packages)
        (ofHex template.blocktemplateBlob) =
          .ok (getMerkleRoot packages packages.hash256
            (coinbase :: transactions)) :=
      blockRoot_of_walked walked
    have inside := Family.root_inside found
    have written := take_drop_overwrite inside
    rw [Blob.length_bytes] at written
    exact ⟨coinbase, _, _, _, first, isCoinbase, walked,
      Family.convert_ok found, written,
      fastRoot _ _ (List.cons_ne_nil _ _)⟩

/-- A transaction without inputs and outputs. -/
def smallestTransaction : RavenTransaction :=
  { data := "01000000000000000000".toList }

def crowdedRequest (count : Nat) : RavenRpcData where
  height := 1
  version := 0x20000000
  curtime := 1710000000
  bits := "1d00ffff".toList
  previousblockhash := List.replicate 64 '0'
  target := "00000000ffff".toList ++ List.replicate 52 '0'
  coinbasevalue := 5000000000
  communityAutonomousAddress := none
  communityAutonomousValue := none
  defaultWitnessCommitment := .undefined
  transactions := List.replicate count smallestTransaction

private theorem length_crowdedRequest (count : Nat) :
    (crowdedRequest count).transactions.length = count :=
  List.length_replicate

def samplePoolAddress : JsString :=
  "RUCyaEZxQu3Eure73XPQ57si813RYAMQKC".toList

def noSeed : SeedCache :=
  { lastEpochNumber := none, lastSeedHash := Blob.zero 32 }

private theorem crowdedRequest_built {count : Nat}
    (safe : count + 1 ≤ CompactSize.maxSafeInteger) :
    ∃ template after,
      (RavenBlockTemplate .documented (crowdedRequest count)
        samplePoolAddress).runOn noSeed = (.ok template, after) := by
  have address : BitcoinUtils.base58AddressToHash160 .documented
      samplePoolAddress =
        .ok (ofHex "cf9e499affe93cb6ee344dd77c59e86ffb448142".toList) := by
    decide +kernel
  have counted : Packages.documented.varuint_encode
      ((crowdedRequest count).transactions.length + 1) =
        .ok (CompactSize.encode (count + 1)) := by
    rw [length_crowdedRequest]
    exact Packages.documented_varuint.encode _ safe
  have written : (BitcoinUtils.serializeTransaction .documented
      (coinbaseDescription (crowdedRequest 0)
        [{ value := 5000000000
           script := some ([0x76, 0xa9, 0x14] ++
             ofHex "cf9e499affe93cb6ee344dd77c59e86ffb448142".toList ++
             [0x88, 0xac]) }])).isOk = true := by
    decide +kernel
  obtain ⟨coinbase, coinbaseOk⟩ := exists_of_isOk written
  obtain ⟨blob, offset1, assembled⟩ :=
    @assembleBlob_of_parts .documented (crowdedRequest count)
      samplePoolAddress _ _ _ _ _ address rfl rfl counted coinbaseOk
  rw [RavenBlockTemplate, assembled]
  exact ⟨_, _, rfl⟩

/-- A request without transactions. -/
def heightRequest (height : Int) : RavenRpcData :=
  { crowdedRequest 0 with height }

theorem heightRequest_built {height : Int} (cache : SeedCache)
    (assembles : (assembleBlob .documented (heightRequest height)
      samplePoolAddress).isOk = true) :
    ∃ template after,
      (RavenBlockTemplate .documented (heightRequest height)
        samplePoolAddress).runOn cache = (.ok template, after) := by
  obtain ⟨⟨blob, offset1⟩, assembled⟩ := exists_of_isOk assembles
  rw [RavenBlockTemplate, assembled]
  exact ⟨_, _, rfl⟩

private theorem crowdedRequest_complete (count : Nat) :
    ∃ transactions,
      List.Forall₂
        (fun value transaction =>
          (BitcoinUtils.readRawBitcoinTransaction .documented).run
            (ofHex value.data) = .ok (transaction, []))
        (crowdedRequest count).transactions transactions := by
  have consumed :
      (((BitcoinUtils.readRawBitcoinTransaction .documented).run
        (ofHex smallestTransaction.data)).toOption.map Prod.snd) =
          some [] := by
    decide +kernel
  rw [Option.map_eq_some_iff] at consumed
  obtain ⟨⟨transaction, rest⟩, read, rfl⟩ := consumed
  rw [toOption_eq_some] at read
  refine ⟨List.replicate count transaction, ?_⟩
  unfold crowdedRequest
  induction count with
  | zero => exact .nil
  | succ count ih => exact .cons read ih

theorem ravenBlockTemplate_consumed_single :
    ∃ template after converted blob,
      (RavenBlockTemplate .documented (crowdedRequest 1)
        samplePoolAddress).runOn noSeed = (.ok template, after) ∧
      (convertRavenBlob .documented).runOn
        (ofHex template.blocktemplateBlob) = (.ok converted, blob) := by
  obtain ⟨template, after, built⟩ := @crowdedRequest_built 1 (by decide)
  obtain ⟨transactions, complete⟩ := crowdedRequest_complete 1
  have few : (crowdedRequest 1).transactions.length ≤ 4999 := by
    rw [length_crowdedRequest]
    decide
  obtain ⟨_, _, converted, blob, -, -, -, accepted, -⟩ :=
    (ravenBlockTemplate_consumed_iff Packages.documented_varuint
      Packages.documented_fastRoot built complete).mpr few
  exact ⟨template, after, converted, blob, built, accepted⟩

/-- Five thousand transactions are five thousand and one with the coinbase. -/
theorem ravenBlockTemplate_refused_crowded :
    ∃ template after transactions,
      (RavenBlockTemplate .documented (crowdedRequest 5000)
        samplePoolAddress).runOn noSeed = (.ok template, after) ∧
      List.Forall₂
        (fun value transaction =>
          (BitcoinUtils.readRawBitcoinTransaction .documented).run
            (ofHex value.data) = .ok (transaction, []))
        (crowdedRequest 5000).transactions transactions ∧
      ∀ converted blob, (convertRavenBlob .documented).runOn
        (ofHex template.blocktemplateBlob) ≠ (.ok converted, blob) := by
  obtain ⟨template, after, built⟩ := @crowdedRequest_built 5000 (by decide)
  obtain ⟨transactions, complete⟩ := crowdedRequest_complete 5000
  have many : 4999 < (crowdedRequest 5000).transactions.length := by
    rw [length_crowdedRequest]
    decide
  exact ⟨template, after, transactions, built, complete,
    not_converted_of_crowded Packages.documented_varuint built many⟩

end BlockTemplate.Index
