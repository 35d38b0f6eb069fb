import BlockTemplate.Bitcoin.RavenTemplate

/-!
# The KawPow seed

`RavenBlockTemplate` keeps the last epoch and its seed between calls.  What is
kept is right after every call, also after one that throws, and so is every
seed that a call gives.
-/

namespace BlockTemplate.Index

variable (packages : Packages)

def hashSeed (seed : Hash) : Hash :=
  packages.sha3Hash seed.bytes

/-- The seed of an epoch, computed from the start. -/
def epochSeed (epochNumber : Nat) : Hash :=
  (hashSeed packages)^[epochNumber] (Blob.zero 32)

private theorem iterateSeed_eq (count : Nat) (seed : Hash) :
    iterateSeed packages count seed = (hashSeed packages)^[count] seed := by
  induction count generalizing seed with
  | zero => rfl
  | succ count ih => exact ih (hashSeed packages seed)

/-- The seed is the one of the last epoch. -/
def SeedCache.Valid (cache : SeedCache) : Prop :=
  ∀ last, cache.lastEpochNumber = some last →
    0 ≤ last ∧ cache.lastSeedHash = epochSeed packages last.toNat

variable {packages}

/-- One hash leads to the next epoch. -/
theorem SeedCache.Valid.next
    {cache : SeedCache} (valid : cache.Valid packages) {last : Int}
    (known : cache.lastEpochNumber = some last) :
    packages.sha3Hash cache.lastSeedHash.bytes =
      epochSeed packages (last + 1).toNat := by
  obtain ⟨positive, seed⟩ := valid last known
  have following : (last + 1).toNat = last.toNat + 1 := by omega
  rw [seed, following]
  unfold epochSeed
  rw [Function.iterate_succ_apply']
  rfl

private theorem SeedCache.lastSeedHash_update
    {cache : SeedCache} (valid : cache.Valid packages) (epochNumber : Int) :
    (cache.update packages epochNumber).lastEpochNumber = some epochNumber ∧
      (cache.update packages epochNumber).lastSeedHash =
        epochSeed packages epochNumber.toNat := by
  unfold update
  split_ifs with known
  · exact ⟨known, (valid epochNumber known).2⟩
  · refine ⟨rfl, ?_⟩
    cases kept : cache.lastEpochNumber with
    | none => exact iterateSeed_eq packages _ _
    | some last =>
        simp only
        split_ifs with following
        · rw [valid.next kept, following.2]
        · exact iterateSeed_eq packages _ _

theorem SeedCache.Valid.update
    {cache : SeedCache} (valid : cache.Valid packages) {epochNumber : Int}
    (positive : 0 ≤ epochNumber) :
    (cache.update packages epochNumber).Valid packages := by
  obtain ⟨epoch, seed⟩ := SeedCache.lastSeedHash_update valid epochNumber
  intro last known
  obtain rfl := Option.some.inj (epoch.symm.trans known)
  exact ⟨positive, seed⟩

private theorem height_of_assembleBlob
    {rpcData : RavenRpcData} {poolAddress : JsString} {blob : Bytes}
    {offset1 : Nat}
    (assembled : assembleBlob packages rpcData poolAddress =
      .ok (blob, offset1)) : 0 ≤ rpcData.height := by
  obtain ⟨poolAddrHash, -, assembled⟩ := except_bind_eq_ok.mp assembled
  obtain ⟨outputs, -, assembled⟩ := except_bind_eq_ok.mp assembled
  obtain ⟨header, headerOk, -⟩ := except_bind_eq_ok.mp assembled
  obtain ⟨height, heightOk, -⟩ := except_bind_eq_ok.mp headerOk
  by_contra negative
  have thrown : writeUIntLE 4 rpcData.height = .error outOfRange :=
    if_neg fun inRange => negative inRange.1
  rw [writeUIntBE, thrown] at heightOk
  cases heightOk

variable (packages) in
/-- A call that returns gives the seed of the epoch of its height. -/
def GivesSeed (call : RavenRpcData × JsString)
    (result : Except String RavenTemplate) : Prop :=
  ∀ template, result = .ok template →
    template.seedHash =
      toHex (epochSeed packages (call.1.height / epochLength).toNat).bytes

/-- A call keeps the cache valid, and gives the seed of its epoch when it
does not throw. -/
theorem SeedCache.Valid.call
    {cache after : SeedCache} (valid : cache.Valid packages)
    {rpcData : RavenRpcData} {poolAddress : JsString}
    {result : Except String RavenTemplate}
    (called : (RavenBlockTemplate packages rpcData poolAddress).runOn cache =
      (result, after)) :
    after.Valid packages ∧
      GivesSeed packages (rpcData, poolAddress) result := by
  cases assembled : assembleBlob packages rpcData poolAddress with
  | error message =>
      have thrown : (RavenBlockTemplate packages rpcData poolAddress).runOn
          cache = (.error message, cache) := by
        rw [RavenBlockTemplate, assembled]
        exact Stateful.runOn_bind_error rfl
      rw [thrown] at called
      cases called
      refine ⟨valid, ?_⟩
      intro template returned
      cases returned
  | ok built =>
      have height := height_of_assembleBlob assembled
      have epoch : 0 ≤ rpcData.height / epochLength :=
        Int.ediv_nonneg height (by decide)
      obtain ⟨-, seed⟩ := SeedCache.lastSeedHash_update valid
        (rpcData.height / epochLength)
      have updated := valid.update epoch
      rw [RavenBlockTemplate, assembled] at called
      cases difficulty : BigInt.difficultyToFloat BigInt.baseRavenDiff
          rpcData.target "Raven target" with
      | error message =>
          rw [difficulty] at called
          cases called
          refine ⟨updated, ?_⟩
          intro template returned
          cases returned
      | ok value =>
          rw [difficulty] at called
          cases called
          refine ⟨updated, ?_⟩
          intro template returned
          obtain rfl := Except.ok.inj returned
          exact congrArg (fun seed : Hash => toHex seed.bytes) seed

variable (packages) in
/-- The results of calls in a row, and the cache behind the last one. -/
def runCalls : List (RavenRpcData × JsString) → SeedCache →
    List (Except String RavenTemplate) × SeedCache
  | [], cache => ([], cache)
  | (rpcData, poolAddress) :: calls, cache =>
    let (result, after) :=
      (RavenBlockTemplate packages rpcData poolAddress).runOn cache
    let (results, last) := runCalls calls after
    (result :: results, last)

private theorem runCalls_valid
    (calls : List (RavenRpcData × JsString)) {cache : SeedCache}
    (valid : cache.Valid packages) :
    (runCalls packages calls cache).2.Valid packages ∧
      List.Forall₂ (GivesSeed packages) calls
        (runCalls packages calls cache).1 := by
  induction calls generalizing cache with
  | nil => exact ⟨valid, .nil⟩
  | cons call calls ih =>
      obtain ⟨called, seed⟩ :=
        @SeedCache.Valid.call packages cache _ valid call.1 call.2 _ rfl
      obtain ⟨others, seeds⟩ := ih called
      exact ⟨others, .cons seed seeds⟩

/-- Nothing is kept before the first call. -/
theorem seed_of_every_call
    (calls : List (RavenRpcData × JsString)) (unset : Hash) :
    (runCalls packages calls ⟨none, unset⟩).2.Valid packages ∧
      List.Forall₂ (GivesSeed packages) calls
        (runCalls packages calls ⟨none, unset⟩).1 :=
  runCalls_valid calls nofun

/-- The target of this request is zero. -/
def refusedRequest (height : Int) : RavenRpcData :=
  { heightRequest height with target := "00".toList }

private theorem refusedRequest_throws {height : Int} (cache : SeedCache)
    (assembles : (assembleBlob .documented (refusedRequest height)
      samplePoolAddress).isOk = true) :
    ∃ message,
      (RavenBlockTemplate .documented (refusedRequest height)
        samplePoolAddress).runOn cache =
          (.error message, cache.update .documented (height / epochLength)) := by
  obtain ⟨⟨blob, offset1⟩, assembled⟩ := exists_of_isOk assembles
  rw [RavenBlockTemplate, assembled]
  exact ⟨_, rfl⟩

/-- Two epochs after each other, a call that throws behind its update, and back
to the first epoch. -/
def epochCalls : List (RavenRpcData × JsString) :=
  [heightRequest 7500, heightRequest 15000, refusedRequest 22500,
    heightRequest 7499].map (·, samplePoolAddress)

theorem seed_of_every_call_epochs :
    ∃ first second message last after,
      runCalls .documented epochCalls noSeed =
        ([.ok first, .ok second, .error message, .ok last], after) ∧
      first.seedHash = toHex (epochSeed .documented 1).bytes ∧
      second.seedHash = toHex (epochSeed .documented 2).bytes ∧
      last.seedHash = toHex (epochSeed .documented 0).bytes ∧
      after.Valid .documented := by
  obtain ⟨first, next, firstBuilt⟩ :=
    @heightRequest_built 7500 noSeed (by decide +kernel)
  obtain ⟨second, kept, secondBuilt⟩ :=
    @heightRequest_built 15000 next (by decide +kernel)
  obtain ⟨message, thrown⟩ :=
    @refusedRequest_throws 22500 kept (by decide +kernel)
  obtain ⟨last, after, lastBuilt⟩ :=
    @heightRequest_built 7499 (kept.update .documented (22500 / epochLength))
      (by decide +kernel)
  obtain ⟨valid, seeds⟩ :=
    @seed_of_every_call .documented epochCalls (Blob.zero 32)
  have run : runCalls .documented epochCalls noSeed =
      ([.ok first, .ok second, .error message, .ok last], after) := by
    simp only [epochCalls, List.map_cons, List.map_nil, runCalls, firstBuilt,
      secondBuilt, thrown, lastBuilt]
  rw [show (⟨none, Blob.zero 32⟩ : SeedCache) = noSeed from rfl, run]
    at valid seeds
  simp only [epochCalls, List.map_cons, List.forall₂_cons] at seeds
  obtain ⟨firstSeed, secondSeed, -, lastSeed, -⟩ := seeds
  exact ⟨first, second, message, last, after, run, firstSeed first rfl,
    secondSeed second rfl, lastSeed last rfl, valid⟩

end BlockTemplate.Index
