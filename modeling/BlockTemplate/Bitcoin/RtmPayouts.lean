import BlockTemplate.Bitcoin.RtmTemplate

/-!
# RTM payouts

What a run of `generateTransactionOutputs` serializes.  A payout asks for an
amount and a script; it is made when the two balances cover it.  The groups of
payouts are runs of one loop, so that their outputs are in the order in which
they are asked for.
-/

namespace BlockTemplate

namespace Rtm

variable {packages : Packages}

private theorem packUIntLE_marked {size n : Nat} (marker : Byte) {bytes : Bytes}
    (fits : n < 256 ^ size) :
    (writeUIntLE size n).map (marker :: ·) = .ok bytes ↔
      bytes = marker :: leBytes size n := by
  rw [writeUIntLE_eq_ok.mpr ⟨fits, rfl⟩]
  exact ⟨fun same => (Except.ok.inj same).symm, fun same => by rw [same]; rfl⟩

/-- What `varIntBuffer` can write is CompactSize. -/
theorem varIntBuffer_eq_ok {n : Nat} {bytes : Bytes} :
    varIntBuffer n = .ok bytes ↔
      n ≤ 0xffffffff ∧ bytes = CompactSize.encode n := by
  rw [varIntBuffer, CompactSize.encode]
  split_ifs with one two four
  · rw [Except.ok.injEq]
    exact ⟨fun same => ⟨by omega, same.symm⟩, fun both => both.2.symm⟩
  · rw [packUInt16LE, packUIntLE_marked _ (by omega)]
    exact ⟨fun same => ⟨by omega, same⟩, And.right⟩
  · rw [packUInt32LE, packUIntLE_marked _ (by omega)]
    exact ⟨fun same => ⟨four, same⟩, And.right⟩
  · constructor
    · intro written
      cases packed : packUInt16LE n with
      | error message =>
          rw [packed] at written
          cases written
      | ok low => exact absurd (writeUIntLE_eq_ok.mp packed).1 (by omega)
    · intro both
      exact (four both.1).elim

theorem isValidSatoshisAmount_number {amount : Nat}
    (safe : amount ≤ CompactSize.maxSafeInteger) :
    isValidSatoshisAmount (.number amount) = some (amount : Int) := by
  have isSafe : JsValue.safeInteger (.number amount) = some (amount : Int) :=
    if_pos safe
  rw [isValidSatoshisAmount, isSafe, Option.filter_some, if_pos]
  exact decide_eq_true (Int.natCast_nonneg _)

theorem number_of_isValidSatoshisAmount {value : JsValue} {amount : Int}
    (valid : isValidSatoshisAmount value = some amount) :
    ∃ satoshis : Nat, value = .number satoshis ∧ amount = satoshis ∧
      satoshis ≤ CompactSize.maxSafeInteger := by
  obtain ⟨isSafe, sign⟩ := Option.filter_eq_some_iff.mp valid
  obtain ⟨satoshis, rfl⟩ :=
    Int.eq_ofNat_of_zero_le (of_decide_eq_true sign)
  cases value with
  | number value =>
      rw [JsValue.safeInteger] at isSafe
      split at isSafe
      · rename_i safe
        obtain rfl := Option.some.inj isSafe
        exact ⟨satoshis, rfl, rfl, safe⟩
      · cases isSafe
  | _ => cases isSafe

private theorem packInt64LE_number {amount : Nat}
    (safe : amount ≤ CompactSize.maxSafeInteger) :
    packInt64LE (.number amount) = .ok (leBytes 8 amount) := by
  have valid := isValidSatoshisAmount_number safe
  have bound : CompactSize.maxSafeInteger < 256 ^ 4 * 256 ^ 4 := by decide
  have low : writeUIntLE 4 ((amount : Int) % 2 ^ 32) =
      .ok (leBytes 4 (amount % 256 ^ 4)) :=
    writeUIntLE_eq_ok.mpr ⟨Nat.mod_lt _ (by decide), rfl⟩
  have high : writeUIntLE 4 ((amount : Int) / 2 ^ 32) =
      .ok (leBytes 4 (amount / 256 ^ 4)) :=
    writeUIntLE_eq_ok.mpr
      ⟨Nat.div_lt_of_lt_mul (safe.trans_lt bound), rfl⟩
  rw [packInt64LE, valid]
  apply except_bind_eq_ok.mpr
  refine ⟨_, low, except_bind_eq_ok.mpr ⟨_, high, ?_⟩⟩
  rw [leBytes_mod, leBytes_append]
  rfl

structure TransactionOutput where
  amount : Nat
  script : Bytes

def TransactionOutput.bytes (output : TransactionOutput) : Bytes :=
  leBytes 8 output.amount ++ Dialect.sizedBytes output.script

variable (packages) in
/-- The arguments of a payout ask for an output. -/
structure Asks (amount payee : JsValue) (payeeScriptArg : Option Bytes)
    (output : TransactionOutput) : Prop where
  amount : isValidSatoshisAmount amount = some (output.amount : Int)
  script : payeeScript packages payee payeeScriptArg = .ok output.script

namespace Payouts

def Covers (payouts : Payouts) (output : TransactionOutput) : Prop :=
  output.amount ≤ payouts.rewardToPool ∧ output.amount ≤ payouts.reward ∧
    output.script.length ≤ 0xffffffff

/-- The state behind a payout. -/
def paid (payouts : Payouts) (output : TransactionOutput) : Payouts where
  reward := toDouble (payouts.reward - output.amount)
  rewardToPool := toDouble (payouts.rewardToPool - output.amount)
  txOutputBuffers := payouts.txOutputBuffers ++ [output.bytes]

def paidAll (payouts : Payouts) (outputs : List TransactionOutput) : Payouts :=
  outputs.foldl paid payouts

/-- Every payout in a row is covered by what those before it leave. -/
def CoversAll : Payouts → List TransactionOutput → Prop
  | _, [] => True
  | payouts, output :: outputs =>
    payouts.Covers output ∧ (payouts.paid output).CoversAll outputs

theorem coversAll_append
    {payouts : Payouts} {first second : List TransactionOutput} :
    payouts.CoversAll (first ++ second) ↔
      payouts.CoversAll first ∧ (payouts.paidAll first).CoversAll second := by
  induction first generalizing payouts with
  | nil => simp [CoversAll, paidAll]
  | cons output first ih =>
      simp only [List.cons_append, CoversAll, ih, paidAll, List.foldl_cons,
        and_assoc]

private theorem txOutputBuffers_paidAll
    (payouts : Payouts) (outputs : List TransactionOutput) :
    (payouts.paidAll outputs).txOutputBuffers =
      payouts.txOutputBuffers ++ outputs.map TransactionOutput.bytes := by
  induction outputs generalizing payouts with
  | nil => exact (List.append_nil _).symm
  | cons output outputs ih =>
      rw [paidAll, List.foldl_cons]
      apply (ih (payouts.paid output)).trans
      rw [paid, List.append_assoc, List.map_cons, List.singleton_append]

end Payouts

private theorem createTransactionOutput_eq_ok
    {amount payee : JsValue} {payeeScriptArg : Option Bytes}
    {payouts after : Payouts} :
    createTransactionOutput packages amount payee payeeScriptArg payouts =
        .ok after ↔
      ∃ output, Asks packages amount payee payeeScriptArg output ∧
        payouts.Covers output ∧ after = payouts.paid output := by
  constructor
  · intro result
    unfold createTransactionOutput at result
    split at result
    · cases result
    · rename_i payeeReward valid
      obtain ⟨satoshis, rfl, rfl, safe⟩ :=
        number_of_isValidSatoshisAmount valid
      obtain ⟨covered, result⟩ := throwIf_bind_eq_ok.mp result
      obtain ⟨script, scriptOk, result⟩ := except_bind_eq_ok.mp result
      obtain ⟨value, valueOk, result⟩ := except_bind_eq_ok.mp result
      obtain ⟨size, sizeOk, result⟩ := except_bind_eq_ok.mp result
      rw [packInt64LE_number safe] at valueOk
      obtain rfl := Except.ok.inj valueOk
      obtain ⟨short, rfl⟩ := varIntBuffer_eq_ok.mp sizeOk
      obtain rfl := Except.ok.inj result
      simp only [Bool.or_eq_false_iff, decide_eq_false_iff_not,
        Int.not_lt] at covered
      refine ⟨⟨satoshis, script⟩, ⟨valid, scriptOk⟩,
        ⟨covered.1, covered.2, short⟩, ?_⟩
      simp only [Payouts.paid, TransactionOutput.bytes, Dialect.sizedBytes,
        List.append_assoc]
  · rintro ⟨output, ⟨valid, scriptOk⟩, ⟨toPool, toAll, short⟩, rfl⟩
    obtain ⟨satoshis, rfl, same, safe⟩ := number_of_isValidSatoshisAmount valid
    obtain rfl := Int.ofNat.inj same
    have covered :
        (decide (payouts.rewardToPool < output.amount) ||
          decide (payouts.reward < output.amount)) = false := by
      simp only [Bool.or_eq_false_iff, decide_eq_false_iff_not, Int.not_lt]
      exact ⟨toPool, toAll⟩
    rw [createTransactionOutput, valid]
    apply throwIf_bind_eq_ok.mpr
    refine ⟨covered, except_bind_eq_ok.mpr ⟨_, scriptOk, ?_⟩⟩
    apply except_bind_eq_ok.mpr
    refine ⟨_, packInt64LE_number safe, except_bind_eq_ok.mpr ?_⟩
    refine ⟨_, varIntBuffer_eq_ok.mpr ⟨short, rfl⟩, ?_⟩
    simp only [Payouts.paid, TransactionOutput.bytes, Dialect.sizedBytes,
      List.append_assoc, pure, Except.pure]

variable (packages) in
/-- An entry of a list asks for an output. -/
def EntryAsks (entry : JsValue) (output : TransactionOutput) : Prop :=
  ∃ amount payee, entry.get .amount = .ok amount ∧
    entry.get .payee = .ok payee ∧ Asks packages amount payee none output

private theorem payEntry_eq_ok {payouts after : Payouts} {entry : JsValue} :
    payEntry packages payouts entry = .ok after ↔
      ∃ output, EntryAsks packages entry output ∧ payouts.Covers output ∧
        after = payouts.paid output := by
  constructor
  · intro result
    obtain ⟨amount, amountOk, result⟩ := except_bind_eq_ok.mp result
    obtain ⟨payee, payeeOk, result⟩ := except_bind_eq_ok.mp result
    obtain ⟨output, asks, covered⟩ := createTransactionOutput_eq_ok.mp result
    exact ⟨output, ⟨amount, payee, amountOk, payeeOk, asks⟩, covered⟩
  · rintro ⟨output, ⟨amount, payee, amountOk, payeeOk, asks⟩, covered⟩
    apply except_bind_eq_ok.mpr
    refine ⟨amount, amountOk, except_bind_eq_ok.mpr ?_⟩
    refine ⟨payee, payeeOk, createTransactionOutput_eq_ok.mpr ?_⟩
    exact ⟨output, asks, covered⟩

private theorem payEntries_eq_ok
    {payouts after : Payouts} {entries : List JsValue} :
    entries.foldlM (payEntry packages) payouts = .ok after ↔
      ∃ outputs, List.Forall₂ (EntryAsks packages) entries outputs ∧
        payouts.CoversAll outputs ∧ after = payouts.paidAll outputs := by
  induction entries generalizing payouts with
  | nil =>
      constructor
      · intro result
        cases result
        exact ⟨[], .nil, trivial, rfl⟩
      · rintro ⟨outputs, asks, -, rfl⟩
        cases asks
        rfl
  | cons entry entries ih =>
      rw [List.foldlM_cons]
      constructor
      · intro result
        obtain ⟨middle, first, result⟩ := except_bind_eq_ok.mp result
        obtain ⟨output, asks, covered, rfl⟩ := payEntry_eq_ok.mp first
        obtain ⟨outputs, others, coversOthers, rfl⟩ := ih.mp result
        exact ⟨output :: outputs, .cons asks others,
          ⟨covered, coversOthers⟩, rfl⟩
      · rintro ⟨outputs, asks, covered, rfl⟩
        cases asks with
        | cons first others =>
            apply except_bind_eq_ok.mpr
            refine ⟨_, payEntry_eq_ok.mpr ⟨_, first, covered.1, rfl⟩, ?_⟩
            exact ih.mpr ⟨_, others, covered.2, rfl⟩

/-- One payee, or a list of them. -/
def smartnodeEntries (smartnode : JsValue) : List JsValue :=
  match smartnode with
  | .array items => items
  | .object members =>
    if ((members.lookup .payee).getD .undefined).truthy then [smartnode]
    else []
  | _ => []

private theorem paySmartnode_eq (smartnode : JsValue) (payouts : Payouts) :
    paySmartnode packages smartnode payouts =
      (smartnodeEntries smartnode).foldlM (payEntry packages) payouts := by
  have single (entry : JsValue) :
      payEntry packages payouts entry =
        [entry].foldlM (payEntry packages) payouts := by
    rw [List.foldlM_cons]
    cases payEntry packages payouts entry <;> rfl
  cases smartnode with
  | object members =>
      have paid : paySmartnode packages (.object members) payouts =
          if ((members.lookup .payee).getD .undefined).truthy then
            payEntry packages payouts (.object members)
          else .ok payouts := rfl
      rw [paid, smartnodeEntries]
      split_ifs
      · exact single _
      · rfl
  | array items => rfl
  | undefined => rfl
  | null => rfl
  | _ =>
      unfold paySmartnode
      split_ifs <;> rfl

def superblockEntries (superblock : JsValue) : List JsValue :=
  if superblock.truthy then superblock.entries else []

private theorem paySuperblock_eq (superblock : JsValue) (payouts : Payouts) :
    paySuperblock packages superblock payouts =
      (superblockEntries superblock).foldlM (payEntry packages) payouts := by
  rw [paySuperblock, superblockEntries]
  split_ifs <;> rfl

/-- What is left to pay before the first payout. -/
def balances (rpcData : RtmRpcData) (devReward : Option TransactionOutput) :
    Payouts :=
  let reward :=
    match devReward with
    | some output => toDouble (rpcData.coinbasevalue + output.amount)
    | none => rpcData.coinbasevalue
  { reward, rewardToPool := reward, txOutputBuffers := [] }

variable (packages) in
def DevRewardAsks (rpcData : RtmRpcData) (output : TransactionOutput) : Prop :=
  ∃ value scriptpubkey script,
    rpcData.coinbasedevreward.get .value = .ok value ∧
    rpcData.coinbasedevreward.get .scriptpubkey = .ok scriptpubkey ∧
    packages.hexBuffer scriptpubkey = .ok script ∧
    Asks packages value .null (some script) output

variable (packages) in
/-- A missing amount of the founder is none. -/
def FounderAsks (rpcData : RtmRpcData) (output : TransactionOutput) : Prop :=
  ∃ amount payee, rpcData.founder.get .amount = .ok amount ∧
    rpcData.founder.get .payee = .ok payee ∧
    Asks packages (amount.orElse (.number 0)) payee none output

variable (packages) in
def CommitmentAsks (rpcData : RtmRpcData) (output : TransactionOutput) :
    Prop :=
  output.amount = 0 ∧
    packages.hexBuffer rpcData.defaultWitnessCommitment = .ok output.script

/-- A payout that is made under a condition. -/
theorem exists_optional_iff {condition : Bool}
    {Made : Option TransactionOutput → Prop} :
    (∃ output, output.isSome = condition ∧ Made output) ↔
      if condition then ∃ output, Made (some output) else Made none := by
  cases condition with
  | true =>
      rw [if_pos rfl]
      constructor
      · rintro ⟨optional, isSome, made⟩
        obtain ⟨output, rfl⟩ := Option.isSome_iff_exists.mp isSome
        exact ⟨output, made⟩
      · rintro ⟨output, made⟩
        exact ⟨some output, rfl, made⟩
  | false =>
      rw [if_neg Bool.false_ne_true]
      constructor
      · rintro ⟨optional, isNone, made⟩
        obtain rfl :=
          Option.isNone_iff_eq_none.mp (Option.isSome_eq_false_iff.mp isNone)
        exact made
      · intro made
        exact ⟨none, rfl, made⟩

private theorem payDevReward_eq_ok
    {rpcData : RtmRpcData} {hasDevReward : Bool} {after : Payouts} :
    payDevReward packages rpcData hasDevReward = .ok after ↔
      ∃ devReward : Option TransactionOutput,
        devReward.isSome = hasDevReward ∧
        (∀ output ∈ devReward, DevRewardAsks packages rpcData output) ∧
        (balances rpcData devReward).CoversAll devReward.toList ∧
        after = (balances rpcData devReward).paidAll devReward.toList := by
  rw [exists_optional_iff]
  cases hasDevReward with
  | false =>
      rw [if_neg Bool.false_ne_true]
      constructor
      · intro result
        exact ⟨nofun, trivial, (Except.ok.inj result).symm⟩
      · rintro ⟨-, -, rfl⟩
        rfl
  | true =>
      rw [if_pos rfl]
      have start {value : JsValue} {output : TransactionOutput}
          (valid : isValidSatoshisAmount value = some (output.amount : Int)) :
          value.safeInteger.getD 0 = output.amount := by
        rw [(Option.filter_eq_some_iff.mp valid).1, Option.getD_some]
      constructor
      · intro result
        obtain ⟨value, valueOk, result⟩ := except_bind_eq_ok.mp result
        obtain ⟨scriptpubkey, found, result⟩ := except_bind_eq_ok.mp result
        obtain ⟨script, scriptOk, result⟩ := except_bind_eq_ok.mp result
        obtain ⟨output, asks, covered, rfl⟩ :=
          createTransactionOutput_eq_ok.mp result
        rw [start asks.amount] at covered ⊢
        refine ⟨output, ?_, ⟨covered, trivial⟩, rfl⟩
        intro _ same
        obtain rfl := Option.some.inj same
        exact ⟨value, scriptpubkey, script, valueOk, found, scriptOk, asks⟩
      · rintro ⟨output, asks, covered, rfl⟩
        obtain ⟨value, scriptpubkey, script, valueOk, found, scriptOk, asked⟩ :=
          asks output rfl
        apply except_bind_eq_ok.mpr
        refine ⟨value, valueOk, except_bind_eq_ok.mpr ?_⟩
        refine ⟨scriptpubkey, found, except_bind_eq_ok.mpr ?_⟩
        refine ⟨script, scriptOk, createTransactionOutput_eq_ok.mpr ?_⟩
        rw [start asked.amount]
        exact ⟨output, asked, covered.1, rfl⟩

private theorem payFounder_eq_ok
    {rpcData : RtmRpcData} {payouts after : Payouts} :
    payFounder packages rpcData payouts = .ok after ↔
      ∃ founder : Option TransactionOutput,
        founder.isSome = (rpcData.founderPaymentsStarted.truthy &&
          rpcData.founder.truthy) ∧
        (∀ output ∈ founder, FounderAsks packages rpcData output) ∧
        payouts.CoversAll founder.toList ∧
        after = payouts.paidAll founder.toList := by
  rw [exists_optional_iff, payFounder]
  split_ifs with started
  · constructor
    · intro result
      obtain ⟨amount, amountOk, result⟩ := except_bind_eq_ok.mp result
      obtain ⟨payee, payeeOk, result⟩ := except_bind_eq_ok.mp result
      obtain ⟨output, asks, covered, rfl⟩ :=
        createTransactionOutput_eq_ok.mp result
      refine ⟨output, ?_, ⟨covered, trivial⟩, rfl⟩
      intro _ same
      obtain rfl := Option.some.inj same
      exact ⟨amount, payee, amountOk, payeeOk, asks⟩
    · rintro ⟨output, asks, covered, rfl⟩
      obtain ⟨amount, payee, amountOk, payeeOk, asked⟩ := asks output rfl
      apply except_bind_eq_ok.mpr
      refine ⟨amount, amountOk, except_bind_eq_ok.mpr ?_⟩
      refine ⟨payee, payeeOk, createTransactionOutput_eq_ok.mpr ?_⟩
      exact ⟨output, asked, covered.1, rfl⟩
  · constructor
    · intro result
      exact ⟨nofun, trivial, (Except.ok.inj result).symm⟩
    · rintro ⟨-, -, rfl⟩
      rfl

/-- An output that leaves the balances as they are. -/
def Payouts.withOutput (payouts : Payouts) (output : TransactionOutput) :
    Payouts :=
  { payouts with
    txOutputBuffers := payouts.txOutputBuffers ++ [output.bytes] }

private theorem payPool_eq_ok
    {poolAddress : JsValue} {payouts after : Payouts} :
    payPool packages poolAddress payouts = .ok after ↔
      ∃ pool, BitcoinUtils.addressToScript packages poolAddress =
          .ok pool.script ∧
        isValidSatoshisAmount (.number payouts.rewardToPool) =
          some (pool.amount : Int) ∧
        payouts.Covers pool ∧ after = payouts.withOutput pool := by
  constructor
  · intro result
    obtain ⟨script, scriptOk, result⟩ := except_bind_eq_ok.mp result
    obtain ⟨paid, paidOk, result⟩ := except_bind_eq_ok.mp result
    obtain ⟨pool, asks, covered, rfl⟩ :=
      createTransactionOutput_eq_ok.mp paidOk
    cases Except.ok.inj result
    cases Except.ok.inj asks.script
    exact ⟨pool, scriptOk, asks.amount, covered, rfl⟩
  · rintro ⟨pool, scriptOk, amountOk, covered, rfl⟩
    apply except_bind_eq_ok.mpr
    refine ⟨_, scriptOk, except_bind_eq_ok.mpr ⟨payouts.paid pool, ?_, rfl⟩⟩
    exact createTransactionOutput_eq_ok.mpr
      ⟨pool, ⟨amountOk, rfl⟩, covered, rfl⟩

/-- The witness of the coinbase: one item of 32 zero bytes. -/
def coinbaseWitness : Bytes :=
  CompactSize.encode 1 ++ Dialect.sizedBytes (List.replicate 32 0)

private theorem payCommitment_eq_ok
    {rpcData : RtmRpcData} {payouts : Payouts} {buffers : List Bytes} :
    payCommitment packages rpcData payouts = .ok buffers ↔
      ∃ commitment : Option TransactionOutput,
        commitment.isSome = rpcData.defaultWitnessCommitment.truthy ∧
        (∀ output ∈ commitment, CommitmentAsks packages rpcData output) ∧
        payouts.CoversAll commitment.toList ∧
        buffers = payouts.txOutputBuffers ++
          (commitment.toList.map TransactionOutput.bytes ++
            commitment.toList.map fun _ => coinbaseWitness) := by
  have zero : isValidSatoshisAmount (.number 0) = some ((0 : Nat) : Int) :=
    isValidSatoshisAmount_number (Nat.zero_le _)
  rw [exists_optional_iff, payCommitment]
  split_ifs with committed
  · constructor
    · intro result
      obtain ⟨script, scriptOk, result⟩ := except_bind_eq_ok.mp result
      obtain ⟨paid, paidOk, result⟩ := except_bind_eq_ok.mp result
      obtain ⟨items, itemsOk, result⟩ := except_bind_eq_ok.mp result
      obtain ⟨size, sizeOk, result⟩ := except_bind_eq_ok.mp result
      obtain ⟨output, asks, covered, rfl⟩ :=
        createTransactionOutput_eq_ok.mp paidOk
      obtain ⟨-, rfl⟩ := varIntBuffer_eq_ok.mp itemsOk
      obtain ⟨-, rfl⟩ := varIntBuffer_eq_ok.mp sizeOk
      cases Except.ok.inj result
      cases Except.ok.inj asks.script
      refine ⟨output, ?_, ⟨covered, trivial⟩, ?_⟩
      · intro _ same
        obtain rfl := Option.some.inj same
        refine ⟨?_, scriptOk⟩
        exact Int.ofNat.inj (Option.some.inj (asks.amount.symm.trans zero))
      · rw [Payouts.paid, List.append_assoc]
        rfl
    · rintro ⟨output, asks, covered, rfl⟩
      obtain ⟨nothing, scriptOk⟩ := asks output rfl
      have asked : Asks packages (.number 0) .null (some output.script)
          output := ⟨nothing ▸ zero, rfl⟩
      apply except_bind_eq_ok.mpr
      refine ⟨_, scriptOk, except_bind_eq_ok.mpr ⟨payouts.paid output, ?_, ?_⟩⟩
      · exact createTransactionOutput_eq_ok.mpr
          ⟨output, asked, covered.1, rfl⟩
      · apply congrArg Except.ok
        rw [Payouts.paid, List.append_assoc]
        rfl
  · have nothing : payouts.txOutputBuffers ++ ([] ++ []) =
        payouts.txOutputBuffers := List.append_nil _
    constructor
    · intro result
      cases result
      exact ⟨nofun, trivial, nothing.symm⟩
    · rintro ⟨-, -, rfl⟩
      exact congrArg Except.ok nothing.symm

/-- The outputs of a coinbase, by what asks for them. -/
structure Groups where
  devReward : Option TransactionOutput
  smartnodes : List TransactionOutput
  superblocks : List TransactionOutput
  founder : Option TransactionOutput
  pool : TransactionOutput
  commitment : Option TransactionOutput

namespace Groups

/-- The outputs in front of the one of the pool. -/
def requested (groups : Groups) : List TransactionOutput :=
  groups.devReward.toList ++ groups.smartnodes ++ groups.superblocks ++
    groups.founder.toList

def all (groups : Groups) : List TransactionOutput :=
  groups.requested ++ [groups.pool] ++ groups.commitment.toList

/-- What is behind the outputs of a coinbase with a commitment. -/
def witness (groups : Groups) : Bytes :=
  (groups.commitment.toList.map fun _ => coinbaseWitness).flatten

variable (packages) in
/-- A request asks for these outputs; the amount of the pool is not asked
for. -/
structure AskedBy (groups : Groups) (rpcData : RtmRpcData)
    (poolAddress : JsValue) (hasDevReward : Bool) : Prop where
  hasDevReward : groups.devReward.isSome = hasDevReward
  devReward : ∀ output ∈ groups.devReward,
    DevRewardAsks packages rpcData output
  smartnodes : List.Forall₂ (EntryAsks packages)
    (smartnodeEntries rpcData.smartnode) groups.smartnodes
  superblocks : List.Forall₂ (EntryAsks packages)
    (superblockEntries rpcData.superblock) groups.superblocks
  hasFounder : groups.founder.isSome =
    (rpcData.founderPaymentsStarted.truthy && rpcData.founder.truthy)
  founder : ∀ output ∈ groups.founder, FounderAsks packages rpcData output
  pool : BitcoinUtils.addressToScript packages poolAddress =
    .ok groups.pool.script
  hasCommitment : groups.commitment.isSome =
    rpcData.defaultWitnessCommitment.truthy
  commitment : ∀ output ∈ groups.commitment,
    CommitmentAsks packages rpcData output

/-- What is left for the pool. -/
def left (groups : Groups) (rpcData : RtmRpcData) : Payouts :=
  (balances rpcData groups.devReward).paidAll groups.requested

structure Affordable (groups : Groups) (rpcData : RtmRpcData) : Prop where
  requested : (balances rpcData groups.devReward).CoversAll groups.requested
  remainder : isValidSatoshisAmount
    (.number (groups.left rpcData).rewardToPool) =
      some (groups.pool.amount : Int)
  pool : (groups.left rpcData).Covers groups.pool
  commitment : ((groups.left rpcData).withOutput groups.pool).CoversAll
    groups.commitment.toList
  count : groups.all.length ≤ 0xffffffff

def bytes (groups : Groups) : Bytes :=
  CompactSize.encode groups.all.length ++
    ((groups.all.map TransactionOutput.bytes).flatten ++ groups.witness)

private theorem left_eq (groups : Groups) (rpcData : RtmRpcData) :
    groups.left rpcData =
      ((((balances rpcData groups.devReward).paidAll
        groups.devReward.toList).paidAll groups.smartnodes).paidAll
          groups.superblocks).paidAll groups.founder.toList := by
  simp only [left, requested, Payouts.paidAll, List.foldl_append]

private theorem coversAll_requested {groups : Groups} {payouts : Payouts} :
    payouts.CoversAll groups.requested ↔
      ((payouts.CoversAll groups.devReward.toList ∧
        (payouts.paidAll groups.devReward.toList).CoversAll
          groups.smartnodes) ∧
        ((payouts.paidAll groups.devReward.toList).paidAll
          groups.smartnodes).CoversAll groups.superblocks) ∧
      (((payouts.paidAll groups.devReward.toList).paidAll
        groups.smartnodes).paidAll groups.superblocks).CoversAll
          groups.founder.toList := by
  simp only [requested, Payouts.coversAll_append, Payouts.paidAll,
    List.foldl_append]

/-- The buffers that are collected are the outputs, in front of the
witness. -/
theorem buffers_eq (groups : Groups) (rpcData : RtmRpcData) :
    ((groups.left rpcData).withOutput groups.pool).txOutputBuffers ++
        groups.commitment.toList.map TransactionOutput.bytes =
      groups.all.map TransactionOutput.bytes := by
  simp only [Payouts.withOutput, left, Payouts.txOutputBuffers_paidAll,
    balances, List.nil_append, all, List.map_append, List.map_cons,
    List.map_nil]

/-- The count leaves out the witness, which is the last buffer. -/
theorem count_eq {groups : Groups} {rpcData : RtmRpcData}
    (hasCommitment : groups.commitment.isSome =
      rpcData.defaultWitnessCommitment.truthy) :
    (if rpcData.defaultWitnessCommitment.truthy then
      (((groups.left rpcData).withOutput groups.pool).txOutputBuffers ++
        (groups.commitment.toList.map TransactionOutput.bytes ++
          groups.commitment.toList.map fun _ => coinbaseWitness)).length - 1
    else
      (((groups.left rpcData).withOutput groups.pool).txOutputBuffers ++
        (groups.commitment.toList.map TransactionOutput.bytes ++
          groups.commitment.toList.map fun _ => coinbaseWitness)).length) =
      groups.all.length := by
  rw [← List.append_assoc, buffers_eq, List.length_append, List.length_map,
    List.length_map, ← hasCommitment]
  cases groups.commitment with
  | none => rfl
  | some output => rfl

end Groups

/-- The outputs are the ones that are asked for, as long as they can be
afforded. -/
theorem generateTransactionOutputs_eq_ok
    {rpcData : RtmRpcData} {poolAddress : JsValue} {hasDevReward : Bool}
    {bytes : Bytes} :
    generateTransactionOutputs packages rpcData poolAddress hasDevReward =
        .ok bytes ↔
      ∃ groups : Groups,
        groups.AskedBy packages rpcData poolAddress hasDevReward ∧
        groups.Affordable rpcData ∧ bytes = groups.bytes := by
  constructor
  · intro result
    obtain ⟨first, firstOk, result⟩ := except_bind_eq_ok.mp result
    obtain ⟨second, secondOk, result⟩ := except_bind_eq_ok.mp result
    obtain ⟨third, thirdOk, result⟩ := except_bind_eq_ok.mp result
    obtain ⟨fourth, fourthOk, result⟩ := except_bind_eq_ok.mp result
    obtain ⟨fifth, fifthOk, result⟩ := except_bind_eq_ok.mp result
    obtain ⟨buffers, buffersOk, result⟩ := except_bind_eq_ok.mp result
    obtain ⟨count, countOk, result⟩ := except_bind_eq_ok.mp result
    obtain rfl := Except.ok.inj result
    obtain ⟨devReward, hasDev, devAsks, devCovered, rfl⟩ :=
      payDevReward_eq_ok.mp firstOk
    rw [paySmartnode_eq] at secondOk
    obtain ⟨smartnodes, smartAsks, smartCovered, rfl⟩ :=
      payEntries_eq_ok.mp secondOk
    rw [paySuperblock_eq] at thirdOk
    obtain ⟨superblocks, superAsks, superCovered, rfl⟩ :=
      payEntries_eq_ok.mp thirdOk
    obtain ⟨founder, hasFounder, founderAsks, founderCovered, rfl⟩ :=
      payFounder_eq_ok.mp fourthOk
    obtain ⟨pool, poolScript, remainder, poolCovered, rfl⟩ :=
      payPool_eq_ok.mp fifthOk
    obtain ⟨commitment, committed, commitAsks, commitCovered, rfl⟩ :=
      payCommitment_eq_ok.mp buffersOk
    let groups : Groups :=
      { devReward, smartnodes, superblocks, founder, pool, commitment }
    have left := groups.left_eq rpcData
    have size : _ = groups.all.length := Groups.count_eq committed
    have buffers := groups.buffers_eq rpcData
    simp only [groups] at left size buffers
    rw [← left] at remainder poolCovered commitCovered countOk ⊢
    rw [size] at countOk
    obtain ⟨few, rfl⟩ := varIntBuffer_eq_ok.mp countOk
    refine ⟨groups, ⟨hasDev, devAsks, smartAsks, superAsks, hasFounder,
      founderAsks, poolScript, committed, commitAsks⟩,
      ⟨?_, remainder, poolCovered, commitCovered, few⟩, ?_⟩
    · exact Groups.coversAll_requested.mpr
        ⟨⟨⟨devCovered, smartCovered⟩, superCovered⟩, founderCovered⟩
    · rw [← List.append_assoc, buffers, List.flatten_append]
      rfl
  · rintro ⟨groups, asked, affordable, rfl⟩
    have covered := Groups.coversAll_requested.mp affordable.requested
    apply except_bind_eq_ok.mpr
    refine ⟨_, payDevReward_eq_ok.mpr ⟨groups.devReward, asked.hasDevReward,
      asked.devReward, covered.1.1.1, rfl⟩, except_bind_eq_ok.mpr ?_⟩
    rw [paySmartnode_eq]
    refine ⟨_, payEntries_eq_ok.mpr ⟨_, asked.smartnodes, covered.1.1.2, rfl⟩,
      except_bind_eq_ok.mpr ?_⟩
    rw [paySuperblock_eq]
    refine ⟨_, payEntries_eq_ok.mpr ⟨_, asked.superblocks, covered.1.2, rfl⟩,
      except_bind_eq_ok.mpr ?_⟩
    refine ⟨_, payFounder_eq_ok.mpr ⟨groups.founder, asked.hasFounder,
      asked.founder, covered.2, rfl⟩, except_bind_eq_ok.mpr ?_⟩
    rw [← groups.left_eq]
    refine ⟨_, payPool_eq_ok.mpr ⟨groups.pool, asked.pool,
      affordable.remainder, affordable.pool, rfl⟩, except_bind_eq_ok.mpr ?_⟩
    refine ⟨_, payCommitment_eq_ok.mpr ⟨groups.commitment,
      asked.hasCommitment, asked.commitment, affordable.commitment, rfl⟩,
      except_bind_eq_ok.mpr ?_⟩
    rw [Groups.count_eq asked.hasCommitment]
    refine ⟨_, varIntBuffer_eq_ok.mpr ⟨affordable.count, rfl⟩, ?_⟩
    rw [← List.append_assoc, groups.buffers_eq, List.flatten_append]
    rfl

end Rtm

end BlockTemplate
