import BlockTemplate.Bitcoin.RtmConsumed

/-!
# The balance of RTM payouts

Doubles are exact below two to the 53rd, so both balances of a run are the
reward without what has been paid, and the outputs of a coinbase sum up to the
whole reward.
-/

namespace BlockTemplate

theorem toDouble_exact {value : Int} (small : value.natAbs < 2 ^ 53) :
    toDouble value = value := by
  have bits : value.natAbs.log2 - 52 = 0 := by
    rcases Nat.eq_zero_or_pos value.natAbs with zero | positive
    · rw [zero]
      rfl
    · have less := (Nat.log2_lt positive.ne').mpr small
      omega
  rw [toDouble, bits]
  simp only [pow_zero, Nat.mod_one, Nat.div_one, mul_zero, mul_one,
    Nat.lt_one_iff, true_or, if_true]
  exact Int.sign_mul_natAbs value

/-- Rounding keeps the sign. -/
theorem nonneg_of_toDouble {value : Int} (nonneg : 0 ≤ toDouble value) :
    0 ≤ value := by
  by_contra negative
  have sign : value.sign = -1 := Int.sign_eq_neg_one_of_neg (by omega)
  have positive : 0 < value.natAbs := by omega
  have unitLe : 2 ^ (value.natAbs.log2 - 52) ≤ value.natAbs :=
    (Nat.pow_le_pow_right (by decide) (Nat.sub_le _ _)).trans
      (Nat.log2_self_le positive.ne')
  have unitPos : 0 < 2 ^ (value.natAbs.log2 - 52) := Nat.pow_pos (by decide)
  have below : 0 < value.natAbs / 2 ^ (value.natAbs.log2 - 52) :=
    Nat.div_pos unitLe unitPos
  have absurdity {magnitude : Nat} (positive : 0 < magnitude) :
      ¬(0 : Int) ≤ -1 * (magnitude : Int) := by
    omega
  rw [toDouble, sign] at nonneg
  split_ifs at nonneg
  · exact absurdity (Nat.mul_pos below unitPos) nonneg
  · exact absurdity (Nat.mul_pos (Nat.succ_pos _) unitPos) nonneg

namespace Rtm

variable {packages : Packages}

def amounts (outputs : List TransactionOutput) : Nat :=
  (outputs.map TransactionOutput.amount).sum

private theorem amounts_cons (output : TransactionOutput)
    (outputs : List TransactionOutput) :
    amounts (output :: outputs) = output.amount + amounts outputs := by
  rw [amounts, List.map_cons, List.sum_cons]
  rfl

private theorem sum_amounts (outputs : List TransactionOutput) :
    (outputs.map fun output => (output.amount : Int)).sum =
      (amounts outputs : Int) := by
  induction outputs with
  | nil => rfl
  | cons output outputs ih =>
      rw [List.map_cons, List.sum_cons, ih, amounts_cons, Nat.cast_add]

private theorem amounts_append (first second : List TransactionOutput) :
    amounts (first ++ second) = amounts first + amounts second := by
  rw [amounts, List.map_append, List.sum_append]
  rfl

namespace Payouts

/-- Both rewards are this balance, and a double is exact there. -/
structure Balanced (payouts : Payouts) (balance : Int) : Prop where
  reward : payouts.reward = balance
  rewardToPool : payouts.rewardToPool = balance
  nonneg : 0 ≤ balance
  exact : balance < 2 ^ 53

theorem Balanced.paid
    {payouts : Payouts} {balance : Int} {output : TransactionOutput}
    (balanced : payouts.Balanced balance)
    (covered : (output.amount : Int) ≤ balance) :
    (payouts.paid output).Balanced (balance - output.amount) := by
  have nonneg := balanced.nonneg
  have exact := balanced.exact
  have rounded : toDouble (balance - output.amount) =
      balance - output.amount := by
    apply toDouble_exact
    omega
  refine ⟨?_, ?_, by omega, by omega⟩
  · rw [Payouts.paid, balanced.reward, rounded]
  · rw [Payouts.paid, balanced.rewardToPool, rounded]

private theorem Balanced.covers_iff
    {payouts : Payouts} {balance : Int} {output : TransactionOutput}
    (balanced : payouts.Balanced balance) :
    payouts.Covers output ↔
      (output.amount : Int) ≤ balance ∧ output.script.length ≤ 0xffffffff := by
  rw [Payouts.Covers, balanced.reward, balanced.rewardToPool]
  tauto

/-- A row of payouts is covered when its sum is. -/
theorem Balanced.coversAll_iff
    {payouts : Payouts} {balance : Int} {outputs : List TransactionOutput}
    (balanced : payouts.Balanced balance) :
    payouts.CoversAll outputs ↔
      (amounts outputs : Int) ≤ balance ∧
        ∀ output ∈ outputs, output.script.length ≤ 0xffffffff := by
  induction outputs generalizing payouts balance with
  | nil => exact iff_of_true trivial ⟨balanced.nonneg, nofun⟩
  | cons output outputs ih =>
      rw [CoversAll, balanced.covers_iff, amounts_cons, Nat.cast_add,
        List.forall_mem_cons]
      constructor
      · rintro ⟨⟨covered, short⟩, others⟩
        obtain ⟨rest, shorts⟩ := (ih (balanced.paid covered)).mp others
        exact ⟨by omega, short, shorts⟩
      · rintro ⟨whole, short, shorts⟩
        have covered : (output.amount : Int) ≤ balance := by omega
        refine ⟨⟨covered, short⟩, (ih (balanced.paid covered)).mpr ?_⟩
        exact ⟨by omega, shorts⟩

theorem Balanced.withOutput {payouts : Payouts} {balance : Int}
    (balanced : payouts.Balanced balance) (output : TransactionOutput) :
    (payouts.withOutput output).Balanced balance :=
  ⟨balanced.reward, balanced.rewardToPool, balanced.nonneg, balanced.exact⟩

theorem Balanced.paidAll
    {payouts : Payouts} {balance : Int} {outputs : List TransactionOutput}
    (balanced : payouts.Balanced balance)
    (covered : (amounts outputs : Int) ≤ balance) :
    (payouts.paidAll outputs).Balanced (balance - amounts outputs) := by
  induction outputs generalizing payouts balance with
  | nil =>
      rw [amounts, List.map_nil, List.sum_nil, Nat.cast_zero, sub_zero]
      exact balanced
  | cons output outputs ih =>
      rw [amounts_cons, Nat.cast_add] at covered ⊢
      have paid := ih (balanced.paid (show (output.amount : Int) ≤ balance by
        omega)) (by omega)
      rwa [sub_sub] at paid

private theorem nonneg_of_coversAll
    {payouts : Payouts} {outputs : List TransactionOutput}
    (covered : payouts.CoversAll outputs) (nonempty : outputs ≠ []) :
    0 ≤ payouts.reward := by
  cases outputs with
  | nil => exact (nonempty rfl).elim
  | cons output outputs =>
      have first := covered.1.2.1
      omega

end Payouts

def devRewardValue (rpcData : RtmRpcData) (hasDevReward : Bool) : Int :=
  if hasDevReward then
    match rpcData.coinbasedevreward.get .value with
    | .ok value => value.safeInteger.getD 0
    | .error _ => 0
  else 0

def totalReward (rpcData : RtmRpcData) (hasDevReward : Bool) : Int :=
  rpcData.coinbasevalue + devRewardValue rpcData hasDevReward

section Asked

variable {rpcData : RtmRpcData} {poolAddress : JsValue} {hasDevReward : Bool}
  {groups : Groups}
  (asked : groups.AskedBy packages rpcData poolAddress hasDevReward)

include asked

private theorem amounts_commitment : amounts groups.commitment.toList = 0 := by
  have asks := asked.commitment
  cases found : groups.commitment with
  | none => rfl
  | some output =>
      rw [found] at asks
      exact (asks output rfl).1

private theorem devReward_cases :
    groups.devReward = none ∧ hasDevReward = false ∨
      ∃ output value, groups.devReward = some output ∧ hasDevReward = true ∧
        rpcData.coinbasedevreward.get .value = .ok value ∧
        isValidSatoshisAmount value = some (output.amount : Int) := by
  have present := asked.hasDevReward
  have asks := asked.devReward
  cases found : groups.devReward with
  | none =>
      rw [found] at present
      exact .inl ⟨rfl, present.symm⟩
  | some output =>
      rw [found] at present asks
      obtain ⟨value, _, _, valueOk, -, -, valid⟩ := asks output rfl
      exact .inr ⟨output, value, rfl, present.symm, valueOk, valid.amount⟩

private theorem reward_balances :
    (balances rpcData groups.devReward).reward =
      if hasDevReward then toDouble (totalReward rpcData hasDevReward)
      else totalReward rpcData hasDevReward := by
  rcases devReward_cases asked with
    ⟨found, rfl⟩ | ⟨output, value, found, rfl, valueOk, amount⟩
  · rw [found]
    exact (Int.add_zero _).symm
  · have same : value.safeInteger = some (output.amount : Int) :=
      (Option.filter_eq_some_iff.mp amount).1
    rw [found, if_pos rfl, totalReward, devRewardValue, if_pos rfl, valueOk]
    simp only [same, Option.getD_some]
    rfl

private theorem balanced_balances
    (nonneg : 0 ≤ totalReward rpcData hasDevReward)
    (exact : totalReward rpcData hasDevReward < 2 ^ 53) :
    (balances rpcData groups.devReward).Balanced
      (totalReward rpcData hasDevReward) := by
  have rounded : toDouble (totalReward rpcData hasDevReward) =
      totalReward rpcData hasDevReward := by
    apply toDouble_exact
    omega
  have reward := reward_balances asked
  rw [rounded, ite_self] at reward
  exact ⟨reward, reward, nonneg, exact⟩

/-- A reward that can be paid from is not negative. -/
theorem nonneg_of_affordable (affordable : groups.Affordable rpcData) :
    0 ≤ totalReward rpcData hasDevReward := by
  have whole : (balances rpcData groups.devReward).CoversAll
      (groups.requested ++ [groups.pool]) :=
    Payouts.coversAll_append.mpr
      ⟨affordable.requested, affordable.pool, trivial⟩
  have nonneg := Payouts.nonneg_of_coversAll whole
    (List.append_ne_nil_of_right_ne_nil _ (List.cons_ne_nil _ _))
  rw [reward_balances asked] at nonneg
  split_ifs at nonneg
  · exact nonneg_of_toDouble nonneg
  · exact nonneg

/-- The requested payouts are affordable together, and the pool gets what is
left. -/
theorem affordable_iff
    (exact : totalReward rpcData hasDevReward < 2 ^ 53) :
    groups.Affordable rpcData ↔
      (groups.pool.amount : Int) = totalReward rpcData hasDevReward -
        amounts groups.requested ∧
      (∀ output ∈ groups.all, output.script.length ≤ 0xffffffff) ∧
      groups.all.length ≤ 0xffffffff := by
  have zero := amounts_commitment asked
  have members : (∀ output ∈ groups.all,
      output.script.length ≤ 0xffffffff) ↔
        (∀ output ∈ groups.requested, output.script.length ≤ 0xffffffff) ∧
        groups.pool.script.length ≤ 0xffffffff ∧
        ∀ output ∈ groups.commitment.toList,
          output.script.length ≤ 0xffffffff := by
    simp only [Groups.all, List.forall_mem_append, List.forall_mem_singleton,
      and_assoc]
  rw [members]
  constructor
  · intro affordable
    have balanced :=
      balanced_balances asked (nonneg_of_affordable asked affordable) exact
    obtain ⟨covered, shorts⟩ :=
      balanced.coversAll_iff.mp affordable.requested
    have left := balanced.paidAll covered
    obtain ⟨satoshis, number, same, -⟩ :=
      number_of_isValidSatoshisAmount affordable.remainder
    have amount : (groups.pool.amount : Int) =
        totalReward rpcData hasDevReward - amounts groups.requested := by
      rw [same, ← JsValue.number.inj number]
      exact left.rewardToPool
    have behind := left.withOutput groups.pool
    exact ⟨amount, ⟨shorts, affordable.pool.2.2,
      (behind.coversAll_iff.mp affordable.commitment).2⟩, affordable.count⟩
  · rintro ⟨amount, ⟨shorts, poolShort, commitmentShort⟩, count⟩
    have nonneg : 0 ≤ totalReward rpcData hasDevReward := by omega
    have balanced := balanced_balances asked nonneg exact
    have covered : (amounts groups.requested : Int) ≤
        totalReward rpcData hasDevReward := by
      omega
    have left : (groups.left rpcData).Balanced
        (totalReward rpcData hasDevReward - amounts groups.requested) :=
      balanced.paidAll covered
    have behind := left.withOutput groups.pool
    have safe : groups.pool.amount ≤ CompactSize.maxSafeInteger := by
      have bound : CompactSize.maxSafeInteger = 2 ^ 53 - 1 := rfl
      omega
    refine ⟨balanced.coversAll_iff.mpr ⟨covered, shorts⟩, ?_,
      left.covers_iff.mpr ⟨amount.le, poolShort⟩,
      behind.coversAll_iff.mpr ⟨?_, commitmentShort⟩, count⟩
    · rw [left.rewardToPool, ← amount]
      exact isValidSatoshisAmount_number safe
    · rw [zero, Nat.cast_zero]
      exact left.nonneg

end Asked

def numbers (satoshis : List Int) : List (Except String JsValue) :=
  satoshis.map fun amount => .ok (.number amount)

/-- The amounts of the payouts in front of the one of the pool, in order. -/
def requestedAmounts (rpcData : RtmRpcData) (hasDevReward : Bool) :
    List (Except String JsValue) :=
  (if hasDevReward then [rpcData.coinbasedevreward.get .value] else []) ++
    (smartnodeEntries rpcData.smartnode).map (·.get .amount) ++
    (superblockEntries rpcData.superblock).map (·.get .amount) ++
    (if rpcData.founderPaymentsStarted.truthy && rpcData.founder.truthy then
      [(rpcData.founder.get .amount).map fun amount =>
        amount.orElse (.number 0)]
    else [])

private theorem number_of_valid {amount : JsValue} {output : TransactionOutput}
    (valid : isValidSatoshisAmount amount = some (output.amount : Int)) :
    amount = .number output.amount := by
  obtain ⟨satoshis, rfl, same, -⟩ := number_of_isValidSatoshisAmount valid
  rw [same]

private theorem amounts_of_entries {entries : List JsValue}
    {outputs : List TransactionOutput}
    (asks : List.Forall₂ (EntryAsks packages) entries outputs) :
    entries.map (·.get .amount) =
      numbers (outputs.map fun output => (output.amount : Int)) := by
  induction asks with
  | nil => rfl
  | @cons entry output _ _ first _ ih =>
      obtain ⟨amount, payee, amountOk, -, asked⟩ := first
      rw [List.map_cons, ih, amountOk, number_of_valid asked.amount]
      rfl

private theorem requestedAmounts_eq
    {rpcData : RtmRpcData} {poolAddress : JsValue} {hasDevReward : Bool}
    {groups : Groups}
    (asked : groups.AskedBy packages rpcData poolAddress hasDevReward) :
    requestedAmounts rpcData hasDevReward =
      numbers (groups.requested.map fun output => (output.amount : Int)) := by
  have devReward : (if hasDevReward then
      [rpcData.coinbasedevreward.get .value] else []) =
        numbers (groups.devReward.toList.map fun output =>
          (output.amount : Int)) := by
    rcases devReward_cases asked with
      ⟨found, rfl⟩ | ⟨output, value, found, rfl, valueOk, amount⟩
    · rw [found]
      rfl
    · rw [found, if_pos rfl, valueOk, number_of_valid amount]
      rfl
  have founder : (if rpcData.founderPaymentsStarted.truthy &&
      rpcData.founder.truthy then
        [(rpcData.founder.get .amount).map fun amount =>
          amount.orElse (.number 0)]
      else []) = numbers (groups.founder.toList.map fun output =>
        (output.amount : Int)) := by
    have present := asked.hasFounder
    have asks := asked.founder
    cases found : groups.founder with
    | none =>
        rw [found] at present
        rw [← present]
        rfl
    | some output =>
        rw [found] at present asks
        obtain ⟨amount, payee, amountOk, -, valid⟩ := asks output rfl
        rw [← present, amountOk]
        exact congrArg (fun value => [Except.ok value])
          (number_of_valid valid.amount)
  simp only [requestedAmounts, devReward, founder,
    amounts_of_entries asked.smartnodes, amounts_of_entries asked.superblocks,
    Groups.requested, List.map_append, numbers]

private theorem numbers_injective : Function.Injective numbers :=
  List.map_injective_iff.mpr fun _ _ same =>
    JsValue.number.inj (Except.ok.inj same)

/-- No sum of the first payouts is larger than that of all. -/
theorem running_le
    {rpcData : RtmRpcData} {poolAddress : JsValue} {hasDevReward : Bool}
    {groups : Groups} {running : List Int}
    (asked : groups.AskedBy packages rpcData poolAddress hasDevReward)
    (first : numbers running <+: requestedAmounts rpcData hasDevReward) :
    running.sum ≤ amounts groups.requested := by
  rw [requestedAmounts_eq asked] at first
  obtain ⟨values, begins, same⟩ := List.prefix_map_iff.mp first
  obtain rfl := numbers_injective same
  obtain ⟨outputs, ⟨later, split⟩, rfl⟩ := List.prefix_map_iff.mp begins
  rw [sum_amounts, ← split, amounts_append]
  omega

private theorem length_of_addressToScript {address : JsValue} {script : Bytes}
    (decoded : BitcoinUtils.addressToScript packages address = .ok script) :
    script.length ≤ 25 := by
  cases address with
  | string text =>
      simp only [BitcoinUtils.addressToScript] at decoded
      split_ifs at decoded
      split at decoded
      · rename_i found result
        obtain rfl := Except.ok.inj decoded
        obtain ⟨addrHash, -, hashed⟩ := except_bind_eq_ok.mp result
        rw [BitcoinUtils.p2pkhScript] at hashed
        split_ifs at hashed with size
        obtain rfl := Except.ok.inj hashed
        simp only [List.length_append, not_not.mp size]
        decide
      · split at decoded
        · cases decoded
        · split_ifs at decoded with size
          obtain rfl := Except.ok.inj decoded
          rw [List.length_append, not_not.mp size]
          decide
  | _ => cases decoded

private theorem length_of_entries {entries : List JsValue}
    {outputs : List TransactionOutput}
    (asks : List.Forall₂ (EntryAsks packages) entries outputs) :
    ∀ output ∈ outputs, output.script.length ≤ 25 := by
  induction asks with
  | nil => exact nofun
  | cons first _ ih =>
      obtain ⟨_, _, -, -, asked⟩ := first
      rw [List.forall_mem_cons]
      exact ⟨length_of_addressToScript asked.script, ih⟩

/-- The scripts that come as hex text, and the number of the outputs, are not
too large for `varIntBuffer`. -/
structure Groups.Encodable (groups : Groups) : Prop where
  devReward : ∀ output ∈ groups.devReward, output.script.length ≤ 0xffffffff
  commitment : ∀ output ∈ groups.commitment, output.script.length ≤ 0xffffffff
  count : groups.all.length ≤ 0xffffffff

theorem Groups.Encodable.scripts
    {rpcData : RtmRpcData} {poolAddress : JsValue} {hasDevReward : Bool}
    {groups : Groups} (encodable : groups.Encodable)
    (asked : groups.AskedBy packages rpcData poolAddress hasDevReward) :
    ∀ output ∈ groups.all, output.script.length ≤ 0xffffffff := by
  have small {size : Nat} (short : size ≤ 25) : size ≤ 0xffffffff :=
    short.trans (by decide)
  simp only [Groups.all, Groups.requested, List.forall_mem_append,
    List.forall_mem_singleton, Option.mem_toList]
  refine ⟨⟨⟨⟨⟨encodable.devReward, ?_⟩, ?_⟩, ?_⟩, ?_⟩, encodable.commitment⟩
  · exact fun output member =>
      small (length_of_entries asked.smartnodes output member)
  · exact fun output member =>
      small (length_of_entries asked.superblocks output member)
  · intro output member
    obtain ⟨_, _, -, -, valid⟩ := asked.founder output member
    exact small (length_of_addressToScript valid.script)
  · exact small (length_of_addressToScript asked.pool)

private theorem outputs_of_built
    {rpcData : RtmRpcData} {poolAddress : JsValue} {now : Int}
    {template : RtmTemplate} {hasDevReward : Bool}
    (built : RtmBlockTemplate packages rpcData poolAddress now =
      .ok template)
    (checked : hasValidCoinbaseDevReward rpcData = .ok hasDevReward) :
    ∃ bytes, generateTransactionOutputs packages rpcData poolAddress
      hasDevReward = .ok bytes := by
  obtain ⟨found, foundOk, built⟩ := except_bind_eq_ok.mp built
  obtain rfl := Except.ok.inj (checked.symm.trans foundOk)
  obtain ⟨version, -, built⟩ := except_bind_eq_ok.mp built
  obtain ⟨part1, -, built⟩ := except_bind_eq_ok.mp built
  obtain ⟨part2, -, built⟩ := except_bind_eq_ok.mp built
  obtain ⟨blob1, -, built⟩ := except_bind_eq_ok.mp built
  obtain ⟨blob2, tailOk, -⟩ := except_bind_eq_ok.mp built
  obtain ⟨sequence, -, tail⟩ := except_bind_eq_ok.mp tailOk
  obtain ⟨bytes, outputsOk, -⟩ := except_bind_eq_ok.mp tail
  exact ⟨bytes, outputsOk⟩

private theorem amounts_all
    {rpcData : RtmRpcData} {poolAddress : JsValue} {hasDevReward : Bool}
    {groups : Groups}
    (asked : groups.AskedBy packages rpcData poolAddress hasDevReward) :
    amounts groups.all = amounts groups.requested + groups.pool.amount := by
  rw [Groups.all, amounts_append, amounts_append, amounts_commitment asked]
  rfl

/-- The outputs of a coinbase are the ones that are asked for and sum up to
the whole reward; payouts are refused when, and only when, they ask for
more. -/
theorem rtm_outputs_conserve_value
    {rpcData : RtmRpcData} {poolAddress : JsValue} {hasDevReward : Bool}
    (exact : totalReward rpcData hasDevReward < 2 ^ 53) :
    (∀ now template,
      RtmBlockTemplate packages rpcData poolAddress now = .ok template →
      hasValidCoinbaseDevReward rpcData = .ok hasDevReward →
        ∃ groups : Groups,
          groups.AskedBy packages rpcData poolAddress hasDevReward ∧
          generateTransactionOutputs packages rpcData poolAddress
            hasDevReward = .ok groups.bytes ∧
          (groups.pool.amount : Int) = totalReward rpcData hasDevReward -
            amounts groups.requested ∧
          (amounts groups.all : Int) = totalReward rpcData hasDevReward) ∧
    (∀ groups : Groups,
      groups.AskedBy packages rpcData poolAddress hasDevReward →
      groups.Encodable →
      (amounts groups.requested : Int) ≤ totalReward rpcData hasDevReward →
        ∃ bytes, generateTransactionOutputs packages rpcData poolAddress
          hasDevReward = .ok bytes) ∧
    ∀ running, numbers running <+: requestedAmounts rpcData hasDevReward →
      totalReward rpcData hasDevReward < running.sum →
        ∃ message, generateTransactionOutputs packages rpcData poolAddress
          hasDevReward = .error message := by
  refine ⟨?_, ?_, ?_⟩
  · intro now template built checked
    obtain ⟨bytes, generated⟩ := outputs_of_built built checked
    obtain ⟨groups, asked, affordable, rfl⟩ :=
      generateTransactionOutputs_eq_ok.mp generated
    obtain ⟨amount, -, -⟩ := (affordable_iff asked exact).mp affordable
    refine ⟨groups, asked, generated, amount, ?_⟩
    rw [amounts_all asked]
    omega
  · intro groups asked encodable covered
    let paid : Groups :=
      { groups with
        pool :=
          { groups.pool with
            amount := (totalReward rpcData hasDevReward -
              amounts groups.requested).toNat } }
    have askedPaid : paid.AskedBy packages rpcData poolAddress
        hasDevReward := { asked with }
    have remainder : (paid.pool.amount : Int) =
        totalReward rpcData hasDevReward - amounts paid.requested :=
      Int.toNat_of_nonneg (by omega)
    have sameCount : paid.all.length = groups.all.length := by
      simp only [Groups.all, Groups.requested, List.length_append,
        List.length_singleton, paid]
    have encodablePaid : paid.Encodable :=
      ⟨encodable.devReward, encodable.commitment, sameCount ▸ encodable.count⟩
    refine ⟨paid.bytes, generateTransactionOutputs_eq_ok.mpr
      ⟨paid, askedPaid, ?_, rfl⟩⟩
    exact (affordable_iff askedPaid exact).mpr
      ⟨remainder, encodablePaid.scripts askedPaid, encodablePaid.count⟩
  · intro running first larger
    cases generated : generateTransactionOutputs packages rpcData poolAddress
        hasDevReward with
    | error message => exact ⟨message, rfl⟩
    | ok bytes =>
        obtain ⟨groups, asked, affordable, rfl⟩ :=
          generateTransactionOutputs_eq_ok.mp generated
        obtain ⟨amount, -, -⟩ := (affordable_iff asked exact).mp affordable
        have bounded := running_le asked first
        omega

/-- Outputs are refused when no groups can be paid. -/
theorem error_of_not_affordable
    {rpcData : RtmRpcData} {poolAddress : JsValue} {hasDevReward : Bool}
    (refused : ∀ groups : Groups,
      groups.AskedBy packages rpcData poolAddress hasDevReward →
        ¬groups.Affordable rpcData) :
    ∃ message, generateTransactionOutputs packages rpcData poolAddress
      hasDevReward = .error message := by
  cases generated : generateTransactionOutputs packages rpcData poolAddress
      hasDevReward with
  | error message => exact ⟨message, rfl⟩
  | ok bytes =>
      obtain ⟨groups, asked, affordable, -⟩ :=
        generateTransactionOutputs_eq_ok.mp generated
      exact (refused groups asked affordable).elim

/-- A commitment is refused when `varIntBuffer` cannot count its bytes. -/
theorem long_commitment_refused
    {rpcData : RtmRpcData} {poolAddress : JsValue} {hasDevReward : Bool}
    {script : Bytes} (long : 0xffffffff < script.length) :
    ∃ message, generateTransactionOutputs packages
      { rpcData with defaultWitnessCommitment := .string (toHex script) }
      poolAddress hasDevReward = .error message := by
  apply error_of_not_affordable
  intro groups asked affordable
  have text : (toHex script).isEmpty = false := by
    rw [List.isEmpty_eq_false_iff, ← List.length_pos_iff, length_toHex]
    omega
  have present : groups.commitment.isSome = true := by
    rw [asked.hasCommitment, JsValue.truthy, text]
    rfl
  obtain ⟨output, found⟩ := Option.isSome_iff_exists.mp present
  have written : ofHex (toHex script) = output.script :=
    Except.ok.inj (asked.commitment output found).2
  have paid := affordable.commitment
  rw [found] at paid
  have short := paid.1.2.2
  rw [← written, ofHex_toHex] at short
  omega

/-- So is the script of a dev reward. -/
theorem long_devReward_refused
    {rpcData : RtmRpcData} {poolAddress value : JsValue} {script : Bytes}
    (long : 0xffffffff < script.length) :
    ∃ message, generateTransactionOutputs packages
      { rpcData with
        coinbasedevreward :=
          .object [(.value, value), (.scriptpubkey, .string (toHex script))] }
      poolAddress true = .error message := by
  apply error_of_not_affordable
  intro groups asked affordable
  obtain ⟨output, found⟩ := Option.isSome_iff_exists.mp asked.hasDevReward
  obtain ⟨_, text, written, -, textOk, writtenOk, -, scriptOk⟩ :=
    asked.devReward output found
  obtain rfl := Except.ok.inj textOk
  obtain rfl := Except.ok.inj writtenOk
  have paid := affordable.requested
  rw [Groups.requested, found] at paid
  have short := paid.1.2.2
  rw [← Except.ok.inj scriptOk, ofHex_toHex] at short
  omega

/-- A payout to the pool's own address. -/
def sampleEntry (amount : Int) : JsValue :=
  .object [(.amount, .number amount), (.payee, samplePoolAddress)]

/-- A request that asks for payouts of every group, with these superblocks. -/
def sharedRequest (superblocks : List JsValue) : RtmRpcData :=
  { sampleRequest (.string "6a24".toList) with
    coinbasedevreward :=
      .object [(.value, .number 1000), (.scriptpubkey, .string "51".toList)]
    smartnode := .array [sampleEntry 2000, sampleEntry 3000]
    superblock := .array superblocks
    founder := sampleEntry 5000
    founderPaymentsStarted := .boolean true }

/-- The outputs of `sharedRequest [sampleEntry 4000]`, with the script of the
pool's address. -/
def sharedGroups (script : Bytes) : Groups where
  devReward := some ⟨1000, [0x51]⟩
  smartnodes := [⟨2000, script⟩, ⟨3000, script⟩]
  superblocks := [⟨4000, script⟩]
  founder := some ⟨5000, script⟩
  pool := ⟨4999986000, script⟩
  commitment := some ⟨0, [0x6a, 0x24]⟩

private theorem sampleEntry_asks
    {packages : Packages} {script : Bytes} {amount : Nat}
    (decoded : BitcoinUtils.addressToScript packages samplePoolAddress =
      .ok script)
    (safe : amount ≤ CompactSize.maxSafeInteger) :
    EntryAsks packages (sampleEntry amount) ⟨amount, script⟩ :=
  ⟨.number amount, samplePoolAddress, rfl, rfl,
    isValidSatoshisAmount_number safe, decoded⟩

private theorem sharedGroups_asked {packages : Packages} {script : Bytes}
    (decoded : BitcoinUtils.addressToScript packages samplePoolAddress =
      .ok script) :
    (sharedGroups script).AskedBy packages (sharedRequest [sampleEntry 4000])
      samplePoolAddress true where
  hasDevReward := rfl
  devReward := by
    rintro output ⟨⟩
    exact ⟨_, _, [0x51], rfl, rfl, rfl,
      isValidSatoshisAmount_number (by decide), rfl⟩
  smartnodes :=
    .cons (sampleEntry_asks decoded (by decide))
      (.cons (sampleEntry_asks decoded (by decide)) .nil)
  superblocks := .cons (sampleEntry_asks decoded (by decide)) .nil
  hasFounder := rfl
  founder := by
    rintro output ⟨⟩
    exact ⟨_, _, rfl, rfl, isValidSatoshisAmount_number (by decide), decoded⟩
  pool := decoded
  hasCommitment := rfl
  commitment := by
    rintro output ⟨⟩
    exact ⟨rfl, rfl⟩

private theorem samplePoolAddress_decodes :
    ∃ script, BitcoinUtils.addressToScript .documented samplePoolAddress =
      .ok script :=
  exists_of_isOk (by decide +kernel)

/-- A request with all groups, and the one whose second superblock asks for
the whole block. -/
theorem rtm_outputs_conserve_value_sample :
    (∃ groups : Groups,
      groups.AskedBy .documented (sharedRequest [sampleEntry 4000])
        samplePoolAddress true ∧
      generateTransactionOutputs .documented (sharedRequest [sampleEntry 4000])
        samplePoolAddress true = .ok groups.bytes ∧
      amounts groups.requested = 15000 ∧
      groups.pool.amount = 4999986000 ∧ amounts groups.all = 5000001000) ∧
    (∃ bytes, generateTransactionOutputs .documented
      (sharedRequest [sampleEntry 4000]) samplePoolAddress true =
        .ok bytes) ∧
    ∃ message, generateTransactionOutputs .documented
      (sharedRequest [sampleEntry 4000, sampleEntry 5000000000])
      samplePoolAddress true = .error message := by
  obtain ⟨script, decoded⟩ := samplePoolAddress_decodes
  have total (superblocks : List JsValue) :
      totalReward (sharedRequest superblocks) true = 5000001000 := rfl
  have exact (superblocks : List JsValue) :
      totalReward (sharedRequest superblocks) true < 2 ^ 53 := by
    rw [total]
    decide
  obtain ⟨returned, accepted, -⟩ := @rtm_outputs_conserve_value .documented _
    samplePoolAddress _ (exact [sampleEntry 4000])
  refine ⟨?_, ?_, ?_⟩
  · obtain ⟨template, built⟩ : ∃ template,
        RtmBlockTemplate .documented (sharedRequest [sampleEntry 4000])
          samplePoolAddress 1710000000 = .ok template :=
      exists_of_isOk (by decide +kernel)
    obtain ⟨groups, asked, generated, pool, sum⟩ := returned _ _ built rfl
    have values : [1000, 2000, 3000, 4000, 5000] =
        groups.requested.map fun output => (output.amount : Int) :=
      numbers_injective (requestedAmounts_eq asked)
    have requested : (amounts groups.requested : Int) = 15000 := by
      rw [← sum_amounts, ← values]
      rfl
    rw [requested, total] at pool
    rw [total] at sum
    exact ⟨groups, asked, generated, by omega, by omega, by omega⟩
  · refine accepted _ (sharedGroups_asked decoded) ⟨?_, ?_, ?_⟩ ?_
    · rintro output ⟨⟩
      decide
    · rintro output ⟨⟩
      decide
    · rw [show (sharedGroups script).all.length = 7 from rfl]
      decide
    · have requested : amounts (sharedGroups script).requested =
          [1000, 2000, 3000, 4000, 5000].sum := rfl
      rw [total, requested]
      decide
  · exact (rtm_outputs_conserve_value (exact _)).2.2
      [1000, 2000, 3000, 4000, 5000000000] ⟨_, rfl⟩ (by decide)

/-- A commitment that is no text is refused, and so are scripts and a number of
outputs that `varIntBuffer` cannot count. -/
theorem rtm_outputs_refused :
    (requestedAmounts (sampleRequest (.number 5)) false = [] ∧
      totalReward (sampleRequest (.number 5)) false = 5000000000 ∧
      (∃ script, BitcoinUtils.addressToScript .documented samplePoolAddress =
        .ok script) ∧
      ∃ message, generateTransactionOutputs .documented
        (sampleRequest (.number 5)) samplePoolAddress false =
          .error message) ∧
    (∃ message, generateTransactionOutputs .documented
      { sampleRequest .undefined with
        defaultWitnessCommitment :=
          .string (toHex (List.replicate (2 ^ 32) 0)) }
      samplePoolAddress false = .error message) ∧
    (∃ message, generateTransactionOutputs .documented
      { sampleRequest .undefined with
        coinbasedevreward :=
          .object [(.value, .number 1000),
            (.scriptpubkey, .string (toHex (List.replicate (2 ^ 32) 0)))] }
      samplePoolAddress true = .error message) ∧
    (∃ output, EntryAsks .documented (sampleEntry 0) output ∧
      output.amount = 0) ∧
    ∃ message, generateTransactionOutputs .documented
      { sampleRequest .undefined with
        superblock := .array (List.replicate 0xffffffff (sampleEntry 0)) }
      samplePoolAddress false = .error message := by
  obtain ⟨script, decoded⟩ := samplePoolAddress_decodes
  refine ⟨⟨rfl, rfl, ⟨script, decoded⟩, ?_⟩, ?_, ?_,
    ⟨⟨0, script⟩, sampleEntry_asks decoded (Nat.zero_le _), rfl⟩, ?_⟩
  · have refused : (generateTransactionOutputs .documented
        (sampleRequest (.number 5)) samplePoolAddress false).isOk = false := by
      decide +kernel
    cases generated : generateTransactionOutputs .documented
        (sampleRequest (.number 5)) samplePoolAddress false with
    | error message => exact ⟨message, rfl⟩
    | ok bytes =>
        rw [generated] at refused
        cases refused
  · apply long_commitment_refused
    rw [List.length_replicate]
    decide
  · apply long_devReward_refused
    rw [List.length_replicate]
    decide
  · apply error_of_not_affordable
    intro groups asked affordable
    have number := asked.superblocks.length_eq
    have few := affordable.count
    simp only [superblockEntries, JsValue.truthy, JsValue.entries, if_true,
      List.length_replicate] at number
    simp only [Groups.all, Groups.requested, List.length_append,
      List.length_singleton] at few
    omega

end Rtm

end BlockTemplate
