import BlockTemplate.Bitcoin.Packages
import BlockTemplate.Bitcoin.TransactionReader

/-!
# The transactions of `rtm.js`

The reader of transactions, and the search for the next one behind bytes that
the reader does not know.
-/

namespace BlockTemplate.Rtm

def maxRecoverableTransactionTailBytes : Nat := 64

/-- The value at the front of the bytes and its size. -/
def readVarInt (rest : Bytes) : Except String (Nat × Nat) :=
  match rest with
  | [] => .error "Unexpected end of varint"
  | first :: after =>
    if first.toNat < 0xfd then .ok (first.toNat, 1)
    else if first = 0xfd then
      if rest.length < 3 then .error "Unexpected end of varint"
      else .ok (leValue (after.take 2), 3)
    else if first = 0xfe then
      if rest.length < 5 then .error "Unexpected end of varint"
      else .ok (leValue (after.take 4), 5)
    else if rest.length < 9 then .error "Unexpected end of varint"
    else if CompactSize.maxSafeInteger < leValue (after.take 8) then
      .error "Varint exceeds safe integer range"
    else .ok (leValue (after.take 8), 9)

def unexpectedEnd (context : String) : String :=
  "Unexpected end of RTM transaction: " ++ context

def txVersion (version : BitVec 32) : Nat :=
  (version &&& 0xffff).toNat

def txType (version : BitVec 32) : Nat :=
  (version >>> 16).toNat

def isSupportedRtmTransactionVersion (version : BitVec 32) : Bool :=
  1 ≤ txVersion version && txVersion version ≤ 3 &&
    (3 ≤ txVersion version || txType version == 0)

def dialect (readPayload : Bool) : Dialect where
  varInt _ := readVarInt
  endOfInput := unexpectedEnd
  isSupported := isSupportedRtmTransactionVersion
  unsupported := "Unsupported RTM transaction version"
  hasPayload version :=
    readPayload && txVersion version == 3 && txType version != 0

def readSlice (size : Nat) (context : String) : Reader Bytes :=
  Reader.slice size (unexpectedEnd context)

def readTxVarInt : Reader Nat :=
  Reader.sized readVarInt

def readVarSlice (context : String) : Reader Bytes := do
  let size ← readTxVarInt
  readSlice size context

def readWitnessVector : Reader (List Bytes) := do
  let count ← readTxVarInt
  (readVarSlice "witness item").times count

/-- The body of the loop over the inputs. -/
def readInput : Reader ParsedInput := do
  let hash ← readSlice 32 "input hash"
  let index ← readSlice 4 "input index"
  let script ← readVarSlice "input script"
  let sequence ← readSlice 4 "input sequence"
  pure
    { hash, index := uint32LE index, script, sequence := uint32LE sequence
      witness := [] }

/-- The body of the loop over the outputs. -/
def readOutput : Reader ParsedOutput := do
  let valueBuffer ← readSlice 8 "output value"
  let script ← readVarSlice "output script"
  pure { valueBuffer, script }

/-- The loop that sets the witness of each input. -/
def readWitnesses : List ParsedInput → Reader (List ParsedInput)
  | [] => pure []
  | input :: ins => do
    let witness ← readWitnessVector
    let others ← readWitnesses ins
    pure ({ input with witness } :: others)

/-- `readTransaction` on the buffer from the offset on. -/
def readTransaction (readPayload : Bool) : Reader ParsedTransaction := do
  let fields ← Reader.spanned do
    let version ← Reader.spanned do
      let versionSlice ← readSlice 4 "version"
      let version := uint32LE versionSlice
      Reader.require (isSupportedRtmTransactionVersion version)
        "Unsupported RTM transaction version"
      pure version
    let hasWitnessMarker ← Reader.marker advancedMarker
    let insOuts ← Reader.spanned do
      let inputCount ← readTxVarInt
      let ins ← readInput.times inputCount
      let outputCount ← readTxVarInt
      let outs ← readOutput.times outputCount
      pure (ins, outs)
    let ins ← (
      if hasWitnessMarker then do
        let ins ← readWitnesses insOuts.1.1
        Reader.require (ins.any fun input => !input.witness.isEmpty)
          "Transaction has superfluous witness data"
        pure ins
      else pure insOuts.1.1)
    let ending ← Reader.spanned do
      let locktime ← readSlice 4 "locktime"
      if readPayload && txVersion version.1 == 3 && txType version.1 != 0 then do
        let payload ← readVarSlice "extra payload"
        pure (uint32LE locktime, some payload)
      else pure (uint32LE locktime, none)
    pure (
      { version := version.1, marked := hasWitnessMarker, ins
        outs := insOuts.1.2, locktime := ending.1.1, payload := ending.1.2
        stripped := version.2 ++ insOuts.2 ++ ending.2 } : Dialect.Fields)
  pure (fields.1.transaction fields.2)

private theorem readWitnesses_eq (readPayload : Bool) (ins : List ParsedInput) :
    readWitnesses ins = (dialect readPayload).readWitnesses ins := by
  induction ins with
  | nil => rfl
  | cons input ins ih =>
      rw [readWitnesses, Dialect.readWitnesses, ih]
      rfl

/-- The reader is that of its dialect. -/
theorem readTransaction_eq (readPayload : Bool) :
    readTransaction readPayload = (dialect readPayload).readTransaction := by
  simp only [readTransaction, readWitnesses_eq readPayload]
  rfl

def canReadTransactionAt (readPayload : Bool) (rest : Bytes) : Bool :=
  if rest.length < 4 then false
  else if !isSupportedRtmTransactionVersion (uint32LE (rest.take 4)) then false
  else
    match (readTransaction readPayload).run rest with
    | .ok (_, after) => after.length < rest.length
    | .error _ => false

/-- How many bytes lie in front of the next transaction; zero when there is
none in the window. -/
def findRecoverableTransactionOffset (readPayload : Bool) (rest : Bytes) :
    Nat :=
  if canReadTransactionAt readPayload rest then 0
  else
    let window := min (rest.length - 4) maxRecoverableTransactionTailBytes
    ((List.range' 1 window).find? fun skipped =>
      canReadTransactionAt readPayload (rest.drop skipped)).getD 0

def extendTransactionRaw (transaction : ParsedTransaction) (tail : Bytes) :
    ParsedTransaction :=
  if tail.isEmpty then transaction
  else
    { transaction with
      rawWithWitness := transaction.rawWithWitness ++ tail
      rawNoWitness := transaction.rawNoWitness ++ tail }

@[simp]
theorem rawWithWitness_extendTransactionRaw
    (transaction : ParsedTransaction) (tail : Bytes) :
    (extendTransactionRaw transaction tail).rawWithWitness =
      transaction.rawWithWitness ++ tail := by
  cases tail with
  | nil => exact (List.append_nil _).symm
  | cons byte tail => rfl

@[simp]
theorem rawNoWitness_extendTransactionRaw
    (transaction : ParsedTransaction) (tail : Bytes) :
    (extendTransactionRaw transaction tail).rawNoWitness =
      transaction.rawNoWitness ++ tail := by
  cases tail with
  | nil => exact (List.append_nil _).symm
  | cons byte tail => rfl

@[simp]
theorem isCoinbase_extendTransactionRaw
    (transaction : ParsedTransaction) (tail : Bytes) :
    (extendTransactionRaw transaction tail).isCoinbase =
      transaction.isCoinbase := by
  cases tail <;> rfl

@[simp]
theorem ins_extendTransactionRaw
    (transaction : ParsedTransaction) (tail : Bytes) :
    (extendTransactionRaw transaction tail).ins = transaction.ins := by
  cases tail <;> rfl

private theorem narrow_is_safe
    {size : Nat} (narrow : size ≤ 4) (bytes : Bytes) :
    ¬CompactSize.maxSafeInteger < leValue (bytes.take size) := by
  have below := leValue_lt (bytes.take size)
  have grows : 256 ^ (bytes.take size).length ≤ 256 ^ 4 :=
    Nat.pow_le_pow_right (by decide)
      ((List.length_take_le _ _).trans narrow)
  have room : 256 ^ 4 ≤ CompactSize.maxSafeInteger := by decide
  omega

/-- `readVarInt` reads CompactSize. -/
theorem readVarInt_toOption (rest : Bytes) :
    (readVarInt rest).toOption = CompactSize.decode rest := by
  cases rest with
  | nil => rfl
  | cons first after =>
      rw [readVarInt, CompactSize.decode, List.length_cons]
      by_cases small : first.toNat < 0xfd
      · rw [if_pos small, if_pos small]
        rfl
      · rw [if_neg small, if_neg small]
        by_cases two : first = 0xfd
        · subst two
          rw [if_pos rfl, show CompactSize.width 0xfd = 2 from rfl,
            if_neg (narrow_is_safe (by decide) after)]
          by_cases short : after.length < 2
          · rw [if_pos (by omega), if_pos short]
            rfl
          · rw [if_neg (by omega), if_neg short]
            rfl
        · rw [if_neg two]
          by_cases four : first = 0xfe
          · subst four
            rw [if_pos rfl, show CompactSize.width 0xfe = 4 from rfl,
              if_neg (narrow_is_safe (by decide) after)]
            by_cases short : after.length < 4
            · rw [if_pos (by omega), if_pos short]
              rfl
            · rw [if_neg (by omega), if_neg short]
              rfl
          · have wide : CompactSize.width first = 8 := by
              rw [CompactSize.width, if_neg two, if_neg four]
            rw [if_neg four, wide]
            by_cases short : after.length < 8
            · rw [if_pos (by omega), if_pos short]
              rfl
            · rw [if_neg (by omega), if_neg short]
              split <;> rfl

instance lawful (readPayload : Bool) : (dialect readPayload).Lawful where
  varInt_eq_ok := by
    intro context input result
    rw [← readVarInt_toOption, toOption_eq_some]
    rfl

instance local_readTransaction (readPayload : Bool) :
    Reader.Local (readTransaction readPayload) :=
  readTransaction_eq readPayload ▸ (dialect readPayload).local_readTransaction

/-- A transaction starts with a version that is supported. -/
theorem version_of_reads
    {readPayload : Bool} {transaction : ParsedTransaction} {bytes : Bytes}
    (reads : (readTransaction readPayload).Reads transaction bytes) :
    ∃ version after, bytes = version ++ after ∧ version.length = 4 ∧
      isSupportedRtmTransactionVersion (uint32LE version) = true := by
  rw [readTransaction_eq] at reads
  exact (dialect readPayload).version_of_reads reads

theorem rawWithWitness_of_reads
    {readPayload : Bool} {transaction : ParsedTransaction} {bytes : Bytes}
    (reads : (readTransaction readPayload).Reads transaction bytes) :
    transaction.rawWithWitness = bytes := by
  rw [readTransaction_eq] at reads
  exact (dialect readPayload).rawWithWitness_of_reads reads

/-- A transaction can be read where the bytes of one start. -/
theorem canReadTransactionAt_iff {readPayload : Bool} {rest : Bytes} :
    canReadTransactionAt readPayload rest = true ↔
      ∃ transaction bytes after, rest = bytes ++ after ∧
        (readTransaction readPayload).Reads transaction bytes := by
  constructor
  · intro readable
    unfold canReadTransactionAt at readable
    split_ifs at readable
    split at readable
    · rename_i transaction after result
      obtain ⟨bytes, rfl, reads⟩ :=
        (local_readTransaction readPayload).consumed result
      exact ⟨transaction, bytes, after, rfl, reads⟩
    · cases readable
  · rintro ⟨transaction, bytes, after, rfl, reads⟩
    obtain ⟨version, ending, rfl, size, supported⟩ := version_of_reads reads
    have enough : ¬(version ++ ending ++ after).length < 4 := by
      simp only [List.length_append]
      omega
    have first : (version ++ ending ++ after).take 4 = version := by
      rw [List.append_assoc]
      exact List.take_left' size
    have shorter : after.length < (version ++ ending ++ after).length := by
      simp only [List.length_append]
      omega
    have accepted : (!isSupportedRtmTransactionVersion (uint32LE version)) =
        false := by
      rw [Bool.not_eq_false']
      exact supported
    rw [canReadTransactionAt, if_neg enough, first, accepted,
      if_neg Bool.false_ne_true, reads after]
    exact decide_eq_true shorter

theorem canReadTransactionAt_eq_false_iff
    {readPayload : Bool} {rest : Bytes} :
    canReadTransactionAt readPayload rest = false ↔
      ∀ result, (readTransaction readPayload).run rest ≠ .ok result := by
  rw [← Bool.not_eq_true, canReadTransactionAt_iff]
  constructor
  · rintro unreadable ⟨transaction, after⟩ result
    obtain ⟨bytes, rfl, reads⟩ :=
      (local_readTransaction readPayload).consumed result
    exact unreadable ⟨transaction, bytes, after, rfl, reads⟩
  · rintro fails ⟨transaction, bytes, after, rfl, reads⟩
    exact fails _ (reads after)

/-- Nothing is skipped where a transaction begins. -/
theorem nothing_skipped
    {readPayload : Bool} {transaction : ParsedTransaction} {bytes : Bytes}
    (reads : (readTransaction readPayload).Reads transaction bytes)
    (rest : Bytes) :
    findRecoverableTransactionOffset readPayload (bytes ++ rest) = 0 := by
  have readable : canReadTransactionAt readPayload (bytes ++ rest) = true :=
    canReadTransactionAt_iff.mpr ⟨transaction, bytes, rest, rfl, reads⟩
  rw [findRecoverableTransactionOffset, if_pos readable]

/-- Bytes that the search takes for the end of the transaction in front of
them. -/
def Recoverable (readPayload : Bool) (tail rest : Bytes) : Prop :=
  tail.length ≤ maxRecoverableTransactionTailBytes ∧
    ∀ skipped < tail.length,
      canReadTransactionAt readPayload ((tail ++ rest).drop skipped) = false

/-- The search gives the first place in its window where a transaction can be
read, if there is one. -/
theorem findRecoverableTransactionOffset_eq_iff
    {readPayload : Bool} {rest : Bytes} {skipped : Nat}
    (positive : 0 < skipped) :
    findRecoverableTransactionOffset readPayload rest = skipped ↔
      skipped ≤ min (rest.length - 4) maxRecoverableTransactionTailBytes ∧
      canReadTransactionAt readPayload (rest.drop skipped) = true ∧
      ∀ before < skipped,
        canReadTransactionAt readPayload (rest.drop before) = false := by
  unfold findRecoverableTransactionOffset
  split_ifs with readable
  · constructor
    · intro zero
      exact absurd zero positive.ne
    · intro found
      have unreadable := found.2.2 0 positive
      rw [List.drop_zero, readable] at unreadable
      cases unreadable
  · rw [Bool.not_eq_true] at readable
    have first : canReadTransactionAt readPayload (rest.drop 0) = false :=
      readable
    constructor
    · intro found
      rw [Option.getD_eq_iff] at found
      rcases found with found | ⟨-, zero⟩
      · obtain ⟨holds, member, others⟩ := List.find?_range'_eq_some.mp found
        rw [List.mem_range'_1] at member
        refine ⟨by omega, holds, ?_⟩
        intro before early
        rcases Nat.eq_zero_or_pos before with rfl | later
        · exact first
        · have fails := others before later early
          rwa [Bool.not_eq_true'] at fails
      · exact absurd zero positive.ne
    · rintro ⟨inside, holds, others⟩
      have found : (List.range' 1 (min (rest.length - 4)
          maxRecoverableTransactionTailBytes)).find? (fun skipped =>
            canReadTransactionAt readPayload (rest.drop skipped)) =
              some skipped := by
        rw [List.find?_range'_eq_some]
        refine ⟨holds, List.mem_range'_1.mpr ⟨positive, by omega⟩, ?_⟩
        intro before _ early
        rw [Bool.not_eq_true']
        exact others before early
      simp only [found, Option.getD_some]

private theorem four_le_of_reads
    {readPayload : Bool} {transaction : ParsedTransaction} {bytes : Bytes}
    (reads : (readTransaction readPayload).Reads transaction bytes) :
    4 ≤ bytes.length := by
  obtain ⟨version, after, rfl, size, -⟩ := version_of_reads reads
  rw [List.length_append, size]
  exact Nat.le_add_right 4 _

/-- In front of a transaction, such bytes are skipped, and no other ones. -/
theorem findRecoverableTransactionOffset_of_reads
    {readPayload : Bool} {transaction : ParsedTransaction} {bytes : Bytes}
    (reads : (readTransaction readPayload).Reads transaction bytes)
    (tail rest : Bytes) :
    findRecoverableTransactionOffset readPayload (tail ++ (bytes ++ rest)) =
        tail.length ↔ Recoverable readPayload tail (bytes ++ rest) := by
  cases tail with
  | nil =>
      have nothing : findRecoverableTransactionOffset readPayload
          ([] ++ (bytes ++ rest)) = 0 := nothing_skipped reads rest
      exact ⟨fun _ => ⟨Nat.zero_le _, nofun⟩, fun _ => nothing⟩
  | cons byte tail =>
      have enough := four_le_of_reads reads
      have size : (byte :: tail ++ (bytes ++ rest)).length =
          (byte :: tail).length + (bytes.length + rest.length) := by
        simp only [List.length_append]
      have readable : canReadTransactionAt readPayload
          ((byte :: tail ++ (bytes ++ rest)).drop (byte :: tail).length) =
            true := by
        rw [List.drop_left]
        exact canReadTransactionAt_iff.mpr ⟨_, _, _, rfl, reads⟩
      have positive : 0 < (byte :: tail).length := Nat.succ_pos _
      rw [findRecoverableTransactionOffset_eq_iff positive]
      constructor
      · rintro ⟨inside, -, unreadable⟩
        exact ⟨inside.trans (Nat.min_le_right _ _), unreadable⟩
      · rintro ⟨short, unreadable⟩
        exact ⟨Nat.le_min.mpr ⟨by omega, short⟩, readable, unreadable⟩

end BlockTemplate.Rtm
