import BlockTemplate.Bitcoin.BitcoinUtils

/-!
# Transactions written and read back

`readRawBitcoinTransaction` after `serializeTransaction`, inside of any other
bytes.  A description with members in their ranges is serialized without an
error, and what is read at the offset of its first byte has the members that
were described.
-/

namespace BlockTemplate.BitcoinUtils

variable (packages : Packages)

/-- The members fit their fields.  The length of an array or of a `Buffer` is
a safe integer in any case. -/
structure InputDescription.InRange (input : InputDescription) : Prop where
  hash : input.hash.length = 32
  index : 0 ≤ input.index ∧ input.index < 2 ^ 32
  script : (input.script.getD []).length ≤ CompactSize.maxSafeInteger
  sequence : 0 ≤ input.sequence.getD 0xffffffff ∧
    input.sequence.getD 0xffffffff < 2 ^ 32

structure OutputDescription.InRange (output : OutputDescription) : Prop where
  value : 0 ≤ output.value ∧ output.value ≤ 2 ^ 64 - 1
  script : (output.script.getD []).length ≤ CompactSize.maxSafeInteger

structure TransactionDescription.InRange (tx : TransactionDescription) :
    Prop where
  version : -2 ^ 31 ≤ tx.version.getD 1 ∧ tx.version.getD 1 < 2 ^ 31
  spends : tx.inputs ≠ []
  inputs : ∀ input ∈ tx.inputs, input.InRange
  outputs : ∀ output ∈ tx.outputs, output.InRange
  inputCount : tx.inputs.length ≤ CompactSize.maxSafeInteger
  outputCount : tx.outputs.length ≤ CompactSize.maxSafeInteger
  locktime : 0 ≤ tx.locktime.getD 0 ∧ tx.locktime.getD 0 < 2 ^ 32

/-- A parsed input has the members that were described. -/
structure ParsedInput.Matches (parsed : ParsedInput)
    (input : InputDescription) : Prop where
  hash : parsed.hash = input.hash
  index : (parsed.index.toNat : Int) = input.index
  script : parsed.script = input.script.getD []
  sequence : (parsed.sequence.toNat : Int) = input.sequence.getD 0xffffffff
  witness : parsed.witness = []

structure ParsedOutput.Matches (parsed : ParsedOutput)
    (output : OutputDescription) : Prop where
  size : parsed.valueBuffer.length = 8
  value : (leValue parsed.valueBuffer : Int) = output.value
  script : parsed.script = output.script.getD []

structure ParsedTransaction.Matches (parsed : ParsedTransaction)
    (tx : TransactionDescription) : Prop where
  version : parsed.version.toInt = tx.version.getD 1
  ins : List.Forall₂ ParsedInput.Matches parsed.ins tx.inputs
  outs : List.Forall₂ ParsedOutput.Matches parsed.outs tx.outputs
  locktime : (parsed.locktime.toNat : Int) = tx.locktime.getD 0

/-- `readRawBitcoinTransaction(buffer, offset)`: the transaction and the
offset after it. -/
def readRawBitcoinTransactionAt (buffer : Bytes) (offset : Nat) :
    Except String (ParsedTransaction × Nat) :=
  ((readRawBitcoinTransaction packages).run (buffer.drop offset)).map
    fun result => (result.1, buffer.length - result.2.length)

private theorem InputDescription.InRange.parsed_matches
    {input : InputDescription}
    (inRange : input.InRange) : ParsedInput.Matches input.parsed input where
  hash := rfl
  index := toNat_ofInt_of_range inRange.index
  script := rfl
  sequence := toNat_ofInt_of_range inRange.sequence
  witness := rfl

private theorem OutputDescription.InRange.parsed_matches
    {output : OutputDescription}
    (inRange : output.InRange) :
    ParsedOutput.Matches output.parsed output where
  size := length_leBytes 8 output.value.toNat
  value := by
    have range := inRange.value
    rw [OutputDescription.parsed, leValue_leBytes, Nat.mod_eq_of_lt]
    · exact Int.toNat_of_nonneg range.1
    · omega
  script := rfl

private theorem TransactionDescription.InRange.parsed_matches
    {tx : TransactionDescription} (inRange : tx.InRange) (bytes : Bytes) :
    ParsedTransaction.Matches (tx.parsed bytes) tx where
  version := by
    have range := inRange.version
    rw [TransactionDescription.parsed, BitVec.toInt_ofInt, Int.bmod_def]
    omega
  ins := by
    rw [TransactionDescription.parsed, List.forall₂_map_left_iff]
    exact List.forall₂_same.mpr fun input member =>
      (inRange.inputs input member).parsed_matches
  outs := by
    rw [TransactionDescription.parsed, List.forall₂_map_left_iff]
    exact List.forall₂_same.mpr fun output member =>
      (inRange.outputs output member).parsed_matches
  locktime := toNat_ofInt_of_range inRange.locktime

private theorem packUInt32LE_of_range
    {num : Int} (range : 0 ≤ num ∧ num < 2 ^ 32) :
    ∃ bytes, packUInt32LE num = .ok bytes :=
  ⟨_, if_pos range⟩

private theorem packInt32LE_of_range {num : Int}
    (range : -2 ^ 31 ≤ num ∧ num < 2 ^ 31) :
    ∃ bytes, packInt32LE num = .ok bytes :=
  ⟨_, if_pos range⟩

private theorem packUInt64LE_of_range {value : Int}
    (range : 0 ≤ value ∧ value ≤ 2 ^ 64 - 1) :
    ∃ bytes, packUInt64LE value = .ok bytes := by
  have inside : ¬(value < 0 ∨ uint64Max < value) := by
    rw [uint64Max]
    omega
  exact ⟨_, if_neg inside⟩

section Documented

variable {packages} (documented : packages.VaruintDocumented)

include documented

private theorem varIntBuffer_of_safe {n : Nat}
    (safe : n ≤ CompactSize.maxSafeInteger) :
    ∃ bytes, varIntBuffer packages n = .ok bytes := by
  rw [varIntBuffer, if_neg (Nat.not_lt.mpr safe)]
  exact ⟨_, documented.encode n safe⟩

private theorem serializeInput_of_inRange {input : InputDescription}
    (inRange : input.InRange) :
    ∃ bytes, serializeInput packages input = .ok bytes := by
  obtain ⟨index, indexOk⟩ := packUInt32LE_of_range inRange.index
  obtain ⟨size, sizeOk⟩ := varIntBuffer_of_safe documented inRange.script
  obtain ⟨sequence, sequenceOk⟩ := packUInt32LE_of_range inRange.sequence
  refine ⟨input.hash ++ index ++ size ++ input.script.getD [] ++ sequence,
    throwIf_bind_eq_ok.mpr ⟨?_, ?_⟩⟩
  · exact decide_eq_false (not_not.mpr inRange.hash)
  · simp only [indexOk, sizeOk, sequenceOk]
    rfl

private theorem serializeOutput_of_inRange {output : OutputDescription}
    (inRange : output.InRange) :
    ∃ bytes, serializeOutput packages output = .ok bytes := by
  obtain ⟨value, valueOk⟩ := packUInt64LE_of_range inRange.value
  obtain ⟨size, sizeOk⟩ := varIntBuffer_of_safe documented inRange.script
  refine ⟨value ++ size ++ output.script.getD [], ?_⟩
  simp only [serializeOutput, valueOk, sizeOk]
  rfl

private theorem serializeTransaction_of_inRange {tx : TransactionDescription}
    (inRange : tx.InRange) :
    ∃ bytes, serializeTransaction packages tx = .ok bytes := by
  obtain ⟨version, versionOk⟩ := packInt32LE_of_range inRange.version
  obtain ⟨inputCount, inputCountOk⟩ :=
    varIntBuffer_of_safe documented inRange.inputCount
  obtain ⟨inputs, inputsOk⟩ := exists_mapM_eq_ok fun input member =>
    serializeInput_of_inRange documented (inRange.inputs input member)
  obtain ⟨outputCount, outputCountOk⟩ :=
    varIntBuffer_of_safe documented inRange.outputCount
  obtain ⟨outputs, outputsOk⟩ := exists_mapM_eq_ok fun output member =>
    serializeOutput_of_inRange documented (inRange.outputs output member)
  obtain ⟨locktime, locktimeOk⟩ := packUInt32LE_of_range inRange.locktime
  refine ⟨version ++ inputCount ++ inputs.flatten ++ outputCount ++
    outputs.flatten ++ locktime, ?_⟩
  simp only [serializeTransaction, versionOk, inputCountOk, inputsOk,
    outputCountOk, outputsOk, locktimeOk]
  rfl

/-- A described transaction is serialized, and is read back from anywhere in a
buffer: the reader stops behind its last byte and returns its members, no
witnesses, and its bytes with and without them. -/
theorem serializeTransaction_round_trip {tx : TransactionDescription}
    (inRange : tx.InRange) (before after : Bytes) :
    ∃ bytes parsed,
      serializeTransaction packages tx = .ok bytes ∧
      readRawBitcoinTransactionAt packages (before ++ bytes ++ after)
        before.length = .ok (parsed, before.length + bytes.length) ∧
      ParsedTransaction.Matches parsed tx ∧
      parsed.hasWitnesses = false ∧
      parsed.rawWithWitness = bytes ∧ parsed.rawNoWitness = bytes := by
  obtain ⟨bytes, written⟩ := serializeTransaction_of_inRange documented inRange
  have reads := reads_serializeTransaction documented written inRange.spends
  refine ⟨bytes, tx.parsed bytes, written, ?_, inRange.parsed_matches bytes, ?_,
    rfl, rfl⟩
  · rw [readRawBitcoinTransactionAt, List.append_assoc, List.drop_left,
      reads after]
    have stop : (before ++ (bytes ++ after)).length - after.length =
        before.length + bytes.length := by
      rw [List.length_append, List.length_append]
      omega
    rw [← stop]
    rfl
  · simp [ParsedTransaction.hasWitnesses, TransactionDescription.parsed,
      InputDescription.parsed]

end Documented

/-- A transaction with the least version and the greatest value. -/
def extremeDescription : TransactionDescription where
  version := some (-2 ^ 31)
  inputs :=
    [{ hash := List.replicate 32 0, index := 2 ^ 32 - 1, script := some [0x51]
       sequence := none }]
  outputs := [{ value := 2 ^ 64 - 1, script := none }]
  locktime := none

theorem serializeTransaction_round_trip_extreme :
    ∃ bytes parsed,
      serializeTransaction .documented extremeDescription = .ok bytes ∧
      readRawBitcoinTransactionAt .documented ([0x02] ++ bytes ++ [0x00, 0x01])
        1 = .ok (parsed, 1 + bytes.length) ∧
      ParsedTransaction.Matches parsed extremeDescription ∧
      parsed.hasWitnesses = false ∧
      parsed.rawWithWitness = bytes ∧ parsed.rawNoWitness = bytes := by
  have inRange : extremeDescription.InRange :=
    { version := by decide
      spends := List.cons_ne_nil _ _
      inputs := by
        intro input member
        rw [List.mem_singleton.mp member]
        exact ⟨by decide, by decide, by decide, by decide⟩
      outputs := by
        intro output member
        rw [List.mem_singleton.mp member]
        exact ⟨by decide, by decide⟩
      inputCount := by decide
      outputCount := by decide
      locktime := by decide }
  exact serializeTransaction_round_trip Packages.documented_varuint inRange
    [0x02] [0x00, 0x01]

end BlockTemplate.BitcoinUtils
