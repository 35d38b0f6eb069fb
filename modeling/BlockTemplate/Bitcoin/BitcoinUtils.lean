import BlockTemplate.Bitcoin.Packages
import BlockTemplate.Bitcoin.Anatomy

/-!
# `bitcoin_utils.js`

Addresses, the transaction serializer and the reader of raw Bitcoin
transactions.
-/

namespace BlockTemplate.BitcoinUtils

variable (packages : Packages)

def base58Alphabet : JsString :=
  "123456789ABCDEFGHJKLMNPQRSTUVWXYZabcdefghijkmnopqrstuvwxyz".toList

def maxBase58AddressLength : Nat := 128

def maxBech32AddressLength : Nat := 128

def uint64Max : Int := 2 ^ 64 - 1

def packUInt64LE (value : Int) : Except String Bytes :=
  if value < 0 ∨ uint64Max < value then .error "Invalid uint64 value"
  else .ok (leBytes 8 value.toNat)

def varIntBuffer (n : Nat) : Except String Bytes :=
  if CompactSize.maxSafeInteger < n then .error "Invalid varint value"
  else packages.varuint_encode n

/-- `num * 58n + BigInt(index)` for every character. -/
def base58Number : JsString → Nat → Except String Nat
  | [], num => .ok num
  | char :: rest, num =>
    match base58Alphabet.idxOf? char with
    | none => .error "Invalid base58 character"
    | some index => base58Number rest (num * 58 + index)

def evenHex (hex : JsString) : JsString :=
  if hex.length % 2 ≠ 0 then '0' :: hex else hex

/-- `decodeBase58Check` up to the checksum. -/
def decodeBase58 (value : JsString) : Except String Bytes :=
  if maxBase58AddressLength < value.length then
    .error "Base58 address too long"
  else
    (base58Number value 0).map fun num =>
      let hex := evenHex (toRadix 16 num)
      let decoded := if hex = ['0', '0'] then [] else ofHex hex
      List.replicate (value.takeWhile (· == '1')).length 0 ++ decoded

def decodeBase58Check (value : JsString) : Except String Bytes := do
  let decoded ← decodeBase58 value
  throwIf (decoded.length < 5) "Invalid base58check payload"
  let payload := decoded.take (decoded.length - 4)
  let checksum := decoded.drop (decoded.length - 4)
  let expectedChecksum := (packages.hash256 payload).bytes.take 4
  throwIf (checksum ≠ expectedChecksum) "Invalid base58check checksum"
  pure decoded

def p2pkhScript (pubkeyHash : Bytes) : Except String Bytes :=
  if pubkeyHash.length ≠ 20 then .error "Invalid pubkey hash"
  else .ok ([0x76, 0xa9, 0x14] ++ pubkeyHash ++ [0x88, 0xac])

/-- `slice(1, -4)` of the 25 decoded bytes. -/
def base58AddressToHash160 (addr : JsString) : Except String Bytes := do
  let decoded ← decodeBase58Check packages addr
  throwIf (decoded.length ≠ 25) "Invalid base58 address"
  pure ((decoded.take 21).drop 1)

/-- `fromWords(decode(addr).words.slice(1))`. -/
def bech32Payload (addr : JsString) : Except String Bytes := do
  let words ← packages.bech32_decode addr
  packages.bech32_fromWords (words.drop 1)

/-- What is not a valid base58check address is tried as a bech32 one. -/
def addressToScript (addr : JsValue) : Except String Bytes :=
  match addr with
  | .string addr =>
    if maxBech32AddressLength < addr.length then
      .error "Invalid address length"
    else
      match base58AddressToHash160 packages addr >>= p2pkhScript with
      | .ok script => .ok script
      | .error _ =>
        match bech32Payload packages addr with
        | .error _ => .error "Invalid address"
        | .ok decoded =>
          if decoded.length ≠ 20 then .error "Invalid address"
          else .ok ([0x00, 0x14] ++ decoded)
  | _ => .error "Invalid address"

/-- A member that is left out is `none`. -/
structure InputDescription where
  hash : Bytes
  index : Int
  script : Option Bytes
  sequence : Option Int

structure OutputDescription where
  value : Int
  script : Option Bytes

structure TransactionDescription where
  version : Option Int
  inputs : List InputDescription
  outputs : List OutputDescription
  locktime : Option Int

def serializeInput (input : InputDescription) : Except String Bytes := do
  throwIf (input.hash.length ≠ 32) "Invalid transaction input hash"
  let script := input.script.getD []
  let index ← packUInt32LE input.index
  let size ← varIntBuffer packages script.length
  let sequence ← packUInt32LE (input.sequence.getD 0xffffffff)
  pure (input.hash ++ index ++ size ++ script ++ sequence)

def serializeOutput (output : OutputDescription) : Except String Bytes := do
  let script := output.script.getD []
  let value ← packUInt64LE output.value
  let size ← varIntBuffer packages script.length
  pure (value ++ size ++ script)

def serializeTransaction (tx : TransactionDescription) :
    Except String Bytes := do
  let version ← packInt32LE (tx.version.getD 1)
  let inputCount ← varIntBuffer packages tx.inputs.length
  let inputs ← tx.inputs.mapM (serializeInput packages)
  let outputCount ← varIntBuffer packages tx.outputs.length
  let outputs ← tx.outputs.mapM (serializeOutput packages)
  let locktime ← packUInt32LE (tx.locktime.getD 0)
  pure (version ++ inputCount ++ inputs.flatten ++ outputCount ++
    outputs.flatten ++ locktime)

def unexpectedEnd (context : String) : String :=
  "Unexpected end of transaction " ++ context

def readRawVarInt (context : String) (rest : Bytes) :
    Except String (Nat × Nat) := do
  throwIf rest.isEmpty (unexpectedEnd context)
  let (value, size) ← packages.varuint_decode rest
  throwIf (CompactSize.maxSafeInteger < value)
    ("Invalid transaction " ++ context)
  pure (value, size)

def rawDialect : Dialect where
  varInt := readRawVarInt packages
  endOfInput := unexpectedEnd
  isSupported _ := true
  unsupported := ""
  hasPayload _ := false

def readRawSlice (size : Nat) (context : String) : Reader Bytes :=
  Reader.slice size (unexpectedEnd context)

def readRawVarSlice (context : String) : Reader Bytes := do
  let size ← Reader.sized (readRawVarInt packages (context ++ " length"))
  readRawSlice size context

def readRawWitnessVector : Reader (List Bytes) := do
  let count ← Reader.sized (readRawVarInt packages "witness item count")
  (readRawVarSlice packages "witness item").times count

/-- The body of the loop over the inputs. -/
def readRawInput : Reader ParsedInput := do
  let hash ← readRawSlice 32 "input hash"
  let index ← readRawSlice 4 "input index"
  let script ← readRawVarSlice packages "input script"
  let sequence ← readRawSlice 4 "input sequence"
  pure
    { hash, index := uint32LE index, script, sequence := uint32LE sequence
      witness := [] }

/-- The body of the loop over the outputs. -/
def readRawOutput : Reader ParsedOutput := do
  let valueBuffer ← readRawSlice 8 "output value"
  let script ← readRawVarSlice packages "output script"
  pure { valueBuffer, script }

/-- The loop that sets the witness of each input. -/
def readRawWitnesses : List ParsedInput → Reader (List ParsedInput)
  | [] => pure []
  | input :: ins => do
    let witness ← readRawWitnessVector packages
    let others ← readRawWitnesses ins
    pure ({ input with witness } :: others)

/-- `readRawBitcoinTransaction` on the buffer from the offset on. -/
def readRawBitcoinTransaction : Reader ParsedTransaction := do
  let fields ← Reader.spanned do
    let version ← Reader.spanned do
      let versionSlice ← readRawSlice 4 "version"
      pure (uint32LE versionSlice)
    let hasWitnessMarker ← Reader.marker advancedMarker
    let insOuts ← Reader.spanned do
      let inputCount ← Reader.sized (readRawVarInt packages "input count")
      let ins ← (readRawInput packages).times inputCount
      let outputCount ← Reader.sized (readRawVarInt packages "output count")
      let outs ← (readRawOutput packages).times outputCount
      pure (ins, outs)
    let ins ← (
      if hasWitnessMarker then do
        let ins ← readRawWitnesses packages insOuts.1.1
        Reader.require (ins.any fun input => !input.witness.isEmpty)
          "Transaction has superfluous witness data"
        pure ins
      else pure insOuts.1.1)
    let locktime ← (readRawSlice 4 "locktime").spanned
    pure (
      { version := version.1, marked := hasWitnessMarker, ins
        outs := insOuts.1.2, locktime := uint32LE locktime.1, payload := none
        stripped := version.2 ++ insOuts.2 ++ locktime.2 } : Dialect.Fields)
  pure (fields.1.transaction fields.2)

private theorem readRawWitnesses_eq (ins : List ParsedInput) :
    readRawWitnesses packages ins =
      (rawDialect packages).readWitnesses ins := by
  induction ins with
  | nil => rfl
  | cons input ins ih =>
      rw [readRawWitnesses, Dialect.readWitnesses, ih]
      rfl

/-- The reader is that of its dialect. -/
theorem readRawBitcoinTransaction_eq :
    readRawBitcoinTransaction packages =
      (rawDialect packages).readTransaction := by
  have ending (version : BitVec 32) :
      ((rawDialect packages).readEnding version).spanned =
        (readRawSlice 4 "locktime").spanned >>= fun locktime =>
          pure ((uint32LE locktime.1, none), locktime.2) :=
    Reader.spanned_bind_pure _ _
  unfold readRawBitcoinTransaction Dialect.readTransaction Dialect.readFields
    Dialect.readUnmarked
  simp only [readRawWitnesses_eq, ending, bind_assoc, pure_bind]
  rfl

variable {packages} in
/-- Neither check of `readRawVarInt` refuses what `varuint-bitcoin` reads. -/
theorem rawDialect_lawful (documented : packages.VaruintDocumented) :
    (rawDialect packages).Lawful where
  varInt_eq_ok := by
    intro context input result
    rw [← documented.decode]
    constructor
    · intro read
      obtain ⟨-, read⟩ := throwIf_bind_eq_ok.mp read
      obtain ⟨⟨value, size⟩, decoded, read⟩ := except_bind_eq_ok.mp read
      obtain ⟨-, read⟩ := throwIf_bind_eq_ok.mp read
      cases read
      exact decoded
    · intro decoded
      have isDecoded := (documented.decode _ _).mp decoded
      have safe := CompactSize.decode_le isDecoded
      apply throwIf_bind_eq_ok.mpr
      refine ⟨?_, except_bind_eq_ok.mpr ⟨result, decoded, ?_⟩⟩
      · cases input with
        | nil => cases isDecoded
        | cons first rest => rfl
      · exact throwIf_bind_eq_ok.mpr ⟨decide_eq_false safe.not_gt, rfl⟩

def InputDescription.parsed (input : InputDescription) : ParsedInput where
  hash := input.hash
  index := BitVec.ofInt 32 input.index
  script := input.script.getD []
  sequence := BitVec.ofInt 32 (input.sequence.getD 0xffffffff)
  witness := []

def OutputDescription.parsed (output : OutputDescription) : ParsedOutput where
  valueBuffer := leBytes 8 output.value.toNat
  script := output.script.getD []

def TransactionDescription.parsed (tx : TransactionDescription)
    (bytes : Bytes) : ParsedTransaction where
  version := BitVec.ofInt 32 (tx.version.getD 1)
  ins := tx.inputs.map InputDescription.parsed
  outs := tx.outputs.map OutputDescription.parsed
  locktime := BitVec.ofInt 32 (tx.locktime.getD 0)
  payload := none
  rawWithWitness := bytes
  rawNoWitness := bytes

section Written

variable {packages} (documented : packages.VaruintDocumented)

include documented

theorem varIntBuffer_eq_ok {n : Nat} {bytes : Bytes}
    (written : varIntBuffer packages n = .ok bytes) :
    n ≤ CompactSize.maxSafeInteger ∧ bytes = CompactSize.encode n := by
  unfold varIntBuffer at written
  split at written
  · cases written
  · rename_i safe
    rw [documented.encode n (Nat.le_of_not_lt safe)] at written
    cases written
    exact ⟨Nat.le_of_not_lt safe, rfl⟩

/-- The parts of an input. -/
theorem serializeInput_eq_ok {input : InputDescription} {bytes : Bytes}
    (written : serializeInput packages input = .ok bytes) :
    ∃ index sequence, input.hash.length = 32 ∧
      packUInt32LE input.index = .ok index ∧
      packUInt32LE (input.sequence.getD 0xffffffff) = .ok sequence ∧
      (input.script.getD []).length ≤ CompactSize.maxSafeInteger ∧
      bytes = input.hash ++ index ++
        Dialect.sizedBytes (input.script.getD []) ++ sequence := by
  obtain ⟨hashSize, written⟩ := throwIf_bind_eq_ok.mp written
  obtain ⟨index, indexOk, written⟩ := except_bind_eq_ok.mp written
  obtain ⟨size, sizeOk, written⟩ := except_bind_eq_ok.mp written
  obtain ⟨sequence, sequenceOk, written⟩ := except_bind_eq_ok.mp written
  obtain ⟨safe, rfl⟩ := varIntBuffer_eq_ok documented sizeOk
  obtain rfl := Except.ok.inj written
  refine ⟨index, sequence, not_not.mp (of_decide_eq_false hashSize), indexOk,
    sequenceOk, safe, ?_⟩
  simp only [Dialect.sizedBytes, List.append_assoc]

theorem reads_serializeInput {input : InputDescription} {bytes : Bytes}
    (written : serializeInput packages input = .ok bytes) :
    (rawDialect packages).readInput.Reads input.parsed bytes := by
  have := rawDialect_lawful documented
  obtain ⟨index, sequence, hashSize, indexOk, sequenceOk, safe, rfl⟩ :=
    serializeInput_eq_ok documented written
  obtain ⟨indexSize, indexValue⟩ := uint32LE_of_packUInt32LE indexOk
  obtain ⟨sequenceSize, sequenceValue⟩ := uint32LE_of_packUInt32LE sequenceOk
  have reads := (rawDialect packages).reads_input hashSize indexSize
    sequenceSize safe
  rw [indexValue, sequenceValue] at reads
  simp only [List.append_assoc] at reads ⊢
  exact reads

private theorem reads_serializeOutput
    {output : OutputDescription} {bytes : Bytes}
    (written : serializeOutput packages output = .ok bytes) :
    (rawDialect packages).readOutput.Reads output.parsed bytes := by
  have := rawDialect_lawful documented
  obtain ⟨value, valueOk, written⟩ := except_bind_eq_ok.mp written
  obtain ⟨size, sizeOk, written⟩ := except_bind_eq_ok.mp written
  obtain ⟨safe, rfl⟩ := varIntBuffer_eq_ok documented sizeOk
  cases written
  unfold packUInt64LE at valueOk
  split at valueOk
  · cases valueOk
  · cases valueOk
    have reads := (rawDialect packages).reads_output
      (length_leBytes 8 output.value.toNat) safe
    rw [Dialect.sizedBytes] at reads
    simp only [List.append_assoc] at reads ⊢
    exact reads

/-- The parts of what `serializeTransaction` writes: there is no marker. -/
theorem anatomy_of_serializeTransaction
    {tx : TransactionDescription} {bytes : Bytes}
    (written : serializeTransaction packages tx = .ok bytes)
    (spends : tx.inputs ≠ []) :
    ∃ anatomy : Anatomy, ∃ inputs outputs,
      anatomy.Of (rawDialect packages) (tx.parsed bytes)
        (tx.inputs.map InputDescription.parsed) ∧
      anatomy.bytes = bytes ∧ anatomy.marked = false ∧
      anatomy.body = CompactSize.encode tx.inputs.length ++
        (List.flatten inputs ++
          (CompactSize.encode tx.outputs.length ++ outputs)) ∧
      tx.inputs.length ≤ CompactSize.maxSafeInteger ∧
      tx.outputs.length ≤ CompactSize.maxSafeInteger ∧
      List.Forall₂ (fun input part => serializeInput packages input = .ok part)
        tx.inputs inputs := by
  have := rawDialect_lawful documented
  obtain ⟨version, versionOk, written⟩ := except_bind_eq_ok.mp written
  obtain ⟨inputCount, inputCountOk, written⟩ := except_bind_eq_ok.mp written
  obtain ⟨inputs, inputsOk, written⟩ := except_bind_eq_ok.mp written
  obtain ⟨outputCount, outputCountOk, written⟩ := except_bind_eq_ok.mp written
  obtain ⟨outputs, outputsOk, written⟩ := except_bind_eq_ok.mp written
  obtain ⟨locktime, locktimeOk, written⟩ := except_bind_eq_ok.mp written
  obtain rfl := Except.ok.inj written
  obtain ⟨insSafe, rfl⟩ := varIntBuffer_eq_ok documented inputCountOk
  obtain ⟨outsSafe, rfl⟩ := varIntBuffer_eq_ok documented outputCountOk
  obtain ⟨versionSize, versionValue⟩ := uint32LE_of_packInt32LE versionOk
  obtain ⟨locktimeSize, locktimeValue⟩ := uint32LE_of_packUInt32LE locktimeOk
  have insWritten := forall₂_of_mapM_eq_ok inputsOk
  have insReads : List.Forall₂ (rawDialect packages).readInput.Reads
      (tx.inputs.map InputDescription.parsed) inputs := by
    rw [List.forall₂_map_left_iff]
    exact insWritten.imp fun _ _ => reads_serializeInput documented
  have outsReads : List.Forall₂ (rawDialect packages).readOutput.Reads
      (tx.outputs.map OutputDescription.parsed) outputs := by
    rw [List.forall₂_map_left_iff]
    exact (forall₂_of_mapM_eq_ok outputsOk).imp fun _ _ =>
      reads_serializeOutput documented
  have bodyReads := (rawDialect packages).reads_insOuts
    (by rwa [List.length_map]) (by rwa [List.length_map]) insReads outsReads
  rw [List.length_map, List.length_map] at bodyReads
  have endingReads : ((rawDialect packages).readEnding (uint32LE version)).Reads
      (BitVec.ofInt 32 (tx.locktime.getD 0), none) locktime := by
    rw [← locktimeValue]
    exact ((rawDialect packages).reads_slice _ locktimeSize).bind_pure rfl
  let anatomy : Anatomy :=
    { version, marked := false
      body := CompactSize.encode tx.inputs.length ++ (inputs.flatten ++
        (CompactSize.encode tx.outputs.length ++ outputs.flatten))
      witnesses := [], ending := locktime }
  have bytes : anatomy.bytes = version ++
      CompactSize.encode tx.inputs.length ++ inputs.flatten ++
        CompactSize.encode tx.outputs.length ++ outputs.flatten ++
          locktime := by
    simp only [Anatomy.bytes, Anatomy.marker, anatomy,
      if_neg Bool.false_ne_true, List.nil_append, List.append_assoc]
  have someRead : tx.inputs.map InputDescription.parsed ≠ [] := by
    rwa [Ne, List.map_eq_nil_iff]
  refine ⟨anatomy, inputs, outputs.flatten, ⟨versionSize, rfl, bodyReads,
    Reader.reads_pure.mpr ⟨rfl, rfl⟩, endingReads, versionValue.symm,
    bytes.symm, ?_, fun _ => ?_⟩, bytes, rfl, rfl, insSafe, outsSafe,
    insWritten⟩
  · exact bytes.symm
  · exact Dialect.not_marker_of_reads_insOuts bodyReads someRead _

/-- What `serializeTransaction` writes is read as what was described. -/
theorem reads_serializeTransaction
    {tx : TransactionDescription} {bytes : Bytes}
    (written : serializeTransaction packages tx = .ok bytes)
    (spends : tx.inputs ≠ []) :
    (readRawBitcoinTransaction packages).Reads (tx.parsed bytes) bytes := by
  have := rawDialect_lawful documented
  obtain ⟨anatomy, _, _, parts, same, -⟩ :=
    anatomy_of_serializeTransaction documented written spends
  have reads := Dialect.reads_of_anatomy parts
  rwa [same, ← readRawBitcoinTransaction_eq] at reads

end Written

end BlockTemplate.BitcoinUtils
