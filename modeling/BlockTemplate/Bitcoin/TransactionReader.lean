import BlockTemplate.Bitcoin.Node
import BlockTemplate.Wire.Reader

/-!
# Bitcoin transactions

`rtm.js` and `bitcoin_utils.js` each have a reader of transactions.  The two
differ in the varint reader, in the texts of their errors, and in that the one
of `rtm.js` refuses versions and reads an extra payload.  A dialect is such
differences, with one reader for every dialect; the two readers of the sources
are shown to be those of two dialects, and the results about it hold of both.

The reader keeps the bytes of the transaction and, for one with a witness
marker, the bytes without marker and witnesses.
-/

namespace BlockTemplate

structure ParsedInput where
  hash : Bytes
  index : BitVec 32
  script : Bytes
  sequence : BitVec 32
  witness : List Bytes
deriving DecidableEq

structure ParsedOutput where
  valueBuffer : Bytes
  script : Bytes
deriving DecidableEq

/-- The members that both readers return; `rtm.js` leaves out `locktime`, and
`bitcoin_utils.js` has no `payload`. -/
structure ParsedTransaction where
  version : BitVec 32
  ins : List ParsedInput
  outs : List ParsedOutput
  locktime : BitVec 32
  payload : Option Bytes
  rawWithWitness : Bytes
  rawNoWitness : Bytes
deriving DecidableEq

namespace ParsedTransaction

/-- `isZeroHash` and `isCoinbaseHash`. -/
def isZeroHash (hash : Bytes) : Bool :=
  hash.all (· == 0)

def isCoinbase (transaction : ParsedTransaction) : Bool :=
  match transaction.ins with
  | [input] => isZeroHash input.hash
  | _ => false

def hasWitnesses (transaction : ParsedTransaction) : Bool :=
  transaction.ins.any fun input => !input.witness.isEmpty

/-- `__toBuffer(undefined, undefined, allowWitness)`. -/
def toBuffer (transaction : ParsedTransaction) (allowWitness : Bool) : Bytes :=
  if allowWitness && transaction.hasWitnesses then transaction.rawWithWitness
  else transaction.rawNoWitness

end ParsedTransaction

/-- `ADVANCED_TRANSACTION_MARKER` and `ADVANCED_TRANSACTION_FLAG`. -/
def advancedMarker : Bytes := [0x00, 0x01]

/-- What the members of a transaction are read by; `varInt` and `endOfInput`
get the context that an error names.  A varint comes with its size. -/
structure Dialect where
  varInt : String → Bytes → Except String (Nat × Nat)
  endOfInput : String → String
  isSupported : BitVec 32 → Bool
  unsupported : String
  hasPayload : BitVec 32 → Bool

def uint32LE (bytes : Bytes) : BitVec 32 :=
  BitVec.ofNat 32 (leValue bytes)

private theorem uint32LE_leBytes (value : Nat) :
    uint32LE (leBytes 4 value) = BitVec.ofNat 32 value := by
  apply BitVec.eq_of_toNat_eq
  rw [uint32LE, leValue_leBytes, BitVec.toNat_ofNat, BitVec.toNat_ofNat]
  exact Nat.mod_mod_of_dvd value (Nat.dvd_refl _)

theorem uint32LE_of_packUInt32LE {num : Int} {bytes : Bytes}
    (packed : packUInt32LE num = .ok bytes) :
    bytes.length = 4 ∧ uint32LE bytes = BitVec.ofInt 32 num := by
  unfold packUInt32LE writeUIntLE at packed
  split at packed
  · rename_i inRange
    cases packed
    obtain ⟨value, rfl⟩ := Int.eq_ofNat_of_zero_le inRange.1
    refine ⟨length_leBytes _ _, ?_⟩
    rw [Int.toNat_natCast, uint32LE_leBytes, BitVec.ofInt_natCast]
  · cases packed

theorem uint32LE_of_packInt32LE {num : Int} {bytes : Bytes}
    (packed : packInt32LE num = .ok bytes) :
    bytes.length = 4 ∧ uint32LE bytes = BitVec.ofInt 32 num := by
  unfold packInt32LE at packed
  split at packed
  · cases packed
    refine ⟨length_leBytes _ _, ?_⟩
    rw [uint32LE_leBytes]
    apply BitVec.eq_of_toNat_eq
    rw [BitVec.toNat_ofNat, BitVec.toNat_ofInt]
    omega
  · cases packed

namespace Dialect

variable (dialect : Dialect)

def slice (size : Nat) (context : String) : Reader Bytes :=
  Reader.slice size (dialect.endOfInput context)

def readVarInt (context : String) : Reader Nat :=
  Reader.sized (dialect.varInt context)

def varSlice (context : String) : Reader Bytes := do
  let size ← dialect.readVarInt (context ++ " length")
  dialect.slice size context

def readVersion : Reader (BitVec 32) := do
  let version ← dialect.slice 4 "version"
  Reader.require (dialect.isSupported (uint32LE version)) dialect.unsupported
  pure (uint32LE version)

def readInput : Reader ParsedInput := do
  let hash ← dialect.slice 32 "input hash"
  let index ← dialect.slice 4 "input index"
  let script ← dialect.varSlice "input script"
  let sequence ← dialect.slice 4 "input sequence"
  pure
    { hash, index := uint32LE index, script, sequence := uint32LE sequence
      witness := [] }

def readOutput : Reader ParsedOutput := do
  let valueBuffer ← dialect.slice 8 "output value"
  let script ← dialect.varSlice "output script"
  pure { valueBuffer, script }

def readInsOuts : Reader (List ParsedInput × List ParsedOutput) := do
  let inputCount ← dialect.readVarInt "input count"
  let ins ← dialect.readInput.times inputCount
  let outputCount ← dialect.readVarInt "output count"
  let outs ← dialect.readOutput.times outputCount
  pure (ins, outs)

def readWitnessVector : Reader (List Bytes) := do
  let count ← dialect.readVarInt "witness item count"
  (dialect.varSlice "witness item").times count

def readWitnesses : List ParsedInput → Reader (List ParsedInput)
  | [] => pure []
  | input :: ins => do
    let witness ← dialect.readWitnessVector
    let others ← readWitnesses ins
    pure ({ input with witness } :: others)

def readWitnessSection (marked : Bool) (ins : List ParsedInput) :
    Reader (List ParsedInput) :=
  if marked then do
    let ins ← dialect.readWitnesses ins
    Reader.require (ins.any fun input => !input.witness.isEmpty)
      "Transaction has superfluous witness data"
    pure ins
  else pure ins

def readEnding (version : BitVec 32) :
    Reader (BitVec 32 × Option Bytes) := do
  let locktime ← dialect.slice 4 "locktime"
  if dialect.hasPayload version then do
    let payload ← dialect.varSlice "extra payload"
    pure (uint32LE locktime, some payload)
  else pure (uint32LE locktime, none)

/-- What is read before the bytes of the whole transaction are known:
`stripped` is the concatenation of the slices around marker and witnesses. -/
structure Fields where
  version : BitVec 32
  marked : Bool
  ins : List ParsedInput
  outs : List ParsedOutput
  locktime : BitVec 32
  payload : Option Bytes
  stripped : Bytes

def Fields.transaction (fields : Fields) (rawWithWitness : Bytes) :
    ParsedTransaction where
  version := fields.version
  ins := fields.ins
  outs := fields.outs
  locktime := fields.locktime
  payload := fields.payload
  rawWithWitness := rawWithWitness
  rawNoWitness := if fields.marked then fields.stripped else rawWithWitness

/-- The part of a transaction behind the marker. -/
def readUnmarked (version : BitVec 32 × Bytes) (marked : Bool) :
    Reader Fields := do
  let insOuts ← dialect.readInsOuts.spanned
  let ins ← dialect.readWitnessSection marked insOuts.1.1
  let ending ← (dialect.readEnding version.1).spanned
  pure
    { version := version.1, marked, ins, outs := insOuts.1.2
      locktime := ending.1.1, payload := ending.1.2
      stripped := version.2 ++ insOuts.2 ++ ending.2 }

def readFields : Reader Fields := do
  let version ← dialect.readVersion.spanned
  Reader.marker advancedMarker >>= dialect.readUnmarked version

def readTransaction : Reader ParsedTransaction := do
  let fields ← dialect.readFields.spanned
  pure (fields.1.transaction fields.2)

/-- The varint reader reads CompactSize. -/
class Lawful : Prop where
  varInt_eq_ok : ∀ {context : String} {input : Bytes} {result : Nat × Nat},
    dialect.varInt context input = .ok result ↔
      CompactSize.decode input = some result

variable [lawful : Lawful dialect]

instance local_readVarInt (context : String) :
    Reader.Local (dialect.readVarInt context) where
  consumed := by
    intro input rest value result
    obtain ⟨size, decoded, rfl⟩ := Reader.run_sized_eq_ok.mp result
    obtain ⟨-, inside, again⟩ :=
      CompactSize.decode_take (lawful.varInt_eq_ok.mp decoded)
    refine ⟨input.take size, (List.take_append_drop _ _).symm, ?_⟩
    intro rest
    rw [readVarInt, Reader.run_sized_eq_ok]
    refine ⟨size, lawful.varInt_eq_ok.mpr (again rest), ?_⟩
    exact List.drop_left' (List.length_take_of_le inside)

theorem reads_varInt (context : String) {value : Nat}
    (safe : value ≤ CompactSize.maxSafeInteger) :
    (dialect.readVarInt context).Reads value (CompactSize.encode value) := by
  intro rest
  rw [readVarInt, Reader.run_sized_eq_ok]
  exact ⟨_, lawful.varInt_eq_ok.mpr (CompactSize.decode_encode safe rest),
    List.drop_left⟩

theorem varInt_length_pos {context : String} {value : Nat} {bytes : Bytes}
    (reads : (dialect.readVarInt context).Reads value bytes) :
    0 < bytes.length := by
  obtain ⟨size, decoded, -⟩ := Reader.run_sized_eq_ok.mp reads.run
  obtain ⟨positive, inside, -⟩ :=
    CompactSize.decode_take (lawful.varInt_eq_ok.mp decoded)
  exact positive.trans_le inside

instance local_slice (size : Nat) (context : String) :
    Reader.Local (dialect.slice size context) :=
  Reader.localSlice _ _

instance local_varSlice (context : String) :
    Reader.Local (dialect.varSlice context) :=
  Reader.localBind _ _

instance local_readVersion : Reader.Local dialect.readVersion :=
  Reader.localBind _ _

instance local_readInput : Reader.Local dialect.readInput :=
  Reader.localBind _ _

instance local_readOutput : Reader.Local dialect.readOutput :=
  Reader.localBind _ _

instance local_readInsOuts : Reader.Local dialect.readInsOuts :=
  Reader.localBind _ _

instance local_readWitnessVector : Reader.Local dialect.readWitnessVector :=
  Reader.localBind _ _

instance local_readWitnesses (ins : List ParsedInput) :
    Reader.Local (dialect.readWitnesses ins) := by
  induction ins with
  | nil => exact Reader.localPure []
  | cons input ins ih =>
      have others := ih
      unfold readWitnesses
      infer_instance

instance local_readWitnessSection (marked : Bool) (ins : List ParsedInput) :
    Reader.Local (dialect.readWitnessSection marked ins) :=
  Reader.localIte _ _ _

instance local_readEnding (version : BitVec 32) :
    Reader.Local (dialect.readEnding version) :=
  Reader.localBind _ _

instance local_readUnmarked (version : BitVec 32 × Bytes) (marked : Bool) :
    Reader.Local (dialect.readUnmarked version marked) :=
  Reader.localBind _ _

/-- The two counts. -/
theorem two_le_of_reads_insOuts
    {insOuts : List ParsedInput × List ParsedOutput} {bytes : Bytes}
    (reads : dialect.readInsOuts.Reads insOuts bytes) : 2 ≤ bytes.length := by
  obtain ⟨_, inputCount, _, rfl, inputReads, reads⟩ := Reader.reads_bind.mp reads
  obtain ⟨_, _, _, rfl, -, reads⟩ := Reader.reads_bind.mp reads
  obtain ⟨_, outputCount, _, rfl, outputReads, -⟩ := Reader.reads_bind.mp reads
  have := dialect.varInt_length_pos inputReads
  have := dialect.varInt_length_pos outputReads
  simp only [List.length_append]
  omega

theorem marker_le_of_reads_unmarked
    {version : BitVec 32 × Bytes} {marked : Bool} {fields : Fields}
    {bytes : Bytes}
    (reads : (dialect.readUnmarked version marked).Reads fields bytes) :
    advancedMarker.length ≤ bytes.length := by
  obtain ⟨⟨insOuts, span⟩, _, _, rfl, insOutsReads, -⟩ :=
    Reader.reads_bind.mp reads
  obtain ⟨rfl, insOutsReads⟩ := Reader.reads_spanned.mp insOutsReads
  have enough := dialect.two_le_of_reads_insOuts insOutsReads
  rw [List.length_append]
  exact enough.trans (Nat.le_add_right _ _)

/-- Behind the version at least two bytes are taken, so that the search for
the marker looks at none that is not. -/
instance local_marker (version : BitVec 32 × Bytes) :
    Reader.Local
      (Reader.marker advancedMarker >>= dialect.readUnmarked version) :=
  Reader.local_marker_bind fun _ _ reads =>
    dialect.marker_le_of_reads_unmarked reads

instance local_readFields : Reader.Local dialect.readFields :=
  Reader.localBind _ _

instance local_readTransaction : Reader.Local dialect.readTransaction :=
  Reader.localBind _ _

theorem reads_transaction {transaction : ParsedTransaction} {bytes : Bytes} :
    dialect.readTransaction.Reads transaction bytes ↔
      ∃ fields : Fields, fields.transaction bytes = transaction ∧
        dialect.readFields.Reads fields bytes := by
  constructor
  · intro reads
    obtain ⟨⟨fields, span⟩, _, _, rfl, fieldsReads, reads⟩ :=
      Reader.reads_bind.mp reads
    obtain ⟨rfl, rfl⟩ := Reader.reads_pure.mp reads
    obtain ⟨rfl, fieldsReads⟩ := Reader.reads_spanned.mp fieldsReads
    rw [List.append_nil]
    exact ⟨fields, rfl, fieldsReads⟩
  · rintro ⟨fields, rfl, reads⟩
    intro rest
    rw [readTransaction, Reader.run_bind_eq_ok]
    exact ⟨(fields, bytes), rest, reads.spanned rest, rfl⟩

/-- A transaction keeps the bytes that it was read from. -/
theorem rawWithWitness_of_reads
    {transaction : ParsedTransaction} {bytes : Bytes}
    (reads : dialect.readTransaction.Reads transaction bytes) :
    transaction.rawWithWitness = bytes := by
  obtain ⟨fields, rfl, -⟩ := dialect.reads_transaction.mp reads
  rfl

omit lawful in
theorem version_of_readVersion {version : BitVec 32} {bytes : Bytes}
    (reads : dialect.readVersion.Reads version bytes) :
    version = uint32LE bytes ∧ bytes.length = 4 ∧
      dialect.isSupported (uint32LE bytes) = true := by
  obtain ⟨slice, _, _, rfl, sliceReads, checkedReads⟩ :=
    Reader.reads_bind.mp reads
  obtain ⟨rfl, size⟩ := Reader.length_of_reads_slice sliceReads
  obtain ⟨⟨⟩, _, _, rfl, supportedReads, built⟩ :=
    Reader.reads_bind.mp checkedReads
  obtain ⟨supported, rfl⟩ := Reader.reads_require.mp supportedReads
  obtain ⟨rfl, rfl⟩ := Reader.reads_pure.mp built
  rw [List.append_nil, List.append_nil]
  exact ⟨rfl, size, supported⟩

/-- A transaction starts with a version that is supported. -/
theorem version_of_reads
    {transaction : ParsedTransaction} {bytes : Bytes}
    (reads : dialect.readTransaction.Reads transaction bytes) :
    ∃ version after, bytes = version ++ after ∧ version.length = 4 ∧
      dialect.isSupported (uint32LE version) = true := by
  obtain ⟨fields, -, fieldsReads⟩ := dialect.reads_transaction.mp reads
  obtain ⟨⟨version, span⟩, _, _, rfl, versionReads, -⟩ :=
    Reader.reads_bind.mp fieldsReads
  obtain ⟨rfl, versionReads⟩ := Reader.reads_spanned.mp versionReads
  obtain ⟨-, size, supported⟩ := dialect.version_of_readVersion versionReads
  exact ⟨span, _, rfl, size, supported⟩

/-- A byte string behind its length. -/
def sizedBytes (bytes : Bytes) : Bytes :=
  CompactSize.encode bytes.length ++ bytes

omit lawful in
theorem reads_slice {size : Nat} (context : String) {bytes : Bytes}
    (length : bytes.length = size) :
    (dialect.slice size context).Reads bytes bytes := by
  subst length
  exact Reader.reads_slice _ bytes

theorem reads_varSlice (context : String) {bytes : Bytes}
    (safe : bytes.length ≤ CompactSize.maxSafeInteger) :
    (dialect.varSlice context).Reads bytes (sizedBytes bytes) :=
  (dialect.reads_varInt _ safe).bind (dialect.reads_slice _ rfl)

omit lawful in
theorem reads_version {version : Bytes} (size : version.length = 4)
    (supported : dialect.isSupported (uint32LE version) = true) :
    dialect.readVersion.Reads (uint32LE version) version := by
  rw [← List.append_nil version]
  apply (dialect.reads_slice _ size).bind
  apply Reader.Reads.require_bind supported
  exact Reader.reads_pure.mpr ⟨congrArg _ (List.append_nil _), rfl⟩

theorem reads_input
    {hash index script sequence : Bytes} (hashSize : hash.length = 32)
    (indexSize : index.length = 4) (sequenceSize : sequence.length = 4)
    (safe : script.length ≤ CompactSize.maxSafeInteger) :
    dialect.readInput.Reads
      { hash, index := uint32LE index, script, sequence := uint32LE sequence
        witness := [] }
      (hash ++ (index ++ (sizedBytes script ++ sequence))) := by
  apply (dialect.reads_slice _ hashSize).bind
  apply (dialect.reads_slice _ indexSize).bind
  apply (dialect.reads_varSlice _ safe).bind
  exact (dialect.reads_slice _ sequenceSize).bind_pure rfl

theorem reads_output
    {valueBuffer script : Bytes} (valueSize : valueBuffer.length = 8)
    (safe : script.length ≤ CompactSize.maxSafeInteger) :
    dialect.readOutput.Reads { valueBuffer, script }
      (valueBuffer ++ sizedBytes script) := by
  apply (dialect.reads_slice _ valueSize).bind
  exact (dialect.reads_varSlice _ safe).bind_pure rfl

theorem reads_insOuts
    {ins : List ParsedInput} {outs : List ParsedOutput}
    {inParts outParts : List Bytes}
    (insSafe : ins.length ≤ CompactSize.maxSafeInteger)
    (outsSafe : outs.length ≤ CompactSize.maxSafeInteger)
    (insReads : List.Forall₂ dialect.readInput.Reads ins inParts)
    (outsReads : List.Forall₂ dialect.readOutput.Reads outs outParts) :
    dialect.readInsOuts.Reads (ins, outs)
      (CompactSize.encode ins.length ++ (inParts.flatten ++
        (CompactSize.encode outs.length ++ outParts.flatten))) := by
  apply (dialect.reads_varInt _ insSafe).bind
  apply (Reader.reads_times insReads).bind
  apply (dialect.reads_varInt _ outsSafe).bind
  exact (Reader.reads_times outsReads).bind_pure rfl

omit lawful in
/-- Behind the marker, the witnesses of the inputs follow the outputs. -/
theorem reads_readUnmarked
    {version : BitVec 32 × Bytes} {marked : Bool}
    {body witnesses ending : Bytes} {ins signed : List ParsedInput}
    {outs : List ParsedOutput} {locktime : BitVec 32}
    {payload : Option Bytes}
    (bodyReads : dialect.readInsOuts.Reads (ins, outs) body)
    (witnessReads : (dialect.readWitnessSection marked ins).Reads signed
      witnesses)
    (endingReads : (dialect.readEnding version.1).Reads (locktime, payload)
      ending) :
    (dialect.readUnmarked version marked).Reads
      { version := version.1, marked, ins := signed, outs, locktime, payload
        stripped := version.2 ++ body ++ ending }
      (body ++ (witnesses ++ ending)) := by
  apply bodyReads.spanned.bind
  apply witnessReads.bind
  exact endingReads.spanned.bind_pure rfl

private theorem reads_witnessVector {items : List Bytes}
    (countSafe : items.length ≤ CompactSize.maxSafeInteger)
    (safe : ∀ item ∈ items, item.length ≤ CompactSize.maxSafeInteger) :
    dialect.readWitnessVector.Reads items
      (CompactSize.encode items.length ++ (items.map sizedBytes).flatten) := by
  have parts : List.Forall₂ (dialect.varSlice "witness item").Reads items
      (items.map sizedBytes) := by
    rw [List.forall₂_map_right_iff, List.forall₂_same]
    intro item member
    exact dialect.reads_varSlice _ (safe item member)
  exact (dialect.reads_varInt _ countSafe).bind (Reader.reads_times parts)

theorem reads_witnesses_single (input : ParsedInput) {items : List Bytes}
    (countSafe : items.length ≤ CompactSize.maxSafeInteger)
    (safe : ∀ item ∈ items, item.length ≤ CompactSize.maxSafeInteger) :
    (dialect.readWitnesses [input]).Reads [{ input with witness := items }]
      (CompactSize.encode items.length ++ (items.map sizedBytes).flatten) := by
  have others : (dialect.readWitnesses []).Reads [] [] :=
    Reader.reads_pure.mpr ⟨rfl, rfl⟩
  rw [← List.append_nil (CompactSize.encode items.length ++ _)]
  apply (dialect.reads_witnessVector countSafe safe).bind
  exact others.bind_pure rfl

omit lawful in
/-- Behind a version, a count that is not zero is no marker. -/
theorem not_marker_of_count {count : Nat} (positive : 0 < count)
    (body ending : Bytes) :
    ¬advancedMarker <+: CompactSize.encode count ++ body ++ ending := by
  obtain ⟨head, tail, encoded, notZero⟩ :=
    CompactSize.encode_head_ne_zero positive
  rw [encoded]
  rintro ⟨after, same⟩
  exact notZero (List.cons.inj same).1.symm

/-- A transaction without marker. -/
theorem reads_unmarked
    {version body ending : Bytes} {ins : List ParsedInput}
    {outs : List ParsedOutput} {locktime : BitVec 32}
    {payload : Option Bytes}
    (size : version.length = 4)
    (supported : dialect.isSupported (uint32LE version) = true)
    (unmarked : ¬advancedMarker <+: body ++ ending)
    (bodyReads : dialect.readInsOuts.Reads (ins, outs) body)
    (endingReads : (dialect.readEnding (uint32LE version)).Reads
      (locktime, payload) ending) :
    dialect.readTransaction.Reads
      { version := uint32LE version, ins, outs, locktime, payload
        rawWithWitness := version ++ (body ++ ending)
        rawNoWitness := version ++ (body ++ ending) }
      (version ++ (body ++ ending)) := by
  have noWitnesses : (dialect.readWitnessSection false ins).Reads ins [] :=
    Reader.reads_pure.mpr ⟨rfl, rfl⟩
  have fieldsRead :
      (dialect.readUnmarked (uint32LE version, version) false).Reads _
        (body ++ ([] ++ ending)) :=
    dialect.reads_readUnmarked bodyReads noWitnesses endingReads
  have enough := dialect.marker_le_of_reads_unmarked fieldsRead
  rw [reads_transaction]
  exact ⟨_, rfl, (dialect.reads_version size supported).spanned.bind
    (fieldsRead.unmarked enough unmarked)⟩

omit lawful in
/-- A transaction with marker and witnesses. -/
theorem reads_marked
    {version body witnesses ending : Bytes} {ins signed : List ParsedInput}
    {outs : List ParsedOutput} {locktime : BitVec 32}
    {payload : Option Bytes}
    (size : version.length = 4)
    (supported : dialect.isSupported (uint32LE version) = true)
    (bodyReads : dialect.readInsOuts.Reads (ins, outs) body)
    (witnessReads : (dialect.readWitnesses ins).Reads signed witnesses)
    (spends : signed.any (fun input => !input.witness.isEmpty) = true)
    (endingReads : (dialect.readEnding (uint32LE version)).Reads
      (locktime, payload) ending) :
    dialect.readTransaction.Reads
      { version := uint32LE version, ins := signed, outs, locktime, payload
        rawWithWitness :=
          version ++ (advancedMarker ++ (body ++ (witnesses ++ ending)))
        rawNoWitness := version ++ body ++ ending }
      (version ++ (advancedMarker ++ (body ++ (witnesses ++ ending)))) := by
  have sectionReads : (dialect.readWitnessSection true ins).Reads signed
      witnesses := by
    rw [← List.append_nil witnesses]
    apply witnessReads.bind
    apply Reader.Reads.require_bind spends
    exact Reader.reads_pure.mpr ⟨rfl, rfl⟩
  have fieldsRead : (dialect.readUnmarked (uint32LE version, version)
      true).Reads _ (body ++ (witnesses ++ ending)) :=
    dialect.reads_readUnmarked bodyReads sectionReads endingReads
  have reads : dialect.readFields.Reads _
      (version ++ (advancedMarker ++ (body ++ (witnesses ++ ending)))) :=
    (dialect.reads_version size supported).spanned.bind fieldsRead.marked
  intro rest
  rw [readTransaction, Reader.run_bind_eq_ok]
  exact ⟨_, rest, reads.spanned rest, rfl⟩

omit lawful in
/-- A marker in front of a transaction without witnesses. -/
theorem rejects_superfluous
    {version body witnesses : Bytes} {ins unsigned : List ParsedInput}
    {outs : List ParsedOutput}
    (size : version.length = 4)
    (supported : dialect.isSupported (uint32LE version) = true)
    (bodyReads : dialect.readInsOuts.Reads (ins, outs) body)
    (witnessReads : (dialect.readWitnesses ins).Reads unsigned witnesses)
    (missing : unsigned.any (fun input => !input.witness.isEmpty) = false) :
    dialect.readTransaction.Rejects
      (version ++ (advancedMarker ++ (body ++ witnesses)))
      "Transaction has superfluous witness data" := by
  have sectionRejects : (dialect.readWitnessSection true ins).Rejects
      witnesses "Transaction has superfluous witness data" := by
    rw [← List.append_nil witnesses]
    apply witnessReads.rejects_bind
    exact (Reader.rejects_require _ missing).bind _
  have fieldsReject : dialect.readFields.Rejects
      (version ++ (advancedMarker ++ (body ++ witnesses)))
      "Transaction has superfluous witness data" := by
    apply (dialect.reads_version size supported).spanned.rejects_bind
    apply (Reader.reads_marker advancedMarker).rejects_bind
    apply bodyReads.spanned.rejects_bind
    exact sectionRejects.bind _
  exact fieldsReject.spanned.bind _

end Dialect

end BlockTemplate
