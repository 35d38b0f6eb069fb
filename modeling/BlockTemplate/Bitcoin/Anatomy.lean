import BlockTemplate.Bitcoin.TransactionReader

/-!
# The parts of a transaction

A transaction that is read is a version, perhaps a marker, a body of inputs
and outputs, the witnesses behind a marker, and an ending of lock time and
payload.  The parts can be read one by one, so that what changes in one of
them changes nothing that is read from the others.
-/

namespace BlockTemplate

structure Anatomy where
  version : Bytes
  marked : Bool
  body : Bytes
  witnesses : Bytes
  ending : Bytes

namespace Anatomy

def marker (anatomy : Anatomy) : Bytes :=
  if anatomy.marked then advancedMarker else []

def bytes (anatomy : Anatomy) : Bytes :=
  anatomy.version ++ (anatomy.marker ++ (anatomy.body ++
    (anatomy.witnesses ++ anatomy.ending)))

/-- The bytes outside of marker and witnesses. -/
def outside (anatomy : Anatomy) : Bytes :=
  anatomy.version ++ (anatomy.body ++ anatomy.ending)

/-- What is read from these parts. -/
def fields (anatomy : Anatomy) (transaction : ParsedTransaction) :
    Dialect.Fields where
  version := uint32LE anatomy.version
  marked := anatomy.marked
  ins := transaction.ins
  outs := transaction.outs
  locktime := transaction.locktime
  payload := transaction.payload
  stripped := anatomy.version ++ anatomy.body ++ anatomy.ending

/-- The members of a transaction are read from these parts. -/
structure Of (anatomy : Anatomy) (dialect : Dialect)
    (transaction : ParsedTransaction) (ins : List ParsedInput) : Prop where
  size : anatomy.version.length = 4
  supported : dialect.isSupported (uint32LE anatomy.version) = true
  body : dialect.readInsOuts.Reads (ins, transaction.outs) anatomy.body
  witnesses : (dialect.readWitnessSection anatomy.marked ins).Reads
    transaction.ins anatomy.witnesses
  ending : (dialect.readEnding (uint32LE anatomy.version)).Reads
    (transaction.locktime, transaction.payload) anatomy.ending
  version : transaction.version = uint32LE anatomy.version
  rawWithWitness : transaction.rawWithWitness = anatomy.bytes
  rawNoWitness : transaction.rawNoWitness = anatomy.outside
  unmarked : anatomy.marked = false →
    ¬advancedMarker <+: anatomy.body ++ anatomy.ending

end Anatomy

/-- An input without its witness. -/
def ParsedInput.unsigned (input : ParsedInput) : ParsedInput :=
  { input with witness := [] }

/-- The transaction that the stripped bytes stand for. -/
def ParsedTransaction.stripped (transaction : ParsedTransaction) :
    ParsedTransaction :=
  { transaction with
    ins := transaction.ins.map ParsedInput.unsigned
    rawWithWitness := transaction.rawNoWitness }

namespace Dialect

/-- Whether there is a marker, and where the witnesses lie: the offset of
their first byte, and how many bytes they take. -/
def readWitnessPlace (dialect : Dialect) : Reader (Bool × Nat × Nat) := do
  let version ← dialect.readVersion.spanned
  let marked ← Reader.marker advancedMarker
  let insOuts ← dialect.readInsOuts.spanned
  let witnesses ← (dialect.readWitnessSection marked insOuts.1.1).spanned
  let marker := if marked then advancedMarker.length else 0
  pure (marked, version.2.length + marker + insOuts.2.length,
    witnesses.2.length)

/-- The bytes of a transaction outside of its marker and its witnesses. -/
def outsideWitnesses (dialect : Dialect) (raw : Bytes) :
    Except String Bytes :=
  (dialect.readWitnessPlace.run raw).map fun result =>
    let (marked, start, size) := result.1
    raw.take 4 ++ (raw.take start).drop (if marked then 6 else 4) ++
      raw.drop (start + size)

variable {dialect : Dialect} [lawful : Lawful dialect]

omit lawful in
theorem witnesses_of_unmarked {ins signed : List ParsedInput} {bytes : Bytes}
    (reads : (dialect.readWitnessSection false ins).Reads signed bytes) :
    signed = ins ∧ bytes = [] :=
  Reader.reads_pure.mp reads

/-- What is read has such parts. -/
theorem anatomy_of_reads
    {transaction : ParsedTransaction} {bytes : Bytes}
    (reads : dialect.readTransaction.Reads transaction bytes) :
    ∃ anatomy : Anatomy, ∃ ins, anatomy.Of dialect transaction ins ∧
      anatomy.bytes = bytes := by
  obtain ⟨fields, rfl, fieldsReads⟩ := dialect.reads_transaction.mp reads
  obtain ⟨⟨version, slice⟩, _, rest, rfl, versionReads, markedReads⟩ :=
    Reader.reads_bind.mp fieldsReads
  obtain ⟨rfl, versionReads⟩ := Reader.reads_spanned.mp versionReads
  obtain ⟨rfl, size, supported⟩ := dialect.version_of_readVersion versionReads
  have parts {marked : Bool} {bytes : Bytes}
      (unmarkedReads : (dialect.readUnmarked (uint32LE slice, slice)
        marked).Reads fields bytes) :
      ∃ body witnesses ending ins, bytes = body ++ (witnesses ++ ending) ∧
        dialect.readInsOuts.Reads (ins, fields.outs) body ∧
        (dialect.readWitnessSection marked ins).Reads fields.ins witnesses ∧
        (dialect.readEnding (uint32LE slice)).Reads
          (fields.locktime, fields.payload) ending ∧
        fields.version = uint32LE slice ∧ fields.marked = marked ∧
        fields.stripped = slice ++ body ++ ending := by
    obtain ⟨⟨insOuts, _⟩, body, _, rfl, bodySpanned, afterBody⟩ :=
      Reader.reads_bind.mp unmarkedReads
    obtain ⟨rfl, bodyReads⟩ := Reader.reads_spanned.mp bodySpanned
    obtain ⟨signed, witnesses, _, rfl, witnessReads, afterWitnesses⟩ :=
      Reader.reads_bind.mp afterBody
    obtain ⟨⟨ended, _⟩, ending, _, rfl, endingSpanned, built⟩ :=
      Reader.reads_bind.mp afterWitnesses
    obtain ⟨rfl, endingReads⟩ := Reader.reads_spanned.mp endingSpanned
    obtain ⟨rfl, rfl⟩ := Reader.reads_pure.mp built
    rw [List.append_nil]
    exact ⟨_, _, _, _, rfl, bodyReads, witnessReads, endingReads, rfl, rfl,
      rfl⟩
  have result := markedReads.run
  rcases Reader.reads_marker_bind result with
    ⟨after, same, nextReads⟩ | ⟨missing, after, same, nextReads⟩
  · obtain ⟨body, witnesses, ending, ins, rfl, bodyReads, witnessReads,
      endingReads, version, marked, stripped⟩ := parts nextReads
    rw [List.append_nil] at same
    subst same
    refine ⟨⟨slice, true, body, witnesses, ending⟩, ins,
      ⟨size, supported, bodyReads, witnessReads, endingReads, version, rfl, ?_,
        nofun⟩, rfl⟩
    rw [Fields.transaction, marked, if_pos rfl, stripped, List.append_assoc]
    rfl
  · obtain ⟨body, witnesses, ending, ins, rfl, bodyReads, witnessReads,
      endingReads, version, marked, stripped⟩ := parts nextReads
    obtain ⟨-, rfl⟩ := witnesses_of_unmarked witnessReads
    rw [List.append_nil] at same
    subst same
    refine ⟨⟨slice, false, body, [], ending⟩, ins,
      ⟨size, supported, bodyReads, witnessReads, endingReads, version, rfl, ?_,
        fun _ => missing⟩, rfl⟩
    rw [Fields.transaction, marked, if_neg Bool.false_ne_true]
    rfl

/-- Such parts can be read. -/
theorem reads_of_anatomy
    {anatomy : Anatomy} {transaction : ParsedTransaction}
    {ins : List ParsedInput}
    (parts : anatomy.Of dialect transaction ins) :
    dialect.readTransaction.Reads transaction anatomy.bytes := by
  have fieldsRead : (dialect.readUnmarked
      (uint32LE anatomy.version, anatomy.version) anatomy.marked).Reads
        (anatomy.fields transaction)
        (anatomy.body ++ (anatomy.witnesses ++ anatomy.ending)) :=
    dialect.reads_readUnmarked parts.body parts.witnesses parts.ending
  have enough := dialect.marker_le_of_reads_unmarked fieldsRead
  have behindVersion : (Reader.marker advancedMarker >>=
      dialect.readUnmarked (uint32LE anatomy.version, anatomy.version)).Reads
        (anatomy.fields transaction)
        (anatomy.marker ++ (anatomy.body ++
          (anatomy.witnesses ++ anatomy.ending))) := by
    obtain ⟨version, marked, body, witnesses, ending⟩ := anatomy
    cases marked with
    | true => exact fieldsRead.marked
    | false =>
        obtain ⟨-, rfl⟩ := witnesses_of_unmarked parts.witnesses
        exact fieldsRead.unmarked enough (parts.unmarked rfl)
  have whole : dialect.readFields.Reads (anatomy.fields transaction)
      anatomy.bytes :=
    (dialect.reads_version parts.size parts.supported).spanned.bind
      behindVersion
  have same : (anatomy.fields transaction).transaction anatomy.bytes =
      transaction := by
    obtain ⟨version, ins, outs, locktime, payload, raw, stripped⟩ :=
      transaction
    obtain ⟨-, -, -, witnesses, -, rfl, rfl, rfl, -⟩ := parts
    obtain ⟨version, marked, body, witnessBytes, ending⟩ := anatomy
    cases marked with
    | true =>
        simp only [Anatomy.fields, Fields.transaction, Anatomy.outside,
          if_true, List.append_assoc]
    | false =>
        obtain ⟨-, rfl⟩ := witnesses_of_unmarked witnesses
        rfl
  rw [reads_transaction]
  exact ⟨_, same, whole⟩

/-- The witness of an input is not read with it. -/
theorem unsigned_of_reads_input {input : ParsedInput} {bytes : Bytes}
    (reads : dialect.readInput.Reads input bytes) :
    input.unsigned = input := by
  obtain ⟨hash, _, _, rfl, -, afterHash⟩ := Reader.reads_bind.mp reads
  obtain ⟨index, _, _, rfl, -, afterIndex⟩ := Reader.reads_bind.mp afterHash
  obtain ⟨script, _, _, rfl, -, afterScript⟩ :=
    Reader.reads_bind.mp afterIndex
  obtain ⟨sequence, _, _, rfl, -, built⟩ := Reader.reads_bind.mp afterScript
  obtain ⟨rfl, -⟩ := Reader.reads_pure.mp built
  rfl

/-- The count of the inputs, the inputs, the count of the outputs, the
outputs. -/
theorem parts_of_reads_insOuts
    {ins : List ParsedInput} {outs : List ParsedOutput} {bytes : Bytes}
    (reads : dialect.readInsOuts.Reads (ins, outs) bytes) :
    ∃ count inParts outCount outBytes,
      bytes = count ++ (inParts.flatten ++ (outCount ++ outBytes)) ∧
      (dialect.readVarInt "input count").Reads ins.length count ∧
      List.Forall₂ dialect.readInput.Reads ins inParts ∧
      (dialect.readVarInt "output count").Reads outs.length outCount ∧
      (dialect.readOutput.times outs.length).Reads outs outBytes := by
  obtain ⟨inputCount, count, _, rfl, countReads, afterCount⟩ :=
    Reader.reads_bind.mp reads
  obtain ⟨_, inBytes, _, rfl, insReads, afterIns⟩ :=
    Reader.reads_bind.mp afterCount
  obtain ⟨outputCount, outCount, _, rfl, outCountReads, afterOutCount⟩ :=
    Reader.reads_bind.mp afterIns
  obtain ⟨_, outBytes, _, rfl, outsReads, built⟩ :=
    Reader.reads_bind.mp afterOutCount
  obtain ⟨same, rfl⟩ := Reader.reads_pure.mp built
  obtain ⟨rfl, rfl⟩ := Prod.mk.inj same
  obtain ⟨rfl, inParts, rfl, inputs⟩ := Reader.parts_of_reads_times insReads
  obtain ⟨rfl, -⟩ := Reader.parts_of_reads_times outsReads
  rw [List.append_nil]
  exact ⟨count, inParts, outCount, outBytes, rfl, countReads, inputs,
    outCountReads, outsReads⟩

private theorem unsigned_of_reads_insOuts
    {ins : List ParsedInput} {outs : List ParsedOutput} {bytes : Bytes}
    (reads : dialect.readInsOuts.Reads (ins, outs) bytes) :
    ins.map ParsedInput.unsigned = ins := by
  obtain ⟨_, inParts, _, _, -, -, inputs, -, -⟩ :=
    parts_of_reads_insOuts reads
  clear reads
  induction inputs with
  | nil => rfl
  | cons first _ ih =>
      rw [List.map_cons, ih, unsigned_of_reads_input first]

/-- Witnesses change nothing else of an input. -/
theorem unsigned_of_reads_witnesses
    {ins signed : List ParsedInput} {bytes : Bytes}
    (reads : (dialect.readWitnesses ins).Reads signed bytes) :
    signed.map ParsedInput.unsigned = ins.map ParsedInput.unsigned := by
  induction ins generalizing signed bytes with
  | nil =>
      obtain ⟨rfl, -⟩ := Reader.reads_pure.mp reads
      rfl
  | cons input ins ih =>
      obtain ⟨witness, _, _, rfl, -, afterFirst⟩ := Reader.reads_bind.mp reads
      obtain ⟨others, _, _, rfl, othersReads, built⟩ :=
        Reader.reads_bind.mp afterFirst
      obtain ⟨rfl, -⟩ := Reader.reads_pure.mp built
      rw [List.map_cons, List.map_cons, ih othersReads]
      rfl

private theorem reads_of_witnessSection
    {marked : Bool} {ins signed : List ParsedInput} {bytes : Bytes}
    (reads : (dialect.readWitnessSection marked ins).Reads signed bytes) :
    signed.map ParsedInput.unsigned = ins.map ParsedInput.unsigned ∧
      (marked = true →
        signed.any (fun input => !input.witness.isEmpty) = true) := by
  cases marked with
  | false =>
      obtain ⟨rfl, -⟩ := witnesses_of_unmarked reads
      exact ⟨rfl, nofun⟩
  | true =>
      obtain ⟨read, _, _, rfl, witnessReads, checked⟩ :=
        Reader.reads_bind.mp reads
      obtain ⟨⟨⟩, _, _, rfl, required, built⟩ := Reader.reads_bind.mp checked
      obtain ⟨spends, rfl⟩ := Reader.reads_require.mp required
      obtain ⟨rfl, -⟩ := Reader.reads_pure.mp built
      exact ⟨unsigned_of_reads_witnesses witnessReads, fun _ => spends⟩

/-- A zero byte counts nothing. -/
theorem varInt_head_ne_zero {context : String} {value : Nat} {bytes : Bytes}
    (positive : 0 < value)
    (reads : (dialect.readVarInt context).Reads value bytes) :
    ∃ head tail, bytes = head :: tail ∧ head ≠ 0 := by
  obtain ⟨size, decoded, -⟩ := Reader.run_sized_eq_ok.mp reads.run
  have decoded := lawful.varInt_eq_ok.mp decoded
  cases bytes with
  | nil => cases decoded
  | cons head tail =>
      refine ⟨head, tail, rfl, ?_⟩
      rintro rfl
      have zero := CompactSize.decode_small tail (show (0 : Byte).toNat < 0xfd
        by decide)
      rw [zero] at decoded
      cases decoded
      exact absurd positive (by decide)

/-- In front of inputs, there is no marker. -/
theorem not_marker_of_reads_insOuts
    {ins : List ParsedInput} {outs : List ParsedOutput} {bytes : Bytes}
    (reads : dialect.readInsOuts.Reads (ins, outs) bytes) (nonempty : ins ≠ [])
    (rest : Bytes) : ¬advancedMarker <+: bytes ++ rest := by
  obtain ⟨count, _, _, _, rfl, countReads, -⟩ := parts_of_reads_insOuts reads
  obtain ⟨head, tail, rfl, notZero⟩ :=
    varInt_head_ne_zero (List.length_pos_iff.mpr nonempty) countReads
  rintro ⟨after, same⟩
  exact notZero (List.cons.inj same).1.symm

/-- Stripped bytes are those of a transaction without witnesses. -/
theorem reads_stripped
    {transaction : ParsedTransaction} {bytes : Bytes}
    (reads : dialect.readTransaction.Reads transaction bytes) :
    dialect.readTransaction.Reads transaction.stripped
      transaction.rawNoWitness := by
  obtain ⟨anatomy, ins, parts, rfl⟩ := anatomy_of_reads reads
  have plain := unsigned_of_reads_insOuts parts.body
  obtain ⟨same, spends⟩ := reads_of_witnessSection parts.witnesses
  have unmarked : ¬advancedMarker <+: anatomy.body ++ anatomy.ending := by
    cases marked : anatomy.marked with
    | false => exact parts.unmarked marked
    | true =>
        apply not_marker_of_reads_insOuts parts.body
        rintro rfl
        have found := spends marked
        rw [List.map_eq_nil_iff.mp same] at found
        cases found
  let bare : Anatomy :=
    { version := anatomy.version, marked := false, body := anatomy.body
      witnesses := [], ending := anatomy.ending }
  have bareParts : bare.Of dialect transaction.stripped ins := by
    refine ⟨parts.size, parts.supported, parts.body, ?_, parts.ending,
      parts.version, ?_, ?_, fun _ => unmarked⟩
    · apply Reader.reads_pure.mpr
      exact ⟨same.trans plain, rfl⟩
    · exact parts.rawNoWitness
    · exact parts.rawNoWitness
  have read := reads_of_anatomy bareParts
  rw [parts.rawNoWitness]
  exact read

/-- Where the parts of a transaction say that its witnesses are. -/
theorem reads_witnessPlace
    {anatomy : Anatomy} {transaction : ParsedTransaction}
    {ins : List ParsedInput}
    (parts : anatomy.Of dialect transaction ins) :
    dialect.readWitnessPlace.Reads
      (anatomy.marked, 4 + anatomy.marker.length + anatomy.body.length,
        anatomy.witnesses.length)
      (anatomy.version ++
        (anatomy.marker ++ (anatomy.body ++ anatomy.witnesses))) := by
  have version := (dialect.reads_version parts.size parts.supported).spanned
  have enough := dialect.two_le_of_reads_insOuts parts.body
  obtain ⟨versionBytes, marked, body, witnesses, ending⟩ := anatomy
  cases marked with
  | true =>
      apply version.bind
      apply (Reader.reads_marker advancedMarker).bind
      apply parts.body.spanned.bind
      apply parts.witnesses.spanned.bind_pure
      rw [parts.size]
      rfl
  | false =>
      obtain ⟨-, rfl⟩ := witnesses_of_unmarked parts.witnesses
      have missing : ¬advancedMarker <+: body ++ [] := by
        rw [List.append_nil]
        exact fun starts => parts.unmarked rfl
          (starts.trans (List.prefix_append body ending))
      apply version.bind
      have long : advancedMarker.length ≤ (body ++ []).length := by
        rw [List.append_nil]
        exact enough
      apply Reader.Reads.unmarked _ long missing
      apply parts.body.spanned.bind
      apply parts.witnesses.spanned.bind_pure
      rw [parts.size]
      rfl

/-- What is left of a transaction is what lies outside of its marker and its
witnesses. -/
theorem outsideWitnesses_of_reads
    {transaction : ParsedTransaction} {bytes : Bytes}
    (reads : dialect.readTransaction.Reads transaction bytes) :
    dialect.outsideWitnesses bytes = .ok transaction.rawNoWitness := by
  obtain ⟨anatomy, ins, parts, rfl⟩ := anatomy_of_reads reads
  have place := reads_witnessPlace parts anatomy.ending
  have whole : anatomy.version ++
      (anatomy.marker ++ (anatomy.body ++ anatomy.witnesses)) ++
        anatomy.ending = anatomy.bytes := by
    simp only [Anatomy.bytes, List.append_assoc]
  rw [whole] at place
  have version : anatomy.bytes.take 4 = anatomy.version :=
    List.take_left' parts.size
  have skips : (if anatomy.marked then 6 else 4) =
      (anatomy.version ++ anatomy.marker).length := by
    rw [List.length_append, parts.size, Anatomy.marker]
    split_ifs <;> rfl
  have before : anatomy.bytes.take
      (4 + anatomy.marker.length + anatomy.body.length) =
        anatomy.version ++ anatomy.marker ++ anatomy.body := by
    rw [← whole]
    simp only [← List.append_assoc]
    rw [List.append_assoc (_ ++ _ ++ _)]
    apply List.take_left'
    simp only [List.length_append, parts.size]
  have behind : anatomy.bytes.drop
      (4 + anatomy.marker.length + anatomy.body.length +
        anatomy.witnesses.length) = anatomy.ending := by
    rw [← whole]
    apply List.drop_left'
    simp only [List.length_append, parts.size, Nat.add_assoc]
  rw [outsideWitnesses, place, parts.rawNoWitness]
  simp only [Except.map]
  rw [version, before, skips, List.drop_left, behind, Anatomy.outside,
    List.append_assoc]

end Dialect

end BlockTemplate
