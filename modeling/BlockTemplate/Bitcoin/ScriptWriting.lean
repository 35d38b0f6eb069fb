import BlockTemplate.Bitcoin.Readers
import BlockTemplate.Bitcoin.Walk

/-!
# Writing into a script

Where the input scripts of a transaction lie, and what changes when bytes are
written into one of them.  A script is read by its length alone, so the
transaction keeps its size, and the walk over the block its boundaries.
-/

namespace BlockTemplate

namespace Dialect

/-- The inputs with their bytes, and how many bytes lie in front of them. -/
def readInputsBehind (dialect : Dialect) (marked : Bool) :
    Reader (Nat × List (ParsedInput × Bytes)) := do
  let inputCount ← (dialect.readVarInt "input count").spanned
  let ins ← dialect.readInput.spanned.times inputCount.1
  let _ ← dialect.readVarInt "output count"
  let marker := if marked then advancedMarker.length else 0
  pure (4 + marker + inputCount.2.length, ins)

def readInputSpans (dialect : Dialect) :
    Reader (Nat × List (ParsedInput × Bytes)) := do
  let _ ← dialect.readVersion
  Reader.marker advancedMarker >>= dialect.readInputsBehind

/-- The offset and the size of each script: it lies in front of the sequence,
at the end of its input. -/
def scriptPlaces : Nat → List (ParsedInput × Bytes) → List (Nat × Nat)
  | _, [] => []
  | offset, (input, span) :: ins =>
    (offset + (span.length - 4 - input.script.length), input.script.length) ::
      scriptPlaces (offset + span.length) ins

private theorem mem_scriptPlaces
    {offset start size : Nat} {ins : List (ParsedInput × Bytes)}
    (member : (start, size) ∈ scriptPlaces offset ins) :
    ∃ before input span after, ins = before ++ (input, span) :: after ∧
      start = offset + (before.map Prod.snd).flatten.length +
        (span.length - 4 - input.script.length) ∧
      size = input.script.length := by
  induction ins generalizing offset with
  | nil => cases member
  | cons first ins ih =>
      obtain ⟨input, span⟩ := first
      rcases List.mem_cons.mp member with same | later
      · obtain ⟨rfl, rfl⟩ := Prod.mk.inj same
        exact ⟨[], input, span, ins, rfl, rfl, rfl⟩
      · obtain ⟨before, other, otherSpan, after, rfl, rfl, rfl⟩ := ih later
        refine ⟨(input, span) :: before, other, otherSpan, after, rfl, ?_, rfl⟩
        simp only [List.map_cons, List.flatten_cons, List.length_append]
        omega

theorem scriptPlaces_add (first second : Nat)
    (ins : List (ParsedInput × Bytes)) :
    scriptPlaces (first + second) ins =
      (scriptPlaces second ins).map fun place =>
        (first + place.1, place.2) := by
  induction ins generalizing second with
  | nil => rfl
  | cons head ins ih =>
      obtain ⟨input, span⟩ := head
      rw [scriptPlaces, scriptPlaces, Nat.add_assoc, Nat.add_assoc, ih]
      rfl

private theorem scriptPlaces_congr {offset : Nat}
    {first second : List (ParsedInput × Bytes)}
    (same : List.Forall₂ (fun left right =>
      left.1.script.length = right.1.script.length ∧
        left.2.length = right.2.length) first second) :
    scriptPlaces offset first = scriptPlaces offset second := by
  induction same generalizing offset with
  | nil => rfl
  | @cons left right _ _ sizes _ ih =>
      obtain ⟨input, span⟩ := left
      obtain ⟨other, otherSpan⟩ := right
      simp only [scriptPlaces]
      rw [sizes.1, sizes.2, ih]

variable {dialect : Dialect} [lawful : Lawful dialect]

omit lawful in
theorem reads_inputsBehind
    {ins : List ParsedInput} {outs : Nat} {count outCount : Bytes}
    {inParts : List Bytes}
    (counted : (dialect.readVarInt "input count").Reads ins.length count)
    (inputs : List.Forall₂ dialect.readInput.Reads ins inParts)
    (outCounted : (dialect.readVarInt "output count").Reads outs outCount)
    (marked : Bool) :
    (dialect.readInputsBehind marked).Reads
      (4 + (if marked then advancedMarker.length else 0) + count.length,
        List.zip ins inParts)
      (count ++ (inParts.flatten ++ outCount)) := by
  have spans := Reader.reads_times (Reader.reads_spanned_zip inputs)
  have size : (List.zip ins inParts).length = ins.length := by
    rw [List.length_zip, inputs.length_eq, Nat.min_self]
  rw [size] at spans
  apply counted.spanned.bind
  apply spans.bind
  exact outCounted.bind_pure rfl

private theorem reads_inputSpans
    {anatomy : Anatomy} {transaction : ParsedTransaction}
    {ins : List ParsedInput} {outs : Nat} {count outCount outBytes : Bytes}
    {inParts : List Bytes}
    (parts : anatomy.Of dialect transaction ins)
    (body : anatomy.body =
      count ++ (inParts.flatten ++ (outCount ++ outBytes)))
    (counted : (dialect.readVarInt "input count").Reads ins.length count)
    (inputs : List.Forall₂ dialect.readInput.Reads ins inParts)
    (outCounted : (dialect.readVarInt "output count").Reads outs outCount) :
    dialect.readInputSpans.Reads
      (4 + anatomy.marker.length + count.length, List.zip ins inParts)
      (anatomy.version ++ (anatomy.marker ++
        (count ++ (inParts.flatten ++ outCount)))) := by
  have behind := reads_inputsBehind counted inputs outCounted
  have version := dialect.reads_version parts.size parts.supported
  have unmarked := parts.unmarked
  rw [body] at unmarked
  rw [Anatomy.marker]
  cases marked : anatomy.marked with
  | true =>
      apply version.bind
      exact (behind true).marked
  | false =>
      apply version.bind
      apply Reader.Reads.unmarked (behind false)
      · have := dialect.varInt_length_pos counted
        have := dialect.varInt_length_pos outCounted
        have two : advancedMarker.length = 2 := rfl
        simp only [List.length_append]
        omega
      · intro starts
        apply unmarked marked
        apply starts.trans
        exact ⟨outBytes ++ anatomy.ending, by simp only [List.append_assoc]⟩

/-- A script lies in front of the sequence, and any other one of its size can
be read there. -/
theorem script_of_reads_input {input : ParsedInput} {span : Bytes}
    (reads : dialect.readInput.Reads input span) :
    ∃ head sequence, span = head ++ (input.script ++ sequence) ∧
      sequence.length = 4 ∧
      ∀ script : Bytes, script.length = input.script.length →
        dialect.readInput.Reads { input with script }
          (head ++ (script ++ sequence)) := by
  obtain ⟨hash, hashBytes, _, rfl, hashReads, afterHash⟩ :=
    Reader.reads_bind.mp reads
  obtain ⟨index, indexBytes, _, rfl, indexReads, afterIndex⟩ :=
    Reader.reads_bind.mp afterHash
  obtain ⟨script, scriptBytes, _, rfl, scriptReads, afterScript⟩ :=
    Reader.reads_bind.mp afterIndex
  obtain ⟨sequence, sequenceBytes, _, rfl, sequenceReads, built⟩ :=
    Reader.reads_bind.mp afterScript
  obtain ⟨rfl, rfl⟩ := Reader.reads_pure.mp built
  obtain ⟨size, sizeBytes, _, rfl, sizeReads, sliceReads⟩ :=
    Reader.reads_bind.mp scriptReads
  obtain ⟨rfl, scriptSize⟩ := Reader.length_of_reads_slice sliceReads
  obtain ⟨rfl, sequenceSize⟩ := Reader.length_of_reads_slice sequenceReads
  refine ⟨hashBytes ++ (indexBytes ++ sizeBytes), sequence, ?_, sequenceSize,
    ?_⟩
  · simp only [List.append_assoc, List.append_nil]
  · intro other same
    have otherReads : (dialect.varSlice "input script").Reads other
        (sizeBytes ++ other) :=
      sizeReads.bind (dialect.reads_slice _ (same.trans scriptSize))
    rw [List.append_assoc, List.append_assoc, ← List.append_assoc sizeBytes]
    apply hashReads.bind
    apply indexReads.bind
    apply otherReads.bind
    exact sequenceReads.bind_pure rfl

omit lawful in
private theorem reads_insOuts_of_parts
    {ins : List ParsedInput} {outs : List ParsedOutput}
    {count outCount outBytes : Bytes} {inParts : List Bytes}
    (counted : (dialect.readVarInt "input count").Reads ins.length count)
    (inputs : List.Forall₂ dialect.readInput.Reads ins inParts)
    (outCounted : (dialect.readVarInt "output count").Reads outs.length
      outCount)
    (outputs : (dialect.readOutput.times outs.length).Reads outs outBytes) :
    dialect.readInsOuts.Reads (ins, outs)
      (count ++ (inParts.flatten ++ (outCount ++ outBytes))) := by
  apply counted.bind
  apply (Reader.reads_times inputs).bind
  apply outCounted.bind
  exact outputs.bind_pure rfl

/-- Witnesses are read for any inputs of that number. -/
theorem reads_witnesses_of_length
    {ins signed others : List ParsedInput} {bytes : Bytes}
    (reads : (dialect.readWitnesses ins).Reads signed bytes)
    (same : others.length = ins.length) :
    ∃ resigned, (dialect.readWitnesses others).Reads resigned bytes ∧
      resigned.map ParsedInput.witness = signed.map ParsedInput.witness := by
  induction ins generalizing signed others bytes with
  | nil =>
      obtain rfl := List.length_eq_zero_iff.mp same
      exact ⟨signed, reads, rfl⟩
  | cons input ins ih =>
      cases others with
      | nil => cases same
      | cons other others =>
          obtain ⟨witness, witnessBytes, _, rfl, witnessReads, afterFirst⟩ :=
            Reader.reads_bind.mp reads
          obtain ⟨tail, tailBytes, _, rfl, tailReads, built⟩ :=
            Reader.reads_bind.mp afterFirst
          obtain ⟨rfl, rfl⟩ := Reader.reads_pure.mp built
          obtain ⟨resigned, resignedReads, witnesses⟩ :=
            ih tailReads (Nat.succ.inj same)
          refine ⟨{ other with witness } :: resigned, ?_, ?_⟩
          · rw [List.append_nil]
            exact witnessReads.bind (resignedReads.bind_pure rfl)
          · rw [List.map_cons, List.map_cons, witnesses]

private theorem reads_witnessSection_of_length
    {marked : Bool} {ins signed others : List ParsedInput} {bytes : Bytes}
    (reads : (dialect.readWitnessSection marked ins).Reads signed bytes)
    (same : others.length = ins.length) :
    ∃ resigned,
      (dialect.readWitnessSection marked others).Reads resigned bytes := by
  cases marked with
  | false =>
      obtain ⟨-, rfl⟩ := witnesses_of_unmarked reads
      exact ⟨others, Reader.reads_pure.mpr ⟨rfl, rfl⟩⟩
  | true =>
      obtain ⟨read, bytes, _, rfl, witnessReads, checked⟩ :=
        Reader.reads_bind.mp reads
      obtain ⟨⟨⟩, _, _, rfl, required, built⟩ := Reader.reads_bind.mp checked
      obtain ⟨spends, rfl⟩ := Reader.reads_require.mp required
      obtain ⟨rfl, rfl⟩ := Reader.reads_pure.mp built
      obtain ⟨resigned, resignedReads, witnesses⟩ :=
        reads_witnesses_of_length witnessReads same
      have found (inputs : List ParsedInput) :
          inputs.any (fun input => !input.witness.isEmpty) =
            (inputs.map ParsedInput.witness).any fun witness =>
              !witness.isEmpty := by
        rw [List.any_map]
        rfl
      have spent : resigned.any (fun input => !input.witness.isEmpty) =
          true := by
        rw [found, witnesses, ← found, spends]
      refine ⟨resigned, resignedReads.bind ?_⟩
      apply Reader.Reads.require_bind spent
      exact Reader.reads_pure.mpr ⟨rfl, rfl⟩

/-- The bytes that a marker takes. -/
def markerLength (raw : Bytes) : Nat :=
  if advancedMarker <+: raw.drop 4 then advancedMarker.length else 0

private theorem markerLength_of_anatomy
    {anatomy : Anatomy} {transaction : ParsedTransaction}
    {ins : List ParsedInput} (parts : anatomy.Of dialect transaction ins)
    (nonempty : ins ≠ []) (rest : Bytes) :
    markerLength (anatomy.bytes ++ rest) = anatomy.marker.length := by
  have behind : (anatomy.bytes ++ rest).drop 4 = anatomy.marker ++
      (anatomy.body ++ (anatomy.witnesses ++ (anatomy.ending ++ rest))) := by
    rw [Anatomy.bytes, List.append_assoc, List.drop_left' parts.size]
    simp only [List.append_assoc]
  rw [markerLength, behind, Anatomy.marker]
  cases marked : anatomy.marked with
  | true => exact if_pos (List.prefix_append _ _)
  | false =>
      exact if_neg (not_marker_of_reads_insOuts parts.body nonempty _)

/-- The parts of a transaction with another body. -/
theorem anatomy_of_other_body
    {anatomy : Anatomy} {transaction : ParsedTransaction}
    {ins others : List ParsedInput} {body : Bytes}
    (parts : anatomy.Of dialect transaction ins)
    (bodyReads : dialect.readInsOuts.Reads (others, transaction.outs) body)
    (same : others.length = ins.length) (nonempty : others ≠ []) :
    ∃ changed, Anatomy.Of { anatomy with body } dialect changed others := by
  obtain ⟨resigned, witnesses⟩ :=
    reads_witnessSection_of_length parts.witnesses same
  let changed : ParsedTransaction :=
    { transaction with
      ins := resigned
      rawWithWitness := { anatomy with body }.bytes
      rawNoWitness := { anatomy with body }.outside }
  exact ⟨changed, parts.size, parts.supported, bodyReads, witnesses,
    parts.ending, parts.version, rfl, rfl,
    fun _ => not_marker_of_reads_insOuts bodyReads nonempty _⟩

omit lawful in
/-- Where bytes of the body lie in the transaction and in its stripped
bytes. -/
theorem overwrite_body
    {anatomy : Anatomy} {before script after data : Bytes} {offset : Nat}
    (size : anatomy.version.length = 4)
    (body : anatomy.body = before ++ (script ++ after))
    (inside : offset + data.length ≤ script.length) :
    let changed : Anatomy :=
      { anatomy with body := before ++ (overwrite script offset data ++ after) }
    changed.bytes = overwrite anatomy.bytes
        (4 + anatomy.marker.length + before.length + offset) data ∧
      changed.outside =
        overwrite anatomy.outside (4 + before.length + offset) data ∧
      (anatomy.outside.drop (4 + before.length + offset)).take data.length =
        (anatomy.bytes.drop (4 + anatomy.marker.length + before.length +
          offset)).take data.length := by
  have bytesBefore : (anatomy.version ++ (anatomy.marker ++ before)).length =
      4 + anatomy.marker.length + before.length := by
    simp only [List.length_append, size, Nat.add_assoc]
  have outsideBefore : (anatomy.version ++ before).length =
      4 + before.length := by
    rw [List.length_append, size]
  have bytes : anatomy.bytes = (anatomy.version ++
      (anatomy.marker ++ before)) ++ (script ++
        (after ++ (anatomy.witnesses ++ anatomy.ending))) := by
    simp only [Anatomy.bytes, body, List.append_assoc]
  have outside : anatomy.outside = (anatomy.version ++ before) ++
      (script ++ (after ++ anatomy.ending)) := by
    simp only [Anatomy.outside, body, List.append_assoc]
  rw [bytes, outside, ← bytesBefore, ← outsideBefore, overwrite_middle inside,
    overwrite_middle inside, take_drop_middle inside, take_drop_middle inside]
  refine ⟨?_, ?_, rfl⟩
  · simp only [Anatomy.bytes, Anatomy.marker, List.append_assoc]
  · simp only [Anatomy.outside, List.append_assoc]

/-- Another script of the same size gives other inputs, with their scripts at
the same places. -/
theorem inputs_around_script
    {ins : List ParsedInput} {count : Bytes} {inParts : List Bytes}
    {base start size : Nat}
    (inputs : List.Forall₂ dialect.readInput.Reads ins inParts)
    (member : (start, size) ∈
      scriptPlaces (base + count.length) (List.zip ins inParts)) :
    ∃ front script after,
      count ++ inParts.flatten = front ++ (script ++ after) ∧
      start = base + front.length ∧ size = script.length ∧ ins ≠ [] ∧
      ∀ other : Bytes, other.length = script.length →
        ∃ (others : List ParsedInput) (otherParts : List Bytes),
          others.length = ins.length ∧
          List.Forall₂ dialect.readInput.Reads others otherParts ∧
          scriptPlaces (base + count.length) (List.zip others otherParts) =
            scriptPlaces (base + count.length) (List.zip ins inParts) ∧
          count ++ otherParts.flatten = front ++ (other ++ after) := by
  obtain ⟨before, input, span, behind, split, rfl, rfl⟩ :=
    mem_scriptPlaces member
  have reading : ∀ pair ∈ List.zip ins inParts,
      dialect.readInput.Reads pair.1 pair.2 := fun pair member =>
    (List.forall₂_iff_zip.mp inputs).2 member
  have insSplit : (List.zip ins inParts).map Prod.fst = ins :=
    List.map_fst_zip inputs.length_eq.le
  have partsSplit : (List.zip ins inParts).map Prod.snd = inParts :=
    List.map_snd_zip inputs.length_eq.ge
  rw [split] at reading insSplit partsSplit
  have spanReads : dialect.readInput.Reads input span :=
    reading (input, span) (List.mem_append_right _ List.mem_cons_self)
  obtain ⟨head, sequence, rfl, sequenceSize, replaced⟩ :=
    script_of_reads_input spanReads
  refine ⟨count ++ ((before.map Prod.snd).flatten ++ head), input.script,
    sequence ++ (behind.map Prod.snd).flatten, ?_, ?_, rfl, ?_,
    fun other sameSize => ?_⟩
  · rw [← partsSplit]
    simp only [List.map_append, List.map_cons, List.flatten_append,
      List.flatten_cons, List.append_assoc]
  · simp only [List.length_append, sequenceSize]
    omega
  · rw [← insSplit, ← List.length_pos_iff, List.length_map,
      List.length_append, List.length_cons]
    omega
  · let written : List (ParsedInput × Bytes) :=
      before ++ ({ input with script := other },
        head ++ (other ++ sequence)) :: behind
    have zipped : List.zip (written.map Prod.fst) (written.map Prod.snd) =
        written := by
      rw [← List.unzip_fst, ← List.unzip_snd, List.zip_unzip]
    refine ⟨written.map Prod.fst, written.map Prod.snd, ?_, ?_, ?_, ?_⟩
    · rw [← insSplit]
      simp only [List.length_map, List.length_append, List.length_cons,
        written]
    · rw [List.forall₂_map_left_iff, List.forall₂_map_right_iff,
        List.forall₂_same]
      intro pair found
      rcases List.mem_append.mp found with early | late
      · exact reading pair (List.mem_append_left _ early)
      · rcases List.mem_cons.mp late with rfl | later
        · exact replaced other sameSize
        · exact reading pair
            (List.mem_append_right _ (List.mem_cons_of_mem _ later))
    · rw [zipped, split]
      apply scriptPlaces_congr
      have refl (pairs : List (ParsedInput × Bytes)) :
          List.Forall₂ (fun left right =>
            left.1.script.length = right.1.script.length ∧
              left.2.length = right.2.length) pairs pairs :=
        List.forall₂_same.mpr fun _ _ => ⟨rfl, rfl⟩
      refine List.rel_append (refl before)
        (List.Forall₂.cons ⟨sameSize, ?_⟩ (refl behind))
      simp only [List.length_append, sameSize]
    · simp only [List.map_append, List.map_cons, List.flatten_append,
        List.flatten_cons, List.append_assoc, written]

/-- The spans of a transaction, whatever is behind it. -/
theorem inputSpans_of_anatomy
    {anatomy : Anatomy} {transaction : ParsedTransaction}
    {ins : List ParsedInput} {outs : Nat} {count outCount outBytes : Bytes}
    {inParts : List Bytes}
    (parts : anatomy.Of dialect transaction ins)
    (body : anatomy.body =
      count ++ (inParts.flatten ++ (outCount ++ outBytes)))
    (counted : (dialect.readVarInt "input count").Reads ins.length count)
    (inputs : List.Forall₂ dialect.readInput.Reads ins inParts)
    (outCounted : (dialect.readVarInt "output count").Reads outs outCount)
    (rest : Bytes) :
    ∃ after, dialect.readInputSpans.run (anatomy.bytes ++ rest) =
      .ok ((4 + anatomy.marker.length + count.length, List.zip ins inParts),
        after) := by
  have whole := reads_inputSpans parts body counted inputs outCounted
    (outBytes ++ (anatomy.witnesses ++ (anatomy.ending ++ rest)))
  refine ⟨_, Eq.trans (congrArg _ ?_) whole⟩
  simp only [Anatomy.bytes, body, List.append_assoc]

/-- Other bytes in a script of a transaction give a transaction of the same
size.  Its stripped bytes change at the same place, and its scripts are found
where they were. -/
theorem reads_overwrite_script
    {transaction : ParsedTransaction} {bytes : Bytes}
    (reads : dialect.readTransaction.Reads transaction bytes) :
    ∃ found, (∀ rest, ∃ after,
        dialect.readInputSpans.run (bytes ++ rest) = .ok (found, after)) ∧
      ∀ start size, (start, size) ∈ scriptPlaces found.1 found.2 →
        ∀ offset data tail, start ≤ offset →
          offset + data.length ≤ start + size →
            offset + data.length ≤ bytes.length ∧
            offset - markerLength (bytes ++ tail) + data.length ≤
              transaction.rawNoWitness.length ∧
            (transaction.rawNoWitness.drop
                (offset - markerLength (bytes ++ tail))).take data.length =
              (bytes.drop offset).take data.length ∧
            (∃ changed,
              dialect.readTransaction.Reads changed
                (overwrite bytes offset data) ∧
              changed.rawNoWitness =
                overwrite transaction.rawNoWitness
                  (offset - markerLength (bytes ++ tail)) data) ∧
            ∃ refound, (∀ rest, ∃ after,
                dialect.readInputSpans.run
                  (overwrite bytes offset data ++ rest) =
                    .ok (refound, after)) ∧
              scriptPlaces refound.1 refound.2 =
                scriptPlaces found.1 found.2 := by
  obtain ⟨anatomy, ins, parts, rfl⟩ := anatomy_of_reads reads
  obtain ⟨count, inParts, outCount, outBytes, body, counted, inputs,
    outCounted, outputs⟩ := parts_of_reads_insOuts parts.body
  refine ⟨(4 + anatomy.marker.length + count.length, List.zip ins inParts),
    inputSpans_of_anatomy parts body counted inputs outCounted, ?_⟩
  intro start size member offset data tail starts ends
  obtain ⟨front, script, after, split, rfl, rfl, nonempty, replaced⟩ :=
    inputs_around_script inputs member
  -- the offset counted from the first byte of the script
  obtain ⟨inner, rfl⟩ := Nat.exists_eq_add_of_le starts
  have inside : inner + data.length ≤ script.length := by omega
  have around (middle : Bytes) (parts : List Bytes)
      (same : count ++ parts.flatten = front ++ (middle ++ after)) :
      count ++ (parts.flatten ++ (outCount ++ outBytes)) =
        front ++ (middle ++ (after ++ (outCount ++ outBytes))) := by
    have longer := congrArg (· ++ (outCount ++ outBytes)) same
    simpa only [List.append_assoc] using longer
  have bodySplit := body.trans (around script inParts split)
  have shifted : 4 + anatomy.marker.length + front.length + inner -
      anatomy.marker.length = 4 + front.length + inner := by
    omega
  have room := congrArg List.length bodySplit
  obtain ⟨bytes, outside, sameRange⟩ :=
    overwrite_body parts.size bodySplit inside
  obtain ⟨others, otherParts, number, otherInputs, places, otherSplit⟩ :=
    replaced _ (length_overwrite inside)
  have kept : others ≠ [] := by
    rw [← List.length_pos_iff, number]
    exact List.length_pos_iff.mpr nonempty
  have otherBody := around _ otherParts otherSplit
  have bodyReads := reads_insOuts_of_parts (number ▸ counted) otherInputs
    outCounted outputs
  rw [otherBody] at bodyReads
  obtain ⟨changed, changedParts⟩ :=
    anatomy_of_other_body parts bodyReads number kept
  have changedReads := reads_of_anatomy changedParts
  have stripped := changedParts.rawNoWitness
  have respans := inputSpans_of_anatomy changedParts otherBody.symm
    (number ▸ counted) otherInputs outCounted
  rw [bytes] at changedReads respans
  rw [outside] at stripped
  rw [markerLength_of_anatomy parts nonempty tail, shifted,
    parts.rawNoWitness]
  refine ⟨?_, ?_, sameRange, ⟨changed, changedReads, stripped⟩, _, respans,
    places⟩
  · simp only [Anatomy.bytes, List.length_append, parts.size] at room ⊢
    omega
  · simp only [Anatomy.outside, List.length_append, parts.size] at room ⊢
    omega

end Dialect

namespace Index

variable (packages : Packages)

/-- Where the first transaction of a blob begins. -/
def firstTransactionOffset (layout : Layout) (blob : Bytes) :
    Except String Nat := do
  let (_, size) ← packages.varuint_decode (blob.drop layout.bodyOffset)
  pure (layout.bodyOffset + size)

/-- The offset and the size of each input script of the first transaction. -/
def inputScripts (layout : Layout) (blob : Bytes) :
    Except String (List (Nat × Nat)) := do
  let start ← firstTransactionOffset packages layout blob
  let ((behind, ins), _) ←
    (itemDialect packages layout.payload).readInputSpans.run (blob.drop start)
  pure (Dialect.scriptPlaces (start + behind) ins)

variable {packages}

theorem firstTransactionOffset_eq
    (documented : packages.VaruintDocumented)
    {layout : Layout} {blob : Bytes} {number size : Nat}
    (decoded : CompactSize.decode (blob.drop layout.bodyOffset) =
      some (number, size)) :
    firstTransactionOffset packages layout blob =
      .ok (layout.bodyOffset + size) := by
  rw [firstTransactionOffset, (documented.decode _ _).mpr decoded]
  rfl

theorem inputScripts_eq
    {layout : Layout} {blob rest : Bytes} {start behind : Nat}
    {ins : List (ParsedInput × Bytes)}
    (located : firstTransactionOffset packages layout blob = .ok start)
    (spanned : (itemDialect packages layout.payload).readInputSpans.run
      (blob.drop start) = .ok ((behind, ins), rest)) :
    inputScripts packages layout blob =
      .ok (Dialect.scriptPlaces (start + behind) ins) := by
  apply except_bind_eq_ok.mpr
  exact ⟨start, located, except_bind_eq_ok.mpr ⟨_, spanned, rfl⟩⟩

/-- The scripts of a blob that is put together from its parts. -/
theorem inputScripts_of_anatomy
    (documented : packages.VaruintDocumented)
    {layout : Layout} {fields rest count outCount outBytes : Bytes}
    {number outs : Nat} {anatomy : Anatomy}
    {transaction : ParsedTransaction} {ins : List ParsedInput}
    {inParts : List Bytes}
    (fieldsSize : fields.length = layout.bodyOffset)
    (safe : number ≤ CompactSize.maxSafeInteger)
    (parts : anatomy.Of (itemDialect packages layout.payload) transaction ins)
    (body : anatomy.body =
      count ++ (inParts.flatten ++ (outCount ++ outBytes)))
    (counted : ((itemDialect packages layout.payload).readVarInt
      "input count").Reads ins.length count)
    (inputs : List.Forall₂
      (itemDialect packages layout.payload).readInput.Reads ins inParts)
    (outCounted : ((itemDialect packages layout.payload).readVarInt
      "output count").Reads outs outCount) :
    inputScripts packages layout
        (fields ++ (CompactSize.encode number ++ (anatomy.bytes ++ rest))) =
      .ok (Dialect.scriptPlaces
        (layout.bodyOffset + (CompactSize.encode number).length +
          (4 + anatomy.marker.length + count.length))
        (List.zip ins inParts)) := by
  have := itemDialect_lawful documented layout.payload
  have located : firstTransactionOffset packages layout
      (fields ++ (CompactSize.encode number ++ (anatomy.bytes ++ rest))) =
        .ok (layout.bodyOffset + (CompactSize.encode number).length) := by
    apply firstTransactionOffset_eq documented
    rw [List.drop_left' fieldsSize]
    exact CompactSize.decode_encode safe _
  have behind : (fields ++ (CompactSize.encode number ++
      (anatomy.bytes ++ rest))).drop
        (layout.bodyOffset + (CompactSize.encode number).length) =
      anatomy.version ++ (anatomy.marker ++
        (count ++ (inParts.flatten ++ outCount))) ++
          (outBytes ++ (anatomy.witnesses ++ (anatomy.ending ++ rest))) := by
    rw [← List.append_assoc, List.drop_left']
    · simp only [Anatomy.bytes, body, List.append_assoc]
    · rw [List.length_append, fieldsSize]
  have spanned := Dialect.reads_inputSpans parts body counted inputs outCounted
    (outBytes ++ (anatomy.witnesses ++ (anatomy.ending ++ rest)))
  rw [← behind] at spanned
  exact inputScripts_eq located spanned

/-- A range of the first transaction is changed, and it is read again. -/
theorem walked_of_first_changed
    (documented : packages.VaruintDocumented)
    {layout : Layout} {blob data : Bytes} {item : Item} {items : List Item}
    {size offset : Nat} {changed : ParsedTransaction}
    (decoded : CompactSize.decode (blob.drop layout.bodyOffset) =
      some ((item :: items).length, size))
    (bounded : (item :: items).length ≤ maxTemplateTransactions)
    (same : (blob.drop layout.bodyOffset).drop size =
      blockBytes (item :: items))
    (laid : Laid packages layout.payload (item :: items))
    (inside : offset + data.length ≤ item.bytes.length)
    (reads : (itemReader packages layout.payload).Reads changed
      (overwrite item.bytes offset data)) :
    blockTransactions packages layout.payload
      ((overwrite blob (layout.bodyOffset + size + offset) data).drop
        layout.bodyOffset) =
      .ok (Rtm.extendTransactionRaw changed item.tail ::
        items.map Item.extended) := by
  obtain ⟨positive, fits, again⟩ := CompactSize.decode_take decoded
  rw [List.length_drop] at fits
  obtain ⟨-, ends, others⟩ := laid
  let header := blob.take layout.bodyOffset
  let count := (blob.drop layout.bodyOffset).take size
  have headerSize : header.length = layout.bodyOffset :=
    List.length_take_of_le (by omega)
  have countSize : count.length = size := by
    apply List.length_take_of_le
    rw [List.length_drop]
    exact fits
  have front : (header ++ count).length = layout.bodyOffset + size := by
    rw [List.length_append, headerSize, countSize]
  have split : blob = (header ++ count) ++
      (item.bytes ++ (item.tail ++ blockBytes items)) := by
    rw [← blockBytes_cons, ← same, List.append_assoc, List.take_append_drop,
      List.take_append_drop]
  let written : Item :=
    ⟨changed, overwrite item.bytes offset data, item.tail⟩
  have rest : (overwrite blob (layout.bodyOffset + size + offset) data).drop
      layout.bodyOffset = count ++ blockBytes (written :: items) := by
    rw [split, ← front, overwrite_middle inside, List.append_assoc,
      List.drop_left' headerSize, blockBytes_cons]
  rw [rest]
  apply (blockTransactions_iff_items documented).mpr
  exact ⟨written :: items, size, again _, Nat.succ_pos _, bounded,
    List.drop_left' countSize, ⟨reads, ends, others⟩, rfl⟩

/-- A range of a transaction is changed, and its tail stays behind it. -/
theorem extended_overwrite
    {transaction changed : ParsedTransaction} {tail data : Bytes}
    {offset shift : Nat}
    (inside : offset + data.length ≤ transaction.rawWithWitness.length)
    (strippedInside :
      offset - shift + data.length ≤ transaction.rawNoWitness.length)
    (sameRange :
      (transaction.rawNoWitness.drop (offset - shift)).take data.length =
        (transaction.rawWithWitness.drop offset).take data.length)
    (written : changed.rawWithWitness =
      overwrite transaction.rawWithWitness offset data)
    (stripped : changed.rawNoWitness =
      overwrite transaction.rawNoWitness (offset - shift) data) :
    let before := Rtm.extendTransactionRaw transaction tail
    let after := Rtm.extendTransactionRaw changed tail
    after.rawWithWitness = overwrite before.rawWithWitness offset data ∧
      after.rawWithWitness.length = before.rawWithWitness.length ∧
      after.rawNoWitness =
        overwrite before.rawNoWitness (offset - shift) data ∧
      (before.rawNoWitness.drop (offset - shift)).take data.length =
        (before.rawWithWitness.drop offset).take data.length := by
  have size := length_overwrite inside
  simp only [Rtm.rawWithWitness_extendTransactionRaw,
    Rtm.rawNoWitness_extendTransactionRaw, written, stripped]
  refine ⟨(overwrite_append_left inside tail).symm, ?_,
    (overwrite_append_left strippedInside tail).symm, ?_⟩
  · rw [List.length_append, List.length_append, size]
  · rw [take_drop_append_left strippedInside, sameRange,
      take_drop_append_left inside]

/-- Writing into an input script of the first transaction leaves every
boundary where it was, and every other leaf. -/
theorem script_writing_is_transparent
    (documented : packages.VaruintDocumented)
    {family : Family} {blob converted after : Bytes}
    (accepted : (family.convert packages).runOn blob =
      (.ok converted, after)) :
    ∃ start places first others,
      firstTransactionOffset packages (family.layout packages) blob =
        .ok start ∧
      inputScripts packages (family.layout packages) blob = .ok places ∧
      blockTransactions packages (family.layout packages).payload
        (blob.drop (family.layout packages).bodyOffset) =
          .ok (first :: others) ∧
      ∀ script size, (script, size) ∈ places →
        ∀ offset data, script ≤ offset →
          offset + data.length ≤ script + size →
          let shift := Dialect.markerLength first.rawWithWitness
          ∃ written reconverted again,
            (family.convert packages).runOn (overwrite blob offset data) =
              (.ok reconverted, again) ∧
            blockTransactions packages (family.layout packages).payload
              ((overwrite blob offset data).drop
                (family.layout packages).bodyOffset) =
                  .ok (written :: others) ∧
            written.rawWithWitness =
              overwrite first.rawWithWitness (offset - start) data ∧
            written.rawWithWitness.length = first.rawWithWitness.length ∧
            transactionHash (family.layout packages).hash written false =
              (family.layout packages).hash
                (overwrite first.rawNoWitness (offset - start - shift)
                  data) ∧
            (first.rawNoWitness.drop (offset - start - shift)).take
                data.length =
              (first.rawWithWitness.drop (offset - start)).take
                data.length := by
  have := itemDialect_lawful documented (family.layout packages).payload
  obtain ⟨root, found⟩ := Family.blockRoot_of_convert accepted
  obtain ⟨transactions, walked⟩ := walked_of_blockRoot found
  obtain ⟨items, size, decoded, positive, bounded, same, laid, rfl⟩ :=
    (blockTransactions_iff_items documented).mp walked
  obtain ⟨item, items, rfl⟩ := List.exists_cons_of_length_pos positive
  have reads := laid.1
  rw [itemReader_eq] at reads
  obtain ⟨⟨behind, ins⟩, spans, writes⟩ :=
    Dialect.reads_overwrite_script reads
  have located := firstTransactionOffset_eq documented decoded
  let start := (family.layout packages).bodyOffset + size
  have placed : inputScripts packages (family.layout packages) blob =
      .ok (Dialect.scriptPlaces (start + behind) ins) := by
    obtain ⟨rest, spanned⟩ := spans (item.tail ++ blockBytes items)
    rw [← blockBytes_cons, ← same, List.drop_drop] at spanned
    exact inputScripts_eq located spanned
  have raw := rawWithWitness_of_reads documented laid.1
  have extended := Item.rawWithWitness_extended documented laid.1
  refine ⟨start, _, _, _, located, placed, walked, ?_⟩
  intro script scriptSize member offset data starts ends shift
  rw [Dialect.scriptPlaces_add] at member
  obtain ⟨⟨place, placeSize⟩, listed, moved⟩ := List.mem_map.mp member
  obtain ⟨rfl, rfl⟩ := Prod.mk.inj moved
  obtain ⟨inner, rfl⟩ := Nat.exists_eq_add_of_le
    (Nat.le_of_add_right_le starts)
  obtain ⟨inside, strippedInside, sameRange, ⟨changed, changedReads,
    stripped⟩, -⟩ := writes place placeSize listed inner data item.tail (by omega)
      (by omega)
  rw [← extended] at strippedInside sameRange stripped
  have read : (itemReader packages (family.layout packages).payload).Reads
      changed (overwrite item.bytes inner data) := by
    rw [itemReader_eq]
    exact changedReads
  have rewalked := walked_of_first_changed documented decoded bounded same
    laid inside read
  have rewritten := rawWithWitness_of_reads documented read
  rw [← raw] at inside sameRange rewritten
  obtain ⟨whole, sameSize, bare, range⟩ := @extended_overwrite _ _ item.tail _ _
    _ inside strippedInside sameRange rewritten stripped
  refine ⟨_, _, _, Family.convert_ok (blockRoot_of_walked rewalked), rewalked,
    ?_⟩
  rw [Nat.add_sub_cancel_left, transactionHash_stripped]
  exact ⟨whole, sameSize, congrArg _ bare, range⟩

/-- A block with one transaction, which has a marker, a script of two bytes
and an empty witness item. -/
def scriptBlob : Bytes :=
  List.replicate 80 0 ++ [1] ++ ([1, 0, 0, 0] ++ advancedMarker ++ [1] ++
    List.replicate 36 0 ++ [2, 0, 0] ++ List.replicate 4 0 ++ [0] ++ [1, 0] ++
      List.replicate 4 0)

theorem script_writing_is_transparent_rtm :
    ∃ reconverted again first written,
      (Family.rtm.convert .documented).runOn
        (overwrite scriptBlob 125 [7, 7]) = (.ok reconverted, again) ∧
      blockTransactions .documented true (scriptBlob.drop 80) =
        .ok [first] ∧
      blockTransactions .documented true
        ((overwrite scriptBlob 125 [7, 7]).drop 80) = .ok [written] ∧
      written.rawWithWitness = overwrite first.rawWithWitness 44 [7, 7] ∧
      transactionHash Packages.documented.hash256 written false =
        Packages.documented.hash256
          (overwrite first.rawNoWitness 42 [7, 7]) := by
  obtain ⟨root, found⟩ :=
    exists_of_isOk (show (blockRoot .documented
      (Family.rtm.layout .documented) scriptBlob).isOk = true by
        decide +kernel)
  obtain ⟨start, places, first, others, located, placed, walked, writes⟩ :=
    @script_writing_is_transparent .documented Packages.documented_varuint
      .rtm _ _ _ (Family.convert_ok found)
  have looked : (inputScripts .documented (Family.rtm.layout .documented)
      scriptBlob).toOption = some [(125, 2)] := by decide +kernel
  have begins : (firstTransactionOffset .documented
      (Family.rtm.layout .documented) scriptBlob).toOption = some 81 := by
    decide +kernel
  have single : (blockTransactions .documented true
      (scriptBlob.drop 80)).toOption.map (fun transactions =>
        (transactions.length, transactions.head?.map fun first =>
          Dialect.markerLength first.rawWithWitness)) =
        some (1, some 2) := by
    decide +kernel
  have walkedHere : blockTransactions .documented true
      (scriptBlob.drop 80) = .ok (first :: others) := walked
  rw [placed] at looked
  rw [located] at begins
  rw [walkedHere] at single
  obtain rfl := Option.some.inj looked
  obtain rfl := Option.some.inj begins
  obtain ⟨one, marker⟩ := Prod.mk.inj (Option.some.inj single)
  obtain rfl := List.length_eq_zero_iff.mp (Nat.succ.inj one)
  obtain ⟨written, reconverted, again, accepted, rewalked, raw, -, hashed,
    -⟩ := writes 125 2 List.mem_cons_self 125 [7, 7] (by decide) (by decide)
  have two : Dialect.markerLength first.rawWithWitness = 2 :=
    Option.some.inj marker
  rw [two] at hashed
  exact ⟨reconverted, again, first, written, accepted, walkedHere, rewalked,
    raw, hashed⟩

end Index

end BlockTemplate
