import BlockTemplate.Bitcoin.Anatomy
import BlockTemplate.Bitcoin.Index

/-!
# The two readers of transactions

`readTransaction` of `rtm.js` and `readRawBitcoinTransaction` of
`bitcoin_utils.js` agree where their formats coincide, and both strip the
witnesses of a transaction so that the same transaction without them is left.
-/

namespace BlockTemplate

namespace Dialect

section Agreement

variable (first second : Dialect) [firstLawful : Lawful first]
  [secondLawful : Lawful second]

private theorem agree_varInt (context other : String) :
    Reader.Agree (first.readVarInt context) (second.readVarInt other) := by
  intro input
  cases decoded : CompactSize.decode input with
  | none =>
      have rejects {dialect : Dialect} [lawful : Lawful dialect]
          (context : String) :
          ((dialect.readVarInt context).run input).toOption = none := by
        cases result : (dialect.readVarInt context).run input with
        | error message => rfl
        | ok found =>
            obtain ⟨size, read, -⟩ := Reader.run_sized_eq_ok.mp result
            rw [lawful.varInt_eq_ok.mp read] at decoded
            cases decoded
      rw [rejects, rejects]
  | some found =>
      have accepts {dialect : Dialect} [lawful : Lawful dialect]
          (context : String) :
          (dialect.readVarInt context).run input =
            .ok (found.1, input.drop found.2) :=
        Reader.run_sized_eq_ok.mpr
          ⟨found.2, lawful.varInt_eq_ok.mpr decoded, rfl⟩
      rw [accepts, accepts]

private theorem agree_varSlice (context : String) :
    Reader.Agree (first.varSlice context) (second.varSlice context) := by
  apply (agree_varInt first second _ _).bind
  exact fun size => Reader.agree_slice size _ _

private theorem agree_input :
    Reader.Agree first.readInput second.readInput := by
  apply (Reader.agree_slice 32 _ _).bind
  intro hash
  apply (Reader.agree_slice 4 _ _).bind
  intro index
  apply (agree_varSlice first second _).bind
  intro script
  apply (Reader.agree_slice 4 _ _).bind
  exact fun sequence => Reader.Agree.refl _

private theorem agree_output :
    Reader.Agree first.readOutput second.readOutput := by
  apply (Reader.agree_slice 8 _ _).bind
  intro value
  apply (agree_varSlice first second _).bind
  exact fun script => Reader.Agree.refl _

private theorem agree_insOuts :
    Reader.Agree first.readInsOuts second.readInsOuts := by
  apply (agree_varInt first second _ _).bind
  intro inputCount
  apply ((agree_input first second).times inputCount).bind
  intro ins
  apply (agree_varInt first second _ _).bind
  intro outputCount
  apply ((agree_output first second).times outputCount).bind
  exact fun outs => Reader.Agree.refl _

private theorem agree_witnesses (ins : List ParsedInput) :
    Reader.Agree (first.readWitnesses ins) (second.readWitnesses ins) := by
  induction ins with
  | nil => exact Reader.Agree.refl _
  | cons input ins ih =>
      have vector : Reader.Agree first.readWitnessVector
          second.readWitnessVector := by
        apply (agree_varInt first second _ _).bind
        exact fun count => (agree_varSlice first second _).times count
      apply vector.bind
      intro witness
      exact ih.bind fun others => Reader.Agree.refl _

private theorem agree_witnessSection (marked : Bool) (ins : List ParsedInput) :
    Reader.Agree (first.readWitnessSection marked ins)
      (second.readWitnessSection marked ins) := by
  cases marked with
  | false => exact Reader.Agree.refl _
  | true =>
      apply (agree_witnesses first second ins).bind
      exact fun signed => Reader.Agree.refl _

private theorem agree_ending {version : BitVec 32}
    (same : first.hasPayload version = second.hasPayload version) :
    Reader.Agree (first.readEnding version) (second.readEnding version) := by
  unfold readEnding
  rw [same]
  apply (Reader.agree_slice 4 _ _).bind
  intro locktime
  split
  · apply (agree_varSlice first second _).bind
    exact fun payload => Reader.Agree.refl _
  · exact Reader.Agree.refl _

private theorem agree_unmarked {version : BitVec 32 × Bytes}
    (same : first.hasPayload version.1 = second.hasPayload version.1)
    (marked : Bool) :
    Reader.Agree (first.readUnmarked version marked)
      (second.readUnmarked version marked) := by
  apply (agree_insOuts first second).spanned.bind
  intro insOuts
  apply (agree_witnessSection first second marked insOuts.1.1).bind
  intro ins
  apply (agree_ending first second same).spanned.bind
  exact fun ending => Reader.Agree.refl _

omit firstLawful secondLawful

private theorem agree_version_at {input : Bytes}
    (same : 4 ≤ input.length → first.isSupported (uint32LE (input.take 4)) =
      second.isSupported (uint32LE (input.take 4))) :
    (first.readVersion.run input).toOption =
      (second.readVersion.run input).toOption := by
  apply Reader.toOption_bind_congr (Reader.agree_slice 4 _ _ input)
  intro version after result
  have taken : 4 ≤ input.length ∧ version = input.take 4 := by
    obtain ⟨bytes, rfl, reads⟩ := (Reader.localSlice 4 _).consumed result
    obtain ⟨rfl, size⟩ := Reader.length_of_reads_slice reads
    rw [List.length_append, List.take_left' size]
    exact ⟨by omega, rfl⟩
  rw [taken.2, same taken.1]
  apply Reader.toOption_bind_congr (Reader.agree_require _ _ _ after)
  exact fun _ _ _ => rfl

/-- The version that is read is the first four bytes. -/
theorem version_of_run {dialect : Dialect} {input after : Bytes}
    {version : BitVec 32 × Bytes}
    (result : dialect.readVersion.spanned.run input = .ok (version, after)) :
    4 ≤ input.length ∧ version.1 = uint32LE (input.take 4) := by
  have localized : Reader.Local dialect.readVersion := Reader.localBind _ _
  obtain ⟨bytes, rfl, reads⟩ :=
    (Reader.localSpanned dialect.readVersion).consumed result
  obtain ⟨-, versionReads⟩ := Reader.reads_spanned.mp reads
  obtain ⟨same, size, -⟩ := dialect.version_of_readVersion versionReads
  refine ⟨?_, ?_⟩
  · rw [List.length_append, size]
    exact Nat.le_add_right 4 _
  · rw [same, List.take_left' size]

include firstLawful secondLawful

/-- Two dialects agree on an input when they agree on its version. -/
theorem readTransaction_agree {input : Bytes}
    (supported : 4 ≤ input.length →
      first.isSupported (uint32LE (input.take 4)) =
        second.isSupported (uint32LE (input.take 4)))
    (payload : 4 ≤ input.length →
      first.hasPayload (uint32LE (input.take 4)) =
        second.hasPayload (uint32LE (input.take 4))) :
    (first.readTransaction.run input).toOption =
      (second.readTransaction.run input).toOption := by
  have fields : (first.readFields.run input).toOption =
      (second.readFields.run input).toOption := by
    apply Reader.toOption_bind_congr
      (Reader.toOption_spanned_congr (agree_version_at first second supported))
    intro version after result
    obtain ⟨enough, isVersion⟩ := version_of_run result
    have sameEnding : first.hasPayload version.1 =
        second.hasPayload version.1 := by
      rw [isVersion]
      exact payload enough
    apply Reader.toOption_bind_congr rfl
    intro marked behind _
    exact agree_unmarked first second sameEnding marked behind
  apply Reader.toOption_bind_congr (Reader.toOption_spanned_congr fields)
  exact fun _ _ _ => rfl

end Agreement

end Dialect

namespace Index

variable {packages : Packages}

/-- Where both formats are that of a plain transaction, the readers accept the
same bytes and give the same members, bytes and stripped bytes. -/
theorem readers_agree (documented : packages.VaruintDocumented)
    {rest : Bytes}
    (plain : 4 ≤ rest.length →
      Rtm.isSupportedRtmTransactionVersion (uint32LE (rest.take 4)) = true ∧
      ¬(Rtm.txVersion (uint32LE (rest.take 4)) = 3 ∧
        Rtm.txType (uint32LE (rest.take 4)) ≠ 0)) :
    ((Rtm.readTransaction true).run rest).toOption =
      ((BitcoinUtils.readRawBitcoinTransaction packages).run rest).toOption := by
  have := BitcoinUtils.rawDialect_lawful documented
  rw [Rtm.readTransaction_eq, BitcoinUtils.readRawBitcoinTransaction_eq]
  apply Dialect.readTransaction_agree
  · exact fun enough => (plain enough).1
  · intro enough
    obtain ⟨-, noPayload⟩ := plain enough
    have withoutPayload : (Rtm.dialect true).hasPayload (uint32LE (rest.take 4)) =
        false := by
      rw [← Bool.not_eq_true]
      intro found
      apply noPayload
      simpa [Rtm.dialect] using found
    exact withoutPayload

/-- A version 1 transaction with an input, an output and a witness of two
items. -/
def signedTransaction : Bytes :=
  [1, 0, 0, 0] ++ advancedMarker ++
    [1] ++ List.replicate 32 9 ++ [2, 0, 0, 0] ++ [1, 0x51] ++ [3, 0, 0, 0] ++
    [1] ++ leBytes 8 5000 ++ [2, 0x6a, 0x24] ++
    [2, 0, 3, 7, 7, 7] ++ [4, 0, 0, 0]

theorem readers_agree_signed :
    ∃ transaction,
      (Rtm.readTransaction true).run (signedTransaction ++ [8]) =
        .ok (transaction, [8]) ∧
      (BitcoinUtils.readRawBitcoinTransaction .documented).run
        (signedTransaction ++ [8]) = .ok (transaction, [8]) ∧
      transaction.ins.map ParsedInput.witness = [[[], [7, 7, 7]]] ∧
      transaction.outs.map ParsedOutput.script = [[0x6a, 0x24]] ∧
      transaction.rawWithWitness = signedTransaction ∧
      transaction.rawNoWitness.length + 8 = signedTransaction.length := by
  have agreed := readers_agree Packages.documented_varuint
    (show 4 ≤ (signedTransaction ++ [8]).length →
      Rtm.isSupportedRtmTransactionVersion
        (uint32LE ((signedTransaction ++ [8]).take 4)) = true ∧
      ¬(Rtm.txVersion (uint32LE ((signedTransaction ++ [8]).take 4)) = 3 ∧
        Rtm.txType (uint32LE ((signedTransaction ++ [8]).take 4)) ≠ 0) by
          decide)
  obtain ⟨⟨transaction, rest⟩, read⟩ :=
    exists_of_isOk (show ((Rtm.readTransaction true).run
      (signedTransaction ++ [8])).isOk = true by decide +kernel)
  have members : ((Rtm.readTransaction true).run
      (signedTransaction ++ [8])).toOption.map (fun found =>
        (found.2, found.1.ins.map ParsedInput.witness,
          found.1.outs.map ParsedOutput.script, found.1.rawWithWitness,
          found.1.rawNoWitness.length)) =
      some ([8], [[[], [7, 7, 7]]], [[0x6a, 0x24]], signedTransaction, 63) := by
    decide +kernel
  rw [read] at members agreed
  simp only [Except.toOption, Option.map_some, Option.some.injEq,
    Prod.mk.injEq] at members
  obtain ⟨rfl, witnesses, scripts, raw, stripped⟩ := members
  refine ⟨transaction, read, toOption_eq_some.mp agreed.symm, witnesses,
    scripts, raw, ?_⟩
  rw [stripped]
  rfl

private theorem hasWitnesses_stripped (transaction : ParsedTransaction) :
    transaction.stripped.hasWitnesses = false := by
  rw [ParsedTransaction.hasWitnesses, ParsedTransaction.stripped,
    List.any_map, List.any_eq_false]
  intro input _ signed
  cases signed

private theorem map_unsigned_stripped (transaction : ParsedTransaction) :
    transaction.stripped.ins.map ParsedInput.unsigned =
      transaction.ins.map ParsedInput.unsigned := by
  rw [ParsedTransaction.stripped, List.map_map]
  rfl

/-- Stripped bytes are read again, as the transaction without its witnesses;
and they depend on nothing in the marker and the witnesses. -/
theorem stripping_sound (documented : packages.VaruintDocumented)
    (payload : Bool) :
    (∀ rest transaction after,
      (itemReader packages payload).run rest = .ok (transaction, after) →
      advancedMarker <+: rest.drop 4 →
        ∃ stripped,
          (itemReader packages payload).run transaction.rawNoWitness =
            .ok (stripped, []) ∧
          stripped.hasWitnesses = false ∧
          stripped.version = transaction.version ∧
          stripped.ins.map ParsedInput.unsigned =
            transaction.ins.map ParsedInput.unsigned ∧
          stripped.outs = transaction.outs ∧
          stripped.locktime = transaction.locktime ∧
          stripped.payload = transaction.payload) ∧
    ∀ firstRest secondRest first second firstAfter secondAfter,
      (itemReader packages payload).run firstRest =
        .ok (first, firstAfter) →
      (itemReader packages payload).run secondRest =
        .ok (second, secondAfter) →
      (itemDialect packages payload).outsideWitnesses first.rawWithWitness =
        (itemDialect packages payload).outsideWitnesses
          second.rawWithWitness →
        first.rawNoWitness = second.rawNoWitness ∧
        ∀ hash, transactionHash hash first false =
          transactionHash hash second false := by
  have := itemDialect_lawful documented payload
  have localReader := (itemDialect packages payload).local_readTransaction
  rw [itemReader_eq]
  constructor
  · intro rest transaction after result _
    obtain ⟨bytes, rfl, reads⟩ := localReader.consumed result
    exact ⟨transaction.stripped, (Dialect.reads_stripped reads).run,
      hasWitnesses_stripped transaction, rfl,
      map_unsigned_stripped transaction, rfl, rfl, rfl⟩
  · intro firstRest secondRest first second firstAfter secondAfter
      firstResult secondResult same
    obtain ⟨firstBytes, rfl, firstReads⟩ := localReader.consumed firstResult
    obtain ⟨secondBytes, rfl, secondReads⟩ :=
      localReader.consumed secondResult
    rw [Dialect.rawWithWitness_of_reads _ firstReads,
      Dialect.rawWithWitness_of_reads _ secondReads,
      Dialect.outsideWitnesses_of_reads firstReads,
      Dialect.outsideWitnesses_of_reads secondReads] at same
    have stripped := Except.ok.inj same
    refine ⟨stripped, fun hash => ?_⟩
    rw [transactionHash_stripped, transactionHash_stripped, stripped]

/-- A version 1 transaction with one input, which has an empty item as its
witness. -/
def witnessTransaction : Bytes :=
  [1, 0, 0, 0] ++ advancedMarker ++ [1] ++ List.replicate 36 0 ++ [0] ++
    List.replicate 4 0 ++ [0] ++ [1, 0] ++ List.replicate 4 0

theorem stripping_sound_witness :
    ∃ transaction stripped,
      (itemReader .documented false).run witnessTransaction =
        .ok (transaction, []) ∧
      (itemReader .documented false).run transaction.rawNoWitness =
        .ok (stripped, []) ∧
      transaction.hasWitnesses = true ∧ stripped.hasWitnesses = false := by
  obtain ⟨⟨transaction, rest⟩, read⟩ :=
    exists_of_isOk (show ((itemReader .documented false).run
      witnessTransaction).isOk = true by decide +kernel)
  have ended : ((itemReader .documented false).run
      witnessTransaction).toOption.map
        (fun result => (result.1.hasWitnesses, result.2)) =
          some (true, []) := by
    decide +kernel
  rw [read] at ended
  obtain ⟨signed, rfl⟩ := Prod.mk.inj (Option.some.inj ended)
  obtain ⟨stripped, strippedRead, bare, -⟩ :=
    (stripping_sound Packages.documented_varuint false).1 _ _ _ read
      (by decide)
  exact ⟨transaction, stripped, read, strippedRead, signed, bare⟩

end Index

end BlockTemplate
