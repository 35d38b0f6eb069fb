import BlockTemplate.Bitcoin.HeightPush
import BlockTemplate.Bitcoin.ScriptWriting

/-!
# The extra nonce of a Raven template

Where the coinbase script of a template lies, and where its placeholder.  The
reserved offset is computed from the size of the height, not from the script:
it counts the `OP_0` behind the height even where there is none.
-/

namespace BlockTemplate.Index

variable {packages : Packages}

/-- The script of the coinbase. -/
def ravenScript (height : Int) : Bytes :=
  serializedBlockHeight height ++ extraNoncePlaceholder

private theorem ravenInput_eq
    {script part : Bytes} (documented : packages.VaruintDocumented)
    (short : script.length < 0xfd)
    (written : BitcoinUtils.serializeInput packages
      { hash := List.replicate 32 0, index := 0xffffffff
        sequence := some 0xffffffff, script := some script } = .ok part) :
    ∃ head, head.length = 37 ∧
      part = head ++ (script ++ List.replicate 4 0xff) := by
  obtain ⟨index, sequence, -, indexOk, sequenceOk, -, rfl⟩ :=
    BitcoinUtils.serializeInput_eq_ok documented written
  have indexSize := length_of_writeUIntLE indexOk
  have last : packUInt32LE 0xffffffff = .ok (List.replicate 4 0xff) := by
    decide
  have same : sequence = List.replicate 4 0xff :=
    Except.ok.inj (sequenceOk.symm.trans last)
  have one : CompactSize.encode script.length =
      [BitVec.ofNat 8 script.length] := by
    rw [CompactSize.encode, if_pos short]
  refine ⟨List.replicate 32 0 ++ index ++ CompactSize.encode script.length,
    ?_, ?_⟩
  · rw [List.length_append, List.length_append, List.length_replicate,
      indexSize, one]
    rfl
  · rw [same, Option.getD_some, Dialect.sizedBytes]
    simp only [List.append_assoc]

/-- Where the script of a template lies. -/
theorem script_of_built
    (documented : packages.VaruintDocumented)
    {rpcData : RavenRpcData} {poolAddress : JsString}
    {cache after : SeedCache} {template : RavenTemplate}
    (built : (RavenBlockTemplate packages rpcData poolAddress).runOn cache =
      (.ok template, after))
    (short : (ravenScript rpcData.height).length < 0xfd) :
    ∃ before behind,
      ofHex template.blocktemplateBlob =
        before ++ (ravenScript rpcData.height ++
          (List.replicate 4 0xff ++ behind)) ∧
      inputScripts packages (ravenLayout packages)
        (ofHex template.blocktemplateBlob) =
          .ok [(before.length, (ravenScript rpcData.height).length)] ∧
      template.reservedOffset =
        before.length + 1 + bytesHeight rpcData.height + 1 := by
  have := BitcoinUtils.rawDialect_lawful documented
  obtain ⟨blob, offset1, assembled, text, reserved⟩ :=
    assembled_of_built built
  obtain ⟨fields, count, outputs, coinbase, fieldsSize, counted, written, -,
    rfl, rfl⟩ := assembleBlob_eq_ok assembled
  obtain ⟨safe, rfl⟩ := documented.encode_eq_ok counted
  obtain ⟨anatomy, inputs, outBytes, parts, rfl, unmarked, body, insSafe,
    outsSafe, insWritten⟩ :=
      BitcoinUtils.anatomy_of_serializeTransaction documented written
        (List.cons_ne_nil _ _)
  obtain ⟨part, _, partWritten, noneLeft, rfl⟩ :=
    List.forall₂_cons_left_iff.mp insWritten
  obtain rfl := List.forall₂_nil_left_iff.mp noneLeft
  obtain ⟨head, headSize, rfl⟩ := ravenInput_eq documented short partWritten
  have dialectInput :=
    BitcoinUtils.reads_serializeInput documented partWritten
  let datas :=
    (rpcData.transactions.map fun value => ofHex value.data).flatten
  let count := CompactSize.encode (rpcData.transactions.length + 1)
  let before := fields ++ (count ++
    (anatomy.version ++ (CompactSize.encode 1 ++ head)))
  have oneSize : (CompactSize.encode 1).length = 1 := rfl
  have beforeSize : before.length = 120 + count.length + 42 := by
    simp only [before, List.length_append, fieldsSize, parts.size, headSize,
      oneSize]
    omega
  have noMarker : anatomy.marker = [] := by
    rw [Anatomy.marker, unmarked, if_neg Bool.false_ne_true]
  have isBlob : fields ++ (count ++ (anatomy.bytes ++ datas)) =
      before ++ (ravenScript rpcData.height ++ (List.replicate 4 0xff ++
        (CompactSize.encode outputs.length ++ (outBytes ++
          (anatomy.witnesses ++ (anatomy.ending ++ datas)))))) := by
    rw [Anatomy.bytes, noMarker, body]
    simp only [before, List.flatten_cons, List.flatten_nil, List.append_nil,
      List.nil_append, List.append_assoc]
    rfl
  have placed := @inputScripts_of_anatomy packages documented
    (ravenLayout packages) fields datas _ _ outBytes _ _ _ _ _ _ fieldsSize
    safe parts body
    ((BitcoinUtils.rawDialect packages).reads_varInt "input count" insSafe)
    (.cons dialectInput .nil)
    ((BitcoinUtils.rawDialect packages).reads_varInt "output count" outsSafe)
  have place : 120 + count.length + (4 + anatomy.marker.length +
      (CompactSize.encode 1).length) +
        ((head ++ (ravenScript rpcData.height ++
          List.replicate 4 0xff)).length - 4 -
            (ravenScript rpcData.height).length) = before.length := by
    simp only [beforeSize, noMarker, List.length_append, List.length_nil,
      List.length_replicate, headSize, oneSize]
    omega
  rw [text, ofHex_toHex, reserved]
  refine ⟨before, _, isBlob, placed.trans ?_, ?_⟩
  · exact congrArg (fun start =>
      Except.ok [(start, (ravenScript rpcData.height).length)]) place
  · rw [beforeSize]

/-- The parts of the script of a template, and the reserved offset. -/
theorem placeholder_of_built
    (documented : packages.VaruintDocumented)
    {rpcData : RavenRpcData} {poolAddress : JsString}
    {cache after : SeedCache} {template : RavenTemplate}
    (built : (RavenBlockTemplate packages rpcData poolAddress).runOn cache =
      (.ok template, after))
    (low : 17 ≤ rpcData.height) (high : rpcData.height < 2 ^ 32) :
    ∃ before number behind,
      Rtm.serializeNumber rpcData.height = .ok number ∧
      ofHex template.blocktemplateBlob =
        before ++ (ravenScript rpcData.height ++ behind) ∧
      inputScripts packages (ravenLayout packages)
        (ofHex template.blocktemplateBlob) =
          .ok [(before.length, (ravenScript rpcData.height).length)] ∧
      ravenScript rpcData.height =
        (if rpcData.height.toNat.size % 8 = 0 then number
          else number ++ [0x00]) ++ extraNoncePlaceholder ∧
      template.reservedOffset = before.length + number.length + 1 := by
  obtain ⟨height, same⟩ := Int.eq_ofNat_of_zero_le
    (show 0 ≤ rpcData.height by omega)
  have more : 16 < height := by omega
  have fits : height < 2 ^ 63 := by omega
  obtain ⟨number, numberOk, numberSize, serial⟩ :=
    serializedBlockHeight_of_serializeNumber more fits
  have bits : height.size ≤ 32 := Nat.size_le.mpr (by omega)
  have script : ravenScript rpcData.height =
      (if height.size % 8 = 0 then number else number ++ [0x00]) ++
        extraNoncePlaceholder := by
    rw [ravenScript, same, serial]
  have short : (ravenScript rpcData.height).length < 0xfd := by
    have placeholderSize : extraNoncePlaceholder.length = 17 := rfl
    have pushSize := bytesHeight_eq (show 0 < height by omega)
    have bound : (if height.size % 8 = 0 then number
        else number ++ [0x00]).length ≤ number.length + 1 := by
      split_ifs
      · exact Nat.le_succ _
      · exact (List.length_append).le
    rw [script, List.length_append]
    omega
  obtain ⟨before, behind, blob, placed, reserved⟩ :=
    script_of_built documented built short
  refine ⟨before, number, _, by rwa [same], blob, placed, ?_, ?_⟩
  · rw [script, same, Int.toNat_natCast]
  · rw [reserved, same, numberSize]
    omega

/-- The script begins with the height and ends with the placeholder, and the
reserved offset is that of the placeholder. -/
def ReservesPlaceholder (packages : Packages) (height : Int)
    (template : RavenTemplate) : Prop :=
  let blob := ofHex template.blocktemplateBlob
  ∃ start size number,
    inputScripts packages (ravenLayout packages) blob = .ok [(start, size)] ∧
    Rtm.serializeNumber height = .ok number ∧
    number <+: (blob.drop start).take size ∧
    extraNoncePlaceholder <:+ (blob.drop start).take size ∧
    template.reservedOffset + 17 = start + size ∧
    ∀ data : Bytes, data.length = 17 → ∀ index,
      ¬(start + size ≤ index + 17 ∧ index < start + size) →
        (overwrite blob template.reservedOffset data)[index]? = blob[index]?

/-- Where the height takes whole bytes, the reserved offset is one behind the
placeholder's. -/
theorem not_reservesPlaceholder_of_built
    (documented : packages.VaruintDocumented)
    {rpcData : RavenRpcData} {poolAddress : JsString}
    {cache after : SeedCache} {template : RavenTemplate}
    (built : (RavenBlockTemplate packages rpcData poolAddress).runOn cache =
      (.ok template, after))
    (low : 17 ≤ rpcData.height) (high : rpcData.height < 2 ^ 32)
    (full : rpcData.height.toNat.size % 8 = 0) :
    ¬ReservesPlaceholder packages rpcData.height template := by
  obtain ⟨before, number, behind, numberOk, blob, placed, script, reserved⟩ :=
    placeholder_of_built documented built low high
  rintro ⟨start, size, _, found, -, -, -, ended, -⟩
  rw [placed] at found
  obtain ⟨place, -⟩ := List.cons.inj (Except.ok.inj found)
  obtain ⟨rfl, rfl⟩ := Prod.mk.inj place
  have placeholderSize : extraNoncePlaceholder.length = 17 := rfl
  rw [script, if_pos full, List.length_append, reserved] at ended
  omega

/-- The reserved offset is that of the placeholder unless the height takes
whole bytes. -/
theorem ravenBlockTemplate_reserves_iff
    (documented : packages.VaruintDocumented)
    {rpcData : RavenRpcData} {poolAddress : JsString}
    {cache after : SeedCache} {template : RavenTemplate}
    (built : (RavenBlockTemplate packages rpcData poolAddress).runOn cache =
      (.ok template, after))
    (low : 17 ≤ rpcData.height) (high : rpcData.height < 2 ^ 32) :
    ReservesPlaceholder packages rpcData.height template ↔
      rpcData.height.toNat.size % 8 ≠ 0 := by
  constructor
  · intro reserves full
    exact not_reservesPlaceholder_of_built documented built low high full
      reserves
  · intro spare
    obtain ⟨before, number, behind, numberOk, blob, placed, script,
      reserved⟩ := placeholder_of_built documented built low high
    rw [if_neg spare] at script
    have placeholderSize : extraNoncePlaceholder.length = 17 := rfl
    have scriptSize : (ravenScript rpcData.height).length =
        number.length + 1 + 17 := by
      rw [script, List.length_append, List.length_append, placeholderSize]
      rfl
    have taken : ((ofHex template.blocktemplateBlob).drop before.length).take
        (ravenScript rpcData.height).length =
          ravenScript rpcData.height := by
      rw [blob, List.drop_left, List.take_left]
    refine ⟨_, _, number, placed, numberOk, ?_, ?_, ?_, ?_⟩
    · rw [taken, script, List.append_assoc]
      exact List.prefix_append _ _
    · rw [taken, script]
      exact List.suffix_append _ _
    · rw [reserved, scriptSize]
      omega
    · intro data size index outside
      have inside : template.reservedOffset + data.length ≤
          (ofHex template.blocktemplateBlob).length := by
        rw [blob, List.length_append, List.length_append, scriptSize, size,
          reserved]
        omega
      rw [getElem?_overwrite inside, if_neg]
      rw [size, reserved]
      omega

theorem ravenBlockTemplate_reserves_sample :
    ∃ template after,
      (RavenBlockTemplate .documented (heightRequest 321)
        samplePoolAddress).runOn noSeed = (.ok template, after) ∧
      ReservesPlaceholder .documented 321 template := by
  obtain ⟨template, after, built⟩ :=
    @heightRequest_built 321 noSeed (by decide +kernel)
  refine ⟨template, after, built, ?_⟩
  exact (ravenBlockTemplate_reserves_iff Packages.documented_varuint built
    (by decide) (by decide)).mpr (by decide)

/-- The height 128 takes eight bits. -/
theorem ravenBlockTemplate_reserves_sequence :
    ∃ template after,
      (RavenBlockTemplate .documented (heightRequest 128)
        samplePoolAddress).runOn noSeed = (.ok template, after) ∧
      ¬ReservesPlaceholder .documented 128 template := by
  obtain ⟨template, after, built⟩ :=
    @heightRequest_built 128 noSeed (by decide +kernel)
  refine ⟨template, after, built, ?_⟩
  exact not_reservesPlaceholder_of_built Packages.documented_varuint built
    (by decide) (by decide) (by decide)

end BlockTemplate.Index
