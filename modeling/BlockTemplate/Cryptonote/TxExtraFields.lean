import BlockTemplate.Cryptonote.TxExtra

/-!
# Reading and extending transaction extra

`parse_tx_extra` and `add_extra_nonce_to_tx_extra` of
`cryptonote_format_utils.cpp`.  The parser reads the length of a nonce as a
varint and the writer puts one byte there, so they agree on the nonces whose
length is a varint of one byte.
-/

namespace BlockTemplate

open Serializer

/-- The loop over the fields: whether they are accepted, and those that were
read. -/
def parseTxExtraLoop : Nat → IStream → Bool × List TxExtraField
  | 0, _ => (false, [])
  | fuel + 1, stream =>
    match TxExtraField.doSerialize.load stream with
    | none => (false, [])
    | some (field, next) =>
      if next.atEnd then (next.good && next.rest.isEmpty, [field])
      else
        let (accepted, txExtraFields) := parseTxExtraLoop fuel next
        (accepted, field :: txExtraFields)

/-- Every field takes at least one byte. -/
def parseTxExtra (txExtra : Bytes) : Bool × List TxExtraField :=
  if txExtra.isEmpty then (true, [])
  else parseTxExtraLoop txExtra.length ⟨txExtra, true⟩

def addExtraNonceToTxExtra (txExtra extraNonce : Bytes) : Option Bytes :=
  if extraNonce.length ≤ txExtraNonceMaxCount then
    let startPos := txExtra.length
    let resized := txExtra ++ List.replicate (2 + extraNonce.length) 0
    let tagged := resized.set startPos 0x02
    let sized := tagged.set (startPos + 1) (BitVec.ofNat 8 extraNonce.length)
    some (overwrite sized (startPos + 2) extraNonce)
  else none

/-- A load that leaves more to read has taken a byte of a field that is no
padding. -/
theorem consumed_of_load
    {stream next : IStream} {field : TxExtraField}
    (loaded : TxExtraField.doSerialize.load stream = some (field, next))
    (more : next.atEnd = false) :
    ∃ bytes, stream = ⟨bytes ++ next.rest, true⟩ ∧ next.good = true ∧
      TxExtraField.filled.Reads field bytes := by
  obtain ⟨good, -⟩ : next.good = true ∧ next.rest.isEmpty = false := by
    simpa [IStream.atEnd] using more
  rcases TxExtraField.load_cases loaded with ⟨-, ended⟩ | filled
  · rw [ended] at more
    cases more
  · obtain ⟨streamGood, bytes, split, reads⟩ :=
      localFilled.consumed filled good
    refine ⟨bytes, ?_, good, reads⟩
    rw [← split, ← streamGood]

/-- Accepted fields that do not end in padding take their bytes one after the
other. -/
theorem readsEach_of_parseTxExtraLoop
    {fuel : Nat} {bytes : Bytes} {fields : List TxExtraField}
    (parsed : parseTxExtraLoop fuel ⟨bytes, true⟩ = (true, fields))
    (ended : ∀ padding, fields.getLast? ≠ some (.padding padding)) :
    ReadsEach TxExtraField.filled fields bytes := by
  induction fuel generalizing bytes fields with
  | zero => cases parsed
  | succ fuel ih =>
      rw [parseTxExtraLoop] at parsed
      cases loaded : TxExtraField.doSerialize.load ⟨bytes, true⟩ with
      | none =>
          rw [loaded] at parsed
          cases parsed
      | some result =>
          obtain ⟨field, next⟩ := result
          simp only [loaded] at parsed
          cases last : next.atEnd with
          | true =>
              simp only [last, if_true, Prod.mk.injEq, Bool.and_eq_true,
                List.isEmpty_iff] at parsed
              obtain ⟨⟨good, nothing⟩, rfl⟩ := parsed
              obtain ⟨rest, flag⟩ := next
              subst good nothing
              rcases TxExtraField.load_cases loaded with
                ⟨⟨padding, rfl⟩, -⟩ | filled
              · exact (ended padding rfl).elim
              · exact readsEach_singleton.mpr (Local.reads_of_load filled)
          | false =>
              obtain ⟨taken, split, good, reads⟩ :=
                consumed_of_load loaded last
              obtain ⟨rest, flag⟩ := next
              subst good
              cases split
              cases later : parseTxExtraLoop fuel ⟨rest, true⟩ with
              | mk accepted others =>
              simp only [last, later, Bool.false_eq_true, if_false,
                Prod.mk.injEq] at parsed
              obtain ⟨rfl, rfl⟩ := parsed
              refine .cons reads (ih later fun padding atEnd => ?_)
              apply ended padding
              rw [List.getLast?_cons, atEnd]
              rfl

private theorem parseTxExtraLoop_of_readsEach
    {fuel : Nat} {bytes : Bytes} {fields : List TxExtraField}
    (each : ReadsEach TxExtraField.filled fields bytes) (nonempty : fields ≠ [])
    (enough : fields.length ≤ fuel) :
    parseTxExtraLoop fuel ⟨bytes, true⟩ = (true, fields) := by
  induction each generalizing fuel with
  | nil => contradiction
  | @cons field others bytes later reads each ih =>
      obtain ⟨fuel, rfl⟩ : ∃ left, fuel = left + 1 :=
        ⟨fuel - 1, by rw [List.length_cons] at enough; omega⟩
      have loaded := TxExtraField.reads_of_filled reads later
      rw [parseTxExtraLoop, loaded]
      cases each with
      | nil => rfl
      | @cons next rest nextBytes restBytes nextReads restEach =>
          have positive := positiveFilled.length_pos nextReads
          have more : IStream.atEnd ⟨nextBytes ++ restBytes, true⟩ = false := by
            cases nextBytes with
            | nil => cases positive
            | cons => rfl
          have parsed := @ih fuel (List.cons_ne_nil _ _)
            (Nat.le_of_succ_le_succ enough)
          simp only [more, parsed, Bool.false_eq_true, if_false]

/-- Exactly what consists of the bytes of some fields, none of them a padding,
is read as fields that do not end in padding. -/
theorem parseTxExtra_iff {txExtra : Bytes} {fields : List TxExtraField} :
    (parseTxExtra txExtra = (true, fields) ∧
      ∀ padding, fields.getLast? ≠ some (.padding padding)) ↔
      ReadsEach TxExtraField.filled fields txExtra := by
  constructor
  · rintro ⟨parsed, ended⟩
    rw [parseTxExtra] at parsed
    split_ifs at parsed with empty
    · cases parsed
      rw [List.isEmpty_iff.mp empty]
      exact .nil
    · exact readsEach_of_parseTxExtraLoop parsed ended
  · intro each
    refine ⟨?_, fun padding last => ?_⟩
    · cases fields with
      | nil =>
          cases each
          rfl
      | cons field others =>
          have count := each.length_le positiveFilled.length_pos
          rw [Nat.mul_one, List.length_cons] at count
          rw [parseTxExtra, if_neg]
          · exact parseTxExtraLoop_of_readsEach each (List.cons_ne_nil _ _) count
          · rw [List.isEmpty_iff]
            rintro rfl
            cases count
    · obtain ⟨others, rfl⟩ := List.getLast?_eq_some_iff.mp last
      obtain ⟨_, _, -, -, padded⟩ := readsEach_append.mp each
      exact TxExtraField.tag_ne_zero_of_filled
        (readsEach_singleton.mp padded) rfl

/-- Bytes put behind fields that do not end in padding are read as one more
field if they are such a field. -/
theorem parseTxExtra_append_iff
    {txExtra bytes : Bytes} {fields : List TxExtraField} {field : TxExtraField}
    (parsed : parseTxExtra txExtra = (true, fields))
    (ended : ∀ padding, fields.getLast? ≠ some (.padding padding))
    (filled : ∀ padding, field ≠ .padding padding) :
    parseTxExtra (txExtra ++ bytes) = (true, fields ++ [field]) ↔
      TxExtraField.filled.Reads field bytes := by
  have each := parseTxExtra_iff.mp ⟨parsed, ended⟩
  constructor
  · intro extended
    have both := parseTxExtra_iff.mp ⟨extended, fun padding last => by
      rw [List.getLast?_concat] at last
      exact filled padding (Option.some.inj last)⟩
    obtain ⟨front, back, split, frontEach, backEach⟩ :=
      readsEach_append.mp both
    obtain ⟨-, rfl⟩ := each.unique frontEach split
    exact readsEach_singleton.mp backEach
  · intro reads
    exact (parseTxExtra_iff.mpr (readsEach_append.mpr
      ⟨_, _, rfl, each, readsEach_singleton.mpr reads⟩)).1

theorem addExtraNonceToTxExtra_eq_some {txExtra extraNonce longer : Bytes} :
    addExtraNonceToTxExtra txExtra extraNonce = some longer ↔
      extraNonce.length ≤ 255 ∧
        longer = txExtra ++
          0x02 :: BitVec.ofNat 8 extraNonce.length :: extraNonce := by
  have room : List.replicate (2 + extraNonce.length) (0 : Byte) =
      0 :: 0 :: List.replicate extraNonce.length 0 := by
    rw [Nat.add_comm]
    rfl
  have written : overwrite (((txExtra ++
      List.replicate (2 + extraNonce.length) 0).set txExtra.length 0x02).set
        (txExtra.length + 1) (BitVec.ofNat 8 extraNonce.length))
      (txExtra.length + 2) extraNonce =
        txExtra ++ 0x02 :: BitVec.ofNat 8 extraNonce.length :: extraNonce := by
    rw [room, List.set_append_right _ _ le_rfl, Nat.sub_self,
      List.set_append_right _ _ (Nat.le_add_right _ 1),
      Nat.add_sub_cancel_left]
    simp only [List.set_cons_zero, List.set_cons_succ]
    have middle := @overwrite_middle txExtra
      (0x02 :: BitVec.ofNat 8 extraNonce.length ::
        List.replicate extraNonce.length 0) [] extraNonce 2
      (by simp only [List.length_cons, List.length_replicate]; omega)
    rw [List.append_nil, List.append_nil] at middle
    have filledIn : overwrite (0x02 :: BitVec.ofNat 8 extraNonce.length ::
        List.replicate extraNonce.length 0) 2 extraNonce =
          0x02 :: BitVec.ofNat 8 extraNonce.length :: extraNonce := by
      simp [overwrite, Nat.add_comm 2]
    rw [middle, filledIn]
  rw [addExtraNonceToTxExtra, txExtraNonceMaxCount]
  split_ifs with short
  · simp only [written, Option.some.injEq, short, true_and]
    exact eq_comm
  · simp [short]

private theorem reads_txExtraNonce {nonce bytes : Bytes} :
    TxExtraNonce.doSerialize.Reads ⟨nonce⟩ bytes ↔
      nonce.length ≤ 255 ∧ bytes = saveString nonce := by
  rw [TxExtraNonce.doSerialize, reads_bind]
  constructor
  · rintro ⟨loaded, nonceBytes, checkBytes, rfl, nonceReads, checked⟩
    obtain ⟨_, nothing, later, rfl, required, built⟩ := reads_bind.mp checked
    obtain ⟨short, rfl⟩ := reads_require.mp required
    obtain ⟨same, rfl⟩ := reads_pure.mp built
    cases same
    rw [reads_field, reads_string] at nonceReads
    refine ⟨of_decide_eq_true short, ?_⟩
    rw [nonceReads.2, List.append_nil, List.append_nil]
  · rintro ⟨short, rfl⟩
    refine ⟨nonce, _, [], (List.append_nil _).symm, ?_, ?_⟩
    · rw [reads_field, reads_string]
      exact ⟨by omega, rfl⟩
    · exact reads_bind.mpr ⟨(), [], [], rfl,
        reads_require.mpr ⟨decide_eq_true short, rfl⟩,
        reads_pure.mpr ⟨rfl, rfl⟩⟩

theorem reads_filled_nonce {nonce bytes : Bytes} :
    TxExtraField.filled.Reads (.nonce ⟨nonce⟩) bytes ↔
      nonce.length ≤ 255 ∧ bytes = 0x02 :: saveString nonce := by
  have selected : selectAlternative (TxExtraField.tag (.nonce ⟨nonce⟩))
      TxExtraField.filledAlternatives =
        TxExtraField.nonceAlternative.serializer := rfl
  have payloads (payload : Bytes) :
      TxExtraField.nonceAlternative.serializer.Reads (.nonce ⟨nonce⟩) payload ↔
        nonce.length ≤ 255 ∧ payload = saveString nonce := by
    rw [Alternative.reads_serializer, ← reads_txExtraNonce]
    constructor
    · rintro ⟨field, same, reads⟩
      cases same
      exact reads
    · intro reads
      exact ⟨_, rfl, reads⟩
  rw [TxExtraField.filled, reads_variant, selected]
  simp only [payloads]
  constructor
  · rintro ⟨_, rfl, short, rfl⟩
    exact ⟨short, rfl⟩
  · rintro ⟨short, rfl⟩
    exact ⟨_, rfl, short, rfl⟩

/-- The length of a string is one byte exactly below 128. -/
theorem saveString_eq_cons_iff {value : Bytes} (short : value.length ≤ 255) :
    saveString value = BitVec.ofNat 8 value.length :: value ↔
      value.length ≤ 127 := by
  have same : (BitVec.ofNat 64 value.length).toNat = value.length := by
    rw [BitVec.toNat_ofNat]
    omega
  have single := @writeVarint_eq_singleton_iff 64 _
    (BitVec.ofNat 64 value.length)
  rw [same] at single
  rw [saveString, ← List.singleton_append, List.append_cancel_right_eq, single]
  omega

/-- The length is one byte, and the parser reads a varint. -/
theorem add_extra_nonce_parsed_iff
    {txExtra extraNonce longer : Bytes} {fields : List TxExtraField}
    (parsed : parseTxExtra txExtra = (true, fields))
    (ended : ∀ padding, fields.getLast? ≠ some (.padding padding))
    (added : addExtraNonceToTxExtra txExtra extraNonce = some longer) :
    parseTxExtra longer = (true, fields ++ [.nonce ⟨extraNonce⟩]) ↔
      extraNonce.length ≤ 127 := by
  obtain ⟨short, rfl⟩ := addExtraNonceToTxExtra_eq_some.mp added
  rw [parseTxExtra_append_iff parsed ended fun padding => TxExtraField.noConfusion,
    reads_filled_nonce, ← saveString_eq_cons_iff short]
  simp [short, eq_comm]

theorem add_extra_nonce_parsed_iff_key :
    parseTxExtra ([0x01] ++ List.replicate 32 0 ++ [0x02, 0x01, 0x07]) =
        (true, [.pubKey ⟨Blob.zero 32⟩] ++ [.nonce ⟨[0x07]⟩]) ↔
      [(0x07 : Byte)].length ≤ 127 :=
  add_extra_nonce_parsed_iff (show parseTxExtra
      ([0x01] ++ List.replicate 32 0) = (true, [.pubKey ⟨Blob.zero 32⟩]) by
    decide +kernel) (fun _ => nofun) (by decide +kernel)

theorem add_extra_nonce_lost :
    parseTxExtra [] = (true, []) ∧
      addExtraNonceToTxExtra [] (List.replicate 128 0) =
        some ([0x02, 0x80] ++ List.replicate 128 0) ∧
      parseTxExtra ([0x02, 0x80] ++ List.replicate 128 0) = (false, []) := by
  decide +kernel

end BlockTemplate
