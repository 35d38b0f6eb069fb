import BlockTemplate.Wire.Primitives

/-!
# Containers

Counted elements, length-prefixed vectors and strings, and variants chosen by
a tag byte.  The check that a count is at most the number of bytes left looks
past the bytes a load consumes; it never refuses elements that are there,
because each takes at least one byte.
-/

namespace BlockTemplate.Serializer

variable {Obj Val : Type}

/-- Loads `count` elements; the stream has to be good after each. -/
def loadElements (codec : Codec Val) :
    Nat → IStream → Option (List Val × IStream)
  | 0, stream => some ([], stream)
  | count + 1, stream =>
    (codec.load stream).bind fun first =>
      if first.2.good then
        (loadElements codec count first.2).map fun later =>
          (first.1 :: later.1, later.2)
      else none

def saveElements (codec : Codec Val) : List Val → Option Bytes
  | [] => some []
  | value :: values =>
    (codec.save value).bind fun saved =>
      (saveElements codec values).map fun later => saved.2 ++ later

/-- A vector whose size is known from elsewhere. -/
def elements (count : Nat) (codec : Codec Val) : Codec (List Val) where
  load := loadElements codec count
  save values :=
    if values.length = count then
      (saveElements codec values).map fun bytes => (values, bytes)
    else none

/-- Fails when fewer than `count` bytes are left. -/
def guardRemaining (count : Nat) (codec : Codec Val) : Codec Val where
  load stream :=
    if stream.remainingBytes < count then none else codec.load stream
  save := codec.save

/-- `do_serialize` of a `std::vector`. -/
def vector (codec : Codec Val) : Serializer (List Val) (List Val) := do
  let count ← field (fun values => BitVec.ofNat 64 values.length) (uvarint 64)
  guardRemaining count.toNat (elements count.toNat codec)

/-- `do_serialize` of a `std::string`. -/
def string : Serializer Bytes Bytes := do
  let size ← raw (fun value => BitVec.ofNat 64 value.length) (uvarint 64)
  guardRemaining size.toNat (chars size.toNat)

/-- What a save of a string writes; it cannot fail. -/
def saveString (value : Bytes) : Bytes :=
  writeVarint (BitVec.ofNat 64 value.length) ++ value

/-- The bytes that `values` are loaded from, one element after the other. -/
inductive ReadsEach (codec : Codec Val) : List Val → Bytes → Prop where
  | nil : ReadsEach codec [] []
  | cons {value : Val} {values : List Val} {bytes later : Bytes} :
      codec.Reads value bytes → ReadsEach codec values later →
      ReadsEach codec (value :: values) (bytes ++ later)

theorem ReadsEach.load
    {codec : Codec Val} {values : List Val} {bytes : Bytes}
    (each : ReadsEach codec values bytes) (rest : Bytes) :
    loadElements codec values.length ⟨bytes ++ rest, true⟩ =
      some (values, ⟨rest, true⟩) := by
  induction each with
  | nil => rfl
  | cons reads _ ih =>
      rw [List.length_cons, loadElements, List.append_assoc, reads]
      simp [ih]

theorem loadElements_succ_eq_some
    {codec : Codec Val} {count : Nat} {stream next : IStream}
    {values : List Val}
    (result : loadElements codec (count + 1) stream = some (values, next)) :
    ∃ value tail rest, codec.load stream = some (value, ⟨rest, true⟩) ∧
      loadElements codec count ⟨rest, true⟩ = some (tail, next) ∧
      values = value :: tail := by
  simp only [loadElements, Option.bind_eq_some_iff] at result
  obtain ⟨⟨value, ⟨rest, good⟩⟩, loaded, later⟩ := result
  split at later
  · rename_i isGood
    simp only [Option.map_eq_some_iff] at later
    obtain ⟨⟨tail, last⟩, tailLoaded, pairEq⟩ := later
    cases pairEq
    obtain rfl : good = true := isGood
    exact ⟨value, tail, rest, loaded, tailLoaded, rfl⟩
  · cases later

theorem loadElements_good
    {codec : Codec Val} [codecLocal : Local codec] {count : Nat}
    {stream next : IStream} {values : List Val}
    (result : loadElements codec count stream = some (values, next))
    (good : next.good = true) :
    values.length = count ∧ ∃ bytes,
      stream = ⟨bytes ++ next.rest, true⟩ ∧ ReadsEach codec values bytes := by
  induction count generalizing stream values with
  | zero =>
      cases result
      refine ⟨rfl, [], ?_, .nil⟩
      rw [← good]
      rfl
  | succ count ih =>
      obtain ⟨value, tail, rest, loaded, tailLoaded, rfl⟩ :=
        loadElements_succ_eq_some result
      obtain ⟨sizeEq, tailBytes, tailSplit, tailEach⟩ := ih tailLoaded
      cases tailSplit
      obtain ⟨streamGood, bytes, split, reads⟩ :=
        codecLocal.consumed loaded rfl
      refine ⟨by simp [sizeEq], bytes ++ tailBytes, ?_, .cons reads tailEach⟩
      rw [← streamGood, List.append_assoc, ← split]

theorem reads_elements
    {codec : Codec Val} [Local codec] {count : Nat}
    {values : List Val} {bytes : Bytes} :
    (elements count codec).Reads values bytes ↔
      values.length = count ∧ ReadsEach codec values bytes := by
  constructor
  · intro reads
    obtain ⟨sizeEq, consumed, start, each⟩ := loadElements_good reads.load rfl
    have same : bytes = consumed := by simpa using start
    exact ⟨sizeEq, same ▸ each⟩
  · rintro ⟨rfl, each⟩ rest
    exact each.load rest

instance localElements (count : Nat) (codec : Codec Val) [Local codec] :
    Local (elements count codec) where
  consumed := by
    intro stream next values result good
    obtain ⟨sizeEq, bytes, rfl, each⟩ := loadElements_good result good
    exact ⟨rfl, bytes, rfl, reads_elements.mpr ⟨sizeEq, each⟩⟩

theorem readsEach_encode
    {codec : Codec Val} {encode : Val → Bytes}
    [encodes : Encodes codec encode] (values : List Val) :
    ReadsEach codec values (values.flatMap encode) := by
  induction values with
  | nil => exact .nil
  | cons value values ih => exact .cons (encodes.reads_encode value) ih

theorem ReadsEach.save
    {codec : Codec Val} [codecCanonical : Canonical codec]
    {values : List Val} {bytes : Bytes}
    (each : ReadsEach codec values bytes) :
    saveElements codec values = some bytes := by
  induction each with
  | nil => rfl
  | cons reads _ ih =>
      simp [saveElements, codecCanonical.save_of_reads reads, ih]

instance canonicalElements (count : Nat) (codec : Codec Val)
    [Local codec] [Canonical codec] : Canonical (elements count codec) where
  save_of_reads := by
    intro values bytes reads
    obtain ⟨sizeEq, each⟩ := reads_elements.mp reads
    simp [elements, sizeEq, each.save]

theorem ReadsEach.length_le
    {codec : Codec Val} {values : List Val} {bytes : Bytes} {size : Nat}
    (sized : ∀ {value : Val} {bytes : Bytes},
      codec.Reads value bytes → size ≤ bytes.length)
    (each : ReadsEach codec values bytes) :
    values.length * size ≤ bytes.length := by
  induction each with
  | nil => simp
  | cons reads _ ih =>
      have first := sized reads
      rw [List.length_cons, List.length_append, Nat.succ_mul]
      omega

theorem readsEach_append
    {codec : Codec Val} {first second : List Val} {bytes : Bytes} :
    ReadsEach codec (first ++ second) bytes ↔
      ∃ firstBytes secondBytes, bytes = firstBytes ++ secondBytes ∧
        ReadsEach codec first firstBytes ∧
        ReadsEach codec second secondBytes := by
  induction first generalizing bytes with
  | nil =>
      constructor
      · intro each
        exact ⟨[], bytes, rfl, .nil, each⟩
      · rintro ⟨firstBytes, secondBytes, rfl, firstEach, secondEach⟩
        cases firstEach
        exact secondEach
  | cons value values ih =>
      constructor
      · intro each
        cases each with
        | cons reads later =>
            obtain ⟨middle, secondBytes, rfl, firstEach, secondEach⟩ :=
              ih.mp later
            exact ⟨_, secondBytes, (List.append_assoc _ _ _).symm,
              .cons reads firstEach, secondEach⟩
      · rintro ⟨firstBytes, secondBytes, rfl, firstEach, secondEach⟩
        cases firstEach with
        | cons reads later =>
            rw [List.append_assoc]
            exact .cons reads (ih.mpr ⟨_, _, rfl, later, secondEach⟩)

/-- The same values take the same bytes at the start of a string. -/
theorem ReadsEach.unique
    {codec : Codec Val} {values : List Val}
    {first second firstRest secondRest : Bytes}
    (firstEach : ReadsEach codec values first)
    (secondEach : ReadsEach codec values second)
    (same : first ++ firstRest = second ++ secondRest) :
    first = second ∧ firstRest = secondRest := by
  have result := firstEach.load firstRest
  rw [same, secondEach.load secondRest] at result
  simp only [Option.some.injEq, Prod.mk.injEq, IStream.mk.injEq,
    and_true, true_and] at result
  subst result
  exact ⟨List.append_cancel_right same, rfl⟩

theorem readsEach_singleton
    {codec : Codec Val} {value : Val} {bytes : Bytes} :
    ReadsEach codec [value] bytes ↔ codec.Reads value bytes := by
  constructor
  · intro each
    cases each with
    | cons reads later =>
        cases later
        rwa [List.append_nil]
  · intro reads
    have each := ReadsEach.cons reads .nil
    rwa [List.append_nil] at each

theorem reads_elements_uint8 {count : Nat} {values bytes : Bytes} :
    (elements count uint8).Reads values bytes ↔
      values.length = count ∧ bytes = values := by
  rw [reads_elements]
  refine and_congr_right fun _ => ⟨fun each => ?_, ?_⟩
  · clear * - each
    induction each with
    | nil => rfl
    | cons reads _ ih => rw [ih, reads_iff_encode.mp reads]; rfl
  · rintro rfl
    clear * -
    induction bytes with
    | nil => exact .nil
    | cons byte bytes ih =>
        exact ReadsEach.cons (reads_iff_encode.mpr rfl) ih

theorem reads_guardRemaining
    {count : Nat} {codec : Codec Val} [Local codec]
    (enough : ∀ {value : Val} {bytes : Bytes},
      codec.Reads value bytes → count ≤ bytes.length)
    {value : Val} {bytes : Bytes} :
    (guardRemaining count codec).Reads value bytes ↔
      codec.Reads value bytes := by
  constructor
  · intro reads
    have result := reads.load
    simp only [guardRemaining] at result
    split at result
    · cases result
    · exact Local.reads_of_load result
  · intro reads rest
    have fits : ¬(bytes ++ rest).length < count := by
      have := enough reads
      rw [List.length_append]
      omega
    have loaded := reads rest
    simp only [guardRemaining, IStream.remainingBytes_good, if_neg fits,
      loaded]

theorem local_guardRemaining
    {count : Nat} {codec : Codec Val} [codecLocal : Local codec]
    (enough : ∀ {value : Val} {bytes : Bytes},
      codec.Reads value bytes → count ≤ bytes.length) :
    Local (guardRemaining count codec) where
  consumed := by
    intro stream next value result good
    simp only [guardRemaining] at result
    split at result
    · cases result
    · obtain ⟨streamGood, bytes, split, reads⟩ :=
        codecLocal.consumed result good
      exact ⟨streamGood, bytes, split,
        (reads_guardRemaining enough).mpr reads⟩

theorem canonical_guardRemaining
    {count : Nat} {codec : Codec Val}
    [Local codec] [codecCanonical : Canonical codec]
    (enough : ∀ {value : Val} {bytes : Bytes},
      codec.Reads value bytes → count ≤ bytes.length) :
    Canonical (guardRemaining count codec) where
  save_of_reads reads :=
    codecCanonical.save_of_reads ((reads_guardRemaining enough).mp reads)

instance yieldsGuardRemaining {Member : Type} (count : Nat)
    (codec : Codec Val) (get : Val → Member) (expected : Member)
    [codecYields : Yields codec get expected] :
    Yields (guardRemaining count codec) get expected where
  of_load := by
    intro stream next value result
    simp only [guardRemaining] at result
    split at result
    · cases result
    · exact codecYields.of_load result

/-- A value that has to pass a test. -/
def checked (test : Val → Bool) (codec : Codec Val) : Codec Val where
  load stream := (codec.load stream).filter fun result => test result.1
  save value := if test value then codec.save value else none

theorem reads_checked
    {test : Val → Bool} {codec : Codec Val} {value : Val} {bytes : Bytes} :
    (checked test codec).Reads value bytes ↔
      codec.Reads value bytes ∧ test value = true := by
  simp only [Reads, checked, Option.filter_eq_some_iff]
  exact ⟨fun reads => ⟨fun rest => (reads rest).1, (reads []).2⟩,
    fun reads rest => ⟨reads.1 rest, reads.2⟩⟩

instance localChecked (test : Val → Bool) (codec : Codec Val)
    [codecLocal : Local codec] : Local (checked test codec) where
  consumed := by
    intro stream next value result good
    obtain ⟨loaded, passes⟩ := Option.filter_eq_some_iff.mp result
    obtain ⟨streamGood, bytes, split, reads⟩ :=
      codecLocal.consumed loaded good
    exact ⟨streamGood, bytes, split, reads_checked.mpr ⟨reads, passes⟩⟩

instance canonicalChecked (test : Val → Bool) (codec : Codec Val)
    [codecCanonical : Canonical codec] : Canonical (checked test codec) where
  save_of_reads := by
    intro value bytes reads
    obtain ⟨valueReads, passes⟩ := reads_checked.mp reads
    simp [checked, passes, codecCanonical.save_of_reads valueReads]

instance yieldsChecked {Member : Type} (test : Val → Bool)
    (codec : Codec Val) (get : Val → Member) (expected : Member)
    [codecYields : Yields codec get expected] :
    Yields (checked test codec) get expected where
  of_load result :=
    codecYields.of_load (Option.filter_eq_some_iff.mp result).1

theorem length_loadElements
    {codec : Codec Val} {count : Nat} {stream next : IStream}
    {values : List Val}
    (result : loadElements codec count stream = some (values, next)) :
    values.length = count := by
  induction count generalizing stream values with
  | zero =>
      cases result
      rfl
  | succ count ih =>
      obtain ⟨value, tail, rest, -, tailLoaded, rfl⟩ :=
        loadElements_succ_eq_some result
      rw [List.length_cons, ih tailLoaded]

instance yieldsElements {bits : Nat} (count : BitVec bits)
    (codec : Codec Val) :
    Yields (elements count.toNat codec)
      (fun values => BitVec.ofNat bits values.length) count where
  of_load := by
    intro stream next values result
    rw [length_loadElements result]
    simp

theorem elements_enough
    {codec : Codec Val} [Local codec] [codecPositive : Positive codec]
    {count : Nat} {values : List Val} {bytes : Bytes}
    (reads : (elements count codec).Reads values bytes) :
    count ≤ bytes.length := by
  obtain ⟨rfl, each⟩ := reads_elements.mp reads
  have bound : values.length * 1 ≤ bytes.length :=
    each.length_le codecPositive.length_pos
  omega

instance localGuardElements (codec : Codec Val)
    [Local codec] [Positive codec] (count : Nat) :
    Local (guardRemaining count (elements count codec)) :=
  local_guardRemaining elements_enough

instance canonicalGuardElements (codec : Codec Val)
    [Local codec] [Canonical codec] [Positive codec] (count : Nat) :
    Canonical (guardRemaining count (elements count codec)) :=
  canonical_guardRemaining elements_enough

instance localVector (codec : Codec Val) [Local codec] [Positive codec] :
    Local (vector codec) :=
  inferInstanceAs (Local (_ >>= _))

instance canonicalVector (codec : Codec Val)
    [Local codec] [Canonical codec] [Positive codec] :
    Canonical (vector codec) :=
  canonicalField _ _ _

theorem reads_vector
    {codec : Codec Val} [Local codec] [Positive codec]
    {values : List Val} {bytes : Bytes} :
    (vector codec).Reads values bytes ↔
      values.length < 2 ^ 64 ∧ ∃ elementBytes,
        bytes = writeVarint (BitVec.ofNat 64 values.length) ++ elementBytes ∧
          ReadsEach codec values elementBytes := by
  rw [vector, reads_bind]
  constructor
  · rintro ⟨count, countBytes, elementBytes, rfl, countReads, guarded⟩
    rw [reads_field, reads_iff_encode] at countReads
    rw [reads_guardRemaining elements_enough, reads_elements] at guarded
    obtain ⟨sizeEq, each⟩ := guarded
    refine ⟨sizeEq ▸ count.isLt, elementBytes, ?_, each⟩
    rw [countReads, sizeEq, BitVec.ofNat_toNat, BitVec.setWidth_eq]
  · rintro ⟨small, elementBytes, rfl, each⟩
    refine ⟨BitVec.ofNat 64 values.length, _, elementBytes, rfl, ?_, ?_⟩
    · rw [reads_field, reads_iff_encode]
    · rw [reads_guardRemaining elements_enough, reads_elements,
        BitVec.toNat_ofNat, Nat.mod_eq_of_lt small]
      exact ⟨rfl, each⟩

theorem reads_vector_uint8 {values bytes : Bytes} :
    (vector uint8).Reads values bytes ↔
      values.length < 2 ^ 64 ∧
        bytes = writeVarint (BitVec.ofNat 64 values.length) ++ values := by
  rw [reads_vector]
  have each (elementBytes : Bytes) :
      ReadsEach uint8 values elementBytes ↔ elementBytes = values := by
    have counted :=
      @reads_elements_uint8 values.length values elementBytes
    rw [reads_elements] at counted
    simpa using counted
  simp only [each]
  constructor
  · rintro ⟨small, _, rfl, rfl⟩
    exact ⟨small, rfl⟩
  · rintro ⟨small, rfl⟩
    exact ⟨small, values, rfl, rfl⟩

instance positiveVector (codec : Codec Val) [Local codec] [Positive codec] :
    Positive (vector codec) :=
  inferInstanceAs (Positive (_ >>= _))

theorem chars_enough {size : Nat} {value bytes : Bytes}
    (reads : (chars size).Reads value bytes) : size ≤ bytes.length := by
  obtain ⟨rfl, sizeEq⟩ := reads_chars.mp reads
  exact sizeEq.ge

instance yieldsChars (size : BitVec 64) :
    Yields (chars size.toNat)
      (fun value => BitVec.ofNat 64 value.length) size where
  of_load := by
    intro stream next value result
    simp only [chars, Option.some.injEq, Prod.mk.injEq] at result
    rw [← result.1, Blob.length_bytes]
    simp

instance localGuardChars (size : Nat) :
    Local (guardRemaining size (chars size)) :=
  local_guardRemaining chars_enough

instance canonicalGuardChars (size : Nat) :
    Canonical (guardRemaining size (chars size)) :=
  canonical_guardRemaining chars_enough

instance localString : Local string :=
  inferInstanceAs (Local (_ >>= _))

instance positiveString : Positive string :=
  inferInstanceAs (Positive (_ >>= _))

instance canonicalString : Canonical string :=
  canonicalRaw _ _ _

theorem reads_string {value bytes : Bytes} :
    string.Reads value bytes ↔
      value.length < 2 ^ 64 ∧ bytes = saveString value := by
  rw [string, reads_bind]
  constructor
  · rintro ⟨size, sizeBytes, characters, rfl, sizeReads, guarded⟩
    rw [reads_raw, reads_iff_encode] at sizeReads
    rw [reads_guardRemaining chars_enough, reads_chars] at guarded
    obtain ⟨rfl, sizeEq⟩ := guarded
    refine ⟨sizeEq ▸ size.isLt, ?_⟩
    rw [saveString, sizeReads, sizeEq, BitVec.ofNat_toNat, BitVec.setWidth_eq]
  · rintro ⟨small, rfl⟩
    refine ⟨BitVec.ofNat 64 value.length, _, value, rfl, ?_, ?_⟩
    · rw [reads_raw, reads_iff_encode]
    · rw [reads_guardRemaining chars_enough, reads_chars, BitVec.toNat_ofNat,
        Nat.mod_eq_of_lt small]
      exact ⟨rfl, rfl⟩

/-- A value saved as a string, all of which has to be loaded. -/
def nested (codec : Codec Val) : Codec Val where
  load stream :=
    (string.load stream).bind fun result =>
      (codec.parse result.1).map fun value => (value, result.2)
  save value :=
    (codec.dump value).bind fun bytes =>
      (string.save bytes).map fun saved => (value, saved.2)

theorem load_nested_eq_some
    {codec : Codec Val} {value : Val} {stream next : IStream} :
    (nested codec).load stream = some (value, next) ↔
      ∃ inner, string.load stream = some (inner, next) ∧
        codec.parse inner = some value := by
  simp only [nested, Option.bind_eq_some_iff, Option.map_eq_some_iff,
    Prod.mk.injEq, Prod.exists]
  constructor
  · rintro ⟨inner, last, loaded, found, parsed, rfl, rfl⟩
    exact ⟨inner, loaded, parsed⟩
  · rintro ⟨inner, loaded, parsed⟩
    exact ⟨inner, next, loaded, value, parsed, rfl, rfl⟩

theorem reads_nested
    {codec : Codec Val} [Local codec] {value : Val} {bytes : Bytes} :
    (nested codec).Reads value bytes ↔
      ∃ inner, string.Reads inner bytes ∧ codec.Reads value inner := by
  constructor
  · intro reads
    obtain ⟨inner, loaded, parsed⟩ := load_nested_eq_some.mp reads.load
    exact ⟨inner, Local.reads_of_load loaded, parse_eq_some.mp parsed⟩
  · rintro ⟨inner, reads, innerReads⟩ rest
    exact load_nested_eq_some.mpr
      ⟨inner, reads rest, parse_eq_some.mpr innerReads⟩

instance localNested (codec : Codec Val) [Local codec] :
    Local (nested codec) where
  consumed := by
    intro stream next value result good
    obtain ⟨inner, loaded, parsed⟩ := load_nested_eq_some.mp result
    obtain ⟨streamGood, bytes, split, reads⟩ :=
      localString.consumed loaded good
    exact ⟨streamGood, bytes, split,
      reads_nested.mpr ⟨inner, reads, parse_eq_some.mp parsed⟩⟩

instance canonicalNested (codec : Codec Val)
    [Local codec] [Canonical codec] : Canonical (nested codec) where
  save_of_reads := by
    intro value bytes reads
    obtain ⟨inner, stringReads, innerReads⟩ := reads_nested.mp reads
    simp only [nested, innerReads.dump, Option.bind_some,
      canonicalString.save_of_reads stringReads, Option.map_some]

/-- One alternative of a variant whose values carry a tag. -/
structure Alternative (Obj : Type) (tagOf : Obj → Byte) where
  Payload : Type
  tag : Byte
  inject : Payload → Obj
  project : Obj → Option Payload
  codec : Codec Payload
  tag_inject : ∀ payload, tagOf (inject payload) = tag := by intro; rfl
  project_inject : ∀ payload, project (inject payload) = some payload := by
    intro; rfl

namespace Alternative

variable {tagOf : Obj → Byte}

def serializer (alternative : Alternative Obj tagOf) : Codec Obj where
  load stream := (alternative.codec.load stream).map fun result =>
    (alternative.inject result.1, result.2)
  save object := (alternative.project object).bind fun payload =>
    (alternative.codec.save payload).map fun saved => (object, saved.2)

theorem load_serializer_eq_some
    {alternative : Alternative Obj tagOf} {value : Obj}
    {stream next : IStream} :
    alternative.serializer.load stream = some (value, next) ↔
      ∃ payload, alternative.codec.load stream = some (payload, next) ∧
        value = alternative.inject payload := by
  simp only [serializer, Option.map_eq_some_iff, Prod.mk.injEq, Prod.exists]
  constructor
  · rintro ⟨payload, last, loaded, rfl, rfl⟩
    exact ⟨payload, loaded, rfl⟩
  · rintro ⟨payload, loaded, rfl⟩
    exact ⟨payload, next, loaded, rfl, rfl⟩

instance localSerializer (alternative : Alternative Obj tagOf)
    [codecLocal : Local alternative.codec] :
    Local alternative.serializer where
  consumed := by
    intro stream next value result good
    obtain ⟨payload, loaded, rfl⟩ := load_serializer_eq_some.mp result
    obtain ⟨streamGood, bytes, split, reads⟩ :=
      codecLocal.consumed loaded good
    exact ⟨streamGood, bytes, split,
      fun rest => load_serializer_eq_some.mpr ⟨payload, reads rest, rfl⟩⟩

theorem reads_serializer (alternative : Alternative Obj tagOf)
    [Local alternative.codec] {value : Obj} {bytes : Bytes} :
    alternative.serializer.Reads value bytes ↔
      ∃ payload, value = alternative.inject payload ∧
        alternative.codec.Reads payload bytes := by
  constructor
  · intro reads
    obtain ⟨payload, loaded, rfl⟩ := load_serializer_eq_some.mp reads.load
    exact ⟨payload, rfl, Local.reads_of_load loaded⟩
  · rintro ⟨payload, rfl, reads⟩ rest
    exact load_serializer_eq_some.mpr ⟨payload, reads rest, rfl⟩

instance canonicalSerializer (alternative : Alternative Obj tagOf)
    [Local alternative.codec] [codecCanonical : Canonical alternative.codec] :
    Canonical alternative.serializer where
  save_of_reads := by
    intro value bytes reads
    obtain ⟨payload, rfl, payloadReads⟩ :=
      alternative.reads_serializer.mp reads
    simp [serializer, alternative.project_inject,
      codecCanonical.save_of_reads payloadReads]

end Alternative

section Variant

variable (tagOf : Obj → Byte)

/-- `variant_reader`: the first alternative that has the tag. -/
def selectAlternative {tagOf : Obj → Byte} (tag : Byte) :
    List (Alternative Obj tagOf) → Codec Obj
  | [] => { load := fun _ => none, save := fun _ => none }
  | alternative :: alternatives =>
    if alternative.tag = tag then alternative.serializer
    else selectAlternative tag alternatives

/-- A `boost::variant`: the tag byte, then the alternative it names. -/
def variant (alternatives : List (Alternative Obj tagOf)) :
    Serializer Obj Obj := do
  let tag ← raw tagOf uint8
  selectAlternative tag alternatives

variable {tagOf}

/-- Every alternative of a variant has the laws. -/
class LawfulAlternatives (alternatives : List (Alternative Obj tagOf)) :
    Prop where
  lawful : ∀ alternative ∈ alternatives,
    Local alternative.codec ∧ Canonical alternative.codec

instance lawfulNil :
    LawfulAlternatives ([] : List (Alternative Obj tagOf)) where
  lawful _ member := (List.not_mem_nil member).elim

instance lawfulCons (alternative : Alternative Obj tagOf)
    (alternatives : List (Alternative Obj tagOf))
    [headLocal : Local alternative.codec]
    [headCanonical : Canonical alternative.codec]
    [tail : LawfulAlternatives alternatives] :
    LawfulAlternatives (alternative :: alternatives) where
  lawful := by
    intro candidate member
    rcases List.mem_cons.mp member with rfl | later
    · exact ⟨headLocal, headCanonical⟩
    · exact tail.lawful candidate later

theorem LawfulAlternatives.tail
    {alternative : Alternative Obj tagOf}
    {alternatives : List (Alternative Obj tagOf)}
    (all : LawfulAlternatives (alternative :: alternatives)) :
    LawfulAlternatives alternatives where
  lawful candidate member :=
    all.lawful candidate (List.mem_cons_of_mem alternative member)

/-- Selecting a tag gives nothing, or one of the alternatives with it. -/
theorem selectAlternative_cases
    (tag : Byte) (alternatives : List (Alternative Obj tagOf)) :
    (selectAlternative tag alternatives).load = (fun _ => none) ∨
      ∃ alternative ∈ alternatives, alternative.tag = tag ∧
        selectAlternative tag alternatives = alternative.serializer := by
  induction alternatives with
  | nil => exact .inl rfl
  | cons head tail ih =>
      by_cases same : head.tag = tag
      · right
        exact ⟨head, List.mem_cons_self, same, by
          rw [selectAlternative, if_pos same]⟩
      · rw [selectAlternative, if_neg same]
        rcases ih with unknown | ⟨alternative, member, found⟩
        · exact .inl unknown
        · exact .inr ⟨alternative, List.mem_cons_of_mem head member, found⟩

instance localSelect (tag : Byte)
    (alternatives : List (Alternative Obj tagOf))
    [all : LawfulAlternatives alternatives] :
    Local (selectAlternative tag alternatives) := by
  rcases selectAlternative_cases tag alternatives with
    unknown | ⟨alternative, member, -, found⟩
  · constructor
    intro stream next value result
    rw [unknown] at result
    cases result
  · have := (all.lawful alternative member).1
    rw [found]
    infer_instance

instance canonicalSelect (tag : Byte)
    (alternatives : List (Alternative Obj tagOf))
    [all : LawfulAlternatives alternatives] :
    Canonical (selectAlternative tag alternatives) := by
  rcases selectAlternative_cases tag alternatives with
    unknown | ⟨alternative, member, -, found⟩
  · constructor
    intro value bytes reads
    have result := reads.load
    rw [unknown] at result
    cases result
  · obtain ⟨alternativeLocal, alternativeCanonical⟩ :=
      all.lawful alternative member
    rw [found]
    infer_instance

instance yieldsSelect (tag : Byte)
    (alternatives : List (Alternative Obj tagOf)) :
    Yields (selectAlternative tag alternatives) tagOf tag where
  of_load := by
    intro stream next value result
    rcases selectAlternative_cases tag alternatives with
      unknown | ⟨alternative, -, rfl, found⟩
    · rw [unknown] at result
      cases result
    · rw [found] at result
      obtain ⟨payload, -, rfl⟩ := Alternative.load_serializer_eq_some.mp result
      exact alternative.tag_inject payload

theorem reads_variant
    {alternatives : List (Alternative Obj tagOf)}
    [LawfulAlternatives alternatives] {value : Obj} {bytes : Bytes} :
    (variant tagOf alternatives).Reads value bytes ↔
      ∃ payload, bytes = tagOf value :: payload ∧
        (selectAlternative (tagOf value) alternatives).Reads value payload := by
  rw [variant, reads_bind]
  constructor
  · rintro ⟨tag, tagBytes, payload, rfl, tagReads, reads⟩
    obtain rfl : tagOf value = tag :=
      (yieldsSelect tag alternatives).of_load reads.load
    rw [reads_raw, reads_iff_encode] at tagReads
    exact ⟨payload, by rw [tagReads]; rfl, reads⟩
  · rintro ⟨payload, rfl, reads⟩
    exact ⟨_, [tagOf value], payload, rfl,
      reads_raw.mpr (reads_iff_encode.mpr rfl), reads⟩

instance localVariant (alternatives : List (Alternative Obj tagOf))
    [LawfulAlternatives alternatives] : Local (variant tagOf alternatives) :=
  inferInstanceAs (Local (_ >>= _))

instance canonicalVariant (alternatives : List (Alternative Obj tagOf))
    [LawfulAlternatives alternatives] : Canonical (variant tagOf alternatives) :=
  canonicalRaw _ _ _

instance positiveVariant (alternatives : List (Alternative Obj tagOf))
    [LawfulAlternatives alternatives] : Positive (variant tagOf alternatives) :=
  inferInstanceAs (Positive (_ >>= _))

end Variant

end BlockTemplate.Serializer
