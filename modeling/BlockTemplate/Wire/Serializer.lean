import BlockTemplate.Wire.Varint

/-!
# Two-way serializers

A serializer is one description of a layout that is run in two directions: it
loads a value from a stream and saves an object to bytes.  A record is
described by one `do` block, whose steps name the member they load or save,
so a format is written down once.

The laws are classes that follow the shape of such a block.  `Local` says
that a load which succeeds depends on the bytes it consumed and on nothing
else, `Canonical` that saving a loaded value gives these bytes back.
-/

namespace BlockTemplate

/-- A layout of the values `Val`, saved from an object `Obj` they belong to.
Both directions can refuse. -/
structure Serializer (Obj Val : Type) where
  load : IStream → Option (Val × IStream)
  save : Obj → Option (Val × Bytes)

/-- A serializer of a type by itself. -/
abbrev Codec (Val : Type) := Serializer Val Val

namespace Serializer

variable {Obj Val Next : Type}

instance : Monad (Serializer Obj) where
  pure value :=
    { load := fun stream => some (value, stream)
      save := fun _ => some (value, []) }
  bind first next :=
    { load := fun stream =>
        (first.load stream).bind fun result =>
          (next result.1).load result.2
      save := fun object =>
        (first.save object).bind fun result =>
          ((next result.1).save object).map fun later =>
            (later.1, result.2 ++ later.2) }

/-- A member whose stream state is looked at only later. -/
def raw (get : Obj → Val) (codec : Codec Val) : Serializer Obj Val where
  load := codec.load
  save object := (codec.save (get object)).map fun saved => (get object, saved.2)

/-- A member; the stream has to be good after it. -/
def field (get : Obj → Val) (codec : Codec Val) : Serializer Obj Val where
  load stream :=
    (codec.load stream).bind fun result =>
      if result.2.good then some result else none
  save := (raw get codec).save

/-- A member that is there under a condition; a load without it leaves the
member as a new object has it. -/
def fieldIf (condition : Bool) (get : Obj → Val) (codec : Codec Val)
    (initial : Val) : Serializer Obj Val where
  load stream :=
    if condition then (field get codec).load stream
    else some (initial, stream)
  save object :=
    if condition then (field get codec).save object
    else some (get object, [])

/-- `if (!condition) return false`. -/
def require (condition : Bool) : Serializer Obj Unit where
  load stream := if condition then some ((), stream) else none
  save _ := if condition then some ((), []) else none

/-- A layout kept in another representation of the value. -/
def via {Repr : Type} (encode : Val → Repr) (decode : Repr → Val)
    (codec : Codec Repr) : Codec Val where
  load stream := (codec.load stream).map fun result =>
    (decode result.1, result.2)
  save value := (codec.save (encode value)).map fun saved => (value, saved.2)

/-- The bytes `bytes` are loaded as `value`, whatever comes after them. -/
def Reads (serializer : Serializer Obj Val) (value : Val) (bytes : Bytes) :
    Prop :=
  ∀ rest, serializer.load ⟨bytes ++ rest, true⟩ = some (value, ⟨rest, true⟩)

/-- A load that leaves the stream good started on a good stream, consumed
some bytes, and depends on these only. -/
class Local (serializer : Serializer Obj Val) : Prop where
  consumed : ∀ {stream next : IStream} {value : Val},
    serializer.load stream = some (value, next) → next.good = true →
      stream.good = true ∧
        ∃ bytes, stream.rest = bytes ++ next.rest ∧
          serializer.Reads value bytes

/-- Saving a loaded value gives the bytes it was loaded from. -/
class Canonical (codec : Serializer Val Val) : Prop where
  save_of_reads : ∀ {value : Val} {bytes : Bytes},
    codec.Reads value bytes → codec.save value = some (value, bytes)

/-- Every loaded value has `expected` as its member `get`. -/
class Yields {Member : Type} (serializer : Serializer Obj Val)
    (get : Val → Member) (expected : outParam Member) : Prop where
  of_load : ∀ {stream next : IStream} {value : Val},
    serializer.load stream = some (value, next) → get value = expected

/-- Every loaded value takes at least one byte. -/
class Positive (serializer : Serializer Obj Val) : Prop where
  length_pos : ∀ {value : Val} {bytes : Bytes},
    serializer.Reads value bytes → 0 < bytes.length

theorem Reads.load
    {serializer : Serializer Obj Val} {value : Val} {bytes : Bytes}
    (reads : serializer.Reads value bytes) :
    serializer.load ⟨bytes, true⟩ = some (value, ⟨[], true⟩) := by
  simpa using reads []

theorem Local.reads
    {serializer : Serializer Obj Val} [localized : Local serializer]
    {value : Val} {bytes rest : Bytes}
    (result : serializer.load ⟨bytes ++ rest, true⟩ =
      some (value, ⟨rest, true⟩)) :
    serializer.Reads value bytes := by
  obtain ⟨-, consumed, same, reads⟩ := localized.consumed result rfl
  have : bytes = consumed := List.append_cancel_right same
  exact this ▸ reads

theorem Local.reads_of_load
    {serializer : Serializer Obj Val} [Local serializer]
    {value : Val} {bytes : Bytes}
    (result : serializer.load ⟨bytes, true⟩ = some (value, ⟨[], true⟩)) :
    serializer.Reads value bytes := by
  have appended : serializer.load ⟨bytes ++ [], true⟩ =
      some (value, ⟨[], true⟩) := by
    rw [List.append_nil]
    exact result
  exact Local.reads appended

/-- A string is loaded as at most one value, and no two of its prefixes are
both loaded. -/
theorem Reads.unique
    {serializer : Serializer Obj Val}
    {first second : Val} {firstBytes secondBytes firstRest secondRest : Bytes}
    (firstReads : serializer.Reads first firstBytes)
    (secondReads : serializer.Reads second secondBytes)
    (same : firstBytes ++ firstRest = secondBytes ++ secondRest) :
    first = second ∧ firstBytes = secondBytes ∧ firstRest = secondRest := by
  have result := firstReads firstRest
  rw [same, secondReads secondRest] at result
  simp only [Option.some.injEq, Prod.mk.injEq, IStream.mk.injEq,
    and_true] at result
  obtain ⟨values, rests⟩ := result
  subst rests
  exact ⟨values.symm, List.append_cancel_right same, rfl⟩

theorem load_bind
    {first : Serializer Obj Val} {next : Val → Serializer Obj Next}
    {stream : IStream} :
    (first >>= next).load stream =
      (first.load stream).bind fun result => (next result.1).load result.2 :=
  rfl

theorem load_bind_eq_some
    {first : Serializer Obj Val} {next : Val → Serializer Obj Next}
    {value : Next} {stream last : IStream} :
    (first >>= next).load stream = some (value, last) ↔
      ∃ loaded middle, first.load stream = some (loaded, middle) ∧
        (next loaded).load middle = some (value, last) := by
  rw [load_bind, Option.bind_eq_some_iff, Prod.exists]

theorem save_bind
    {first : Serializer Obj Val} {next : Val → Serializer Obj Next}
    {object : Obj} :
    (first >>= next).save object =
      (first.save object).bind fun result =>
        ((next result.1).save object).map fun later =>
          (later.1, result.2 ++ later.2) :=
  rfl

@[simp]
theorem load_pure {value : Val} {stream : IStream} :
    (pure value : Serializer Obj Val).load stream = some (value, stream) :=
  rfl

@[simp]
theorem save_pure {value : Val} {object : Obj} :
    (pure value : Serializer Obj Val).save object = some (value, []) :=
  rfl

theorem save_field {get : Obj → Val} {codec : Codec Val} {object : Obj} :
    (field get codec).save object =
      (codec.save (get object)).map fun saved => (get object, saved.2) :=
  rfl

theorem load_field_eq_some
    {get : Obj → Val} {codec : Codec Val}
    {stream next : IStream} {value : Val} :
    (field get codec).load stream = some (value, next) ↔
      codec.load stream = some (value, next) ∧ next.good = true := by
  simp only [field, Option.bind_eq_some_iff]
  constructor
  · rintro ⟨result, loaded, checked⟩
    split at checked
    · rename_i good
      cases checked
      exact ⟨loaded, good⟩
    · cases checked
  · rintro ⟨loaded, good⟩
    exact ⟨_, loaded, by rw [if_pos good]⟩

instance localPure (value : Val) :
    Local (pure value : Serializer Obj Val) where
  consumed := by
    intro stream next loaded result good
    cases result
    exact ⟨good, [], rfl, fun _ => rfl⟩

instance localBind (first : Serializer Obj Val)
    (next : Val → Serializer Obj Next)
    [firstLocal : Local first] [nextLocal : ∀ value, Local (next value)] :
    Local (first >>= next) where
  consumed := by
    intro stream last value result good
    obtain ⟨loaded, middle, firstResult, nextResult⟩ :=
      load_bind_eq_some.mp result
    obtain ⟨middleGood, nextBytes, nextSplit, nextReads⟩ :=
      (nextLocal loaded).consumed nextResult good
    obtain ⟨streamGood, firstBytes, firstSplit, firstReads⟩ :=
      firstLocal.consumed firstResult middleGood
    refine ⟨streamGood, firstBytes ++ nextBytes, ?_, fun rest => ?_⟩
    · rw [firstSplit, nextSplit, List.append_assoc]
    · rw [load_bind, List.append_assoc, firstReads]
      exact nextReads rest

instance localRaw (get : Obj → Val) (codec : Codec Val)
    [codecLocal : Local codec] : Local (raw get codec) where
  consumed := codecLocal.consumed

instance localField (get : Obj → Val) (codec : Codec Val)
    [codecLocal : Local codec] : Local (field get codec) where
  consumed := by
    intro stream next value result good
    obtain ⟨streamGood, bytes, split, reads⟩ :=
      codecLocal.consumed (load_field_eq_some.mp result).1 good
    exact ⟨streamGood, bytes, split,
      fun rest => load_field_eq_some.mpr ⟨reads rest, rfl⟩⟩

instance localFieldIf (condition : Bool) (get : Obj → Val)
    (codec : Codec Val) (initial : Val) [Local codec] :
    Local (fieldIf condition get codec initial) := by
  cases condition with
  | true => exact ⟨(localField get codec).consumed⟩
  | false =>
      have missing : Local (pure initial : Serializer Obj Val) := inferInstance
      exact ⟨missing.consumed⟩

instance localRequire (condition : Bool) :
    Local (require condition : Serializer Obj Unit) := by
  cases condition with
  | true =>
      have passed : Local (pure () : Serializer Obj Unit) := inferInstance
      exact ⟨passed.consumed⟩
  | false =>
      constructor
      intro stream next value result
      cases result

-- The continuation of a requirement is one serializer, not a family over
-- `Unit`; found that way, instance search does not repeat its work.
instance (priority := high) localRequireBind (condition : Bool)
    (next : Unit → Serializer Obj Next) [nextLocal : Local (next ())] :
    Local (require condition >>= next) :=
  have : ∀ value, Local (next value) := fun _ => nextLocal
  localBind _ _

instance localIte (condition : Prop) [Decidable condition]
    (first second : Serializer Obj Val) [Local first] [Local second] :
    Local (if condition then first else second) := by
  split <;> infer_instance

theorem load_via_eq_some
    {Repr : Type} {encode : Val → Repr} {decode : Repr → Val}
    {codec : Codec Repr} {value : Val} {stream next : IStream} :
    (via encode decode codec).load stream = some (value, next) ↔
      ∃ repr, codec.load stream = some (repr, next) ∧ value = decode repr := by
  simp only [via, Option.map_eq_some_iff, Prod.mk.injEq, Prod.exists]
  constructor
  · rintro ⟨repr, last, loaded, rfl, rfl⟩
    exact ⟨repr, loaded, rfl⟩
  · rintro ⟨repr, loaded, rfl⟩
    exact ⟨repr, next, loaded, rfl, rfl⟩

instance localVia {Repr : Type} (encode : Val → Repr) (decode : Repr → Val)
    (codec : Codec Repr) [codecLocal : Local codec] :
    Local (via encode decode codec) where
  consumed := by
    intro stream next value result good
    obtain ⟨repr, loaded, rfl⟩ := load_via_eq_some.mp result
    obtain ⟨streamGood, bytes, split, reads⟩ :=
      codecLocal.consumed loaded good
    exact ⟨streamGood, bytes, split,
      fun rest => load_via_eq_some.mpr ⟨repr, reads rest, rfl⟩⟩

theorem reads_bind
    {first : Serializer Obj Val} {next : Val → Serializer Obj Next}
    [firstLocal : Local first] [nextLocal : ∀ value, Local (next value)]
    {value : Next} {bytes : Bytes} :
    (first >>= next).Reads value bytes ↔
      ∃ loaded firstBytes nextBytes, bytes = firstBytes ++ nextBytes ∧
        first.Reads loaded firstBytes ∧ (next loaded).Reads value nextBytes := by
  constructor
  · intro reads
    obtain ⟨loaded, middle, firstResult, nextResult⟩ :=
      load_bind_eq_some.mp reads.load
    obtain ⟨middleGood, nextBytes, nextSplit, nextReads⟩ :=
      (nextLocal loaded).consumed nextResult rfl
    obtain ⟨-, firstBytes, firstSplit, firstReads⟩ :=
      firstLocal.consumed firstResult middleGood
    rw [List.append_nil] at nextSplit
    exact ⟨loaded, firstBytes, nextBytes, nextSplit ▸ firstSplit,
      firstReads, nextReads⟩
  · rintro ⟨loaded, firstBytes, nextBytes, rfl, firstReads, nextReads⟩ rest
    rw [load_bind, List.append_assoc, firstReads]
    exact nextReads rest

@[simp]
theorem reads_pure {value loaded : Val} {bytes : Bytes} :
    (pure value : Serializer Obj Val).Reads loaded bytes ↔
      loaded = value ∧ bytes = [] := by
  constructor
  · intro reads
    have result := reads.load
    cases result
    exact ⟨rfl, rfl⟩
  · rintro ⟨rfl, rfl⟩ rest
    rfl

@[simp]
theorem reads_raw {get : Obj → Val} {codec : Codec Val}
    {value : Val} {bytes : Bytes} :
    (raw get codec).Reads value bytes ↔ codec.Reads value bytes :=
  Iff.rfl

@[simp]
theorem reads_field {get : Obj → Val} {codec : Codec Val}
    {value : Val} {bytes : Bytes} :
    (field get codec).Reads value bytes ↔ codec.Reads value bytes := by
  constructor
  · intro reads rest
    exact (load_field_eq_some.mp (reads rest)).1
  · intro reads rest
    exact load_field_eq_some.mpr ⟨reads rest, rfl⟩

theorem reads_fieldIf {condition : Bool} {get : Obj → Val}
    {codec : Codec Val} {initial value : Val} {bytes : Bytes} :
    (fieldIf condition get codec initial).Reads value bytes ↔
      if condition then codec.Reads value bytes
      else value = initial ∧ bytes = [] := by
  cases condition with
  | true => exact reads_field
  | false => exact @reads_pure Obj _ _ _ _

@[simp]
theorem reads_require {condition : Bool} {value : Unit} {bytes : Bytes} :
    (require condition : Serializer Obj Unit).Reads value bytes ↔
      condition = true ∧ bytes = [] := by
  cases condition with
  | true => exact (@reads_pure Obj _ _ _ _).trans (by simp)
  | false =>
      constructor
      · intro reads
        cases reads.load
      · rintro ⟨impossible, -⟩
        cases impossible

theorem reads_via {Repr : Type} {encode : Val → Repr} {decode : Repr → Val}
    {codec : Codec Repr} {value : Val} {bytes : Bytes}
    [Local codec] :
    (via encode decode codec).Reads value bytes ↔
      ∃ repr, value = decode repr ∧ codec.Reads repr bytes := by
  constructor
  · intro reads
    obtain ⟨repr, loaded, rfl⟩ := load_via_eq_some.mp reads.load
    exact ⟨repr, rfl, Local.reads_of_load loaded⟩
  · rintro ⟨repr, rfl, reads⟩ rest
    exact load_via_eq_some.mpr ⟨repr, reads rest, rfl⟩

/-- What the first serializer loads, the second loads from the same bytes,
mapped by `update`. -/
def Maps (update : Val → Val) (first second : Serializer Obj Val) : Prop :=
  ∀ value bytes, first.Reads value bytes → second.Reads (update value) bytes

theorem maps_bind
    {update : Next → Next} {first : Serializer Obj Val}
    {next other : Val → Serializer Obj Next}
    [Local first] [∀ value, Local (next value)] [∀ value, Local (other value)]
    (step : ∀ loaded, Maps update (next loaded) (other loaded)) :
    Maps update (first >>= next) (first >>= other) := by
  intro value bytes reads
  obtain ⟨loaded, firstBytes, nextBytes, rfl, firstReads, nextReads⟩ :=
    reads_bind.mp reads
  exact reads_bind.mpr ⟨loaded, firstBytes, nextBytes, rfl, firstReads,
    step loaded value nextBytes nextReads⟩

theorem maps_pure (update : Val → Val) (value : Val) :
    Maps update (pure value : Serializer Obj Val) (pure (update value)) := by
  intro loaded bytes reads
  obtain ⟨rfl, rfl⟩ := reads_pure.mp reads
  exact reads_pure.mpr ⟨rfl, rfl⟩

instance yieldsPure {Member : Type} (get : Val → Member) (value : Val) :
    Yields (pure value : Serializer Obj Val) get (get value) where
  of_load := by
    intro stream next loaded result
    cases result
    rfl

instance yieldsBind {Member : Type} (first : Serializer Obj Val)
    (next : Val → Serializer Obj Next) (get : Next → Member)
    (expected : Member)
    [nextYields : ∀ value, Yields (next value) get expected] :
    Yields (first >>= next) get expected where
  of_load := by
    intro stream last value result
    obtain ⟨loaded, middle, -, nextResult⟩ := load_bind_eq_some.mp result
    exact (nextYields loaded).of_load nextResult

instance (priority := high) yieldsRequireBind {Member : Type}
    (condition : Bool) (next : Unit → Serializer Obj Next)
    (get : Next → Member) (expected : Member)
    [nextYields : Yields (next ()) get expected] :
    Yields (require condition >>= next) get expected :=
  have : ∀ value, Yields (next value) get expected := fun _ => nextYields
  yieldsBind _ _ _ _

instance yieldsIte {Member : Type} (condition : Prop) [Decidable condition]
    (first second : Serializer Obj Val) (get : Val → Member)
    (expected : Member) [Yields first get expected]
    [Yields second get expected] :
    Yields (if condition then first else second) get expected := by
  split <;> infer_instance

/-- Saving `object` gives bytes that are loaded as `value` again, the ones
`value` was loaded from if `exact` holds. -/
def Resaves (exact : Prop) (serializer : Serializer Obj Val) (object : Obj)
    (value : Val) : Prop :=
  ∀ bytes, serializer.Reads value bytes →
    ∃ saved, serializer.save object = some (value, saved) ∧
      serializer.Reads value saved ∧ (exact → saved = bytes)

theorem Canonical.resaves
    {codec : Serializer Val Val} [canonical : Canonical codec]
    (exact : Prop) (value : Val) : Resaves exact codec value value :=
  fun _ reads => ⟨_, canonical.save_of_reads reads, reads, fun _ => rfl⟩

theorem canonical_of_resaves
    {codec : Serializer Val Val}
    (resaves : ∀ value, Resaves True codec value value) :
    Canonical codec where
  save_of_reads := by
    intro value bytes reads
    obtain ⟨saved, result, -, same⟩ := resaves value _ reads
    rw [result, same trivial]

theorem Resaves.mono
    {exact weaker : Prop} {serializer : Serializer Obj Val}
    {object : Obj} {value : Val}
    (resaves : Resaves exact serializer object value)
    (stronger : weaker → exact) :
    Resaves weaker serializer object value := by
  intro bytes reads
  obtain ⟨saved, result, again, same⟩ := resaves _ reads
  exact ⟨saved, result, again, same ∘ stronger⟩

theorem Resaves.of_not_exact
    {exact : Prop} {serializer : Serializer Obj Val}
    {object : Obj} {value : Val}
    (resaves : ∀ bytes, serializer.Reads value bytes →
      ∃ saved, serializer.save object = some (value, saved) ∧
        serializer.Reads value saved)
    (inexact : ¬exact) : Resaves exact serializer object value := by
  intro bytes reads
  obtain ⟨saved, result, again⟩ := resaves _ reads
  exact ⟨saved, result, again, fun holds => (inexact holds).elim⟩

theorem resaves_raw
    {exact : Prop} {get : Obj → Val} {codec : Codec Val} {object : Obj}
    (resaves : Resaves exact codec (get object) (get object)) :
    Resaves exact (raw get codec) object (get object) := by
  intro bytes reads
  obtain ⟨saved, result, again, same⟩ := resaves _ reads
  exact ⟨saved, by simp [raw, result], again, same⟩

theorem resaves_field
    {exact : Prop} {get : Obj → Val} {codec : Codec Val} {object : Obj}
    (resaves : Resaves exact codec (get object) (get object)) :
    Resaves exact (field get codec) object (get object) := by
  intro bytes reads
  obtain ⟨saved, result, again, same⟩ := resaves _ (reads_field.mp reads)
  exact ⟨saved, by simp [save_field, result], reads_field.mpr again, same⟩

theorem resaves_fieldIf
    {exact : Prop} {condition : Bool} {get : Obj → Val} {codec : Codec Val}
    {initial : Val} {object : Obj}
    (resaves : condition = true →
      Resaves exact codec (get object) (get object)) :
    Resaves exact (fieldIf condition get codec initial) object
      (get object) := by
  intro bytes reads
  cases condition with
  | true =>
      rw [reads_fieldIf, if_pos rfl] at reads
      obtain ⟨saved, result, again, same⟩ := resaves rfl _ reads
      refine ⟨saved, by simp [fieldIf, save_field, result], ?_, same⟩
      rw [reads_fieldIf, if_pos rfl]
      exact again
  | false =>
      have missing := reads_fieldIf.mp reads
      simp only [Bool.false_eq_true, if_false] at missing
      exact ⟨[], by simp [fieldIf], missing.2 ▸ reads,
        fun _ => missing.2.symm⟩

/-- A block resaves when its first step and the rest do, and the rest keeps
the member that the first step has loaded. -/
theorem resaves_bind
    {exact : Prop} {get : Next → Val} {first : Serializer Obj Val}
    {next : Val → Serializer Obj Next}
    [Local first] [∀ value, Local (next value)]
    [nextYields : ∀ value, Yields (next value) get value]
    {object : Obj} {value : Next}
    (firstResaves : Resaves exact first object (get value))
    (nextResaves : Resaves exact (next (get value)) object value) :
    Resaves exact (first >>= next) object value := by
  intro bytes reads
  obtain ⟨loaded, firstBytes, nextBytes, rfl, firstReads, nextReads⟩ :=
    reads_bind.mp reads
  have kept : get value = loaded :=
    (nextYields loaded).of_load nextReads.load
  subst kept
  obtain ⟨firstSaved, firstResult, firstAgain, firstSame⟩ :=
    firstResaves _ firstReads
  obtain ⟨nextSaved, nextResult, nextAgain, nextSame⟩ :=
    nextResaves _ nextReads
  refine ⟨firstSaved ++ nextSaved, ?_, ?_, ?_⟩
  · rw [save_bind, firstResult, Option.bind_some, nextResult,
      Option.map_some]
  · exact reads_bind.mpr
      ⟨_, firstSaved, nextSaved, rfl, firstAgain, nextAgain⟩
  · intro holds
    rw [firstSame holds, nextSame holds]

theorem resaves_requireBind
    {exact : Prop} {condition : Bool} {next : Unit → Serializer Obj Next}
    [nextLocal : Local (next ())] {object : Obj} {value : Next}
    (nextResaves : Resaves exact (next ()) object value) :
    Resaves exact (require condition >>= next) object value := by
  have : ∀ value, Local (next value) := fun _ => nextLocal
  intro bytes reads
  obtain ⟨_, firstBytes, nextBytes, rfl, firstReads, nextReads⟩ :=
    reads_bind.mp reads
  obtain ⟨holds, rfl⟩ := reads_require.mp firstReads
  obtain ⟨saved, result, again, same⟩ := nextResaves _ nextReads
  refine ⟨saved, by simp [save_bind, require, holds, result], ?_, same⟩
  exact reads_bind.mpr ⟨(), [], saved, rfl, firstReads, again⟩

instance canonicalPure (value : Val) :
    Canonical (pure value : Serializer Val Val) where
  save_of_reads := by
    intro loaded bytes reads
    obtain ⟨rfl, rfl⟩ := reads_pure.mp reads
    rfl

instance canonicalIte (condition : Prop) [Decidable condition]
    (first second : Serializer Val Val) [Canonical first] [Canonical second] :
    Canonical (if condition then first else second) := by
  split <;> infer_instance

section Members

variable (get : Obj → Val) (codec : Codec Val)
  (next : Val → Serializer Obj Obj)
  [Local codec] [codecCanonical : Canonical codec]
  [∀ value, Local (next value)]
  [nextCanonical : ∀ value, Canonical (next value)]
  [∀ value, Yields (next value) get value]

instance canonicalRaw : Canonical (raw get codec >>= next) :=
  canonical_of_resaves fun object =>
    resaves_bind (resaves_raw (codecCanonical.resaves True _))
      ((nextCanonical _).resaves True object)

instance canonicalField : Canonical (field get codec >>= next) :=
  canonical_of_resaves fun object =>
    resaves_bind (resaves_field (codecCanonical.resaves True _))
      ((nextCanonical _).resaves True object)

instance canonicalFieldIf (condition : Bool) (initial : Val) :
    Canonical (fieldIf condition get codec initial >>= next) :=
  canonical_of_resaves fun object =>
    resaves_bind
      (resaves_fieldIf fun _ => codecCanonical.resaves True _)
      ((nextCanonical _).resaves True object)

end Members

instance (priority := high) canonicalRequire (condition : Bool)
    (next : Unit → Serializer Obj Obj)
    [Local (next ())] [nextCanonical : Canonical (next ())] :
    Canonical (require condition >>= next) :=
  canonical_of_resaves fun object =>
    resaves_requireBind (nextCanonical.resaves True object)

theorem canonical_via {Repr : Type} {encode : Val → Repr}
    {decode : Repr → Val} {codec : Codec Repr}
    [Local codec] [codecCanonical : Canonical codec]
    (inverse : ∀ repr, encode (decode repr) = repr) :
    Canonical (via encode decode codec) where
  save_of_reads := by
    intro value bytes reads
    obtain ⟨repr, rfl, reprReads⟩ := reads_via.mp reads
    simp [via, inverse, codecCanonical.save_of_reads reprReads]

instance positiveBind (first : Serializer Obj Val)
    (next : Val → Serializer Obj Next)
    [Local first] [∀ value, Local (next value)]
    [firstPositive : Positive first] : Positive (first >>= next) where
  length_pos := by
    intro value bytes reads
    obtain ⟨loaded, firstBytes, nextBytes, rfl, firstReads, -⟩ :=
      reads_bind.mp reads
    have := firstPositive.length_pos firstReads
    rw [List.length_append]
    omega

instance positiveRaw (get : Obj → Val) (codec : Codec Val)
    [codecPositive : Positive codec] : Positive (raw get codec) where
  length_pos := codecPositive.length_pos

instance positiveField (get : Obj → Val) (codec : Codec Val)
    [codecPositive : Positive codec] : Positive (field get codec) where
  length_pos reads := codecPositive.length_pos (reads_field.mp reads)

/-- Everything that is read takes this many bytes. -/
def Sized (size : Nat) (serializer : Serializer Obj Val) : Prop :=
  ∀ value bytes, serializer.Reads value bytes → bytes.length = size

theorem sized_pure (value : Val) :
    Sized 0 (pure value : Serializer Obj Val) := by
  intro loaded bytes reads
  rw [(reads_pure.mp reads).2]
  rfl

theorem sized_raw_bind
    {size whole : Nat} {get : Obj → Val} {codec : Codec Val}
    {next : Val → Serializer Obj Next} [Local codec]
    [∀ value, Local (next value)] (sized : Sized size codec)
    (fits : size ≤ whole) (nextSized : ∀ value, Sized (whole - size) (next value)) :
    Sized whole (raw get codec >>= next) := by
  intro value bytes reads
  obtain ⟨member, memberBytes, _, rfl, memberReads, laterReads⟩ :=
    reads_bind.mp reads
  rw [List.length_append, sized _ _ (reads_raw.mp memberReads),
    nextSized _ _ _ laterReads, Nat.add_sub_cancel' fits]

theorem sized_via {Repr : Type} {size : Nat} {encode : Val → Repr}
    {decode : Repr → Val} {codec : Codec Repr} [Local codec]
    (sized : Sized size codec) : Sized size (via encode decode codec) := by
  intro value bytes reads
  obtain ⟨repr, -, reprReads⟩ := reads_via.mp reads
  exact sized _ _ reprReads

/-- A load that has to end, in a good state, where the string ends. -/
def parse (codec : Codec Val) (bytes : Bytes) : Option Val :=
  (codec.load ⟨bytes, true⟩).bind fun result =>
    if result.2.good && result.2.rest.isEmpty then some result.1 else none

/-- The bytes of a save. -/
def dump (serializer : Serializer Obj Val) (object : Obj) : Option Bytes :=
  (serializer.save object).map fun saved => saved.2

theorem parse_eq_some
    {codec : Serializer Val Val} [Local codec] {value : Val} {bytes : Bytes} :
    codec.parse bytes = some value ↔ codec.Reads value bytes := by
  constructor
  · intro parsed
    rw [parse, Option.bind_eq_some_iff] at parsed
    obtain ⟨⟨loaded, ⟨rest, good⟩⟩, result, ended⟩ := parsed
    split at ended
    · rename_i atEnd
      simp only [Bool.and_eq_true, List.isEmpty_iff] at atEnd
      obtain ⟨rfl, rfl⟩ := atEnd
      cases ended
      exact Local.reads_of_load result
    · cases ended
  · intro reads
    rw [parse, reads.load]
    rfl

/-- Of two strings one of which starts the other, both parsed, the longer has
no more bytes. -/
theorem parse_append_eq_none
    {codec : Serializer Val Val} [Local codec] {bytes extension : Bytes}
    (accepted : (codec.parse bytes).isSome) (longer : extension ≠ []) :
    codec.parse (bytes ++ extension) = none := by
  obtain ⟨value, parsed⟩ := Option.isSome_iff_exists.mp accepted
  rw [Option.eq_none_iff_forall_ne_some]
  intro other parsedLonger
  have shortReads := parse_eq_some.mp parsed
  have longReads := parse_eq_some.mp parsedLonger
  have same := shortReads.unique longReads
    (List.append_nil (bytes ++ extension)).symm
  exact longer same.2.2

theorem dump_field_bind
    {get : Obj → Val} {codec : Codec Val} {next : Val → Serializer Obj Next}
    {object : Obj} {bytes : Bytes}
    (dumped : codec.dump (get object) = some bytes) :
    (field get codec >>= next).dump object =
      ((next (get object)).dump object).map (bytes ++ ·) := by
  rw [dump, Option.map_eq_some_iff] at dumped
  obtain ⟨saved, result, rfl⟩ := dumped
  simp [dump, save_bind, save_field, result, Option.map_map,
    Function.comp_def]

theorem dump_fieldIf_bind
    {condition : Bool} {get : Obj → Val} {codec : Codec Val} {initial : Val}
    {next : Val → Serializer Obj Next} {object : Obj} {bytes : Bytes}
    (dumped : codec.dump (get object) = some bytes) :
    (fieldIf condition get codec initial >>= next).dump object =
      ((next (get object)).dump object).map
        ((if condition then bytes else []) ++ ·) := by
  cases condition with
  | true => exact dump_field_bind dumped
  | false => simp [dump, save_bind, fieldIf, Option.map_map,
      Function.comp_def]

theorem dump_via {Repr : Type} {encode : Val → Repr} {decode : Repr → Val}
    {codec : Codec Repr} {value : Val} :
    (via encode decode codec).dump value = codec.dump (encode value) := by
  rw [dump, dump, via, Option.map_map]
  rfl

theorem dump_fieldIf_false_bind
    {get : Obj → Val} {codec : Codec Val} {initial : Val}
    {next : Val → Serializer Obj Next} {object : Obj} :
    (fieldIf false get codec initial >>= next).dump object =
      (next (get object)).dump object := by
  simp [dump, save_bind, fieldIf]

theorem Resaves.dump
    {exact : Prop} {codec : Serializer Val Val} {value : Val} {bytes : Bytes}
    (resaves : Resaves exact codec value value)
    (reads : codec.Reads value bytes) :
    ∃ saved, codec.dump value = some saved ∧ codec.Reads value saved ∧
      (exact → saved = bytes) := by
  obtain ⟨saved, result, again, same⟩ := resaves bytes reads
  exact ⟨saved, by rw [Serializer.dump, result]; rfl, again, same⟩

theorem Reads.dump
    {codec : Serializer Val Val} [canonical : Canonical codec]
    {value : Val} {bytes : Bytes} (reads : codec.Reads value bytes) :
    codec.dump value = some bytes := by
  rw [Serializer.dump, canonical.save_of_reads reads]
  rfl

end Serializer

end BlockTemplate
