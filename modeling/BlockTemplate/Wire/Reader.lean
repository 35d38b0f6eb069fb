import Mathlib.Data.List.Forall2
import BlockTemplate.Wire.Bytes

/-!
# Readers that throw

A reader takes a value off the front of a byte string or throws a message.
It stands for a function of a buffer and an offset: its input is the buffer
from the offset on, what it leaves is the buffer from the new offset on.

As for serializers, the laws follow the shape of a `do` block.  A reader is
local when a value that it gives depends on the bytes it took, and on nothing
behind them.  Looking for an optional mark is not local by itself, since the
bytes of a missing mark stay unread; it becomes so in front of readers that
take these bytes.
-/

namespace BlockTemplate

/-- Two steps succeed when both do. -/
theorem except_bind_eq_ok {Val Next : Type}
    {first : Except String Val} {next : Val → Except String Next}
    {result : Next} :
    (first >>= next) = .ok result ↔
      ∃ value, first = .ok value ∧ next value = .ok result := by
  cases first with
  | error message =>
      constructor
      · intro impossible
        cases impossible
      · rintro ⟨_, impossible, _⟩
        cases impossible
  | ok value =>
      constructor
      · intro second
        exact ⟨value, rfl, second⟩
      · rintro ⟨_, same, second⟩
        cases same
        exact second

theorem except_ok_bind {Val Next : Type}
    (value : Val) (next : Val → Except String Next) :
    (Except.ok value >>= next) = next value := rfl

theorem exists_of_isOk {Val : Type} {outcome : Except String Val}
    (ok : outcome.isOk = true) : ∃ value, outcome = .ok value := by
  cases outcome with
  | error message => cases ok
  | ok value => exact ⟨value, rfl⟩

theorem toOption_eq_some {Val : Type} {outcome : Except String Val}
    {value : Val} : outcome.toOption = some value ↔ outcome = .ok value := by
  cases outcome with
  | error message => simp [Except.toOption]
  | ok result => simp [Except.toOption]

/-- Outcomes with one option both fail, or are the same. -/
theorem cases_of_toOption_eq {Val : Type} {first second : Except String Val}
    (same : first.toOption = second.toOption) :
    (∃ message other, first = .error message ∧ second = .error other) ∨
      ∃ value, first = .ok value ∧ second = .ok value := by
  cases first with
  | error message =>
      cases second with
      | error other => exact .inl ⟨message, other, rfl, rfl⟩
      | ok value => cases same
  | ok value => exact .inr ⟨value, rfl, toOption_eq_some.mp same.symm⟩

theorem forall₂_of_mapM_eq_ok {Val Next : Type}
    {step : Val → Except String Next} {values : List Val}
    {results : List Next} (mapped : values.mapM step = .ok results) :
    List.Forall₂ (fun value result => step value = .ok result) values
      results := by
  induction values generalizing results with
  | nil =>
      cases mapped
      exact .nil
  | cons value values ih =>
      rw [List.mapM_cons] at mapped
      obtain ⟨first, firstOk, mapped⟩ := except_bind_eq_ok.mp mapped
      obtain ⟨others, othersOk, mapped⟩ := except_bind_eq_ok.mp mapped
      cases mapped
      exact .cons firstOk (ih othersOk)

theorem exists_mapM_eq_ok {Val Next : Type}
    {step : Val → Except String Next} {values : List Val}
    (every : ∀ value ∈ values, ∃ result, step value = .ok result) :
    ∃ results, values.mapM step = .ok results := by
  induction values with
  | nil => exact ⟨[], rfl⟩
  | cons value values ih =>
      obtain ⟨first, firstOk⟩ := every value List.mem_cons_self
      obtain ⟨others, othersOk⟩ := ih fun other member =>
        every other (List.mem_cons_of_mem value member)
      refine ⟨first :: others, ?_⟩
      rw [List.mapM_cons, firstOk, othersOk]
      rfl

/-- `if (condition) throw new Error(message)`. -/
def throwIf (condition : Bool) (message : String) : Except String Unit :=
  if condition then .error message else .ok ()

theorem throwIf_eq_ok {condition : Bool} {message : String} :
    throwIf condition message = .ok () ↔ condition = false := by
  cases condition with
  | true => exact ⟨nofun, nofun⟩
  | false => exact ⟨fun _ => rfl, fun _ => rfl⟩

theorem throwIf_bind_eq_ok {Next : Type}
    {condition : Bool} {message : String}
    {next : Unit → Except String Next} {result : Next} :
    (throwIf condition message >>= next) = .ok result ↔
      condition = false ∧ next () = .ok result := by
  cases condition with
  | true =>
      constructor
      · intro impossible
        cases impossible
      · rintro ⟨impossible, -⟩
        cases impossible
  | false => exact ⟨fun result => ⟨rfl, result⟩, fun both => both.2⟩

abbrev Reader := StateT Bytes (Except String)

namespace Reader

variable {Val Next : Type}

def slice (size : Nat) (message : String) : Reader Bytes := fun input =>
  if size ≤ input.length then .ok (input.take size, input.drop size)
  else .error message

/-- A value that comes with the number of its bytes. -/
def sized (decode : Bytes → Except String (Val × Nat)) : Reader Val :=
  fun input => (decode input).map fun result =>
    (result.1, input.drop result.2)

/-- Whether the input starts with a mark, which is then taken. -/
def marker (mark : Bytes) : Reader Bool := fun input =>
  if mark <+: input then .ok (true, input.drop mark.length)
  else .ok (false, input)

def require (condition : Bool) (message : String) : Reader Unit :=
  if condition then pure () else throw message

/-- A value together with the bytes that it was read from. -/
def spanned (reader : Reader Val) : Reader (Val × Bytes) := fun input =>
  (reader.run input).map fun result =>
    ((result.1, input.take (input.length - result.2.length)), result.2)

def times (reader : Reader Val) : Nat → Reader (List Val)
  | 0 => pure []
  | count + 1 => do
    let first ← reader
    let others ← times reader count
    pure (first :: others)

/-- The bytes `bytes` are read as `value`, whatever comes after them. -/
def Reads (reader : Reader Val) (value : Val) (bytes : Bytes) : Prop :=
  ∀ rest, reader.run (bytes ++ rest) = .ok (value, rest)

/-- Nothing that starts with the bytes `bytes` is read. -/
def Rejects (reader : Reader Val) (bytes : Bytes) (message : String) : Prop :=
  ∀ rest, reader.run (bytes ++ rest) = .error message

class Local (reader : Reader Val) : Prop where
  consumed : ∀ {input rest : Bytes} {value : Val},
    reader.run input = .ok (value, rest) →
      ∃ bytes, input = bytes ++ rest ∧ reader.Reads value bytes

theorem Reads.run
    {reader : Reader Val} {value : Val} {bytes : Bytes}
    (reads : reader.Reads value bytes) :
    reader.run bytes = .ok (value, []) := by
  simpa using reads []

theorem Reads.unique
    {reader : Reader Val} {first second : Val}
    {firstBytes secondBytes firstRest secondRest : Bytes}
    (firstReads : reader.Reads first firstBytes)
    (secondReads : reader.Reads second secondBytes)
    (same : firstBytes ++ firstRest = secondBytes ++ secondRest) :
    first = second ∧ firstBytes = secondBytes ∧ firstRest = secondRest := by
  have result := firstReads firstRest
  rw [same, secondReads secondRest] at result
  simp only [Except.ok.injEq, Prod.mk.injEq] at result
  obtain ⟨rfl, rfl⟩ := result
  exact ⟨rfl, List.append_cancel_right same, rfl⟩

/-- A local reader that leaves nothing reads its whole input. -/
theorem Local.reads
    {reader : Reader Val} [localized : Local reader]
    {value : Val} {bytes : Bytes}
    (result : reader.run bytes = .ok (value, [])) :
    reader.Reads value bytes := by
  obtain ⟨consumed, rfl, reads⟩ := localized.consumed result
  rwa [List.append_nil]

theorem run_bind_eq_ok
    {first : Reader Val} {next : Val → Reader Next}
    {input rest : Bytes} {value : Next} :
    (first >>= next).run input = .ok (value, rest) ↔
      ∃ head middle, first.run input = .ok (head, middle) ∧
        (next head).run middle = .ok (value, rest) := by
  rw [StateT.run_bind, except_bind_eq_ok]
  constructor
  · rintro ⟨⟨head, middle⟩, firstResult, nextResult⟩
    exact ⟨head, middle, firstResult, nextResult⟩
  · rintro ⟨head, middle, firstResult, nextResult⟩
    exact ⟨(head, middle), firstResult, nextResult⟩

theorem reads_pure {value loaded : Val} {bytes : Bytes} :
    (pure value : Reader Val).Reads loaded bytes ↔
      loaded = value ∧ bytes = [] := by
  constructor
  · intro reads
    have result := reads []
    rw [StateT.run_pure] at result
    simp only [pure, Except.pure, Except.ok.injEq, Prod.mk.injEq,
      List.append_nil] at result
    exact ⟨result.1.symm, result.2⟩
  · rintro ⟨rfl, rfl⟩ rest
    rfl

theorem Reads.bind
    {first : Reader Val} {next : Val → Reader Next}
    {head : Val} {value : Next} {headBytes bytes : Bytes}
    (firstReads : first.Reads head headBytes)
    (nextReads : (next head).Reads value bytes) :
    (first >>= next).Reads value (headBytes ++ bytes) := by
  intro rest
  rw [run_bind_eq_ok, List.append_assoc]
  exact ⟨head, bytes ++ rest, firstReads _, nextReads rest⟩

theorem Reads.rejects_bind
    {first : Reader Val} {next : Val → Reader Next}
    {head : Val} {headBytes bytes : Bytes} {message : String}
    (firstReads : first.Reads head headBytes)
    (nextRejects : (next head).Rejects bytes message) :
    (first >>= next).Rejects (headBytes ++ bytes) message := by
  intro rest
  rw [StateT.run_bind, List.append_assoc, firstReads]
  exact nextRejects rest

theorem Rejects.bind
    {first : Reader Val} {bytes : Bytes} {message : String}
    (rejects : first.Rejects bytes message) (next : Val → Reader Next) :
    (first >>= next).Rejects bytes message := by
  intro rest
  rw [StateT.run_bind, rejects rest]
  rfl

theorem reads_bind
    {first : Reader Val} {next : Val → Reader Next}
    [firstLocal : Local first] [nextLocal : ∀ head, Local (next head)]
    {value : Next} {bytes : Bytes} :
    (first >>= next).Reads value bytes ↔
      ∃ head headBytes nextBytes, bytes = headBytes ++ nextBytes ∧
        first.Reads head headBytes ∧ (next head).Reads value nextBytes := by
  constructor
  · intro reads
    obtain ⟨head, middle, firstResult, nextResult⟩ :=
      run_bind_eq_ok.mp reads.run
    obtain ⟨headBytes, rfl, firstReads⟩ := firstLocal.consumed firstResult
    exact ⟨head, headBytes, middle, rfl, firstReads,
      Local.reads nextResult⟩
  · rintro ⟨head, headBytes, nextBytes, rfl, firstReads, nextReads⟩
    exact firstReads.bind nextReads

instance localPure (value : Val) : Local (pure value : Reader Val) where
  consumed := by
    intro input rest loaded result
    cases result
    exact ⟨[], rfl, fun _ => rfl⟩

instance localThrow (message : String) :
    Local (throw message : Reader Val) where
  consumed := by
    intro input rest loaded result
    cases result

instance localBind (first : Reader Val) (next : Val → Reader Next)
    [firstLocal : Local first] [nextLocal : ∀ head, Local (next head)] :
    Local (first >>= next) where
  consumed := by
    intro input rest value result
    obtain ⟨head, middle, firstResult, nextResult⟩ :=
      run_bind_eq_ok.mp result
    obtain ⟨headBytes, rfl, firstReads⟩ := firstLocal.consumed firstResult
    obtain ⟨nextBytes, rfl, nextReads⟩ :=
      (nextLocal head).consumed nextResult
    exact ⟨headBytes ++ nextBytes, (List.append_assoc ..).symm,
      firstReads.bind nextReads⟩

instance localIte (condition : Prop) [Decidable condition]
    (first second : Reader Val) [Local first] [Local second] :
    Local (if condition then first else second) := by
  split <;> infer_instance

instance localRequire (condition : Bool) (message : String) :
    Local (require condition message) :=
  localIte _ _ _

theorem reads_require {condition : Bool} {message : String} {bytes : Bytes} :
    (require condition message).Reads () bytes ↔
      condition = true ∧ bytes = [] := by
  unfold require
  cases condition with
  | true =>
      rw [if_pos rfl, reads_pure]
      exact ⟨fun both => ⟨rfl, both.2⟩, fun both => ⟨rfl, both.2⟩⟩
  | false =>
      constructor
      · intro reads
        cases reads []
      · rintro ⟨impossible, -⟩
        cases impossible

theorem rejects_require {condition : Bool} (message : String)
    (fails : condition = false) :
    (require condition message).Rejects [] message := by
  subst fails
  exact fun _ => rfl

/-- The last step of a block that only builds a value. -/
theorem Reads.bind_pure
    {reader : Reader Val} {value : Val} {bytes : Bytes}
    {build : Val → Next} {built : Next}
    (reads : reader.Reads value bytes) (same : build value = built) :
    (reader >>= fun loaded => pure (build loaded)).Reads built bytes := by
  subst same
  intro rest
  rw [run_bind_eq_ok]
  exact ⟨value, rest, reads rest, rfl⟩

theorem Reads.require_bind
    {condition : Bool} {message : String} {next : Unit → Reader Val}
    {value : Val} {bytes : Bytes} (holds : condition = true)
    (reads : (next ()).Reads value bytes) :
    (require condition message >>= next).Reads value bytes := by
  intro rest
  rw [run_bind_eq_ok]
  refine ⟨(), bytes ++ rest, ?_, reads rest⟩
  rw [require, if_pos holds]
  rfl

theorem reads_slice (message : String) (bytes : Bytes) :
    (slice bytes.length message).Reads bytes bytes := by
  intro rest
  rw [StateT.run, slice, if_pos, List.take_left, List.drop_left]
  rw [List.length_append]
  exact Nat.le_add_right _ _

theorem length_of_reads_slice
    {size : Nat} {message : String} {value bytes : Bytes}
    (reads : (slice size message).Reads value bytes) :
    value = bytes ∧ bytes.length = size := by
  have result := reads []
  rw [StateT.run, slice, List.append_nil] at result
  split at result
  · rename_i enough
    simp only [Except.ok.injEq, Prod.mk.injEq] at result
    obtain ⟨rfl, nothing⟩ := result
    have short := List.drop_eq_nil_iff.mp nothing
    exact ⟨List.take_of_length_le short, Nat.le_antisymm short enough⟩
  · cases result

instance localSlice (size : Nat) (message : String) :
    Local (slice size message) where
  consumed := by
    intro input rest value result
    rw [StateT.run, slice] at result
    split at result
    · rename_i enough
      cases result
      refine ⟨input.take size, (List.take_append_drop _ _).symm, ?_⟩
      have reads := reads_slice message (input.take size)
      rwa [List.length_take_of_le enough] at reads
    · cases result

theorem run_sized_eq_ok
    {decode : Bytes → Except String (Val × Nat)}
    {input rest : Bytes} {value : Val} :
    (sized decode).run input = .ok (value, rest) ↔
      ∃ size, decode input = .ok (value, size) ∧ input.drop size = rest := by
  rw [StateT.run, sized]
  cases decode input with
  | error message =>
      constructor
      · intro result
        cases result
      · rintro ⟨_, result, _⟩
        cases result
  | ok decoded =>
      constructor
      · intro result
        cases result
        exact ⟨decoded.2, rfl, rfl⟩
      · rintro ⟨size, same, rfl⟩
        cases same
        rfl

/-- The bytes of a value are those of what it is made from. -/
theorem spanned_bind_pure (reader : Reader Val) (convert : Val → Next) :
    (reader >>= fun value => pure (convert value)).spanned =
      reader.spanned >>= fun value => pure (convert value.1, value.2) := by
  funext input
  change Except.map _ (Except.bind (reader.run input) _) =
    Except.bind (Except.map _ (reader.run input)) _
  cases reader.run input <;> rfl

theorem Reads.spanned
    {reader : Reader Val} {value : Val} {bytes : Bytes}
    (reads : reader.Reads value bytes) :
    reader.spanned.Reads (value, bytes) bytes := by
  intro rest
  rw [StateT.run, Reader.spanned, reads rest]
  simp only [Except.map, List.length_append, Nat.add_sub_cancel_right,
    List.take_left]

theorem Rejects.spanned
    {reader : Reader Val} {bytes : Bytes} {message : String}
    (rejects : reader.Rejects bytes message) :
    reader.spanned.Rejects bytes message := by
  intro rest
  rw [StateT.run, Reader.spanned, rejects rest]
  rfl

theorem reads_spanned
    {reader : Reader Val} [localized : Local reader]
    {value : Val} {span bytes : Bytes} :
    reader.spanned.Reads (value, span) bytes ↔
      span = bytes ∧ reader.Reads value bytes := by
  constructor
  · intro reads
    have result := reads.run
    rw [StateT.run, spanned] at result
    cases run : reader.run bytes with
    | error message =>
        rw [run] at result
        cases result
    | ok inner =>
        rw [run] at result
        simp only [Except.map, Except.ok.injEq, Prod.mk.injEq] at result
        obtain ⟨⟨rfl, rfl⟩, ended⟩ := result
        have whole : reader.run bytes = .ok (inner.1, []) := by
          rw [run, ← ended]
        refine ⟨?_, Local.reads whole⟩
        rw [ended, List.length_nil, Nat.sub_zero, List.take_length]
  · rintro ⟨rfl, reads⟩
    exact reads.spanned

instance localSpanned (reader : Reader Val) [localized : Local reader] :
    Local reader.spanned where
  consumed := by
    intro input rest value result
    rw [StateT.run, spanned] at result
    cases run : reader.run input with
    | error message =>
        rw [run] at result
        cases result
    | ok inner =>
        rw [run] at result
        cases result
        obtain ⟨bytes, rfl, reads⟩ := localized.consumed run
        refine ⟨bytes, rfl, ?_⟩
        rw [List.length_append, Nat.add_sub_cancel_right, List.take_left]
        exact reads.spanned

instance localTimes (reader : Reader Val) [Local reader] (count : Nat) :
    Local (times reader count) := by
  induction count with
  | zero => exact localPure []
  | succ count ih =>
      have others := ih
      unfold times
      infer_instance

theorem reads_times
    {reader : Reader Val} {values : List Val} {parts : List Bytes}
    (reads : List.Forall₂ reader.Reads values parts) :
    (times reader values.length).Reads values parts.flatten := by
  induction reads with
  | nil => exact fun _ => rfl
  | @cons value part values parts first _ ih =>
      rw [List.flatten_cons, List.length_cons, times]
      apply first.bind
      exact ih.bind_pure rfl

theorem reads_spanned_zip
    {reader : Reader Val} {values : List Val} {parts : List Bytes}
    (reads : List.Forall₂ reader.Reads values parts) :
    List.Forall₂ reader.spanned.Reads (List.zip values parts) parts := by
  induction reads with
  | nil => exact .nil
  | cons first _ ih => exact .cons first.spanned ih

theorem parts_of_reads_times
    {reader : Reader Val} [Local reader] {count : Nat} {values : List Val}
    {bytes : Bytes} (reads : (times reader count).Reads values bytes) :
    values.length = count ∧ ∃ parts, bytes = parts.flatten ∧
      List.Forall₂ reader.Reads values parts := by
  induction count generalizing values bytes with
  | zero =>
      obtain ⟨rfl, rfl⟩ := reads_pure.mp reads
      exact ⟨rfl, [], rfl, .nil⟩
  | succ count ih =>
      obtain ⟨first, firstBytes, _, rfl, firstReads, reads⟩ :=
        reads_bind.mp reads
      obtain ⟨others, othersBytes, _, rfl, othersReads, built⟩ :=
        reads_bind.mp reads
      obtain ⟨rfl, rfl⟩ := reads_pure.mp built
      obtain ⟨rfl, parts, rfl, all⟩ := ih othersReads
      refine ⟨rfl, firstBytes :: parts, ?_, .cons firstReads all⟩
      rw [List.append_nil, List.flatten_cons]

theorem reads_marker (mark : Bytes) :
    (marker mark).Reads true mark := by
  intro rest
  rw [StateT.run, marker, if_pos (List.prefix_append mark rest),
    List.drop_left]

/-- Without the mark, the rest of a block reads from the same place. -/
theorem Reads.unmarked
    {mark : Bytes} {next : Bool → Reader Val} {value : Val} {bytes : Bytes}
    (nextReads : (next false).Reads value bytes)
    (enough : mark.length ≤ bytes.length) (unmarked : ¬mark <+: bytes) :
    (marker mark >>= next).Reads value bytes := by
  intro rest
  have missing : ¬mark <+: bytes ++ rest := fun starts =>
    unmarked (List.prefix_of_prefix_length_le starts
      (List.prefix_append bytes rest) enough)
  rw [run_bind_eq_ok]
  refine ⟨false, bytes ++ rest, ?_, nextReads rest⟩
  rw [StateT.run, marker, if_neg missing]

theorem Reads.marked
    {mark : Bytes} {next : Bool → Reader Val} {value : Val} {bytes : Bytes}
    (nextReads : (next true).Reads value bytes) :
    (marker mark >>= next).Reads value (mark ++ bytes) :=
  (reads_marker mark).bind nextReads

/-- What is read behind an optional mark. -/
theorem reads_marker_bind
    {mark : Bytes} {next : Bool → Reader Val}
    [markedLocal : Local (next true)] [unmarkedLocal : Local (next false)]
    {input rest : Bytes} {value : Val}
    (result : (marker mark >>= next).run input = .ok (value, rest)) :
    (∃ bytes, input = mark ++ bytes ++ rest ∧
        (next true).Reads value bytes) ∨
      ¬mark <+: input ∧
        ∃ bytes, input = bytes ++ rest ∧ (next false).Reads value bytes := by
  obtain ⟨found, middle, first, nextResult⟩ := run_bind_eq_ok.mp result
  rw [StateT.run, marker] at first
  split at first
  · rename_i starts
    cases first
    obtain ⟨after, rfl⟩ := starts
    rw [List.drop_left] at nextResult
    obtain ⟨bytes, rfl, reads⟩ := markedLocal.consumed nextResult
    left
    exact ⟨bytes, (List.append_assoc ..).symm, reads⟩
  · rename_i missing
    cases first
    right
    exact ⟨missing, unmarkedLocal.consumed nextResult⟩

theorem local_marker_bind
    {mark : Bytes} {next : Bool → Reader Val}
    [Local (next true)] [Local (next false)]
    (enough : ∀ value bytes, (next false).Reads value bytes →
      mark.length ≤ bytes.length) :
    Local (marker mark >>= next) where
  consumed := by
    intro input rest value result
    rcases reads_marker_bind result with
      ⟨bytes, rfl, reads⟩ | ⟨missing, bytes, rfl, reads⟩
    · exact ⟨mark ++ bytes, rfl, reads.marked⟩
    · refine ⟨bytes, rfl, reads.unmarked (enough _ _ reads) ?_⟩
      exact fun starts => missing (starts.trans (List.prefix_append _ _))

/-- Two readers that differ in nothing but the messages they throw. -/
def Agree (first second : Reader Val) : Prop :=
  ∀ input, (first.run input).toOption = (second.run input).toOption

theorem Agree.refl (reader : Reader Val) : Agree reader reader :=
  fun _ => rfl

/-- Two blocks agree on an input when their first steps do, and what follows
agrees on what these leave. -/
theorem toOption_bind_congr
    {first second : Reader Val} {next other : Val → Reader Next}
    {input : Bytes}
    (same : (first.run input).toOption = (second.run input).toOption)
    (rest : ∀ value after, first.run input = .ok (value, after) →
      ((next value).run after).toOption = ((other value).run after).toOption) :
    ((first >>= next).run input).toOption =
      ((second >>= other).run input).toOption := by
  rw [StateT.run_bind, StateT.run_bind]
  rcases cases_of_toOption_eq same with
    ⟨message, other, firstRun, secondRun⟩ | ⟨found, firstRun, secondRun⟩
  · rw [firstRun, secondRun]
    rfl
  · rw [firstRun, secondRun]
    exact rest found.1 found.2 firstRun

theorem Agree.bind
    {first second : Reader Val} {next other : Val → Reader Next}
    (same : Agree first second) (rest : ∀ value, Agree (next value) (other value)) :
    Agree (first >>= next) (second >>= other) :=
  fun input => toOption_bind_congr (same input) fun value after _ =>
    rest value after

theorem toOption_spanned_congr {first second : Reader Val} {input : Bytes}
    (same : (first.run input).toOption = (second.run input).toOption) :
    (first.spanned.run input).toOption =
      (second.spanned.run input).toOption := by
  rw [StateT.run, StateT.run, Reader.spanned, Reader.spanned]
  rcases cases_of_toOption_eq same with
    ⟨message, other, firstRun, secondRun⟩ | ⟨found, firstRun, secondRun⟩
  · rw [firstRun, secondRun]
    rfl
  · rw [firstRun, secondRun]

theorem Agree.spanned {first second : Reader Val}
    (same : Agree first second) : Agree first.spanned second.spanned :=
  fun input => toOption_spanned_congr (same input)

theorem Agree.times {first second : Reader Val}
    (same : Agree first second) (count : Nat) :
    Agree (first.times count) (second.times count) := by
  induction count with
  | zero => exact Agree.refl _
  | succ count ih =>
      apply same.bind
      intro value
      exact ih.bind fun others => Agree.refl _

theorem agree_slice (size : Nat) (message other : String) :
    Agree (slice size message) (slice size other) := by
  intro input
  rw [StateT.run, StateT.run, slice, slice]
  split_ifs <;> rfl

theorem agree_require (condition : Bool) (message other : String) :
    Agree (require condition message) (require condition other) := by
  intro input
  cases condition <;> rfl

end Reader

end BlockTemplate
