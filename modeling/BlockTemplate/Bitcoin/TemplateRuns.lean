import BlockTemplate.Bitcoin.ScriptWriting

/-!
# Runs on one template buffer

A pool keeps one buffer for a template: it writes extra nonces into the input
scripts, converts for its miners and constructs the blocks that they find.  The
convert and construct functions write into that buffer as well.  In whole runs
the roots they write are not seen: every call answers as on a fresh copy with
the last seal.
-/

namespace BlockTemplate

namespace Index

variable {packages : Packages}

/-- A write into the first transaction, seen from the count in front of it. -/
theorem body_overwrite
    {layout : Layout} {blob data : Bytes} {item : Item} {items : List Item}
    {size offset : Nat}
    (fits : layout.bodyOffset + size ≤ blob.length)
    (same : (blob.drop layout.bodyOffset).drop size =
      blockBytes (item :: items))
    (inside : offset + data.length ≤ item.bytes.length) :
    (overwrite blob (layout.bodyOffset + size + offset) data).drop
        layout.bodyOffset =
      (blob.drop layout.bodyOffset).take size ++
        (overwrite item.bytes offset data ++
          (item.tail ++ blockBytes items)) := by
  let header := blob.take layout.bodyOffset
  let count := (blob.drop layout.bodyOffset).take size
  have headerSize : header.length = layout.bodyOffset :=
    List.length_take_of_le (by omega)
  have countSize : count.length = size := by
    apply List.length_take_of_le
    rw [List.length_drop]
    omega
  have front : (header ++ count).length = layout.bodyOffset + size := by
    rw [List.length_append, headerSize, countSize]
  have split : blob = (header ++ count) ++
      (item.bytes ++ (item.tail ++ blockBytes items)) := by
    rw [← blockBytes_cons, ← same, List.append_assoc, List.take_append_drop,
      List.take_append_drop]
  have written : overwrite blob (layout.bodyOffset + size + offset) data =
      header ++ (count ++ (overwrite item.bytes offset data ++
        (item.tail ++ blockBytes items))) := by
    conv_lhs => rw [split, ← front, overwrite_middle inside]
    rw [List.append_assoc]
  rw [written, List.drop_left' headerSize]

/-- A write into a script keeps the template walkable, and the scripts where
they are. -/
theorem inputScripts_overwrite
    (documented : packages.VaruintDocumented) {layout : Layout}
    {blob : Bytes} {root : Hash}
    (found : blockRoot packages layout blob = .ok root) :
    ∃ places, inputScripts packages layout blob = .ok places ∧
      ∀ script size, (script, size) ∈ places →
        ∀ offset data, script ≤ offset →
          offset + data.length ≤ script + size →
            layout.bodyOffset ≤ offset ∧
            offset + data.length ≤ blob.length ∧
            (∃ other, blockRoot packages layout
              (overwrite blob offset data) = .ok other) ∧
            inputScripts packages layout (overwrite blob offset data) =
              .ok places := by
  have := itemDialect_lawful documented layout.payload
  obtain ⟨transactions, walked⟩ := walked_of_blockRoot found
  obtain ⟨items, size, decoded, positive, bounded, same, laid, rfl⟩ :=
    (blockTransactions_iff_items documented).mp walked
  obtain ⟨item, items, rfl⟩ := List.exists_cons_of_length_pos positive
  have reads := laid.1
  rw [itemReader_eq] at reads
  obtain ⟨⟨behind, ins⟩, spans, writes⟩ :=
    Dialect.reads_overwrite_script reads
  obtain ⟨-, fits, again⟩ := CompactSize.decode_take decoded
  rw [List.length_drop] at fits
  have long := bodyOffset_lt_of_blockRoot found
  let start := layout.bodyOffset + size
  have located := firstTransactionOffset_eq documented decoded
  have placed : inputScripts packages layout blob =
      .ok (Dialect.scriptPlaces (start + behind) ins) := by
    obtain ⟨rest, spanned⟩ := spans (item.tail ++ blockBytes items)
    rw [← blockBytes_cons, ← same, List.drop_drop] at spanned
    exact inputScripts_eq located spanned
  refine ⟨_, placed, ?_⟩
  intro script scriptSize member offset data starts ends
  rw [Dialect.scriptPlaces_add] at member
  obtain ⟨⟨place, placeSize⟩, listed, moved⟩ := List.mem_map.mp member
  obtain ⟨rfl, rfl⟩ := Prod.mk.inj moved
  obtain ⟨inner, rfl⟩ := Nat.exists_eq_add_of_le
    (Nat.le_of_add_right_le starts)
  obtain ⟨inside, -, -, ⟨changed, changedReads, -⟩, ⟨rebehind, reins⟩,
    respans, places⟩ :=
      writes place placeSize listed inner data [] (by omega) (by omega)
  have read : (itemReader packages layout.payload).Reads changed
      (overwrite item.bytes inner data) := by
    rw [itemReader_eq]
    exact changedReads
  have rewalked := walked_of_first_changed documented decoded bounded same
    laid inside read
  have body := @body_overwrite layout blob data item items size inner
    (by omega) same inside
  have countSize : ((blob.drop layout.bodyOffset).take size).length = size := by
    apply List.length_take_of_le
    rw [List.length_drop]
    omega
  have whole := congrArg List.length same
  rw [blockBytes_cons, List.length_append, List.length_drop,
    List.length_drop] at whole
  refine ⟨by omega, by omega, ⟨_, blockRoot_of_walked rewalked⟩, ?_⟩
  have relocated : firstTransactionOffset packages layout
      (overwrite blob (start + inner) data) = .ok start := by
    apply firstTransactionOffset_eq documented
    rw [body]
    exact again _
  obtain ⟨rest, respanned⟩ := respans (item.tail ++ blockBytes items)
  have behindCount : (overwrite blob (start + inner) data).drop start =
      overwrite item.bytes inner data ++ (item.tail ++ blockBytes items) := by
    rw [← List.drop_drop, body, List.drop_left' countSize]
  rw [← behindCount] at respanned
  have moved : Dialect.scriptPlaces (start + rebehind) reins =
      Dialect.scriptPlaces (start + behind) ins := by
    rw [Dialect.scriptPlaces_add, places, ← Dialect.scriptPlaces_add]
  rw [inputScripts_eq relocated respanned, moved]

namespace Family

/-- A template with a Merkle root and a seal. -/
def filled (family : Family) (template root sealed : Bytes) : Bytes :=
  overwrite (overwrite template 36 root) family.sealOffset sealed

section Filled

variable {family : Family} {template root sealed other : Bytes}
  (long : (family.layout packages).bodyOffset ≤ template.length)
  (rootSize : root.length = 32) (sealSize : sealed.length = family.sealSize)

include long rootSize sealSize

private theorem filled_inside :
    36 + root.length ≤ template.length ∧
      family.sealOffset + sealed.length ≤ template.length ∧
      36 + root.length ≤ family.sealOffset := by
  have rootEnd := family.root_le_sealOffset
  have sealEnd := @seal_le_bodyOffset packages family
  omega

private theorem root_filled (otherSize : other.length = 32) :
    overwrite (family.filled template root sealed) 36 other =
      family.filled template other sealed := by
  obtain ⟨rootInside, sealInside, behind⟩ :=
    filled_inside long rootSize sealSize
  have early : 36 + other.length ≤ family.sealOffset := by omega
  rw [filled, filled, ← overwrite_comm early,
    overwrite_overwrite rootInside (rootSize.trans otherSize.symm)]
  rw [length_overwrite rootInside]
  exact sealInside

private theorem seal_filled (otherSize : other.length = family.sealSize) :
    overwrite (family.filled template root sealed) family.sealOffset other =
      family.filled template root other := by
  obtain ⟨rootInside, sealInside, -⟩ := filled_inside long rootSize sealSize
  rw [filled, filled, overwrite_overwrite _ (sealSize.trans otherSize.symm)]
  rw [length_overwrite rootInside]
  exact sealInside

/-- A write behind the fields. -/
theorem write_filled {offset : Nat} {data : Bytes}
    (behind : (family.layout packages).bodyOffset ≤ offset)
    (inside : offset + data.length ≤ template.length) :
    overwrite (family.filled template root sealed) offset data =
      family.filled (overwrite template offset data) root sealed := by
  obtain ⟨rootInside, sealInside, early⟩ :=
    filled_inside long rootSize sealSize
  have sealEnd := @seal_le_bodyOffset packages family
  rw [filled, filled, overwrite_comm (by omega), overwrite_comm (by omega)
    inside]
  rw [length_overwrite rootInside]
  exact inside

private theorem blockRoot_filled :
    blockRoot packages (family.layout packages)
        (family.filled template root sealed) =
      blockRoot packages (family.layout packages) template := by
  obtain ⟨rootInside, sealInside, early⟩ :=
    filled_inside long rootSize sealSize
  have sealEnd := @seal_le_bodyOffset packages family
  rw [filled, blockRoot_overwrite _ (by omega),
    blockRoot_overwrite rootInside (by omega)]
  rw [length_overwrite rootInside]
  exact sealInside

section Calls

variable {found : Hash}
  (walked : blockRoot packages (family.layout packages) template = .ok found)

include walked

private theorem convert_filled :
    (family.convert packages).runOn (family.filled template root sealed) =
      (.ok (family.shown packages
          ((family.filled template found.bytes sealed).take 80)),
        family.filled template found.bytes sealed) := by
  have rewalked := (blockRoot_filled long rootSize sealSize).trans walked
  rw [convert_ok rewalked,
    root_filled long rootSize sealSize found.length_bytes]

private theorem construct_filled {nonceBuff mixhashBuff : Bytes}
    (nonceEnough : family.nonceSize ≤ nonceBuff.length)
    (mixhashEnough : family.mixhashSize ≤ mixhashBuff.length) :
    let result := family.filled template found.bytes
      (family.sealBytes nonceBuff mixhashBuff)
    (family.construct packages nonceBuff mixhashBuff).runOn
      (family.filled template root sealed) = (.ok result, result) := by
  have size := length_sealBytes nonceEnough mixhashEnough
  have rewalked := (blockRoot_filled long rootSize sealSize).trans walked
  rw [construct_ok rewalked nonceEnough mixhashEnough,
    root_filled long rootSize sealSize found.length_bytes,
    seal_filled long found.length_bytes sealSize size]

end Calls

end Filled

end Family

/-- What happens to the buffer of a template. -/
inductive Event
  | write (offset : Nat) (data : Bytes)
  | convert
  | construct (nonceBuff mixhashBuff : Bytes)

section Events

variable (packages) (family : Family)

/-- The event on the buffer itself. -/
def Event.act : Event → BufferM Bytes
  | .write offset data => do
    modify fun blob => overwrite blob offset data
    pure []
  | .convert => family.convert packages
  | .construct nonceBuff mixhashBuff =>
    family.construct packages nonceBuff mixhashBuff

/-- The events on the buffer, with their answers. -/
def runEvents : List Event → BufferM (List Bytes)
  | [] => pure []
  | event :: events => do
    let answer ← event.act packages family
    let answers ← runEvents events
    pure (answer :: answers)

/-- What an event leaves in the template for the calls behind it: a write, or
the seal of a constructed block.  The nonce of an RTM block is inside the header
that is converted next, so the seal belongs to the template, and the Merkle root
does not. -/
def Event.meaning : Event → Bytes → Bytes
  | .write offset data, template => overwrite template offset data
  | .convert, template => template
  | .construct nonceBuff mixhashBuff, template =>
    overwrite template family.sealOffset
      (family.sealBytes nonceBuff mixhashBuff)

/-- The answers of a pool that makes a fresh copy of the template for each call,
with the writes so far and the seal of the last block. -/
def freshAnswers : List Event → Bytes → Except String (List Bytes)
  | [], _ => pure []
  | event :: events, template => do
    let answer ← ((event.act packages family).runOn template).1
    let answers ← freshAnswers events (event.meaning family template)
    pure (answer :: answers)

/-- The template after the writes alone. -/
def written (events : List Event) (template : Bytes) : Bytes :=
  events.foldl (fun blob event =>
    match event with
    | .write offset data => overwrite blob offset data
    | _ => blob) template

/-- A write lies in one of the scripts, and a nonce is long enough. -/
def Event.Allowed (places : List (Nat × Nat)) : Event → Prop
  | .write offset data => ∃ script size, (script, size) ∈ places ∧
      script ≤ offset ∧ offset + data.length ≤ script + size
  | .convert => True
  | .construct nonceBuff mixhashBuff =>
    family.nonceSize ≤ nonceBuff.length ∧
      family.mixhashSize ≤ mixhashBuff.length

end Events

variable {family : Family} {places : List (Nat × Nat)}

/-- The template as it was handed in and the shared buffer, both filled in
from the template with the writes alone. -/
structure Shares (packages : Packages) (family : Family)
    (places : List (Nat × Nat)) (plain template buffer : Bytes) : Prop where
  walked : ∃ root, blockRoot packages (family.layout packages) plain = .ok root
  placed : inputScripts packages (family.layout packages) plain = .ok places
  filled : ∃ root other sealed : Bytes, root.length = 32 ∧ other.length = 32 ∧
    sealed.length = family.sealSize ∧
    template = family.filled plain root sealed ∧
    buffer = family.filled plain other sealed

/-- One event: the call on the shared buffer answers like the call on a copy
of the template. -/
theorem Shares.step (documented : packages.VaruintDocumented)
    {plain template buffer : Bytes} {event : Event}
    (shares : Shares packages family places plain template buffer)
    (allowed : event.Allowed family places) :
    ∃ answer after,
      (event.act packages family).runOn buffer = (.ok answer, after) ∧
      ((event.act packages family).runOn template).1 = .ok answer ∧
      Shares packages family places (written [event] plain)
        (event.meaning family template) after := by
  obtain ⟨⟨found, walked⟩, placed, root, other, sealed, rootSize, otherSize,
    sealSize, rfl, rfl⟩ := shares
  have long := (bodyOffset_lt_of_blockRoot walked).le
  cases event with
  | write offset data =>
      obtain ⟨script, size, member, starts, ends⟩ := allowed
      obtain ⟨_, placed', writes⟩ := inputScripts_overwrite documented walked
      obtain rfl := Except.ok.inj (placed'.symm.trans placed)
      obtain ⟨behind, inside, rewalked, replaced⟩ :=
        writes script size member offset data starts ends
      refine ⟨[], _, rfl, rfl, rewalked, replaced, root, other, sealed,
        rootSize, otherSize, sealSize, ?_, ?_⟩
      · exact Family.write_filled long rootSize sealSize behind inside
      · exact Family.write_filled long otherSize sealSize behind inside
  | convert =>
      refine ⟨_, _, Family.convert_filled long otherSize sealSize walked, ?_,
        ⟨found, walked⟩, placed, root, found.bytes, sealed, rootSize,
        found.length_bytes, sealSize, rfl, rfl⟩
      exact congrArg Prod.fst
        (Family.convert_filled long rootSize sealSize walked)
  | construct nonceBuff mixhashBuff =>
      obtain ⟨nonceEnough, mixhashEnough⟩ := allowed
      have size := Family.length_sealBytes nonceEnough mixhashEnough
      refine ⟨_, _, Family.construct_filled long otherSize sealSize walked
          nonceEnough mixhashEnough, ?_, ⟨found, walked⟩, placed, root,
        found.bytes, _, rootSize, found.length_bytes, size, ?_, rfl⟩
      · exact congrArg Prod.fst (Family.construct_filled long rootSize
          sealSize walked nonceEnough mixhashEnough)
      · exact Family.seal_filled long rootSize sealSize size

/-- A whole run. -/
theorem Shares.run (documented : packages.VaruintDocumented)
    {plain template buffer : Bytes} {events : List Event}
    (shares : Shares packages family places plain template buffer)
    (allowed : ∀ event ∈ events, event.Allowed family places) :
    ∃ answers after last,
      (runEvents packages family events).runOn buffer = (.ok answers, after) ∧
      freshAnswers packages family events template = .ok answers ∧
      Shares packages family places (written events plain) last after := by
  induction events generalizing plain template buffer with
  | nil => exact ⟨[], buffer, template, rfl, rfl, shares⟩
  | cons event events ih =>
      obtain ⟨now, later⟩ := List.forall_mem_cons.mp allowed
      obtain ⟨answer, middle, acted, fresh, shares⟩ :=
        shares.step documented now
      obtain ⟨answers, after, last, ran, rest, shares⟩ := ih shares later
      refine ⟨answer :: answers, after, last, ?_, ?_, shares⟩
      · rw [runEvents, Stateful.runOn_bind_ok acted]
        exact Stateful.runOn_bind_ok ran
      · rw [freshAnswers, fresh]
        exact except_bind_eq_ok.mpr ⟨answer, rfl,
          except_bind_eq_ok.mpr ⟨answers, rest, rfl⟩⟩

end Index

end BlockTemplate
