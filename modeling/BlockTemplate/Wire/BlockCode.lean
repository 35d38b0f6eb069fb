import Mathlib.Data.List.Basic

/-!
# Codes that work block by block

A text is cut into blocks of a fixed size and a shorter last block, and every
block is encoded by itself.  When a block and its code determine each other,
and only a full block has a code of the full size, the same holds of whole
texts.
-/

namespace BlockTemplate

/-- A code of blocks of at most `plainSize` symbols, with its decoder. -/
structure BlockCode (Plain Code : Type) where
  plainSize : Nat
  codeSize : Nat
  plain_pos : 0 < plainSize
  encodeBlock : List Plain → List Code
  decodeBlock : List Code → Option (List Plain)
  decodeBlock_eq_some : ∀ {block plain}, decodeBlock block = some plain ↔
    (plain ≠ [] ∧ plain.length ≤ plainSize) ∧ encodeBlock plain = block
  encodeBlock_ne_nil : ∀ {plain}, plain ≠ [] → plain.length ≤ plainSize →
    encodeBlock plain ≠ []
  length_full : ∀ {plain}, plain.length = plainSize →
    (encodeBlock plain).length = codeSize
  length_partial : ∀ {plain}, plain.length < plainSize →
    (encodeBlock plain).length < codeSize

namespace BlockCode

variable {Plain Code : Type} (code : BlockCode Plain Code)

/-- Encodes `count` full blocks and what is left after them. -/
def encodeBlocks : (count : Nat) → List Plain → List Code
  | 0, last => if last.isEmpty then [] else code.encodeBlock last
  | count + 1, data =>
    code.encodeBlock (data.take code.plainSize) ++
      encodeBlocks count (data.drop code.plainSize)

/-- Decodes `count` full blocks and what is left after them. -/
def decodeBlocks : (count : Nat) → List Code → Option (List Plain)
  | 0, last => if last.isEmpty then some [] else code.decodeBlock last
  | count + 1, text => do
    let first ← code.decodeBlock (text.take code.codeSize)
    let rest ← decodeBlocks count (text.drop code.codeSize)
    return first ++ rest

variable {code} {count : Nat} {text : List Code} {data plain : List Plain}

/-- A list has `count` full blocks of `size` symbols and a shorter last one. -/
def HasBlocks {Symbol : Type} (size count : Nat) (list : List Symbol) : Prop :=
  count * size ≤ list.length ∧ list.length < count * size + size

theorem hasBlocks_div {Symbol : Type} {size : Nat} (positive : 0 < size)
    (list : List Symbol) : HasBlocks size (list.length / size) list := by
  have whole := Nat.div_add_mod' list.length size
  have short := Nat.mod_lt list.length positive
  constructor <;> omega

theorem HasBlocks.eq_div {Symbol : Type} {size : Nat} {list : List Symbol}
    (blocks : HasBlocks size count list) : count = list.length / size := by
  symm
  apply Nat.div_eq_of_lt_le
  · exact blocks.1
  · rw [Nat.succ_mul]
    exact blocks.2

theorem HasBlocks.drop {Symbol : Type} {size : Nat} {list : List Symbol}
    (blocks : HasBlocks size (count + 1) list) :
    (list.take size).length = size ∧ HasBlocks size count (list.drop size) := by
  obtain ⟨low, high⟩ := blocks
  rw [Nat.succ_mul] at low high
  refine ⟨?_, ?_, ?_⟩
  · rw [List.length_take]
    omega
  · rw [List.length_drop]
    omega
  · rw [List.length_drop]
    omega

theorem HasBlocks.append {Symbol : Type} {size : Nat}
    {first rest : List Symbol} (full : first.length = size)
    (blocks : HasBlocks size count rest) :
    HasBlocks size (count + 1) (first ++ rest) := by
  obtain ⟨low, high⟩ := blocks
  rw [HasBlocks, Nat.succ_mul, List.length_append]
  omega

/-- A block decoded from a code of the full size is full. -/
theorem length_of_decodeBlock
    (full : text.length = code.codeSize)
    (decoded : code.decodeBlock text = some plain) :
    plain.length = code.plainSize := by
  obtain ⟨⟨-, bounded⟩, rfl⟩ := code.decodeBlock_eq_some.mp decoded
  by_contra other
  have short : plain.length < code.plainSize := by omega
  exact absurd full (Nat.ne_of_lt (code.length_partial short))

theorem encodeBlocks_of_decodeBlocks
    (blocks : HasBlocks code.codeSize count text)
    (decoded : code.decodeBlocks count text = some data) :
    HasBlocks code.plainSize count data ∧
      code.encodeBlocks count data = text := by
  induction count generalizing text data with
  | zero =>
      rw [HasBlocks, Nat.zero_mul, Nat.zero_add] at blocks ⊢
      rw [decodeBlocks] at decoded
      split at decoded
      · rename_i empty
        rw [List.isEmpty_iff] at empty
        cases decoded
        exact ⟨⟨Nat.zero_le 0, code.plain_pos⟩, empty.symm⟩
      · obtain ⟨⟨nonempty, bounded⟩, rfl⟩ :=
          code.decodeBlock_eq_some.mp decoded
        have notFull : data.length ≠ code.plainSize := by
          intro full
          exact absurd (code.length_full full) (Nat.ne_of_lt blocks.2)
        refine ⟨by omega, ?_⟩
        rw [encodeBlocks, if_neg (by rwa [List.isEmpty_iff])]
  | succ count ih =>
      obtain ⟨fullText, later⟩ := blocks.drop
      simp only [decodeBlocks, Option.bind_eq_bind, Option.bind_eq_some_iff,
        Option.pure_def, Option.some.injEq] at decoded
      obtain ⟨first, firstDecoded, rest, restDecoded, rfl⟩ := decoded
      have full := length_of_decodeBlock fullText firstDecoded
      obtain ⟨restBlocks, restEncoded⟩ := ih later restDecoded
      obtain ⟨-, firstEncoded⟩ := code.decodeBlock_eq_some.mp firstDecoded
      refine ⟨restBlocks.append full, ?_⟩
      rw [encodeBlocks, List.take_left' full, List.drop_left' full,
        firstEncoded, restEncoded, List.take_append_drop]

theorem decodeBlocks_of_encodeBlocks
    (blocks : HasBlocks code.plainSize count data)
    (encoded : code.encodeBlocks count data = text) :
    HasBlocks code.codeSize count text ∧
      code.decodeBlocks count text = some data := by
  subst encoded
  induction count generalizing data with
  | zero =>
      rw [HasBlocks, Nat.zero_mul, Nat.zero_add] at blocks ⊢
      have short := code.length_partial blocks.2
      rw [encodeBlocks, decodeBlocks]
      by_cases empty : data = []
      · subst empty
        exact ⟨⟨Nat.zero_le 0, Nat.zero_lt_of_lt short⟩, rfl⟩
      · have bounded : data.length ≤ code.plainSize := Nat.le_of_lt blocks.2
        have coded := code.encodeBlock_ne_nil empty bounded
        rw [if_neg (by rwa [List.isEmpty_iff]),
          if_neg (by rwa [List.isEmpty_iff])]
        exact ⟨⟨Nat.zero_le _, short⟩,
          code.decodeBlock_eq_some.mpr ⟨⟨empty, bounded⟩, rfl⟩⟩
  | succ count ih =>
      obtain ⟨full, later⟩ := blocks.drop
      obtain ⟨restBlocks, restDecoded⟩ := ih later
      have fullCode := code.length_full full
      have nonempty : data.take code.plainSize ≠ [] := by
        have := code.plain_pos
        exact List.ne_nil_of_length_pos (by omega)
      have firstDecoded : code.decodeBlock
          (code.encodeBlock (data.take code.plainSize)) =
            some (data.take code.plainSize) :=
        code.decodeBlock_eq_some.mpr ⟨⟨nonempty, Nat.le_of_eq full⟩, rfl⟩
      refine ⟨restBlocks.append fullCode, ?_⟩
      rw [encodeBlocks, decodeBlocks, List.take_left' fullCode,
        List.drop_left' fullCode, firstDecoded, restDecoded]
      simp

theorem codeSize_pos (code : BlockCode Plain Code) : 0 < code.codeSize :=
  Nat.zero_lt_of_lt (@BlockCode.length_partial _ _ code [] code.plain_pos)

/-- A text is decoded to the data it is the encoding of, and to no other. -/
theorem decodeBlocks_eq_some_iff :
    code.decodeBlocks (text.length / code.codeSize) text = some data ↔
      code.encodeBlocks (data.length / code.plainSize) data = text := by
  have textBlocks := hasBlocks_div code.codeSize_pos text
  have dataBlocks := hasBlocks_div code.plain_pos data
  constructor
  · intro decoded
    obtain ⟨blocks, encoded⟩ := encodeBlocks_of_decodeBlocks textBlocks decoded
    rwa [blocks.eq_div] at encoded
  · intro encoded
    obtain ⟨blocks, decoded⟩ := decodeBlocks_of_encodeBlocks dataBlocks encoded
    rwa [blocks.eq_div] at decoded

/-- Every block of a decoded text is decoded by itself. -/
theorem block_of_decodeBlocks
    (blocks : HasBlocks code.codeSize count text)
    (decoded : code.decodeBlocks count text = some data) (i : Nat) :
    (text.drop (i * code.codeSize)).take code.codeSize = [] ∨
      ∃ plain, code.decodeBlock
        ((text.drop (i * code.codeSize)).take code.codeSize) = some plain := by
  induction count generalizing text data i with
  | zero =>
      rw [HasBlocks, Nat.zero_mul, Nat.zero_add] at blocks
      cases i with
      | zero =>
          rw [Nat.zero_mul, List.drop_zero,
            List.take_of_length_le (Nat.le_of_lt blocks.2)]
          rw [decodeBlocks] at decoded
          split at decoded
          · rename_i empty
            exact .inl (List.isEmpty_iff.mp empty)
          · exact .inr ⟨data, decoded⟩
      | succ i =>
          left
          rw [List.drop_eq_nil_of_le, List.take_nil]
          rw [Nat.succ_mul]
          omega
  | succ count ih =>
      simp only [decodeBlocks, Option.bind_eq_bind,
        Option.bind_eq_some_iff] at decoded
      obtain ⟨first, firstDecoded, rest, restDecoded, -⟩ := decoded
      cases i with
      | zero =>
          rw [Nat.zero_mul, List.drop_zero]
          exact .inr ⟨first, firstDecoded⟩
      | succ i =>
          have later := ih blocks.drop.2 restDecoded i
          rwa [List.drop_drop, Nat.add_comm, ← Nat.succ_mul] at later

end BlockCode

end BlockTemplate
