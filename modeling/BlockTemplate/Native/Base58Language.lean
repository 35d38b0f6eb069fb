import BlockTemplate.Native.Base58
import BlockTemplate.Wire.Uvarint
import BlockTemplate.Crypto.Keccak

/-!
# The texts that base58 accepts

`decode` accepts the texts that `encode` writes and no others.  The writing
loop of `encode_block` is followed once more with its index checked: it never
gets in front of its block, since the letters of a block are enough for the
number in it.
-/

namespace BlockTemplate.Base58

/-- The loop of `encode_block`, without a result when it would write in front
of `res` or behind it; `i + 1` stands for the index `i`. -/
def encodeBlockLoopChecked : Nat → (num : Nat) → (res : Bytes) → Option Bytes
  | 0, num, res => if 0 < num then none else some res
  | i + 1, num, res =>
    if 0 < num then
      if i < res.length then
        encodeBlockLoopChecked i (num / alphabetSize)
          (res.set i (letter (num % alphabetSize)))
      else none
    else some res

def encodeBlockChecked (block : Bytes) : Option Bytes :=
  let size := encodedBlockSize block.length
  encodeBlockLoopChecked size (uint8beTo64 block)
    (List.replicate size (letter 0))

/-- `encode` with every write checked against the letters of its block. -/
def encodeBlocksChecked : (count : Nat) → Bytes → Option Bytes
  | 0, last => if last.isEmpty then some [] else encodeBlockChecked last
  | count + 1, data => do
    let first ← encodeBlockChecked (data.take fullBlockSize)
    let rest ← encodeBlocksChecked count (data.drop fullBlockSize)
    return first ++ rest

def encodeChecked (data : Bytes) : Option Bytes :=
  if data.isEmpty then some []
  else encodeBlocksChecked (data.length / fullBlockSize) data

private theorem encodeBlockLoopChecked_eq
    {size num : Nat} {res : Bytes}
    (fits : num < alphabetSize ^ size) (room : size ≤ res.length) :
    encodeBlockLoopChecked size num res =
      some (encodeBlockLoop size num res) := by
  induction size generalizing num res with
  | zero =>
      obtain rfl : num = 0 := by simpa using fits
      rfl
  | succ i ih =>
      rw [encodeBlockLoopChecked, encodeBlockLoop]
      split
      · have smaller : num / alphabetSize < alphabetSize ^ i := by
          rw [Nat.pow_succ] at fits
          exact Nat.div_lt_of_lt_mul (Nat.mul_comm _ _ ▸ fits)
        rw [if_pos (by omega), ih smaller (by rw [List.length_set]; omega)]
      · rfl

private theorem encodeBlockChecked_eq
    {block : Bytes} (bounded : block.length ≤ fullBlockSize) :
    encodeBlockChecked block = some (encodeBlock block) := by
  have fits := Nat.lt_of_lt_of_le (uint8beTo64_lt block) (pow_256_le _ bounded)
  exact encodeBlockLoopChecked_eq fits (Nat.le_of_eq List.length_replicate.symm)

private theorem encodeBlocksChecked_eq
    {count : Nat} {data : Bytes}
    (blocks : BlockCode.HasBlocks fullBlockSize count data) :
    encodeBlocksChecked count data = some (blockCode.encodeBlocks count data) := by
  induction count generalizing data with
  | zero =>
      rw [encodeBlocksChecked, BlockCode.encodeBlocks]
      split
      · rfl
      · apply encodeBlockChecked_eq
        have := blocks.2
        omega
  | succ count ih =>
      obtain ⟨full, later⟩ := blocks.drop
      rw [encodeBlocksChecked, encodeBlockChecked_eq (Nat.le_of_eq full),
        ih later]
      rfl

private theorem encodeChecked_eq (data : Bytes) :
    encodeChecked data = some (encode data) := by
  rw [encodeChecked, encode]
  split
  · rfl
  · exact encodeBlocksChecked_eq
      (BlockCode.hasBlocks_div blockCode.plain_pos data)

private theorem letter_mem_alphabet : ∀ digit < alphabetSize,
    letter digit ∈ alphabet := by
  decide +kernel

private theorem mem_alphabet_of_mem_letters
    {size num : Nat} {character : Byte}
    (member : character ∈ letters size num) : character ∈ alphabet := by
  rw [letters, List.mem_reverse, List.mem_map] at member
  obtain ⟨digit, digitMember, rfl⟩ := member
  exact letter_mem_alphabet digit
    (Nat.lt_of_mem_digitsAppend (by decide) _ _ digitMember)

/-- The letters of a number that they are enough for determine it. -/
theorem letters_inj
    {size first second : Nat}
    (firstFits : first < alphabetSize ^ size)
    (secondFits : second < alphabetSize ^ size)
    (same : letters size first = letters size second) : first = second := by
  have base : 1 < alphabetSize := by decide
  have digits (num : Nat) :
      (letters size num).reverse.map reverseAlphabet =
        (Nat.digitsAppend alphabetSize size num).map some := by
    rw [letters, List.reverse_reverse, List.map_map]
    apply List.map_congr_left
    intro digit member
    exact reverseAlphabet_letter digit
      (Nat.lt_of_mem_digitsAppend base _ _ member)
  have sameDigits := digits first
  rw [same, digits second] at sameDigits
  have inverse := (Nat.setInvOn_digitsAppend_ofDigits base size).2
  rw [← inverse firstFits, ← inverse secondFits,
    List.map_injective_iff.mpr (Option.some_injective _) sameDigits]

private theorem length_letters
    {size num : Nat} (fits : num < alphabetSize ^ size) :
    (letters size num).length = size := by
  rw [letters, List.length_reverse, List.length_map,
    Nat.length_digitsAppend (by decide) _ fits]

/-- The characters of the block with index `i` of a text. -/
def blockAt (text : Bytes) (i : Nat) : Bytes :=
  (text.drop (i * fullEncodedBlockSize)).take fullEncodedBlockSize

/-- A block of an accepted text has the letters of a number that fits its
bytes. -/
theorem blockAt_of_decode
    {text data : Bytes} (decoded : decode text = some data) (i : Nat) :
    blockAt text i = [] ∨
      ∃ size num, size ≤ fullBlockSize ∧ num < 256 ^ size ∧
        blockAt text i = letters (encodedBlockSize size) num := by
  rw [decode_eq] at decoded
  have positive : 0 < fullEncodedBlockSize := by decide
  refine (BlockCode.block_of_decodeBlocks
    (BlockCode.hasBlocks_div positive text) decoded i).imp_right ?_
  rintro ⟨plain, blockDecoded⟩
  obtain ⟨⟨-, bounded⟩, encoded⟩ := decodeBlock_eq_some.mp blockDecoded
  refine ⟨plain.length, uint8beTo64 plain, bounded, uint8beTo64_lt plain, ?_⟩
  rw [← encodeBlock_eq bounded]
  exact encoded.symm

private theorem decode_eq_none_of_length
    {text : Bytes}
    (invalid : text.length % fullEncodedBlockSize ∉ encodedBlockSizes) :
    decode text = none := by
  have absent : ∀ length < fullEncodedBlockSize, length ∉ encodedBlockSizes →
      decodedBlockSize length = none := by
    decide +kernel
  have nonempty : text.isEmpty = false := by
    cases text with
    | nil => exact absurd invalid (by decide)
    | cons => rfl
  simp only [decode, nonempty, Bool.false_eq_true, if_false,
    absent _ (Nat.mod_lt _ (by decide)) invalid]

private theorem mem_blockAt
    {text : Bytes} {character : Byte} (member : character ∈ text) :
    ∃ i, character ∈ blockAt text i := by
  obtain ⟨position, inside, rfl⟩ := List.mem_iff_getElem.mp member
  have positive : 0 < fullEncodedBlockSize := by decide
  have short := Nat.mod_lt position positive
  have whole := Nat.div_add_mod' position fullEncodedBlockSize
  refine ⟨position / fullEncodedBlockSize, List.mem_iff_getElem?.mpr
    ⟨position % fullEncodedBlockSize, ?_⟩⟩
  rw [blockAt, List.getElem?_take_of_lt short, List.getElem?_drop, whole,
    List.getElem?_eq_getElem inside]

private theorem decode_eq_none_of_foreign
    {text : Bytes} {character : Byte}
    (member : character ∈ text) (foreign : character ∉ alphabet) :
    decode text = none := by
  rw [Option.eq_none_iff_forall_ne_some]
  intro data decoded
  obtain ⟨i, inBlock⟩ := mem_blockAt member
  rcases blockAt_of_decode decoded i with empty | ⟨size, num, -, -, block⟩
  · rw [empty] at inBlock
    cases inBlock
  · rw [block] at inBlock
    exact foreign (mem_alphabet_of_mem_letters inBlock)

/-- A block with the letters of a number that its bytes cannot hold. -/
theorem decode_eq_none_of_overflow
    {text : Bytes} {i size num : Nat}
    (positive : 0 < size) (bounded : size ≤ fullBlockSize)
    (block : blockAt text i = letters (encodedBlockSize size) num)
    (written : num < alphabetSize ^ encodedBlockSize size)
    (overflow : 256 ^ size ≤ num) : decode text = none := by
  rw [Option.eq_none_iff_forall_ne_some]
  intro data decoded
  have length := length_letters written
  rcases blockAt_of_decode decoded i with
    empty | ⟨other, otherNum, otherBounded, fits, otherBlock⟩
  · rw [block] at empty
    rw [empty, List.length_nil] at length
    have := encodedBlockSize_pos size bounded positive
    omega
  · have otherWritten :=
      Nat.lt_of_lt_of_le fits (pow_256_le other otherBounded)
    rw [block] at otherBlock
    have sameSize : encodedBlockSize size = encodedBlockSize other := by
      rw [← length, otherBlock, length_letters otherWritten]
    obtain rfl : size = other := by
      have sizeRead := decodedBlockSize_eq_some.mpr ⟨bounded, rfl⟩
      have otherRead := decodedBlockSize_eq_some.mpr ⟨otherBounded, rfl⟩
      rw [sameSize, otherRead] at sizeRead
      exact (Option.some.inj sizeRead).symm
    have := letters_inj written otherWritten otherBlock
    omega

/-- Base58 is a bijection onto the texts that are accepted.  The encoder
writes inside its block; the decoder refuses a last block of a wrong length, a
character that is no letter and a block whose number is too large. -/
theorem base58_bijection :
    (∀ data text : Bytes, decode text = some data ↔ text = encode data) ∧
    (∀ data : Bytes, encodeChecked data = some (encode data)) ∧
    (∀ text : Bytes, text.length % fullEncodedBlockSize ∉ encodedBlockSizes →
      decode text = none) ∧
    (∀ (text : Bytes) (character : Byte), character ∈ text →
      character ∉ alphabet → decode text = none) ∧
    (∀ (text : Bytes) (i size num : Nat), 0 < size → size ≤ fullBlockSize →
      blockAt text i = letters (encodedBlockSize size) num →
      num < alphabetSize ^ encodedBlockSize size → 256 ^ size ≤ num →
        decode text = none) ∧
    ∀ first second data : Bytes, decode first = some data →
      decode second = some data → first = second := by
  refine ⟨fun data text => decode_eq_some_iff.trans eq_comm, encodeChecked_eq,
    fun text => decode_eq_none_of_length,
    fun text character => decode_eq_none_of_foreign,
    fun text i size num => decode_eq_none_of_overflow, ?_⟩
  intro first second data firstDecoded secondDecoded
  rw [decode_eq_some_iff] at firstDecoded secondDecoded
  rw [← firstDecoded, secondDecoded]

section

variable (cnFastHash : Bytes → Blob 32)

/-- The text of a payload with its right checksum, which ends in the middle of
the varint it starts with.  `read_varint` takes at most nine bytes that
announce another one before it finds the tag too large. -/
def CutOffTag (addr : Bytes) : Prop :=
  ∃ buf, decode addr = some (buf ++ checksum cnFastHash buf) ∧
    buf ≠ [] ∧ buf.length ≤ 9 ∧ Continued buf

/-- The address codec at one text: it is accepted with a tag and data exactly
when it is what `encode_addr` writes for them. -/
def AddrExact (addr : Bytes) : Prop :=
  ∀ (tag : BitVec 64) (data : Bytes),
    decodeAddr cnFastHash addr = some (tag, data) ↔
      addr = encodeAddr cnFastHash tag data

end

/-- The bytes before the right checksum are determined by the text. -/
theorem payload_unique
    {cnFastHash : Bytes → Blob 32} {addr first second : Bytes}
    (firstText : decode addr = some (first ++ checksum cnFastHash first))
    (secondText : decode addr = some (second ++ checksum cnFastHash second)) :
    first = second := by
  rw [firstText] at secondText
  have sameChecksum : (checksum cnFastHash first).length =
      (checksum cnFastHash second).length := by
    rw [length_checksum, length_checksum]
  exact (List.append_inj' (Option.some.inj secondText) sameChecksum).1

private theorem not_continued_writeVarint (tag : BitVec 64) :
    ¬Continued (writeVarint tag) := by
  intro continued
  have read := serializeUvarint_writeVarint (by decide) tag []
  rw [List.append_nil, serializeUvarint, if_pos rfl] at read
  have failed := @serializeUvarintLoop_truncated 64 _ 0 0 continued
  rw [read] at failed
  cases failed

/-- A text with a cut-off tag is the encoding of no tag alone. -/
theorem ne_encodeAddr_of_cutOffTag
    {cnFastHash : Bytes → Blob 32} {addr : Bytes}
    (cutOff : CutOffTag cnFastHash addr) (tag : BitVec 64) :
    addr ≠ encodeAddr cnFastHash tag [] := by
  rintro rfl
  obtain ⟨buf, text, -, -, continued⟩ := cutOff
  have writtenText : decode (encodeAddr cnFastHash tag []) =
      some (writeVarint tag ++ [] ++
        checksum cnFastHash (writeVarint tag ++ [])) :=
    decode_eq_some_iff.mpr rfl
  have same := payload_unique text writtenText
  rw [List.append_nil] at same
  exact not_continued_writeVarint tag (same ▸ continued)

/-- It is accepted all the same, without data. -/
theorem decodeAddr_of_cutOffTag
    {cnFastHash : Bytes → Blob 32} {addr : Bytes}
    (cutOff : CutOffTag cnFastHash addr) :
    ∃ tag, decodeAddr cnFastHash addr = some (tag, []) := by
  obtain ⟨buf, text, nonempty, short, continued⟩ := cutOff
  have length := @readVarintLoop_continued 64 buf 0 0 0 continued (by omega)
  rcases read : readVarint 64 buf with ⟨count, tag⟩
  rw [← readVarint, read] at length
  dsimp only at length
  have positive := List.length_pos_of_ne_nil nonempty
  refine ⟨tag, decodeAddr_eq_some.mpr ⟨buf, count, text, read, by omega, ?_⟩⟩
  exact (List.drop_eq_nil_of_le (by omega)).symm

/-- The address codec is exact at a text if and only if the text has no
cut-off tag. -/
theorem decode_addr_exact_iff (cnFastHash : Bytes → Blob 32) (addr : Bytes) :
    AddrExact cnFastHash addr ↔ ¬CutOffTag cnFastHash addr := by
  constructor
  · intro exact cutOff
    obtain ⟨tag, decoded⟩ := decodeAddr_of_cutOffTag cutOff
    exact ne_encodeAddr_of_cutOffTag cutOff tag ((exact tag []).mp decoded)
  · intro complete tag data
    constructor
    · intro decoded
      obtain ⟨buf, count, text, read, started, rfl⟩ :=
        decodeAddr_eq_some.mp decoded
      rcases readVarintLoop_cases buf 0 0 (0 : BitVec 64) with
        ⟨consumed, rest, value, rfl, -, streamRead, stringRead⟩ | ⟨failed, -⟩
      · rw [← readVarint, read] at stringRead
        cases stringRead
        have written := (serializeUvarint_eq_iff (by decide)).mp streamRead
        rw [Nat.zero_add, Int.toNat_natCast, List.drop_left]
        rw [written] at text
        exact (decode_eq_some_iff.mp text).symm
      · have accepted : 0 ≤ (readVarintLoop 64 buf 0 0 0).1 := by
          rw [← readVarint, read]
          omega
        obtain ⟨continued, short⟩ :=
          continued_of_readVarintLoop (by decide) failed accepted
        refine absurd ⟨buf, text, ?_, by omega, continued⟩ complete
        rintro rfl
        cases read
        exact absurd started (by decide)
    · rintro rfl
      exact decodeAddr_encodeAddr tag data

/-- The text of the byte 0x80 and its checksum, the seven characters
`FUot9bC`. -/
def cutOffText : Bytes :=
  encode ([0x80] ++ checksum Keccak.cnFastHash [0x80])

theorem decode_addr_cut_off :
    decodeAddr Keccak.cnFastHash cutOffText = some (0, []) ∧
      cutOffText ≠ encodeAddr Keccak.cnFastHash 0 [] := by
  have text : decode cutOffText =
      some ([0x80] ++ checksum Keccak.cnFastHash [0x80]) :=
    decode_eq_some_iff.mpr rfl
  constructor
  · exact decodeAddr_eq_some.mpr ⟨[0x80], 1, text, by decide, by decide, rfl⟩
  · exact ne_encodeAddr_of_cutOffTag
      ⟨[0x80], text, by decide, by decide, by decide⟩ 0

end BlockTemplate.Base58
