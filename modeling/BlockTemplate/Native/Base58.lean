import BlockTemplate.Wire.Varint
import BlockTemplate.Wire.BlockCode
import BlockTemplate.Native.IntUtil
import Mathlib.Data.Nat.Digits.Lemmas

/-!
# Base58

`tools::base58` of `common/base58.cpp`: eight bytes at a time as eleven
letters, a shorter last block with just enough letters.  A block is decoded
with checked 64-bit arithmetic; whatever it accepts is the encoding of what it
gives back.
-/

namespace BlockTemplate.Base58

def alphabet : Bytes :=
  "123456789ABCDEFGHJKLMNPQRSTUVWXYZabcdefghijkmnopqrstuvwxyz".toList.map
    fun letter => BitVec.ofNat 8 letter.toNat

def alphabetSize : Nat := 58

/-- `alphabet[digit]`. -/
def letter (digit : Nat) : Byte := alphabet.getD digit 0

def encodedBlockSizes : List Nat := [0, 2, 3, 5, 6, 7, 9, 10, 11]

def encodedBlockSize (size : Nat) : Nat := encodedBlockSizes.getD size 0

def fullBlockSize : Nat := encodedBlockSizes.length - 1

def fullEncodedBlockSize : Nat := encodedBlockSize fullBlockSize

/-- The table of `reverse_alphabet`; -1 is `none`. -/
def reverseAlphabetData : List (Option Nat) :=
  (List.range alphabetSize).foldl
    (fun data i => data.set ((letter i).toNat - (letter 0).toNat) (some i))
    (List.replicate
      ((letter (alphabetSize - 1)).toNat - (letter 0).toNat + 1) none)

-- A character in front of the first letter has an index beyond every table.
def reverseAlphabet (character : Byte) : Option Nat :=
  if character.toNat < (letter 0).toNat then none
  else reverseAlphabetData.getD (character.toNat - (letter 0).toNat) none

/-- The table of `decoded_block_sizes`; -1 is `none`. -/
def decodedBlockSizesData : List (Option Nat) :=
  (List.range (fullBlockSize + 1)).foldl
    (fun data i => data.set (encodedBlockSize i) (some i))
    (List.replicate (fullEncodedBlockSize + 1) none)

def decodedBlockSize (encodedSize : Nat) : Option Nat :=
  decodedBlockSizesData.getD encodedSize none

def uint8beTo64 (data : Bytes) : Nat := leValue data.reverse

def uint64To8be (num size : Nat) : Bytes := (leBytes size num).reverse

/-- The low and the high word of a product of 64-bit numbers. -/
def mul128 (multiplier multiplicand : Nat) : Nat × Nat :=
  let product := IntUtil.mul128 (BitVec.ofNat 64 multiplier)
    (BitVec.ofNat 64 multiplicand)
  (product.1.toNat, product.2.toNat)

/-- The loop of `encode_block`; `i + 1` stands for the index `i`. -/
def encodeBlockLoop : Nat → (num : Nat) → (res : Bytes) → Bytes
  | 0, _, res => res
  | i + 1, num, res =>
    if 0 < num then
      encodeBlockLoop i (num / alphabetSize)
        (res.set i (letter (num % alphabetSize)))
    else res

def encodeBlock (block : Bytes) : Bytes :=
  let size := encodedBlockSize block.length
  encodeBlockLoop size (uint8beTo64 block) (List.replicate size (letter 0))

/-- The loop of `decode_block`, over the characters from the last one on. -/
def decodeBlockLoop : Bytes → (resNum order : Nat) → Option Nat
  | [], resNum, _ => some resNum
  | character :: rest, resNum, order =>
    match reverseAlphabet character with
    | none => none
    | some digit =>
      let (product, productHi) := mul128 order digit
      let tmp := (resNum + product) % 2 ^ 64
      if tmp < resNum ∨ productHi ≠ 0 then none
      else decodeBlockLoop rest tmp (order * alphabetSize % 2 ^ 64)

def decodeBlock (block : Bytes) : Option Bytes :=
  match decodedBlockSize block.length with
  | none | some 0 => none
  | some resSize =>
    match decodeBlockLoop block.reverse 0 1 with
    | none => none
    | some resNum =>
      if resSize < fullBlockSize ∧ 1 <<< (8 * resSize) ≤ resNum then none
      else some (uint64To8be resNum resSize)

theorem reverseAlphabet_letter : ∀ digit < alphabetSize,
    reverseAlphabet (letter digit) = some digit := by
  decide

private theorem letter_reverseAlphabet : ∀ character : Byte,
    ∀ digit ∈ reverseAlphabet character,
      digit < alphabetSize ∧ letter digit = character := by
  decide

private theorem letter_inj
    {first second : Nat} (firstSmall : first < alphabetSize)
    (secondSmall : second < alphabetSize)
    (same : letter first = letter second) : first = second := by
  have read := reverseAlphabet_letter first firstSmall
  rw [same, reverseAlphabet_letter second secondSmall] at read
  exact (Option.some.inj read).symm

theorem decodedBlockSize_eq_some {size encodedSize : Nat} :
    decodedBlockSize encodedSize = some size ↔
      size ≤ fullBlockSize ∧ encodedBlockSize size = encodedSize := by
  have tabulated : ∀ size ≤ fullBlockSize,
      decodedBlockSize (encodedBlockSize size) = some size := by
    decide
  have entries : ∀ encodedSize ≤ fullEncodedBlockSize,
      ∀ size ∈ decodedBlockSize encodedSize,
        size ≤ fullBlockSize ∧ encodedBlockSize size = encodedSize := by
    decide
  constructor
  · intro read
    by_cases inside : encodedSize ≤ fullEncodedBlockSize
    · exact entries encodedSize inside size read
    · have beyond : decodedBlockSizesData.length ≤ encodedSize := by
        have : decodedBlockSizesData.length = fullEncodedBlockSize + 1 := by
          decide
        omega
      rw [decodedBlockSize, List.getD_eq_getElem?_getD,
        List.getElem?_eq_none beyond] at read
      cases read
  · rintro ⟨bounded, rfl⟩
    exact tabulated size bounded

private theorem encodedBlockSize_le : ∀ size ≤ fullBlockSize,
    encodedBlockSize size ≤ fullEncodedBlockSize := by
  decide

/-- The letters of a block are enough for its bytes. -/
theorem pow_256_le : ∀ size ≤ fullBlockSize,
    256 ^ size ≤ alphabetSize ^ encodedBlockSize size := by
  decide

theorem uint8beTo64_lt (data : Bytes) : uint8beTo64 data < 256 ^ data.length := by
  have bound := leValue_lt data.reverse
  rwa [List.length_reverse] at bound

private theorem uint64To8be_uint8beTo64 (data : Bytes) :
    uint64To8be (uint8beTo64 data) data.length = data := by
  have same := leBytes_leValue data.reverse
  rw [List.length_reverse] at same
  rw [uint64To8be, uint8beTo64, same, List.reverse_reverse]

private theorem uint8beTo64_uint64To8be
    {num size : Nat} (small : num < 256 ^ size) :
    uint8beTo64 (uint64To8be num size) = num := by
  rw [uint8beTo64, uint64To8be, List.reverse_reverse, leValue_leBytes,
    Nat.mod_eq_of_lt small]

private theorem length_uint64To8be (num size : Nat) :
    (uint64To8be num size).length = size := by
  rw [uint64To8be, List.length_reverse, length_leBytes]

private theorem digitsAppend_succ {size num : Nat} :
    Nat.digitsAppend alphabetSize (size + 1) num =
      num % alphabetSize ::
        Nat.digitsAppend alphabetSize size (num / alphabetSize) := by
  by_cases zero : num = 0
  · subst zero
    simp [Nat.digitsAppend, List.replicate_succ]
  · have positive : 0 < num := Nat.pos_of_ne_zero zero
    have base : 1 < alphabetSize := by decide
    simp [Nat.digitsAppend, Nat.digits_def' base positive]

/-- The letters of `size` digits, the highest first. -/
def letters (size num : Nat) : Bytes :=
  ((Nat.digitsAppend alphabetSize size num).map letter).reverse

private theorem letters_zero (size : Nat) :
    letters size 0 = List.replicate size (letter 0) := by
  simp [letters, Nat.digitsAppend]

/-- The loop fills the first letters of a buffer, which the caller has set to
the letter of zero, and leaves what comes after them. -/
theorem encodeBlockLoop_eq {size num : Nat} {after : Bytes}
    (fits : num < alphabetSize ^ size) :
    encodeBlockLoop size num (List.replicate size (letter 0) ++ after) =
      letters size num ++ after := by
  induction size generalizing num after with
  | zero =>
      obtain rfl : num = 0 := by simpa using fits
      rw [encodeBlockLoop, letters_zero]
  | succ i ih =>
      rw [encodeBlockLoop]
      split
      · have written : (List.replicate (i + 1) (letter 0) ++ after).set i
            (letter (num % alphabetSize)) =
              List.replicate i (letter 0) ++
                (letter (num % alphabetSize) :: after) := by
          rw [List.replicate_succ', List.append_assoc,
            List.set_append_right _ _ (by simp)]
          simp
        have smaller : num / alphabetSize < alphabetSize ^ i := by
          rw [Nat.pow_succ] at fits
          exact Nat.div_lt_of_lt_mul (Nat.mul_comm _ _ ▸ fits)
        rw [written, ih smaller, letters, letters, digitsAppend_succ,
          List.map_cons, List.reverse_cons, List.append_assoc,
          List.singleton_append]
      · obtain rfl : num = 0 := by omega
        rw [letters_zero]

theorem encodeBlock_eq {block : Bytes} (bounded : block.length ≤ fullBlockSize) :
    encodeBlock block =
      letters (encodedBlockSize block.length) (uint8beTo64 block) := by
  have fits := Nat.lt_of_lt_of_le (uint8beTo64_lt block) (pow_256_le _ bounded)
  have filled := @encodeBlockLoop_eq _ _ [] fits
  rwa [List.append_nil, List.append_nil] at filled

private theorem length_encodeBlock {block : Bytes}
    (bounded : block.length ≤ fullBlockSize) :
    (encodeBlock block).length = encodedBlockSize block.length := by
  have fits := Nat.lt_of_lt_of_le (uint8beTo64_lt block) (pow_256_le _ bounded)
  rw [encodeBlock_eq bounded, letters, List.length_reverse, List.length_map,
    Nat.length_digitsAppend (by decide) _ fits]

/-- The order of every letter of a block fits 64 bits. -/
theorem order_lt : ∀ k < fullEncodedBlockSize, alphabetSize ^ k < 2 ^ 64 := by
  decide

private theorem mul128_eq {multiplier multiplicand : Nat}
    (small : multiplier < 2 ^ 64) (smallToo : multiplicand < 2 ^ 64) :
    mul128 multiplier multiplicand =
      (multiplier * multiplicand % 2 ^ 64,
        multiplier * multiplicand / 2 ^ 64) := by
  have words := IntUtil.mul128_toNat (BitVec.ofNat 64 multiplier)
    (BitVec.ofNat 64 multiplicand)
  rw [BitVec.toNat_ofNat, BitVec.toNat_ofNat, Nat.mod_eq_of_lt small,
    Nat.mod_eq_of_lt smallToo] at words
  have low := (IntUtil.mul128 (BitVec.ofNat 64 multiplier)
    (BitVec.ofNat 64 multiplicand)).1.isLt
  rw [mul128, Prod.mk.injEq]
  constructor <;> omega

/-- A digit that fits is added without overflow. -/
theorem decodeBlockLoop_cons {character : Byte} {rest : Bytes}
    {digit resNum order : Nat}
    (read : reverseAlphabet character = some digit) (small : resNum < 2 ^ 64)
    (orderSmall : order < 2 ^ 64) :
    decodeBlockLoop (character :: rest) resNum order =
      if resNum + order * digit < 2 ^ 64 then
        decodeBlockLoop rest (resNum + order * digit)
          (order * alphabetSize % 2 ^ 64)
      else none := by
  have step : decodeBlockLoop (character :: rest) resNum order =
      if (resNum + order * digit % 2 ^ 64) % 2 ^ 64 < resNum ∨
          order * digit / 2 ^ 64 ≠ 0 then none
      else decodeBlockLoop rest ((resNum + order * digit % 2 ^ 64) % 2 ^ 64)
        (order * alphabetSize % 2 ^ 64) := by
    obtain ⟨digitSmall, -⟩ := letter_reverseAlphabet character digit read
    have bound : alphabetSize < 2 ^ 64 := by decide
    rw [decodeBlockLoop, read]
    dsimp only
    rw [mul128_eq orderSmall (digitSmall.trans bound)]
  by_cases fits : resNum + order * digit < 2 ^ 64
  · have product : order * digit % 2 ^ 64 = order * digit :=
      Nat.mod_eq_of_lt (by omega)
    have productHi : order * digit / 2 ^ 64 = 0 :=
      Nat.div_eq_of_lt (by omega)
    rw [step, if_pos fits, product, productHi, Nat.mod_eq_of_lt fits,
      if_neg (by omega)]
  · rw [step, if_neg fits, if_pos]
    omega

/-- The loop succeeds on letters whose number, with what has been read, fits
64 bits. -/
theorem decodeBlockLoop_eq_some {text : Bytes} {k resNum num : Nat}
    (bounded : k + text.length ≤ fullEncodedBlockSize)
    (small : resNum < 2 ^ 64) :
    decodeBlockLoop text resNum (alphabetSize ^ k % 2 ^ 64) = some num ↔
      ∃ digits, text = digits.map letter ∧
        (∀ digit ∈ digits, digit < alphabetSize) ∧
        num = resNum + alphabetSize ^ k * Nat.ofDigits alphabetSize digits ∧
        num < 2 ^ 64 := by
  induction text generalizing k resNum with
  | nil =>
      rw [decodeBlockLoop, Option.some.injEq]
      constructor
      · rintro rfl
        exact ⟨[], rfl, by simp, by simp, small⟩
      · rintro ⟨digits, empty, -, rfl, -⟩
        rw [List.map_eq_nil_iff.mp empty.symm]
        simp
  | cons character rest ih =>
      rw [List.length_cons] at bounded
      cases read : reverseAlphabet character with
      | none =>
          rw [decodeBlockLoop, read]
          constructor
          · intro impossible
            cases impossible
          · rintro ⟨digits, text, digitsSmall, -, -⟩
            obtain ⟨digit, later, rfl, rfl, -⟩ := List.map_eq_cons_iff.mp text.symm
            rw [reverseAlphabet_letter digit (digitsSmall digit (by simp))] at read
            cases read
      | some digit =>
          obtain ⟨digitSmall, rfl⟩ := letter_reverseAlphabet character digit read
          have order : alphabetSize ^ k % 2 ^ 64 = alphabetSize ^ k :=
            Nat.mod_eq_of_lt (order_lt k (by omega))
          have nextOrder : alphabetSize ^ k * alphabetSize % 2 ^ 64 =
              alphabetSize ^ (k + 1) % 2 ^ 64 := by
            rw [← Nat.pow_succ]
          rw [order, decodeBlockLoop_cons read small (order_lt k (by omega)),
            nextOrder]
          have value (later : List Nat) :
              resNum + alphabetSize ^ k *
                  Nat.ofDigits alphabetSize (digit :: later) =
                resNum + alphabetSize ^ k * digit +
                  alphabetSize ^ (k + 1) * Nat.ofDigits alphabetSize later := by
            rw [Nat.ofDigits_cons]
            ring
          constructor
          · intro decoded
            split at decoded
            · rename_i fits
              obtain ⟨later, rfl, laterSmall, numEq, result⟩ :=
                (ih (by omega) fits).mp decoded
              refine ⟨digit :: later, rfl, ?_, ?_, result⟩
              · exact List.forall_mem_cons.mpr ⟨digitSmall, laterSmall⟩
              · rw [value later, numEq]
            · cases decoded
          · rintro ⟨digits, text, digitsSmall, numEq, result⟩
            obtain ⟨same, later, rfl, sameLetter, rfl⟩ :=
              List.map_eq_cons_iff.mp text.symm
            obtain ⟨sameSmall, laterSmall⟩ :=
              List.forall_mem_cons.mp digitsSmall
            obtain rfl : same = digit := letter_inj sameSmall digitSmall sameLetter
            rw [value later] at numEq
            rw [if_pos (by omega), ih (by omega) (by omega)]
            exact ⟨later, rfl, laterSmall, numEq, result⟩

/-- What the characters of a block stand for. -/
theorem decodeBlockLoop_reverse {block : Bytes} {num : Nat}
    (bounded : block.length ≤ fullEncodedBlockSize) :
    decodeBlockLoop block.reverse 0 1 = some num ↔
      num < 2 ^ 64 ∧ num < alphabetSize ^ block.length ∧
        letters block.length num = block := by
  have base : 1 < alphabetSize := by decide
  have inverse := Nat.setInvOn_digitsAppend_ofDigits base block.length
  have read := @decodeBlockLoop_eq_some block.reverse 0 0 num
    (by rwa [Nat.zero_add, List.length_reverse]) (by decide)
  simp only [Nat.pow_zero, Nat.zero_add, Nat.one_mul] at read
  rw [show 1 % 2 ^ 64 = 1 from rfl] at read
  rw [read]
  constructor
  · rintro ⟨digits, text, small, rfl, result⟩
    have length : digits.length = block.length := by
      rw [← List.length_map letter, ← text, List.length_reverse]
    refine ⟨result, ?_, ?_⟩
    · rw [← length]
      exact Nat.ofDigits_lt_base_pow_length base small
    · rw [letters, inverse.1 ⟨length, small⟩, ← text, List.reverse_reverse]
  · rintro ⟨result, small, written⟩
    refine ⟨Nat.digitsAppend alphabetSize block.length num, ?_, ?_, ?_, result⟩
    · nth_rewrite 1 [← written]
      rw [letters, List.reverse_reverse]
    · exact fun digit member => Nat.lt_of_mem_digitsAppend base _ _ member
    · exact (inverse.2 small).symm

/-- The last check of `decode_block`: the number fits the bytes. -/
theorem fits_iff {size num : Nat} (bounded : size ≤ fullBlockSize)
    (small : num < 2 ^ 64) :
    ¬(size < fullBlockSize ∧ 1 <<< (8 * size) ≤ num) ↔ num < 256 ^ size := by
  have power : 1 <<< (8 * size) = 256 ^ size := by
    rw [Nat.one_shiftLeft, Nat.pow_mul]
  rw [power]
  by_cases full : size = fullBlockSize
  · have : 256 ^ fullBlockSize = 2 ^ 64 := by decide
    subst full
    omega
  · omega

private theorem decodeBlock_of_read {block : Bytes} {resSize resNum : Nat}
    (sizeRead : decodedBlockSize block.length = some resSize)
    (nonzero : resSize ≠ 0)
    (numRead : decodeBlockLoop block.reverse 0 1 = some resNum) :
    decodeBlock block =
      if resSize < fullBlockSize ∧ 1 <<< (8 * resSize) ≤ resNum then none
      else some (uint64To8be resNum resSize) := by
  obtain ⟨size, rfl⟩ := Nat.exists_eq_succ_of_ne_zero nonzero
  simp only [decodeBlock, sizeRead, numRead]

/-- A block is decoded to the bytes it is the encoding of, and to no others. -/
theorem decodeBlock_eq_some {block plain : Bytes} :
    decodeBlock block = some plain ↔
      (plain ≠ [] ∧ plain.length ≤ fullBlockSize) ∧
        encodeBlock plain = block := by
  constructor
  · intro decoded
    unfold decodeBlock at decoded
    split at decoded
    · cases decoded
    · cases decoded
    rename_i size nonzero sizeRead
    split at decoded
    · cases decoded
    rename_i num numRead
    split at decoded
    · cases decoded
    rename_i noOverflow
    cases decoded
    obtain ⟨bounded, length⟩ := decodedBlockSize_eq_some.mp sizeRead
    obtain ⟨small, -, written⟩ :=
      (decodeBlockLoop_reverse (length ▸ encodedBlockSize_le _ bounded)).mp numRead
    have fits := (fits_iff bounded small).mp noOverflow
    have plainLength := length_uint64To8be num size
    have plainBounded : (uint64To8be num size).length ≤ fullBlockSize := by
      rwa [plainLength]
    refine ⟨⟨?_, plainBounded⟩, ?_⟩
    · apply List.ne_nil_of_length_pos
      rw [plainLength]
      exact Nat.pos_of_ne_zero nonzero
    · rw [encodeBlock_eq plainBounded, plainLength,
        uint8beTo64_uint64To8be fits, length, written]
  · rintro ⟨⟨nonempty, bounded⟩, rfl⟩
    have fits := uint8beTo64_lt plain
    have lettersFit := Nat.lt_of_lt_of_le fits (pow_256_le _ bounded)
    have small : uint8beTo64 plain < 2 ^ 64 :=
      Nat.lt_of_lt_of_le fits (Nat.pow_le_pow_right (by decide) bounded)
    have length := length_encodeBlock bounded
    have sizeRead : decodedBlockSize (encodeBlock plain).length =
        some plain.length :=
      decodedBlockSize_eq_some.mpr ⟨bounded, length.symm⟩
    have numRead : decodeBlockLoop (encodeBlock plain).reverse 0 1 =
        some (uint8beTo64 plain) := by
      rw [decodeBlockLoop_reverse (length ▸ encodedBlockSize_le _ bounded), length]
      exact ⟨small, lettersFit, (encodeBlock_eq bounded).symm⟩
    have nonzero : plain.length ≠ 0 := by
      rwa [Ne, List.length_eq_zero_iff]
    rw [decodeBlock_of_read sizeRead nonzero numRead,
      if_neg ((fits_iff bounded small).mpr fits), uint64To8be_uint8beTo64]

private theorem encodedBlockSize_lt : ∀ size < fullBlockSize,
    encodedBlockSize size < fullEncodedBlockSize := by
  decide

theorem encodedBlockSize_pos : ∀ size ≤ fullBlockSize, 0 < size →
    0 < encodedBlockSize size := by
  decide

/-- The two block functions, and that they determine each other. -/
def blockCode : BlockCode Byte Byte where
  plainSize := fullBlockSize
  codeSize := fullEncodedBlockSize
  plain_pos := by decide
  encodeBlock := encodeBlock
  decodeBlock := decodeBlock
  decodeBlock_eq_some := decodeBlock_eq_some
  encodeBlock_ne_nil := by
    intro plain nonempty bounded
    apply List.ne_nil_of_length_pos
    rw [length_encodeBlock bounded]
    exact encodedBlockSize_pos _ bounded (List.length_pos_of_ne_nil nonempty)
  length_full := by
    intro plain full
    rw [length_encodeBlock (Nat.le_of_eq full), full, fullEncodedBlockSize]
  length_partial := by
    intro plain short
    rw [length_encodeBlock (Nat.le_of_lt short)]
    exact encodedBlockSize_lt _ short

def encode (data : Bytes) : Bytes :=
  if data.isEmpty then []
  else blockCode.encodeBlocks (data.length / fullBlockSize) data

def decode (enc : Bytes) : Option Bytes :=
  if enc.isEmpty then some []
  else
    match decodedBlockSize (enc.length % fullEncodedBlockSize) with
    | none => none
    | some _ => blockCode.decodeBlocks (enc.length / fullEncodedBlockSize) enc

private theorem encode_eq (data : Bytes) :
    encode data = blockCode.encodeBlocks (data.length / fullBlockSize) data := by
  rw [encode]
  split
  · rename_i empty
    rw [List.isEmpty_iff] at empty
    subst empty
    rfl
  · rfl

/-- The length check only refuses what the blocks would not decode. -/
theorem decode_eq (enc : Bytes) :
    decode enc =
      blockCode.decodeBlocks (enc.length / fullEncodedBlockSize) enc := by
  rw [decode]
  split
  · rename_i empty
    rw [List.isEmpty_iff] at empty
    subst empty
    rfl
  split
  · rename_i invalid
    symm
    rw [Option.eq_none_iff_forall_ne_some]
    intro data decoded
    have positive : 0 < fullEncodedBlockSize := by decide
    have lastLength : ((enc.drop (enc.length / fullEncodedBlockSize *
        fullEncodedBlockSize)).take fullEncodedBlockSize).length =
          enc.length % fullEncodedBlockSize := by
      have := Nat.div_add_mod' enc.length fullEncodedBlockSize
      have := Nat.mod_lt enc.length positive
      rw [List.length_take, List.length_drop]
      omega
    rw [← lastLength] at invalid
    rcases BlockCode.block_of_decodeBlocks
      (BlockCode.hasBlocks_div positive enc) decoded
      (enc.length / fullEncodedBlockSize) with empty | ⟨plain, last⟩
    · rw [show blockCode.codeSize = fullEncodedBlockSize from rfl] at empty
      rw [empty] at invalid
      revert invalid
      decide
    · obtain ⟨⟨-, bounded⟩, encoded⟩ := decodeBlock_eq_some.mp last
      rw [show blockCode.codeSize = fullEncodedBlockSize from rfl] at encoded
      rw [← encoded, length_encodeBlock bounded] at invalid
      rw [decodedBlockSize_eq_some.mpr ⟨bounded, rfl⟩] at invalid
      cases invalid
  · rfl

/-- `decode` accepts a text exactly when it is the encoding of the result. -/
theorem decode_eq_some_iff {enc data : Bytes} :
    decode enc = some data ↔ encode data = enc := by
  rw [decode_eq, encode_eq]
  exact BlockCode.decodeBlocks_eq_some_iff

def addrChecksumSize : Nat := 4

section

variable (cnFastHash : Bytes → Blob 32)

/-- The first bytes of the hash. -/
def checksum (buf : Bytes) : Bytes :=
  (cnFastHash buf).bytes.take addrChecksumSize

def encodeAddr (tag : BitVec 64) (data : Bytes) : Bytes :=
  let buf := writeVarint tag ++ data
  encode (buf ++ checksum cnFastHash buf)

def decodeAddr (addr : Bytes) : Option (BitVec 64 × Bytes) :=
  match decode addr with
  | none => none
  | some addrData =>
    if addrData.length ≤ addrChecksumSize then none
    else
      let found := addrData.drop (addrData.length - addrChecksumSize)
      let addrData := addrData.take (addrData.length - addrChecksumSize)
      if checksum cnFastHash addrData ≠ found then none
      else
        let (read, tag) := readVarint 64 addrData
        if read ≤ 0 then none
        else some (tag, addrData.drop read.toNat)

end

variable {cnFastHash : Bytes → Blob 32} {addr data : Bytes} {tag : BitVec 64}

@[simp]
theorem length_checksum (buf : Bytes) :
    (checksum cnFastHash buf).length = addrChecksumSize := by
  rw [checksum, List.length_take, Blob.length_bytes]
  rfl

theorem decodeAddr_eq_some :
    decodeAddr cnFastHash addr = some (tag, data) ↔
      ∃ buf read, decode addr = some (buf ++ checksum cnFastHash buf) ∧
        readVarint 64 buf = (read, tag) ∧ 0 < read ∧
        data = buf.drop read.toNat := by
  constructor
  · intro decoded
    unfold decodeAddr at decoded
    split at decoded
    · cases decoded
    rename_i addrData text
    split at decoded
    · cases decoded
    dsimp only at decoded
    split at decoded
    · cases decoded
    rename_i checked
    rcases varint : readVarint 64
      (addrData.take (addrData.length - addrChecksumSize)) with ⟨read, value⟩
    rw [varint] at decoded
    dsimp only at decoded
    split at decoded
    · cases decoded
    rename_i started
    cases decoded
    refine ⟨_, read, ?_, varint, by omega, rfl⟩
    rw [text, not_not.mp checked, List.take_append_drop]
  · rintro ⟨buf, read, text, varint, started, rfl⟩
    have nonempty : buf ≠ [] := by
      rintro rfl
      cases varint
      exact absurd started (by decide)
    have positive := List.length_pos_of_ne_nil nonempty
    have length : (buf ++ checksum cnFastHash buf).length - addrChecksumSize =
        buf.length := by
      rw [List.length_append, length_checksum, Nat.add_sub_cancel]
    unfold decodeAddr
    simp only [text, length, List.drop_left, List.take_left, varint]
    rw [if_neg (by rw [List.length_append, length_checksum]; omega),
      if_neg (not_not.mpr rfl), if_neg (by omega)]

/-- An accepted text with data is the encoding of its tag and data.  Without
data this fails: a varint that the text cuts off is accepted as a tag. -/
theorem encodeAddr_of_decodeAddr (nonempty : data ≠ [])
    (decoded : decodeAddr cnFastHash addr = some (tag, data)) :
    encodeAddr cnFastHash tag data = addr := by
  obtain ⟨buf, read, text, varint, started, rfl⟩ :=
    decodeAddr_eq_some.mp decoded
  have written := readVarint_rest (by decide) varint started nonempty
  rw [encodeAddr, ← written]
  exact decode_eq_some_iff.mp text

theorem decodeAddr_encodeAddr (tag : BitVec 64) (data : Bytes) :
    decodeAddr cnFastHash (encodeAddr cnFastHash tag data) =
      some (tag, data) := by
  have text : decode (encodeAddr cnFastHash tag data) =
      some (writeVarint tag ++ data ++
        checksum cnFastHash (writeVarint tag ++ data)) :=
    decode_eq_some_iff.mpr rfl
  have started := List.length_pos_of_ne_nil (writeVarint_ne_nil tag)
  refine decodeAddr_eq_some.mpr ⟨_, _, text,
    readVarint_writeVarint (by decide) tag data, by omega, ?_⟩
  rw [Int.toNat_natCast, List.drop_left]

/-- A text is decoded to a tag with data exactly when it is their encoding. -/
theorem decodeAddr_eq_some_iff (nonempty : data ≠ []) :
    decodeAddr cnFastHash addr = some (tag, data) ↔
      addr = encodeAddr cnFastHash tag data := by
  constructor
  · intro decoded
    exact (encodeAddr_of_decodeAddr nonempty decoded).symm
  · rintro rfl
    exact decodeAddr_encodeAddr tag data

end BlockTemplate.Base58
