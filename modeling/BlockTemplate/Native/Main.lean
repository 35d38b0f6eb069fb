import BlockTemplate.Cryptonote.FormatUtils

/-!
# The native exports

`convert_blob`, `get_block_id` and `construct_block_blob` of `main.cc`, from
the checked buffer arguments on.  An error is the message that is thrown.
-/

namespace BlockTemplate

/-- `MAX_BLOCK_ID_TX_HASHES`. -/
def maxBlockIdTxHashes : Nat := 65535

/-- An entry of the cycle argument: no entry, one whose conversion to a number
throws, or a number, of which only integers are told apart. -/
inductive CycleEntry where
  | missing
  | throws (message : String)
  | integer (value : Int)
  | noInteger

/-- An argument of `construct_block_blob` after the blob type. -/
inductive CycleArgument where
  | noArray
  | array (entries : List CycleEntry)

def CycleEntry.toUint32 : CycleEntry → Except String (BitVec 32)
  | .missing => .error "Cycle argument contains missing entries."
  | .throws message => .error message
  | .integer value =>
    if value < 0 ∨ value > 0xffffffff then
      .error "Cycle entries should be unsigned 32-bit integers."
    else .ok (BitVec.ofInt 32 value)
  | .noInteger => .error "Cycle entries should be unsigned 32-bit integers."

/-- The loop of `ReadUint32Array`; the output array is kept as its bytes. -/
def readEntries : (expected : Nat) → List CycleEntry →
    Except String (Blob (4 * expected))
  | 0, _ => .ok ⟨[], rfl⟩
  | expected + 1, entries => do
    let word ← (entries.headD .missing).toUint32
    let later ← readEntries expected entries.tail
    return ⟨leBytes 4 word.toNat ++ later.bytes, by
      rw [List.length_append, length_leBytes, later.length_bytes]
      omega⟩

def readUint32Array (expected : Nat) :
    CycleArgument → Except String (Blob (4 * expected))
  | .noArray => .error "Cycle argument should be an array."
  | .array entries =>
    if entries.length < expected then
      .error "Cycle argument has invalid length."
    else readEntries expected entries

section

variable (cnFastHash : Bytes → Hash) (helpers : Rct.Helpers)

/-- The blob type of a call, checked. -/
def supportedBlobType (blobType : Int) : Except String BlobType :=
  (BlobType.ofInt blobType).elim (.error "Unsupported blob type.") .ok

def convertBlob (blobType : Int) (input : Bytes) : Except String Bytes := do
  let blobType ← supportedBlobType blobType
  match parseAndValidateBlockFromBlob helpers blobType input with
  | none => .error "Failed to parse block 2"
  | some block =>
    match getBlockHashingBlob cnFastHash helpers blobType block with
    | none => .error "convert_blob: Failed to create mining block"
    | some output => .ok output

def getBlockId (blobType : Int) (input : Bytes) : Except String Hash := do
  let blobType ← supportedBlobType blobType
  match parseAndValidateBlockFromBlob helpers blobType input with
  | none => .error "Failed to parse block"
  | some block =>
    if block.txHashes.length > maxBlockIdTxHashes then
      .error "Block has too many transaction hashes"
    else
      match getBlockHash cnFastHash helpers blobType block with
      | none => .error "Failed to calculate hash for block"
      | some blockId => .ok blockId

/-- What `construct_block_blob` does for the Cuckoo type only. -/
def setCycle (block : Block) :
    List CycleArgument → Except String Block
  | [argument] => do
    let cycle ← readUint32Array 32 argument
    return { block with cycle }
  | _ => .error "You must provide 4 arguments."

/-- `construct_block_blob`; `arguments` are the ones after the blob type. -/
def constructBlockBlob (blobType : Int) (blockTemplate nonceBuf : Bytes)
    (arguments : List CycleArgument) : Except String Bytes := do
  let blobType ← supportedBlobType blobType
  if nonceBuf.length ≠ 4 then
    throw "Nonce buffer has invalid size."
  let nonce := BitVec.ofNat 32 (leValue nonceBuf)
  match parseAndValidateBlockFromBlob helpers blobType blockTemplate with
  | none => .error "Failed to parse block"
  | some block =>
    let block := { block with nonce := nonce.setWidth 64 }
    let block ←
      if blobType = .cryptonoteCuckoo then setCycle block arguments
      else pure block
    match blockToBlob helpers blobType block with
    | none => .error "Failed to convert block to blob"
    | some output => .ok output

end

variable {cnFastHash : Bytes → Hash} {helpers : Rct.Helpers}
  {number : Int} {blobType : BlobType} {input : Bytes} {block : Block}

theorem supportedBlobType_eq
    (supported : BlobType.ofInt number = some blobType) :
    supportedBlobType number = .ok blobType := by
  rw [supportedBlobType, supported]
  rfl

theorem convertBlob_of_parsed
    (supported : BlobType.ofInt number = some blobType)
    (parsed : parseAndValidateBlockFromBlob helpers blobType input =
      some block) :
    convertBlob cnFastHash helpers number input =
      (getBlockHashingBlob cnFastHash helpers blobType block).elim
        (.error "convert_blob: Failed to create mining block") .ok := by
  rw [convertBlob, supportedBlobType_eq supported]
  simp only [bind, Except.bind, parsed]
  cases getBlockHashingBlob cnFastHash helpers blobType block <;> rfl

/-- The hashing blob of an accepted blob. -/
theorem convertBlob_eq_ok {hashing : Bytes}
    (supported : BlobType.ofInt number = some blobType)
    (parsed : parseAndValidateBlockFromBlob helpers blobType input =
      some block) :
    convertBlob cnFastHash helpers number input = .ok hashing ↔
      block.txHashes.length ≤ maxBlockTxHashes ∧
        hashing = hashingHeader blobType block.toBlockHeader ++
          ((getTxTreeHash cnFastHash helpers blobType block).bytes ++
            hashingTail blobType block) := by
  rw [convertBlob_of_parsed supported parsed, getBlockHashingBlob,
    ← List.append_assoc]
  split_ifs with many
  · exact ⟨nofun, fun result => absurd result.1 (Nat.not_le_of_gt many)⟩
  · rw [Option.elim_some, Except.ok.injEq]
    exact ⟨fun same => ⟨Nat.le_of_not_gt many, same.symm⟩,
      fun result => result.2.symm⟩

/-- Only the number of transactions makes a conversion fail. -/
theorem convertBlob_isOk
    (supported : BlobType.ofInt number = some blobType)
    (parsed : parseAndValidateBlockFromBlob helpers blobType input =
      some block) :
    (convertBlob cnFastHash helpers number input).isOk =
      decide (block.txHashes.length ≤ maxBlockTxHashes) := by
  rw [convertBlob_of_parsed supported parsed, getBlockHashingBlob]
  split_ifs with many
  · exact (decide_eq_false (Nat.not_le_of_gt many)).symm
  · exact (decide_eq_true (Nat.le_of_not_gt many)).symm

theorem getBlockId_of_parsed
    (supported : BlobType.ofInt number = some blobType)
    (parsed : parseAndValidateBlockFromBlob helpers blobType input =
      some block) :
    getBlockId cnFastHash helpers number input =
      if block.txHashes.length > maxBlockIdTxHashes then
        .error "Block has too many transaction hashes"
      else
        (getBlockHash cnFastHash helpers blobType block).elim
          (.error "Failed to calculate hash for block") .ok := by
  rw [getBlockId, supportedBlobType_eq supported]
  simp only [bind, Except.bind, parsed]
  cases getBlockHash cnFastHash helpers blobType block <;> rfl

/-- The 32 words of a cycle. -/
def Cycle.ofWords (words : Vector (BitVec 32) 32) : Cycle :=
  ⟨words.toList.flatMap fun word => leBytes 4 word.toNat, by
    simp [List.length_flatMap, length_leBytes]⟩

/-- The argument that a cycle is given as. -/
def CycleArgument.ofWords (words : Vector (BitVec 32) 32) : CycleArgument :=
  .array (words.toList.map fun word => .integer word.toNat)

private theorem CycleEntry.toUint32_word (word : BitVec 32) :
    (CycleEntry.integer word.toNat).toUint32 = .ok word := by
  have bound := word.isLt
  rw [toUint32, if_neg (by omega), BitVec.ofInt_natCast, BitVec.ofNat_toNat,
    BitVec.setWidth_eq]

private theorem readEntries_words (words : List (BitVec 32)) :
    ∃ cycle, readEntries words.length
        (words.map fun word => .integer word.toNat) = .ok cycle ∧
      cycle.bytes = words.flatMap fun word => leBytes 4 word.toNat := by
  induction words with
  | nil => exact ⟨_, rfl, rfl⟩
  | cons word words ih =>
      obtain ⟨later, result, laterBytes⟩ := ih
      refine ⟨⟨leBytes 4 word.toNat ++ later.bytes, ?_⟩, ?_, ?_⟩
      · rw [List.length_append, length_leBytes, later.length_bytes,
          List.length_cons]
        omega
      · simp only [readEntries, List.map_cons, List.headD_cons,
          List.tail_cons, List.length_cons, CycleEntry.toUint32_word, result]
        rfl
      · rw [List.flatMap_cons, ← laterBytes]

private theorem readUint32Array_ofWords (words : Vector (BitVec 32) 32) :
    readUint32Array 32 (.ofWords words) = .ok (Cycle.ofWords words) := by
  have size : words.toList.length = 32 := words.length_toList
  have read := readEntries_words words.toList
  rw [size] at read
  obtain ⟨cycle, result, cycleBytes⟩ := read
  simp only [CycleArgument.ofWords, readUint32Array, List.length_map, size,
    lt_irrefl, if_false, result]
  exact congrArg Except.ok (Blob.ext cycleBytes)

/-- What is saved is the parsed block with the share in it. -/
theorem constructBlockBlob_of_parsed
    {nonceBuf : Bytes} {words : Vector (BitVec 32) 32}
    {arguments : List CycleArgument}
    (supported : BlobType.ofInt number = some blobType)
    (parsed : parseAndValidateBlockFromBlob helpers blobType input =
      some block)
    (nonceSize : nonceBuf.length = 4)
    (cycleGiven : blobType = .cryptonoteCuckoo →
      arguments = [.ofWords words]) :
    constructBlockBlob helpers number input nonceBuf arguments =
      (blockToBlob helpers blobType
        (block.withShare blobType (BitVec.ofNat 32 (leValue nonceBuf))
          (.ofWords words))).elim
        (.error "Failed to convert block to blob") .ok := by
  rw [constructBlockBlob, supportedBlobType_eq supported]
  simp only [bind, Except.bind, nonceSize, ne_eq, not_true_eq_false, if_false,
    pure, Except.pure, parsed]
  by_cases cuckoo : blobType = .cryptonoteCuckoo
  · have shared : block.withShare blobType (BitVec.ofNat 32 (leValue nonceBuf))
        (.ofWords words) =
          { block with
            nonce := (BitVec.ofNat 32 (leValue nonceBuf)).setWidth 64
            cycle := .ofWords words } := by
      simp only [Block.withShare, BlockHeader.withShare, if_pos cuckoo]
    simp only [if_pos cuckoo, cycleGiven cuckoo, setCycle, bind, Except.bind,
      readUint32Array_ofWords, pure, Except.pure]
    rw [shared]
    cases blockToBlob helpers blobType _ <;> rfl
  · have shared : block.withShare blobType (BitVec.ofNat 32 (leValue nonceBuf))
        (.ofWords words) =
          { block with
            nonce := (BitVec.ofNat 32 (leValue nonceBuf)).setWidth 64 } := by
      simp only [Block.withShare, BlockHeader.withShare, if_neg cuckoo]
    simp only [if_neg cuckoo]
    rw [shared]
    cases blockToBlob helpers blobType _ <;> rfl

end BlockTemplate
