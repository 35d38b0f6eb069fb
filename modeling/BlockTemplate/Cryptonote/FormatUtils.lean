import BlockTemplate.Cryptonote.Block
import BlockTemplate.Crypto.Keccak
import BlockTemplate.Crypto.TreeHash

/-!
# Hashes and blobs of blocks

`cryptonote_format_utils.cpp`: parsing a block, saving it, its transaction
hashes and the hashing blob a miner works on.  `cn_fast_hash` is a parameter.
The model has no output of a save that fails; the transactions and blocks it
is used on are loaded ones, whose saves succeed.
-/

namespace BlockTemplate

open Serializer

set_option synthInstance.maxSize 20000
set_option synthInstance.maxHeartbeats 100000

def nullHash : Hash := Blob.zero 32

def maxBlockTxHashes : Nat := 0x10000

/-- `t_serializable_object_to_blob`, with the result of the save ignored. -/
def tSerializableObjectToBlob {Obj : Type} (codec : Codec Obj)
    (object : Obj) : Bytes :=
  (codec.dump object).getD []

def getVarintData (value : Nat) : Bytes :=
  writeVarint (BitVec.ofNat 64 value)

section

variable (cnFastHash : Bytes → Hash) (helpers : Rct.Helpers)
  (blobType : BlobType)

def parseAndValidateBlockFromBlob (blob : Bytes) : Option Block :=
  (Block.doSerialize helpers blobType).parse blob

def blockToBlob (block : Block) : Option Bytes :=
  (Block.doSerialize helpers blobType).dump block

/-- The string in front of a hashed prefix. -/
def prefixDomain : Bytes :=
  if blobType = .cryptonoteRyo then
    [0x72, 0x79, 0x6f, 0x2d, 0x63, 0x75, 0x72, 0x72, 0x65, 0x6e, 0x63, 0x79]
  else []

def getTransactionPrefixHash (tx : TransactionPrefix) : Hash :=
  cnFastHash (prefixDomain blobType ++
    tSerializableObjectToBlob (TransactionPrefix.doSerialize blobType) tx)

namespace TransactionPrefixHead

variable (head : TransactionPrefixHead)

/-- `inputs` of `get_transaction_hash`. -/
def hashInputs : Nat :=
  if blobType = .cryptonoteSalvium then head.vinSalvium.length
  else if blobType = .cryptonoteZephyr then head.vinZephyr.length
  else head.vin.length

/-- `outputs` of `get_transaction_hash`. -/
def hashOutputs : Nat :=
  if blobType = .cryptonoteSalvium then head.voutSalvium.length
  else if blobType = .cryptonoteZephyr then head.voutZephyr.length
  else head.vout.length

/-- `mixin` of `get_transaction_hash`; no inputs count as a mixin of zero. -/
def hashMixin : BitVec 64 :=
  if blobType = .cryptonoteSalvium then
    if head.vinSalvium.isEmpty then 0
    else mixinOf TxinAssetKey.keyOffsets head.vinSalvium
  else if blobType = .cryptonoteZephyr then
    if head.vinZephyr.isEmpty then 0
    else mixinOf TxinAssetKey.keyOffsets head.vinZephyr
  else
    if head.vin.isEmpty then 0
    else mixinOf TxinToKey.keyOffsets head.vin

end TransactionPrefixHead

/-- The transactions whose blob is hashed as a whole. -/
def hashesWhole (tx : Transaction) : Bool :=
  tx.version = 1 ∧ blobType ≠ .cryptonote3

/-- What the multi-part branch serializes for the base section. -/
def rctsigBaseBlob (tx : Transaction) : Option Bytes :=
  (Rct.serializeRctsigBase (tx.hashInputs blobType)
    (tx.hashOutputs blobType)).dump tx.rctSignatures.toSigBase

/-- What the multi-part branch serializes for the prunable section. -/
def rctsigPrunableBlob (tx : Transaction) : Option Bytes :=
  (Rct.serializeRctsigPrunable helpers tx.rctSignatures.type
    (tx.hashInputs blobType) (tx.hashOutputs blobType)
    (tx.hashMixin blobType)).dump tx.rctSignatures.p

/-- `get_transaction_hash`; `none` is a failure, which leaves the caller's
hash as it was. -/
def getTransactionHash (tx : Transaction) : Option Hash :=
  if hashesWhole blobType tx then
    some (cnFastHash (tSerializableObjectToBlob
      (Transaction.doSerialize helpers blobType) tx))
  else do
    let prefixHash :=
      getTransactionPrefixHash cnFastHash blobType tx.toTransactionPrefix
    let baseHash ← (rctsigBaseBlob blobType tx).map cnFastHash
    let prunableHash ←
      if tx.rctSignatures.type = Rct.rctTypeNull then some nullHash
      else (rctsigPrunableBlob helpers blobType tx).map cnFastHash
    return cnFastHash
      (prefixHash.bytes ++ baseHash.bytes ++ prunableHash.bytes)

/-- The transactions a block hashes itself. -/
def Block.transactions (block : Block) : List Transaction :=
  if blobType = .cryptonoteSalvium then [block.minerTx, block.protocolTx]
  else [block.minerTx]

/-- `txs_ids` of `get_tx_tree_hash`. -/
def txsIds (block : Block) : List Hash :=
  (block.transactions blobType).map (fun tx =>
    (getTransactionHash cnFastHash helpers blobType tx).getD nullHash) ++
    block.txHashes

def getTxTreeHash (block : Block) : Hash :=
  (treeHash cnFastHash (txsIds cnFastHash helpers blobType block)).1

/-- What a hashing blob has in front of the root. -/
def hashingHeader (block : BlockHeader) : Bytes :=
  if blobType = .cryptonoteCuckoo then
    tSerializableObjectToBlob uint8 block.majorVersion ++
      [block.minorVersion] ++ leBytes 8 block.timestamp.toNat ++
      block.prevId.bytes
  else
    tSerializableObjectToBlob (BlockHeader.doSerialize blobType) block

/-- What a hashing blob has after the root. -/
def hashingTail (block : Block) : Bytes :=
  getVarintData (block.txHashes.length +
    (if blobType = .cryptonoteSalvium then
      if block.majorVersion.toNat ≥ hfVersionEnableNOuts then 2 else 1
    else 1)) ++
  (if blobType = .cryptonote3 then block.uncle.bytes else []) ++
  (if blobType = .cryptonoteCuckoo then leBytes 8 block.nonce8.toNat else [])

def getBlockHashingBlob (block : Block) : Option Bytes :=
  if block.txHashes.length > maxBlockTxHashes then none
  else
    some (hashingHeader blobType block.toBlockHeader ++
      (getTxTreeHash cnFastHash helpers blobType block).bytes ++
      hashingTail blobType block)

def getBlockHash (block : Block) : Option Hash :=
  (getBlockHashingBlob cnFastHash helpers blobType block).map fun blob =>
    cnFastHash (saveString blob)

end

variable {helpers : Rct.Helpers} {blobType : BlobType} {blob : Bytes}
  {block : Block}

theorem parse_block_iff :
    parseAndValidateBlockFromBlob helpers blobType blob = some block ↔
      (Block.doSerialize helpers blobType).Reads block blob :=
  parse_eq_some

/-- A block of one version 2 coinbase, which has an extra nonce of one byte,
and nothing else. -/
def coinbaseBlob : Bytes :=
  [1, 1, 0] ++ List.replicate 32 0 ++ [1, 2, 3, 4] ++
    [2, 0, 1, 0xff, 0, 0, 3, 2, 1, 0, 0] ++ [0]

/-- The helpers on empty lists of proofs; a coinbase has no others. -/
def emptyProofs : Rct.Helpers where
  nBulletproofMaxAmounts _ := 0
  nBulletproofPlusMaxAmounts _ := 0

theorem coinbaseBlob_accepted :
    ∃ block, parseAndValidateBlockFromBlob emptyProofs .cryptonote
        coinbaseBlob = some block ∧
      block.minerTx.version = 2 ∧ block.minerTx.extra = [2, 1, 0] ∧
      block.txHashes = [] := by
  have members : (parseAndValidateBlockFromBlob emptyProofs .cryptonote
      coinbaseBlob).map (fun block =>
        (block.minerTx.version, block.minerTx.extra, block.txHashes)) =
          some (2, [2, 1, 0], []) := by
    decide
  rw [Option.map_eq_some_iff] at members
  obtain ⟨block, parsed, triple⟩ := members
  rw [Prod.mk.injEq, Prod.mk.injEq] at triple
  exact ⟨block, parsed, triple⟩

/-- No accepted blob is the start of another one, and a load of a block
depends on the bytes it consumes only. -/
theorem block_format_prefix_free
    (helpers : Rct.Helpers) (blobType : BlobType) (blob : Bytes)
    (accepted : (parseAndValidateBlockFromBlob helpers blobType blob).isSome) :
    (∀ shorter, shorter <+: blob → shorter ≠ blob →
      parseAndValidateBlockFromBlob helpers blobType shorter = none) ∧
    (∀ extension, extension ≠ [] →
      parseAndValidateBlockFromBlob helpers blobType (blob ++ extension) =
        none) ∧
    (∀ input block next,
      (Block.doSerialize helpers blobType).load ⟨input, true⟩ =
        some (block, next) → next.good = true →
      ∃ consumed, input = consumed ++ next.rest ∧ ∀ rest,
        (Block.doSerialize helpers blobType).load ⟨consumed ++ rest, true⟩ =
          some (block, ⟨rest, true⟩)) := by
  refine ⟨fun shorter start different => ?_, fun extension longer => ?_,
    fun input block next result good => ?_⟩
  · obtain ⟨extension, rfl⟩ := start
    have longer : extension ≠ [] := by
      rintro rfl
      exact different (List.append_nil shorter).symm
    rw [← Option.not_isSome_iff_eq_none]
    intro acceptedShorter
    have refused : parseAndValidateBlockFromBlob helpers blobType
        (shorter ++ extension) = none :=
      parse_append_eq_none acceptedShorter longer
    rw [refused] at accepted
    cases accepted
  · exact parse_append_eq_none accepted longer
  · obtain ⟨-, consumed, split, reads⟩ :=
      (localBlock helpers blobType).consumed result good
    exact ⟨consumed, split, reads⟩

theorem block_format_prefix_free_coinbase :
    parseAndValidateBlockFromBlob emptyProofs .cryptonote
      (coinbaseBlob ++ [0]) = none :=
  (block_format_prefix_free emptyProofs .cryptonote coinbaseBlob
    (by decide)).2.1 [0] (List.cons_ne_nil 0 [])

end BlockTemplate
