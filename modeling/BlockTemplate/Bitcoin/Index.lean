import BlockTemplate.Bitcoin.BitcoinUtils
import BlockTemplate.Bitcoin.Rtm

/-!
# Block blobs of `index.js`

The walk over the transactions of a block blob, and the functions that put the
Merkle root and a nonce into it.  They work on one buffer: the header that a
convert function fills in is a view of the first bytes of the blob.  A
function that throws leaves behind what it has written before.
-/

namespace BlockTemplate

/-- Code that changes a state and may throw. -/
abbrev Stateful (State : Type) := ExceptT String (StateM State)

namespace Stateful

variable {State Val Next : Type}

def runOn (action : Stateful State Val) (state : State) :
    Except String Val × State :=
  action.run.run state

/-- A step that throws keeps what was written before it. -/
theorem runOn_bind
    {action : Stateful State Val} {next : Val → Stateful State Next}
    {state : State} :
    (action >>= next).runOn state =
      match action.runOn state with
      | (.ok value, after) => (next value).runOn after
      | (.error message, after) => (.error message, after) := by
  unfold runOn
  rw [ExceptT.run_bind, StateT.run_bind]
  rcases StateT.run action.run state with ⟨message | value, after⟩ <;> rfl

theorem runOn_bind_ok
    {action : Stateful State Val} {next : Val → Stateful State Next}
    {state after : State} {value : Val}
    (result : action.runOn state = (.ok value, after)) :
    (action >>= next).runOn state = (next value).runOn after := by
  rw [runOn_bind, result]

theorem runOn_bind_error
    {action : Stateful State Val} {next : Val → Stateful State Next}
    {state after : State} {message : String}
    (result : action.runOn state = (.error message, after)) :
    (action >>= next).runOn state = (.error message, after) := by
  rw [runOn_bind, result]

theorem runOn_bind_eq_ok
    {action : Stateful State Val} {next : Val → Stateful State Next}
    {state after : State} {value : Next}
    (result : (action >>= next).runOn state = (.ok value, after)) :
    ∃ first middle, action.runOn state = (.ok first, middle) ∧
      (next first).runOn middle = (.ok value, after) := by
  rcases run : action.runOn state with ⟨message | first, middle⟩
  · rw [runOn_bind_error run] at result
    cases result
  · rw [runOn_bind_ok run] at result
    exact ⟨first, middle, rfl, result⟩

theorem runOn_ofExcept_eq_ok
    {outcome : Except String Val} {state after : State} {value : Val}
    (result : (MonadExcept.ofExcept outcome : Stateful State Val).runOn
      state = (.ok value, after)) : outcome = .ok value ∧ after = state := by
  cases outcome with
  | error message => cases result
  | ok found =>
      cases result
      exact ⟨rfl, rfl⟩

end Stateful

/-- A run on a buffer. -/
abbrev BufferM := Stateful Bytes

namespace Index

variable (packages : Packages)

def maxTemplateTransactions : Nat := 5000

/-- Where the transactions of a blob begin, whether they are read with the
payloads of `rtm.js`, and the hash of its transactions and Merkle nodes. -/
structure Layout where
  bodyOffset : Nat
  payload : Bool
  hash : Bytes → Hash

def ravenLayout : Layout :=
  { bodyOffset := 80 + 8 + 32, payload := false, hash := packages.hash256 }

def rtmLayout : Layout :=
  { bodyOffset := 80, payload := true, hash := packages.hash256 }

def kcnLayout : Layout :=
  { bodyOffset := 80, payload := false, hash := packages.hash256_3 }

/-- `transaction_hash` and `transaction_hash3`. -/
def transactionHash (hash : Bytes → Hash) (transaction : ParsedTransaction)
    (forWitness : Bool) : Hash :=
  if forWitness && transaction.isCoinbase then Blob.zero 32
  else hash (transaction.toBuffer forWitness)

theorem transactionHash_stripped (hash : Bytes → Hash)
    (transaction : ParsedTransaction) :
    transactionHash hash transaction false =
      hash transaction.rawNoWitness := by
  rw [transactionHash, Bool.false_and, if_neg Bool.false_ne_true,
    ParsedTransaction.toBuffer, Bool.false_and, if_neg Bool.false_ne_true]

def getMerkleRoot (hash : Bytes → Hash)
    (transactions : List ParsedTransaction) : Hash :=
  if transactions.isEmpty then Blob.zero 32
  else
    packages.fastMerkleRoot
      (transactions.map fun transaction => transactionHash hash transaction false)
      hash

def readBlockTransaction (payload : Bool) (rest : Bytes) :
    Except String (ParsedTransaction × Bytes) :=
  if payload then
    match (Rtm.readTransaction true).run rest with
    | .error _ => .error "Unable to parse transaction from block template"
    | .ok (tx, after) =>
      if rest.length ≤ after.length then
        .error "Invalid transaction size in block template"
      else .ok (tx, after)
  else (BitcoinUtils.readRawBitcoinTransaction packages).run rest

/-- The loop over the transactions.  With payloads, bytes in front of the next
transaction that the reader does not know belong to the one before. -/
def readBlockTransactions (payload : Bool) :
    Nat → Bytes → Except String (List ParsedTransaction × Bytes)
  | 0, rest => .ok ([], rest)
  | remaining + 1, rest => do
    throwIf rest.isEmpty "Invalid transaction offset in block template"
    let (tx, after) ← readBlockTransaction packages payload rest
    let skipped :=
      if payload && 0 < remaining then
        Rtm.findRecoverableTransactionOffset true after
      else 0
    let (others, last) ←
      readBlockTransactions payload remaining (after.drop skipped)
    pure (Rtm.extendTransactionRaw tx (after.take skipped) :: others, last)

/-- The count of a block and its transactions, up to the end of the blob. -/
def blockTransactions (payload : Bool) (body : Bytes) :
    Except String (List ParsedTransaction) := do
  let (nTransactions, size) ← packages.varuint_decode body
  throwIf (nTransactions < 1 || maxTemplateTransactions < nTransactions)
    "Invalid transaction count in block template"
  let (transactions, last) ←
    readBlockTransactions packages payload nTransactions (body.drop size)
  throwIf (!last.isEmpty)
    "Unexpected data after block template transactions"
  pure transactions

variable {packages} in
theorem readBlockTransactions_succ
    {payload : Bool} {remaining : Nat} {rest last : Bytes}
    {transactions : List ParsedTransaction} :
    readBlockTransactions packages payload (remaining + 1) rest =
        .ok (transactions, last) ↔
      rest ≠ [] ∧ ∃ tx after skipped others,
        readBlockTransaction packages payload rest = .ok (tx, after) ∧
        skipped =
          (if payload && 0 < remaining then
            Rtm.findRecoverableTransactionOffset true after
          else 0) ∧
        readBlockTransactions packages payload remaining
          (after.drop skipped) = .ok (others, last) ∧
        transactions =
          Rtm.extendTransactionRaw tx (after.take skipped) :: others := by
  constructor
  · intro result
    obtain ⟨started, result⟩ := throwIf_bind_eq_ok.mp result
    obtain ⟨⟨tx, after⟩, read, result⟩ := except_bind_eq_ok.mp result
    obtain ⟨⟨others, last⟩, walked, result⟩ := except_bind_eq_ok.mp result
    cases result
    exact ⟨List.isEmpty_eq_false_iff.mp started, tx, after, _, others, read,
      rfl, walked, rfl⟩
  · rintro ⟨nonempty, tx, after, _, others, read, rfl, walked, rfl⟩
    apply throwIf_bind_eq_ok.mpr
    refine ⟨List.isEmpty_eq_false_iff.mpr nonempty, ?_⟩
    apply except_bind_eq_ok.mpr
    refine ⟨(tx, after), read, except_bind_eq_ok.mpr ?_⟩
    exact ⟨(others, last), walked, rfl⟩

variable {packages} in
theorem blockTransactions_eq_ok
    {payload : Bool} {body : Bytes} {transactions : List ParsedTransaction} :
    blockTransactions packages payload body = .ok transactions ↔
      ∃ count size, packages.varuint_decode body = .ok (count, size) ∧
        1 ≤ count ∧ count ≤ maxTemplateTransactions ∧
        readBlockTransactions packages payload count (body.drop size) =
          .ok (transactions, []) := by
  constructor
  · intro result
    obtain ⟨⟨count, size⟩, decoded, result⟩ := except_bind_eq_ok.mp result
    obtain ⟨counted, result⟩ := throwIf_bind_eq_ok.mp result
    obtain ⟨⟨walked, last⟩, walk, result⟩ := except_bind_eq_ok.mp result
    obtain ⟨ended, result⟩ := throwIf_bind_eq_ok.mp result
    simp only [Bool.or_eq_false_iff, decide_eq_false_iff_not,
      Nat.not_lt] at counted
    rw [Bool.not_eq_false', List.isEmpty_iff] at ended
    subst ended
    cases result
    exact ⟨count, size, decoded, counted.1, counted.2, walk⟩
  · rintro ⟨count, size, decoded, positive, bounded, walk⟩
    apply except_bind_eq_ok.mpr
    refine ⟨(count, size), decoded, throwIf_bind_eq_ok.mpr ⟨?_, ?_⟩⟩
    · simp only [Bool.or_eq_false_iff, decide_eq_false_iff_not, Nat.not_lt]
      exact ⟨positive, bounded⟩
    · apply except_bind_eq_ok.mpr
      refine ⟨(transactions, []), walk, throwIf_bind_eq_ok.mpr ⟨rfl, rfl⟩⟩

/-- The reader of a mode. -/
def itemReader (payload : Bool) : Reader ParsedTransaction :=
  if payload then Rtm.readTransaction true
  else BitcoinUtils.readRawBitcoinTransaction packages

/-- The dialect of a mode. -/
def itemDialect (payload : Bool) : Dialect :=
  if payload then Rtm.dialect true else BitcoinUtils.rawDialect packages

theorem itemReader_eq (payload : Bool) :
    itemReader packages payload =
      (itemDialect packages payload).readTransaction := by
  cases payload with
  | false => exact BitcoinUtils.readRawBitcoinTransaction_eq packages
  | true => exact Rtm.readTransaction_eq true

section InARow

variable {packages} (documented : packages.VaruintDocumented)

include documented

theorem itemDialect_lawful (payload : Bool) :
    (itemDialect packages payload).Lawful := by
  cases payload with
  | false => exact BitcoinUtils.rawDialect_lawful documented
  | true => exact Rtm.lawful true

theorem local_itemReader (payload : Bool) :
    Reader.Local (itemReader packages payload) := by
  have := itemDialect_lawful documented payload
  rw [itemReader_eq]
  exact (itemDialect packages payload).local_readTransaction

theorem ne_nil_of_reads
    {payload : Bool} {transaction : ParsedTransaction} {bytes : Bytes}
    (reads : (itemReader packages payload).Reads transaction bytes) :
    bytes ≠ [] := by
  have := itemDialect_lawful documented payload
  rw [itemReader_eq] at reads
  obtain ⟨version, after, rfl, size, -⟩ :=
    (itemDialect packages payload).version_of_reads reads
  intro nothing
  rw [(List.append_eq_nil_iff.mp nothing).1] at size
  cases size

theorem rawWithWitness_of_reads
    {payload : Bool} {transaction : ParsedTransaction} {bytes : Bytes}
    (reads : (itemReader packages payload).Reads transaction bytes) :
    transaction.rawWithWitness = bytes := by
  have := itemDialect_lawful documented payload
  rw [itemReader_eq] at reads
  exact (itemDialect packages payload).rawWithWitness_of_reads reads

theorem readBlockTransaction_of_reads
    {payload : Bool} {transaction : ParsedTransaction} {bytes : Bytes}
    (reads : (itemReader packages payload).Reads transaction bytes)
    (rest : Bytes) :
    readBlockTransaction packages payload (bytes ++ rest) =
      .ok (transaction, rest) := by
  have positive := List.length_pos_iff.mpr (ne_nil_of_reads documented reads)
  cases payload with
  | false => exact reads rest
  | true =>
      have result : (Rtm.readTransaction true).run (bytes ++ rest) =
        .ok (transaction, rest) := reads rest
      have shorter : ¬(bytes ++ rest).length ≤ rest.length := by
        rw [List.length_append]
        omega
      simp only [readBlockTransaction, if_true, result, if_neg shorter]

theorem varuint_decode_encode {count : Nat}
    (safe : count ≤ CompactSize.maxSafeInteger) (rest : Bytes) :
    packages.varuint_decode (CompactSize.encode count ++ rest) =
      .ok (count, (CompactSize.encode count).length) :=
  (documented.decode _ _).mpr (CompactSize.decode_encode safe rest)

/-- The number in front of a block is bounded. -/
theorem count_le_of_blockTransactions
    {payload : Bool} {transactions : List ParsedTransaction}
    {count : Nat} {rest : Bytes}
    (safe : count ≤ CompactSize.maxSafeInteger)
    (walked : blockTransactions packages payload
      (CompactSize.encode count ++ rest) = .ok transactions) :
    count ≤ maxTemplateTransactions := by
  obtain ⟨_, size, decoded, -, bounded, -⟩ :=
    blockTransactions_eq_ok.mp walked
  rw [varuint_decode_encode documented safe] at decoded
  cases decoded
  exact bounded

end InARow

/-- `update_merkle_root_hash`; `blob_out` is a view of the first `view` bytes
of the buffer. -/
def updateMerkleRootHash (layout : Layout) (view : Nat) : BufferM Unit := do
  let blobIn ← get
  let transactions ←
    MonadExcept.ofExcept
      (blockTransactions packages layout.payload
        (blobIn.drop layout.bodyOffset))
  let root := getMerkleRoot packages layout.hash transactions
  set (copy root.bytes (blobIn.take view) (4 + 32) 32 ++ blobIn.drop view)

def blockHashBuff (blobBuffer : Bytes) : Bytes :=
  reverseBuffer (packages.hash256 blobBuffer).bytes

/-- The header with its Merkle root. -/
def convertHeader (layout : Layout) : BufferM Bytes := do
  updateMerkleRootHash packages layout 80
  let blobBuffer ← get
  pure (blobBuffer.take 80)

/-- The whole blob with its Merkle root. -/
def constructWhole (layout : Layout) : BufferM Unit := do
  let blockTemplate ← get
  updateMerkleRootHash packages layout blockTemplate.length

def convertRavenBlob : BufferM Bytes := do
  let header ← convertHeader packages (ravenLayout packages)
  pure (blockHashBuff packages header)

def constructNewRavenBlob (nonceBuff mixhashBuff : Bytes) :
    BufferM Bytes := do
  constructWhole packages (ravenLayout packages)
  modify fun blockTemplate => copy nonceBuff blockTemplate 80 8
  modify fun blockTemplate => copy mixhashBuff blockTemplate 88 32
  get

def convertRtmBlob : BufferM Bytes :=
  convertHeader packages (rtmLayout packages)

def convertKcnBlob : BufferM Bytes :=
  convertHeader packages (kcnLayout packages)

def constructNewRtmBlob (nonceBuff : Bytes) : BufferM Bytes := do
  constructWhole packages (rtmLayout packages)
  modify fun blockTemplate => copy nonceBuff blockTemplate 76 4
  get

def constructNewKcnBlob (nonceBuff : Bytes) : BufferM Bytes := do
  constructWhole packages (kcnLayout packages)
  modify fun blockTemplate => copy nonceBuff blockTemplate 76 4
  get

end Index

end BlockTemplate
