import BlockTemplate.Bitcoin.NonceWriting

/-!
# The walk over a block

A block is walked when it is a row of items, each of them the bytes of one
transaction and a tail.  In payload mode a tail is what the search skips; in
plain mode, and behind the last transaction, there is none.
-/

namespace BlockTemplate.Index

/-- A transaction, the bytes that it is read from, and those behind it that
the walk adds to them. -/
structure Item where
  transaction : ParsedTransaction
  bytes : Bytes
  tail : Bytes

namespace Item

def whole (item : Item) : Bytes :=
  item.bytes ++ item.tail

/-- The transaction as the walk gives it. -/
def extended (item : Item) : ParsedTransaction :=
  Rtm.extendTransactionRaw item.transaction item.tail

end Item

def blockBytes (items : List Item) : Bytes :=
  (items.map Item.whole).flatten

@[simp]
theorem blockBytes_cons (item : Item) (items : List Item) :
    blockBytes (item :: items) = item.bytes ++ (item.tail ++ blockBytes items) := by
  rw [blockBytes, List.map_cons, List.flatten_cons, Item.whole,
    List.append_assoc]
  rfl

/-- A tail in front of these items. -/
def Ends (payload : Bool) (tail : Bytes) (items : List Item) : Prop :=
  if payload && 0 < items.length then
    Rtm.Recoverable true tail (blockBytes items)
  else tail = []

variable (packages : Packages)

def Laid (payload : Bool) : List Item → Prop
  | [] => True
  | item :: items =>
    (itemReader packages payload).Reads item.transaction item.bytes ∧
      Ends payload item.tail items ∧ Laid payload items

variable {packages}

/-- The bytes that the walk skips in front of the items. -/
theorem skipped_iff_ends
    {payload : Bool} {items : List Item} (laid : Laid packages payload items)
    (tail : Bytes) :
    (if payload && 0 < items.length then
        Rtm.findRecoverableTransactionOffset true (tail ++ blockBytes items)
      else 0) = tail.length ↔ Ends payload tail items := by
  unfold Ends
  split_ifs with searched
  · cases items with
    | nil =>
        rw [List.length_nil, decide_eq_false (Nat.lt_irrefl 0),
          Bool.and_false] at searched
        cases searched
    | cons next items =>
        rw [Bool.and_eq_true] at searched
        obtain ⟨rfl, -⟩ := searched
        rw [blockBytes_cons]
        exact Rtm.findRecoverableTransactionOffset_of_reads laid.1 tail _
  · exact ⟨fun zero => List.length_eq_zero_iff.mp zero.symm,
      fun nothing => by rw [nothing]; rfl⟩

private theorem skipped_le (payload : Bool) (remaining : Nat) (after : Bytes) :
    (if payload && 0 < remaining then
        Rtm.findRecoverableTransactionOffset true after
      else 0) ≤ after.length := by
  split_ifs
  · rcases Nat.eq_zero_or_pos
      (Rtm.findRecoverableTransactionOffset true after) with zero | positive
    · rw [zero]
      exact Nat.zero_le _
    · have inside :=
        ((Rtm.findRecoverableTransactionOffset_eq_iff positive).mp rfl).1
      omega
  · exact Nat.zero_le _

section Walked

variable (documented : packages.VaruintDocumented)

include documented

private theorem reads_of_readBlockTransaction
    {payload : Bool} {rest after : Bytes} {tx : ParsedTransaction}
    (read : readBlockTransaction packages payload rest = .ok (tx, after)) :
    ∃ bytes, rest = bytes ++ after ∧
      (itemReader packages payload).Reads tx bytes := by
  have localReader := local_itemReader documented payload
  apply localReader.consumed
  cases payload with
  | false => exact read
  | true =>
      simp only [readBlockTransaction, if_true] at read
      split at read
      · cases read
      · rename_i found left result
        split_ifs at read
        cases read
        exact result

/-- What is walked to the end is a row of items, and the other way round. -/
theorem readBlockTransactions_eq_ok
    {payload : Bool} {count : Nat} {rest : Bytes}
    {transactions : List ParsedTransaction} :
    readBlockTransactions packages payload count rest =
        .ok (transactions, []) ↔
      ∃ items, Laid packages payload items ∧ items.length = count ∧
        rest = blockBytes items ∧ transactions = items.map Item.extended := by
  induction count generalizing rest transactions with
  | zero =>
      constructor
      · intro walked
        cases walked
        exact ⟨[], trivial, rfl, rfl, rfl⟩
      · rintro ⟨items, -, noItem, rfl, rfl⟩
        obtain rfl := List.length_eq_zero_iff.mp noItem
        rfl
  | succ remaining ih =>
      rw [readBlockTransactions_succ]
      constructor
      · rintro ⟨-, tx, after, skipped, others, read, skips, walked, rfl⟩
        obtain ⟨bytes, rfl, reads⟩ :=
          reads_of_readBlockTransaction documented read
        obtain ⟨items, laid, rfl, same, rfl⟩ := ih.mp walked
        have inside := skipped_le payload items.length after
        rw [← skips] at inside
        have split : after.take skipped ++ blockBytes items = after := by
          rw [← same, List.take_append_drop]
        have ends : Ends payload (after.take skipped) items := by
          rw [← skipped_iff_ends laid, split, List.length_take_of_le inside]
          exact skips.symm
        refine ⟨⟨tx, bytes, after.take skipped⟩ :: items,
          ⟨reads, ends, laid⟩, rfl, ?_, rfl⟩
        rw [blockBytes_cons, split]
      · rintro ⟨items, laid, counted, rfl, rfl⟩
        cases items with
        | nil => cases counted
        | cons item items =>
            obtain ⟨reads, ends, laid⟩ := laid
            obtain rfl := Nat.succ.inj counted
            have skips := (skipped_iff_ends laid item.tail).mpr ends
            have started := ne_nil_of_reads documented reads
            rw [blockBytes_cons]
            refine ⟨List.append_ne_nil_of_left_ne_nil started _,
              item.transaction, item.tail ++ blockBytes items,
              item.tail.length, items.map Item.extended,
              readBlockTransaction_of_reads documented reads _, skips.symm,
              ?_, ?_⟩
            · rw [List.drop_left]
              exact ih.mpr ⟨items, laid, rfl, rfl, rfl⟩
            · rw [List.take_left]
              rfl

/-- The count of a block and its items, up to the end of the blob. -/
theorem blockTransactions_iff_items
    {payload : Bool} {body : Bytes} {transactions : List ParsedTransaction} :
    blockTransactions packages payload body = .ok transactions ↔
      ∃ items size, CompactSize.decode body = some (items.length, size) ∧
        1 ≤ items.length ∧ items.length ≤ maxTemplateTransactions ∧
        body.drop size = blockBytes items ∧ Laid packages payload items ∧
        transactions = items.map Item.extended := by
  rw [blockTransactions_eq_ok]
  constructor
  · rintro ⟨_, size, decoded, positive, bounded, walk⟩
    obtain ⟨items, laid, rfl, same, rfl⟩ :=
      (readBlockTransactions_eq_ok documented).mp walk
    exact ⟨items, size, (documented.decode _ _).mp decoded, positive, bounded,
      same, laid, rfl⟩
  · rintro ⟨items, size, decoded, positive, bounded, same, laid, rfl⟩
    refine ⟨items.length, size, (documented.decode _ _).mpr decoded, positive,
      bounded, ?_⟩
    exact (readBlockTransactions_eq_ok documented).mpr
      ⟨items, laid, rfl, same, rfl⟩

/-- A row of items behind their number. -/
theorem blockTransactions_of_items
    {payload : Bool} {items : List Item}
    (laid : Laid packages payload items) (positive : 1 ≤ items.length)
    (bounded : items.length ≤ maxTemplateTransactions) :
    blockTransactions packages payload
      (CompactSize.encode items.length ++ blockBytes items) =
        .ok (items.map Item.extended) := by
  have safe : items.length ≤ CompactSize.maxSafeInteger :=
    bounded.trans (by decide)
  rw [blockTransactions_iff_items documented]
  exact ⟨items, (CompactSize.encode items.length).length,
    CompactSize.decode_encode safe _, positive, bounded, List.drop_left, laid,
    rfl⟩

end Walked

def untailed (transactions : List ParsedTransaction) (parts : List Bytes) :
    List Item :=
  List.zipWith (fun transaction bytes => ⟨transaction, bytes, []⟩)
    transactions parts

theorem ends_nil (payload : Bool) (items : List Item) :
    Ends payload [] items := by
  unfold Ends
  split_ifs
  · exact ⟨Nat.zero_le _, nofun⟩
  · rfl

theorem laid_untailed
    {payload : Bool} {transactions : List ParsedTransaction}
    {parts : List Bytes}
    (reads : List.Forall₂ (itemReader packages payload).Reads transactions
      parts) :
    Laid packages payload (untailed transactions parts) := by
  induction reads with
  | nil => trivial
  | cons first _ ih => exact ⟨first, ends_nil _ _, ih⟩

theorem blockBytes_untailed
    {payload : Bool} {transactions : List ParsedTransaction}
    {parts : List Bytes}
    (reads : List.Forall₂ (itemReader packages payload).Reads transactions
      parts) :
    blockBytes (untailed transactions parts) = parts.flatten := by
  induction reads with
  | nil => rfl
  | cons first _ ih => exact (blockBytes_cons _ _).trans (congrArg _ ih)

theorem extended_untailed
    {payload : Bool} {transactions : List ParsedTransaction}
    {parts : List Bytes}
    (reads : List.Forall₂ (itemReader packages payload).Reads transactions
      parts) :
    (untailed transactions parts).map Item.extended = transactions := by
  induction reads with
  | nil => rfl
  | cons first _ ih => exact congrArg (List.cons _) ih

/-- A block of transactions in a row, behind their number. -/
theorem blockTransactions_of_reads
    (documented : packages.VaruintDocumented)
    {payload : Bool} {transactions : List ParsedTransaction}
    {parts : List Bytes}
    (reads : List.Forall₂ (itemReader packages payload).Reads transactions
      parts)
    (positive : 1 ≤ transactions.length)
    (bounded : transactions.length ≤ maxTemplateTransactions) :
    blockTransactions packages payload
      (CompactSize.encode transactions.length ++ parts.flatten) =
        .ok transactions := by
  have extended := extended_untailed reads
  have length : (untailed transactions parts).length = transactions.length := by
    rw [← extended, List.length_map, extended]
  rw [← length] at positive bounded
  have walked := blockTransactions_of_items documented (laid_untailed reads)
    positive bounded
  rwa [length, blockBytes_untailed reads, extended] at walked

/-- The bytes of transactions, each with the bytes behind it. -/
def pairBytes (pairs : List (Bytes × Bytes)) : Bytes :=
  (pairs.map fun pair => pair.1 ++ pair.2).flatten

def tailed (pairs : List (Bytes × Bytes))
    (transactions : List ParsedTransaction) : List Item :=
  List.zipWith (fun pair transaction => ⟨transaction, pair.1, pair.2⟩) pairs
    transactions

section Tailed

variable {pairs : List (Bytes × Bytes)}
  {transactions : List ParsedTransaction}
  (consumed : List.Forall₂
    (fun pair transaction =>
      (Rtm.readTransaction true).run pair.1 = .ok (transaction, []))
    pairs transactions)

include consumed

private theorem length_tailed :
    (tailed pairs transactions).length = pairs.length := by
  rw [tailed, List.length_zipWith, consumed.length_eq, Nat.min_self]

private theorem blockBytes_tailed :
    blockBytes (tailed pairs transactions) = pairBytes pairs := by
  induction consumed with
  | nil => rfl
  | @cons pair transaction pairs _ first _ ih =>
      have same : pairBytes (pair :: pairs) =
          pair.1 ++ pair.2 ++ pairBytes pairs := by
        rw [pairBytes, List.map_cons, List.flatten_cons]
        rfl
      rw [same, ← ih, List.append_assoc]
      exact blockBytes_cons _ _

omit consumed in
private theorem extended_tailed :
    (tailed pairs transactions).map Item.extended =
      List.zipWith (fun pair transaction =>
        Rtm.extendTransactionRaw transaction pair.2) pairs transactions := by
  rw [tailed, List.map_zipWith]
  rfl

private theorem raw_tailed :
    ((tailed pairs transactions).map Item.extended).map
        ParsedTransaction.rawWithWitness =
      pairs.map fun pair => pair.1 ++ pair.2 := by
  induction consumed with
  | nil => rfl
  | @cons pair transaction pairs transactions first _ ih =>
      have reads : (Rtm.readTransaction true).Reads transaction pair.1 :=
        Reader.Local.reads first
      have raw : (Rtm.extendTransactionRaw transaction
          pair.2).rawWithWitness = pair.1 ++ pair.2 := by
        rw [Rtm.rawWithWitness_extendTransactionRaw,
          Rtm.rawWithWitness_of_reads reads]
      rw [List.map_cons, ← ih]
      exact congrArg (· :: _) raw

/-- Each tail is skipped when no transaction can be read inside of it. -/
theorem laid_tailed
    (short : ∀ pair ∈ pairs,
      pair.2.length ≤ Rtm.maxRecoverableTransactionTailBytes)
    (last : ∀ pair ∈ pairs.getLast?, pair.2 = [])
    (unreadable : ∀ before pair after, pairs = before ++ pair :: after →
      ∀ skipped < pair.2.length, ∀ result,
        (Rtm.readTransaction true).run
          ((pair.2 ++ pairBytes after).drop skipped) ≠ .ok result) :
    Laid packages true (tailed pairs transactions) := by
  induction consumed with
  | nil => trivial
  | @cons pair transaction pairs transactions first others ih =>
      have reads : (Rtm.readTransaction true).Reads transaction pair.1 :=
        Reader.Local.reads first
      refine ⟨reads, ?_, ?_⟩
      · rw [Ends]
        split_ifs with searched
        · refine ⟨short pair List.mem_cons_self, ?_⟩
          intro skipped inside
          have bytes : blockBytes (tailed pairs transactions) =
              pairBytes pairs := blockBytes_tailed others
          rw [Rtm.canReadTransactionAt_eq_false_iff]
          exact bytes ▸ unreadable [] pair pairs rfl skipped inside
        · cases others with
          | nil => exact last pair rfl
          | cons => exact absurd rfl searched
      · apply ih
        · exact fun other member =>
            short other (List.mem_cons_of_mem _ member)
        · intro other isLast
          apply last
          rw [List.getLast?_cons, Option.mem_def.mp isLast]
          rfl
        · intro before other after same
          exact unreadable (pair :: before) other after (congrArg _ same)

end Tailed

/-- The leaves of a block with tails. -/
def tailedLeaves (packages : Packages) (pairs : List (Bytes × Bytes))
    (transactions : List ParsedTransaction) : List Hash :=
  List.zipWith (fun pair transaction =>
    packages.hash256 (transaction.rawNoWitness ++ pair.2)) pairs transactions

private theorem leaves_tailed
    (packages : Packages) (pairs : List (Bytes × Bytes))
    (transactions : List ParsedTransaction) :
    ((tailed pairs transactions).map Item.extended).map
        (fun transaction =>
          transactionHash packages.hash256 transaction false) =
      tailedLeaves packages pairs transactions := by
  rw [extended_tailed, List.map_zipWith, tailedLeaves]
  simp only [transactionHash_stripped, Rtm.rawNoWitness_extendTransactionRaw]

/-- A block of transactions with tails is split into these, and gets the
Merkle root of their bytes without witnesses. -/
theorem convertRtmBlob_of_tailed
    (documented : packages.VaruintDocumented)
    (fastRoot : packages.FastRootDocumented)
    {header : Bytes} {pairs : List (Bytes × Bytes)}
    {transactions : List ParsedTransaction} (size : header.length = 80)
    (positive : 1 ≤ pairs.length) (bounded : pairs.length ≤ 5000)
    (consumed : List.Forall₂
      (fun pair transaction =>
        (Rtm.readTransaction true).run pair.1 = .ok (transaction, []))
      pairs transactions)
    (short : ∀ pair ∈ pairs, pair.2.length ≤ 64)
    (last : ∀ pair ∈ pairs.getLast?, pair.2 = [])
    (unreadable : ∀ before pair after, pairs = before ++ pair :: after →
      ∀ skipped < pair.2.length, ∀ result,
        (Rtm.readTransaction true).run
          ((pair.2 ++ pairBytes after).drop skipped) ≠ .ok result) :
    ∃ root converted after walked,
      (convertRtmBlob packages).runOn
        (header ++ CompactSize.encode pairs.length ++ pairBytes pairs) =
          (.ok converted, after) ∧
      blockTransactions packages true
        ((header ++ CompactSize.encode pairs.length ++ pairBytes pairs).drop
          80) = .ok walked ∧
      walked.map ParsedTransaction.rawWithWitness =
        pairs.map (fun pair => pair.1 ++ pair.2) ∧
      Merkle.oddRoot (Packages.joined packages.hash256)
        (tailedLeaves packages pairs transactions) = some root ∧
      after = overwrite
        (header ++ CompactSize.encode pairs.length ++ pairBytes pairs) 36
          root.bytes ∧
      converted = after.take 80 := by
  let items := tailed pairs transactions
  have laid : Laid packages true items :=
    laid_tailed consumed short last unreadable
  have count : items.length = pairs.length := length_tailed consumed
  have bytes : blockBytes items = pairBytes pairs := blockBytes_tailed consumed
  have body : (header ++ CompactSize.encode pairs.length ++
      pairBytes pairs).drop 80 =
        CompactSize.encode items.length ++ blockBytes items := by
    rw [List.append_assoc, List.drop_left' size, count, bytes]
  have walked := blockTransactions_of_items documented laid
    (count ▸ positive) (count ▸ bounded)
  rw [← body] at walked
  have found : blockRoot packages (Family.rtm.layout packages)
      (header ++ CompactSize.encode pairs.length ++ pairBytes pairs) =
        .ok (getMerkleRoot packages packages.hash256
          (items.map Item.extended)) :=
    blockRoot_of_walked walked
  have nonempty : (items.map Item.extended).isEmpty = false := by
    rw [List.isEmpty_eq_false_iff, ← List.length_pos_iff, List.length_map,
      count]
    exact positive
  have leaves : tailedLeaves packages pairs transactions ≠ [] := by
    rw [← leaves_tailed, ← List.length_pos_iff, List.length_map,
      List.length_map, length_tailed consumed]
    exact positive
  refine ⟨_, _, _, _, Family.convert_ok found, walked,
    raw_tailed consumed, ?_, rfl, rfl⟩
  rw [getMerkleRoot, nonempty, if_neg Bool.false_ne_true, leaves_tailed]
  exact fastRoot _ _ leaves

/-- A version 3 transaction of type 6 without inputs and outputs. -/
def emptySpecialTransaction : Bytes :=
  [3, 0, 6, 0, 0, 0, 0, 0, 0, 0, 0]

theorem convertRtmBlob_of_tailed_special :
    ∃ converted after walked,
      (convertRtmBlob .documented).runOn
        (List.replicate 80 0 ++ [2] ++ emptySpecialTransaction ++
          List.replicate 8 0 ++ emptySpecialTransaction) =
            (.ok converted, after) ∧
      blockTransactions .documented true
        ([2] ++ emptySpecialTransaction ++ List.replicate 8 0 ++
          emptySpecialTransaction) = .ok walked ∧
      walked.map ParsedTransaction.rawWithWitness =
        [emptySpecialTransaction ++ List.replicate 8 0,
          emptySpecialTransaction] := by
  obtain ⟨⟨transaction, rest⟩, read⟩ :=
    exists_of_isOk (show ((Rtm.readTransaction true).run
      emptySpecialTransaction).isOk = true by decide +kernel)
  have ended : ((Rtm.readTransaction true).run
      emptySpecialTransaction).toOption.map Prod.snd = some [] := by
    decide +kernel
  rw [read] at ended
  obtain rfl := Option.some.inj ended
  let pairs : List (Bytes × Bytes) :=
    [(emptySpecialTransaction, List.replicate 8 0),
      (emptySpecialTransaction, [])]
  have unreadable : ∀ before pair after, pairs = before ++ pair :: after →
      ∀ skipped < pair.2.length, ∀ result,
        (Rtm.readTransaction true).run
          ((pair.2 ++ pairBytes after).drop skipped) ≠ .ok result := by
    intro before pair after same skipped inside
    rw [← Rtm.canReadTransactionAt_eq_false_iff]
    match before, same with
    | [], same =>
        obtain ⟨rfl, rfl⟩ := List.cons.inj same
        have unreadable : ∀ skipped < 8, Rtm.canReadTransactionAt true
            ((List.replicate 8 0 ++ pairBytes [(emptySpecialTransaction, [])]
              ).drop skipped) = false := by
          decide +kernel
        exact unreadable skipped inside
    | [_], same =>
        obtain ⟨-, same⟩ := List.cons.inj same
        obtain ⟨rfl, -⟩ := List.cons.inj same
        cases inside
    | _ :: _ :: before, same =>
        have counted := congrArg List.length same
        simp only [pairs, List.cons_append, List.length_cons,
          List.length_append, List.length_nil] at counted
        omega
  obtain ⟨-, converted, after, walked, accepted, split, raw, -⟩ :=
    convertRtmBlob_of_tailed Packages.documented_varuint
      Packages.documented_fastRoot
      (show (List.replicate 80 (0 : Byte)).length = 80 from
        List.length_replicate)
      (show 1 ≤ pairs.length by decide) (show pairs.length ≤ 5000 by decide)
      (.cons read (.cons read .nil))
      (show ∀ pair ∈ pairs, pair.2.length ≤ 64 by decide)
      (show ∀ pair ∈ pairs.getLast?, pair.2 = [] by decide) unreadable
  exact ⟨converted, after, walked, accepted, split, raw⟩

/-- What a transaction of a walked block is made of. -/
structure Spanned (packages : Packages) (payload : Bool)
    (transaction : ParsedTransaction) (span : Bytes × Bytes) : Prop where
  raw : transaction.rawWithWitness = span.1 ++ span.2
  reads : ∃ read, (itemReader packages payload).Reads read span.1
  short : span.2.length ≤ 64
  plain : payload = false → span.2 = []

private theorem length_of_ends
    {payload : Bool} {tail : Bytes} {items : List Item}
    (ends : Ends payload tail items) :
    tail.length ≤ 64 ∧ (payload = false → tail = []) := by
  unfold Ends at ends
  split_ifs at ends with searched
  · refine ⟨ends.1, ?_⟩
    rintro rfl
    cases searched
  · rw [ends]
    exact ⟨Nat.zero_le _, fun _ => rfl⟩

theorem Item.rawWithWitness_extended
    (documented : packages.VaruintDocumented)
    {payload : Bool} {item : Item}
    (reads : (itemReader packages payload).Reads item.transaction
      item.bytes) :
    item.extended.rawWithWitness = item.bytes ++ item.tail := by
  rw [Item.extended, Rtm.rawWithWitness_extendTransactionRaw,
    rawWithWitness_of_reads documented reads]

private theorem spanned_of_laid
    (documented : packages.VaruintDocumented)
    {payload : Bool} {items : List Item}
    (laid : Laid packages payload items) :
    List.Forall₂ (Spanned packages payload) (items.map Item.extended)
        (items.map fun item => (item.bytes, item.tail)) ∧
      ((items.map Item.extended).map ParsedTransaction.rawWithWitness).flatten =
        blockBytes items := by
  induction items with
  | nil => exact ⟨.nil, rfl⟩
  | cons item items ih =>
      obtain ⟨reads, ends, laid⟩ := laid
      obtain ⟨spanned, flattened⟩ := ih laid
      obtain ⟨short, plain⟩ := length_of_ends ends
      have raw := Item.rawWithWitness_extended documented reads
      refine ⟨.cons ⟨raw, ⟨_, reads⟩, short, plain⟩ spanned, ?_⟩
      rw [List.map_cons, List.map_cons, List.flatten_cons, raw, flattened,
        blockBytes_cons, List.append_assoc]

private theorem last_of_laid
    {payload : Bool} {items : List Item}
    (laid : Laid packages payload items) :
    ∀ item ∈ items.getLast?, item.tail = [] := by
  induction items with
  | nil => exact nofun
  | cons item items ih =>
      obtain ⟨-, ends, laid⟩ := laid
      intro other isLast
      cases items with
      | nil =>
          obtain rfl := Option.some.inj isLast
          rw [Ends, List.length_nil, decide_eq_false (Nat.lt_irrefl 0),
            Bool.and_false, if_neg Bool.false_ne_true] at ends
          exact ends
      | cons next items => exact ih laid other isLast

/-- No byte of a body is lost, and none is taken twice. -/
theorem updateMerkleRootHash_partitions
    (documented : packages.VaruintDocumented)
    {layout : Layout} {view : Nat} {blob after : Bytes}
    (updated : (updateMerkleRootHash packages layout view).runOn blob =
      (.ok (), after)) :
    ∃ count size transactions spans,
      packages.varuint_decode (blob.drop layout.bodyOffset) =
        .ok (count, size) ∧
      1 ≤ count ∧ count ≤ 5000 ∧
      blockTransactions packages layout.payload
        (blob.drop layout.bodyOffset) = .ok transactions ∧
      transactions.length = count ∧
      (transactions.map ParsedTransaction.rawWithWitness).flatten =
        blob.drop (layout.bodyOffset + size) ∧
      List.Forall₂ (Spanned packages layout.payload) transactions spans ∧
      ∀ span ∈ spans.getLast?, span.2 = [] := by
  rw [updateMerkleRootHash_run] at updated
  cases found : blockRoot packages layout blob with
  | error message =>
      rw [found] at updated
      cases updated
  | ok root =>
      obtain ⟨transactions, walked⟩ := walked_of_blockRoot found
      obtain ⟨items, size, decoded, positive, bounded, same, laid, rfl⟩ :=
        (blockTransactions_iff_items documented).mp walked
      obtain ⟨spanned, flattened⟩ := spanned_of_laid documented laid
      refine ⟨items.length, size, _, _, (documented.decode _ _).mpr decoded,
        positive, bounded, walked, List.length_map _, ?_, spanned, ?_⟩
      · rw [flattened, ← same, List.drop_drop]
      · intro span isLast
        rw [List.getLast?_map] at isLast
        obtain ⟨item, last, rfl⟩ := Option.map_eq_some_iff.mp isLast
        exact last_of_laid laid item last

/-- A header and two transactions, the first one with a tail of eight bytes. -/
def tailedBlob : Bytes :=
  List.replicate 80 0 ++ [2] ++ emptySpecialTransaction ++
    List.replicate 8 0 ++ emptySpecialTransaction

theorem updateMerkleRootHash_partitions_tailed :
    ∃ after transactions spans,
      (updateMerkleRootHash .documented (rtmLayout .documented) 80).runOn
        tailedBlob = (.ok (), after) ∧
      blockTransactions .documented true (tailedBlob.drop 80) =
        .ok transactions ∧
      transactions.map ParsedTransaction.rawWithWitness =
        [emptySpecialTransaction ++ List.replicate 8 0,
          emptySpecialTransaction] ∧
      (transactions.map ParsedTransaction.rawWithWitness).flatten =
        tailedBlob.drop 81 ∧
      List.Forall₂ (Spanned .documented true) transactions spans ∧
      ∀ span ∈ spans.getLast?, span.2 = [] := by
  obtain ⟨root, found⟩ :=
    exists_of_isOk (show (blockRoot .documented (rtmLayout .documented)
      tailedBlob).isOk = true by decide +kernel)
  obtain ⟨after, updated⟩ : ∃ after,
      (updateMerkleRootHash .documented (rtmLayout .documented) 80).runOn
        tailedBlob = (.ok (), after) := by
    rw [updateMerkleRootHash_run, found]
    exact ⟨_, rfl⟩
  obtain ⟨count, size, transactions, spans, decoded, -, -, walked, -, same,
    spanned, last⟩ :=
      updateMerkleRootHash_partitions Packages.documented_varuint updated
  have two : Packages.documented.varuint_decode (tailedBlob.drop 80) =
      .ok (2, 1) := by rfl
  obtain ⟨-, rfl⟩ := Prod.mk.inj (Except.ok.inj (two.symm.trans decoded))
  have raw : (blockTransactions .documented true
      (tailedBlob.drop 80)).toOption.map
        (List.map ParsedTransaction.rawWithWitness) =
      some [emptySpecialTransaction ++ List.replicate 8 0,
        emptySpecialTransaction] := by
    decide +kernel
  rw [show blockTransactions .documented true (tailedBlob.drop 80) =
    .ok transactions from walked] at raw
  exact ⟨after, transactions, spans, updated, walked, Option.some.inj raw, same,
    spanned, last⟩

end BlockTemplate.Index
