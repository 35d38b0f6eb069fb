import BlockTemplate.Bitcoin.HeaderBinding
import BlockTemplate.Bitcoin.RtmConsumed
import BlockTemplate.Bitcoin.TemplateRuns

/-!
# Mining on RTM templates

From the answer of the daemon to the block that is submitted: the pool writes
an extra nonce over the placeholder of the template, the miner gets the header
that it is converted to, and the nonce of the miner completes the block.
-/

namespace BlockTemplate.Rtm

variable {packages : Packages}

/-- The header with a Merkle root and a nonce. -/
def Header.bytes (header : Header) (root nonce : Bytes) : Bytes :=
  header.version ++ (header.prevHash ++ (root ++ (header.curtime ++
    (header.bits ++ nonce))))

/-- A template begins with the header of its request. -/
theorem header_of_built
    {rpcData : RtmRpcData} {poolAddress : JsValue} {now : Int}
    {template : RtmTemplate}
    (built : RtmBlockTemplate packages rpcData poolAddress now =
      .ok template) :
    ∃ header, blockHeader packages rpcData = .ok header ∧
      (ofHex template.blocktemplateBlob).take 80 =
        header.bytes (List.replicate 32 0) (List.replicate 4 0) := by
  obtain ⟨found, -, built⟩ := except_bind_eq_ok.mp built
  obtain ⟨version, -, built⟩ := except_bind_eq_ok.mp built
  obtain ⟨part1, -, built⟩ := except_bind_eq_ok.mp built
  obtain ⟨part2, -, built⟩ := except_bind_eq_ok.mp built
  obtain ⟨blob1, -, built⟩ := except_bind_eq_ok.mp built
  obtain ⟨blob2, -, built⟩ := except_bind_eq_ok.mp built
  obtain ⟨header, headerOk, built⟩ := except_bind_eq_ok.mp built
  obtain ⟨txs, -, built⟩ := except_bind_eq_ok.mp built
  obtain ⟨txn, -, built⟩ := except_bind_eq_ok.mp built
  obtain ⟨difficulty, -, built⟩ := except_bind_eq_ok.mp built
  obtain rfl := Except.ok.inj built
  obtain ⟨versionSize, prevHashSize, curtimeSize, bitsSize⟩ :=
    length_of_blockHeader headerOk
  refine ⟨header, headerOk, ?_⟩
  simp only [← toHex_append, ofHex_toHex, List.append_assoc]
  have size : (header.bytes (List.replicate 32 0)
      (List.replicate 4 0)).length = 80 := by
    simp [Header.bytes, versionSize, prevHashSize, curtimeSize, bitsSize]
  have front (rest : Bytes) :
      (header.bytes (List.replicate 32 0) (List.replicate 4 0) ++ rest).take
        80 = header.bytes (List.replicate 32 0) (List.replicate 4 0) :=
    List.take_left' size
  simpa only [Header.bytes, List.append_assoc] using
    front (txn ++ (blob1 ++ (extraNoncePlaceholder ++
      (blob2 ++ txs.flatten))))

private theorem overwrite_part {before middle after data : Bytes} {offset : Nat}
    (start : before.length = offset) (size : data.length = middle.length) :
    overwrite (before ++ (middle ++ after)) offset data =
      before ++ (data ++ after) := by
  subst start
  have written := @overwrite_middle before middle after data 0
    (by rw [Nat.zero_add, size])
  rw [Nat.add_zero] at written
  rw [written, overwrite, List.take_zero, List.nil_append, Nat.zero_add, size,
    List.drop_length, List.append_nil]

/-- A block with a Merkle root and a nonce. -/
def Header.block (header : Header) (root nonce : Bytes)
    (transactions : List ParsedTransaction) : Bytes :=
  header.bytes root nonce ++ (CompactSize.encode transactions.length ++
    (transactions.map ParsedTransaction.rawWithWitness).flatten)

section Filling

variable {rpcData : RtmRpcData} {header : Header}
  (read : blockHeader packages rpcData = .ok header)
  {root nonce other : Bytes} (rest : Bytes)

include read

private theorem header_with_root (rootSize : root.length = 32)
    (otherSize : other.length = 32) :
    overwrite (header.bytes other nonce ++ rest) 36 root =
      header.bytes root nonce ++ rest := by
  obtain ⟨versionSize, prevHashSize, -, -⟩ := length_of_blockHeader read
  have start : (header.version ++ header.prevHash).length = 36 := by
    rw [List.length_append, versionSize, prevHashSize]
  have written := @overwrite_part _ _ (header.curtime ++ (header.bits ++
    (nonce ++ rest))) root _ start (rootSize.trans otherSize.symm)
  simpa only [Header.bytes, List.append_assoc] using written

private theorem length_header (rootSize : root.length = 32)
    (nonceSize : nonce.length = 4) : (header.bytes root nonce).length = 80 := by
  obtain ⟨versionSize, prevHashSize, curtimeSize, bitsSize⟩ :=
    length_of_blockHeader read
  simp only [Header.bytes, List.length_append, versionSize, prevHashSize,
    rootSize, curtimeSize, bitsSize, nonceSize]

end Filling

section Work

variable {parts : Parts} {rpcData : RtmRpcData} {template : RtmTemplate}
  (made : parts.Of packages rpcData template)

include made

/-- The reader of scripts finds the one of the coinbase. -/
theorem Parts.reads_spans :
    (dialect true).readInputSpans.Reads
      (4 + (markerBytes rpcData).length + 1,
        [(parts.parsedInput, parts.input)])
      (versionBytes rpcData ++ (markerBytes rpcData ++
        (CompactSize.encode 1 ++ (parts.input ++
          CompactSize.encode parts.groups.all.length)))) := by
  obtain ⟨size, supported⟩ := versionBytes_supported rpcData
  have one : 1 ≤ CompactSize.maxSafeInteger := by decide
  have input : (dialect true).readInput.Reads parts.parsedInput parts.input :=
    (dialect true).reads_input List.length_replicate (length_leBytes 4 _)
      (length_leBytes 4 _) (small_is_safe made.script)
  have behind := Dialect.reads_inputsBehind
    ((dialect true).reads_varInt "input count"
      (show [parts.parsedInput].length ≤ _ from one)) (.cons input .nil)
    ((dialect true).reads_varInt "output count"
      (small_is_safe made.affordable.count))
  have version := (dialect true).reads_version size supported
  rw [List.flatten_singleton] at behind
  unfold markerBytes
  cases isWitness rpcData with
  | true =>
      apply version.bind
      exact (behind true).marked
  | false =>
      apply version.bind
      apply Reader.Reads.unmarked (behind false)
      · have two : advancedMarker.length = 2 := rfl
        simp only [Parts.input, List.length_append, List.length_replicate]
        omega
      · exact Dialect.not_marker_of_count Nat.one_pos _ _

omit made in
private theorem Parts.scriptPlaces_eq (parts : Parts) (rpcData : RtmRpcData) :
    Dialect.scriptPlaces (4 + (markerBytes rpcData).length + 1)
      [(parts.parsedInput, parts.input)] =
        [((parts.beforeScript rpcData).length, parts.script.length)] := by
  have version := (versionBytes_supported rpcData).1
  have one : (CompactSize.encode 1).length = 1 := rfl
  have before : (parts.beforeScript rpcData).length =
      4 + (markerBytes rpcData).length + 1 + 36 +
        (CompactSize.encode parts.script.length).length := by
    simp only [Parts.beforeScript, List.length_append, version, one,
      List.length_replicate, length_leBytes]
    omega
  have input : parts.input.length = 40 + parts.script.length +
      (CompactSize.encode parts.script.length).length := by
    simp only [Parts.input, Dialect.sizedBytes, List.length_append,
      List.length_replicate, length_leBytes]
    omega
  have script : parts.parsedInput.script.length = parts.script.length := rfl
  simp only [Dialect.scriptPlaces, script]
  rw [before, input]
  congr 2
  omega

omit made in
private theorem Parts.core_begins (parts : Parts) (rpcData : RtmRpcData) :
    ∃ rest, parts.core rpcData =
      versionBytes rpcData ++ (markerBytes rpcData ++
        (CompactSize.encode 1 ++ (parts.input ++
          CompactSize.encode parts.groups.all.length))) ++ rest := by
  refine ⟨(parts.groups.all.map TransactionOutput.bytes).flatten ++
    (parts.groups.witness ++ parts.ending rpcData), ?_⟩
  simp only [Parts.core, Parts.body, List.append_assoc]

omit made in
/-- The place of the extra nonce in the coinbase. -/
def Parts.nonceOffset (parts : Parts) (rpcData : RtmRpcData) : Nat :=
  (parts.beforeScript rpcData).length + parts.part1.length

/-- The coinbase is read around any extra nonce. -/
theorem Parts.reads_core_with_nonce
    (consumable : Consumable packages rpcData) (tail : Bytes) :
    ∃ strippedFront strippedBack : Bytes,
      ∀ extraNonce : Bytes, extraNonce.length = 17 →
        parts.nonceOffset rpcData + extraNonce.length ≤
          (parts.core rpcData).length ∧
        ∃ changed,
          (Index.itemReader packages true).Reads changed
            (overwrite (parts.core rpcData) (parts.nonceOffset rpcData)
              extraNonce) ∧
          changed.rawNoWitness =
            strippedFront ++ (extraNonce ++ strippedBack) := by
  obtain ⟨read, reads, -, -⟩ := parts.reads_coinbase made consumable.commitment
  have same : Index.itemReader packages true = readTransaction true := rfl
  rw [same, readTransaction_eq]
  rw [readTransaction_eq] at reads
  obtain ⟨found, spans, writes⟩ := Dialect.reads_overwrite_script reads
  obtain ⟨after, spanned⟩ := spans []
  obtain ⟨outputs, begins⟩ := parts.core_begins rpcData
  have expected := Parts.reads_spans made (outputs ++ [])
  rw [← List.append_assoc, ← begins] at expected
  obtain rfl := (Prod.mk.inj (Except.ok.inj (spanned.symm.trans expected))).1
  rw [Parts.scriptPlaces_eq] at writes
  let place := parts.nonceOffset rpcData -
    Dialect.markerLength (parts.core rpcData ++ tail)
  refine ⟨read.rawNoWitness.take place, read.rawNoWitness.drop (place + 17), ?_⟩
  intro extraNonce length
  have room : parts.nonceOffset rpcData + extraNonce.length ≤
      (parts.beforeScript rpcData).length + parts.script.length := by
    simp only [Parts.nonceOffset, Parts.script, List.length_append,
      extraNoncePlaceholder, List.length_replicate, length]
    omega
  obtain ⟨inside, -, -, ⟨changed, changedReads, stripped⟩, -⟩ :=
    writes _ _ List.mem_cons_self (parts.nonceOffset rpcData) extraNonce tail
      (Nat.le_add_right _ _) room
  refine ⟨inside, changed, changedReads, ?_⟩
  rw [stripped, overwrite, length]
  simp only [List.append_assoc, place]

/-- The items of a template: the coinbase as it was put together, and the
requested transactions. -/
structure RtmTemplate.Walk (template : RtmTemplate) (packages : Packages)
    (rpcData : RtmRpcData) (parts : Parts) (item : Index.Item)
    (items : List Index.Item) (size : Nat) : Prop where
  decoded : CompactSize.decode ((ofHex template.blocktemplateBlob).drop 80) =
    some ((item :: items).length, size)
  bounded : (item :: items).length ≤ Index.maxTemplateTransactions
  same : ((ofHex template.blocktemplateBlob).drop 80).drop size =
    Index.blockBytes (item :: items)
  laid : Index.Laid packages true (item :: items)
  core : item.bytes = parts.core rpcData
  others : (items.map Index.Item.extended).map
    ParsedTransaction.rawWithWitness = requestedTransactions rpcData
  transactions : Index.blockBytes items =
    (requestedTransactions rpcData).flatten
  counted : ((ofHex template.blocktemplateBlob).drop 80).take size =
    CompactSize.encode ((requestedTransactions rpcData).length + 1)
  reserved : template.reservedOffset =
    80 + size + parts.nonceOffset rpcData

/-- The blob with an extra nonce. -/
def RtmTemplate.work (template : RtmTemplate) (extraNonce : Bytes) : Bytes :=
  overwrite (ofHex template.blocktemplateBlob) template.reservedOffset
    extraNonce

variable (documented : packages.VaruintDocumented)
  (consumable : Consumable packages rpcData)

include documented consumable

private theorem walk_of_consumable :
    ∃ item items size, template.Walk packages rpcData parts item items size := by
  obtain ⟨first, others, consumed⟩ :=
    consumed_of_consumable documented made consumable
  obtain ⟨read, reads, -, -⟩ := parts.reads_coinbase made consumable.commitment
  obtain ⟨items, size, decoded, positive, bounded, same, laid, extended⟩ :=
    (Index.blockTransactions_iff_items documented).mp consumed.walked
  obtain ⟨item, items, rfl⟩ := List.exists_cons_of_length_pos positive
  obtain ⟨rfl, rfl⟩ := List.cons.inj extended
  have blob := body_of_made made
  have safe := parts.count_safe made
  rw [made.txs] at safe
  have counted := decoded
  rw [blob, CompactSize.decode_encode safe] at counted
  obtain ⟨-, sized⟩ := Prod.mk.inj (Option.some.inj counted)
  have split := same
  rw [blob, ← sized, List.drop_left, Index.blockBytes_cons,
    ← parts.core_append_suffix, List.append_assoc] at split
  obtain ⟨-, core, -⟩ := Reader.Reads.unique reads laid.1 split
  have transactions : Index.blockBytes items =
      (requestedTransactions rpcData).flatten := by
    have body := consumed.body
    rw [Index.Item.rawWithWitness_extended documented laid.1, blob] at body
    have bytes := List.append_cancel_left body
    rw [← parts.core_append_suffix, List.append_assoc, split,
      List.append_assoc] at bytes
    exact List.append_cancel_left (List.append_cancel_left bytes)
  have front := congrArg (List.take size) blob
  rw [← sized, List.take_left, sized] at front
  refine ⟨item, items, size, decoded, bounded, same, laid, core.symm,
    consumed.others, transactions, front, ?_⟩
  rw [made.reservedOffset, made.txs, sized]
  rfl

/-- The walk over the blob, whatever the extra nonce. -/
theorem walked_of_work :
    ∃ others : List ParsedTransaction,
      others.map ParsedTransaction.rawWithWitness =
        requestedTransactions rpcData ∧
      ∃ front back strippedFront strippedBack : Bytes,
        ∀ extraNonce : Bytes, extraNonce.length = 17 →
          (template.work extraNonce).take 80 =
            (ofHex template.blocktemplateBlob).take 80 ∧
          ∃ coinbase,
            coinbase.rawWithWitness = front ++ (extraNonce ++ back) ∧
            coinbase.rawNoWitness =
              strippedFront ++ (extraNonce ++ strippedBack) ∧
            Index.blockTransactions packages true
              ((template.work extraNonce).drop 80) =
                .ok (coinbase :: others) ∧
            (template.work extraNonce).drop 80 =
              CompactSize.encode (others.length + 1) ++
                (coinbase.rawWithWitness ++
                  (requestedTransactions rpcData).flatten) := by
  obtain ⟨item, items, size, walk⟩ :=
    walk_of_consumable made documented consumable
  obtain ⟨strippedFront, strippedBack, around⟩ :=
    Parts.reads_core_with_nonce made consumable item.tail
  let offset := parts.nonceOffset rpcData
  refine ⟨_, walk.others, (parts.core rpcData).take offset,
    (parts.core rpcData).drop (offset + 17) ++ item.tail, strippedFront,
    strippedBack ++ item.tail, ?_⟩
  intro extraNonce length
  obtain ⟨inside, changed, changedReads, stripped⟩ := around extraNonce length
  rw [← walk.core] at inside changedReads
  obtain ⟨-, fits, -⟩ := CompactSize.decode_take walk.decoded
  rw [List.length_drop] at fits
  have long : 80 + size ≤ (ofHex template.blocktemplateBlob).length := by
    have positive := (CompactSize.decode_take walk.decoded).1
    omega
  have rewalked := @Index.walked_of_first_changed _ documented
    (Index.rtmLayout packages) _ _ _ _ _ _ _ walk.decoded walk.bounded
    walk.same walk.laid inside changedReads
  have rewritten := @Index.body_overwrite (Index.rtmLayout packages) _ _ _ _ _
    _ long walk.same inside
  have raw := Index.rawWithWitness_of_reads documented changedReads
  have coinbase : (extendTransactionRaw changed item.tail).rawWithWitness =
      overwrite item.bytes offset extraNonce ++ item.tail := by
    rw [rawWithWitness_extendTransactionRaw, raw]
  have total := congrArg List.length walk.same
  rw [Index.blockBytes_cons, List.length_drop, List.length_drop,
    List.length_append] at total
  refine ⟨?_, extendTransactionRaw changed item.tail, ?_, ?_, ?_, ?_⟩
  · rw [RtmTemplate.work, walk.reserved, take_overwrite_of_le _ (by omega)]
    omega
  · rw [coinbase, walk.core, overwrite, length]
    simp only [List.append_assoc]
  · rw [rawNoWitness_extendTransactionRaw, stripped]
    simp only [List.append_assoc]
  · rw [RtmTemplate.work, walk.reserved]
    exact rewalked
  · have counts : (items.map Index.Item.extended).length =
        (requestedTransactions rpcData).length := by
      rw [← walk.others]
      exact (List.length_map _).symm
    rw [RtmTemplate.work, walk.reserved, coinbase, counts, List.append_assoc,
      ← walk.transactions]
    exact rewritten.trans (congrArg (· ++ _) walk.counted)

end Work

section Round

variable {rpcData : RtmRpcData} {template : RtmTemplate} {header : Header}
  (read : blockHeader packages rpcData = .ok header) {blob : Bytes}
  (front : blob.take 80 =
    header.bytes (List.replicate 32 0) (List.replicate 4 0))
  {transactions : List ParsedTransaction}
  (walked : Index.blockTransactions packages true (blob.drop 80) =
    .ok transactions)

include read front

/-- The root goes into the header alone. -/
theorem overwrite_root (root : Hash) :
    overwrite blob 36 root.bytes =
      header.bytes root.bytes (List.replicate 4 0) ++ blob.drop 80 := by
  have written : overwrite (header.bytes (List.replicate 32 0)
      (List.replicate 4 0) ++ blob.drop 80) 36 root.bytes =
        header.bytes root.bytes (List.replicate 4 0) ++ blob.drop 80 :=
    header_with_root read _ root.length_bytes List.length_replicate
  rwa [← front, List.take_append_drop] at written

include walked

private theorem convertRtmBlob_of_walked :
    (Index.convertRtmBlob packages).runOn blob =
      (.ok (header.bytes
          (Index.getMerkleRoot packages packages.hash256 transactions).bytes
          (List.replicate 4 0)),
        header.bytes
          (Index.getMerkleRoot packages packages.hash256 transactions).bytes
          (List.replicate 4 0) ++ blob.drop 80) := by
  have found := @Index.blockRoot_of_walked _
    (Index.Family.rtm.layout packages) _ _ walked
  have converted := Index.Family.convert_ok found
  rw [overwrite_root read front] at converted
  have size := length_header read (Blob.length_bytes
    (Index.getMerkleRoot packages packages.hash256 transactions))
    (List.length_replicate (n := 4) (a := (0 : Byte)))
  exact converted.trans
    (congrArg (fun shown => (Except.ok shown, _)) (List.take_left' size))

end Round

section Mining

variable {rpcData : RtmRpcData} {poolAddress : JsValue} {now : Int}
  {template : RtmTemplate}

/-- Different extra nonces are different work. -/
theorem rtm_work_is_distinct (documented : packages.VaruintDocumented)
    (fastRoot : packages.FastRootDocumented)
    (built : RtmBlockTemplate packages rpcData poolAddress now =
      .ok template)
    (consumable : Consumable packages rpcData) {first second : Bytes}
    (firstSize : first.length = 17) (secondSize : second.length = 17) :
    ∃ (coinbase other : ParsedTransaction) (others : List ParsedTransaction)
      (firstHeader secondHeader firstAfter secondAfter : Bytes),
      Index.blockTransactions packages true ((template.work first).drop 80) =
        .ok (coinbase :: others) ∧
      Index.blockTransactions packages true ((template.work second).drop 80) =
        .ok (other :: others) ∧
      (Index.convertRtmBlob packages).runOn (template.work first) =
        (.ok firstHeader, firstAfter) ∧
      (Index.convertRtmBlob packages).runOn (template.work second) =
        (.ok secondHeader, secondAfter) ∧
      (firstHeader = secondHeader → first = second ∨
        Merkle.Collision packages.hash256
          (Index.merkleStrings packages.hash256 (coinbase :: others))
          (Index.merkleStrings packages.hash256 (other :: others))) := by
  obtain ⟨parts, made⟩ := parts_of_built built
  obtain ⟨header, read, begins⟩ := header_of_built built
  obtain ⟨others, -, front, back, strippedFront, strippedBack, works⟩ :=
    walked_of_work made documented consumable
  obtain ⟨kept, coinbase, -, stripped, walked, -⟩ := works first firstSize
  obtain ⟨kept', other, -, stripped', walked', -⟩ := works second secondSize
  refine ⟨coinbase, other, others, _, _, _, _, walked, walked',
    convertRtmBlob_of_walked read (kept.trans begins) walked,
    convertRtmBlob_of_walked read (kept'.trans begins) walked', ?_⟩
  intro headers
  have roots : Index.getMerkleRoot packages packages.hash256
      (coinbase :: others) =
        Index.getMerkleRoot packages packages.hash256 (other :: others) := by
    apply Blob.ext
    have fields := List.append_cancel_left (List.append_cancel_left headers)
    exact (List.append_inj fields (by simp only [Blob.length_bytes])).1
  have count : (coinbase :: others).length = (other :: others).length := rfl
  rcases Index.getMerkleRoot_inj fastRoot (List.cons_ne_nil _ _) count roots
    with same | collision
  · left
    have equal := (List.cons.inj same).1
    rw [stripped, stripped'] at equal
    exact (List.append_inj (List.append_cancel_left equal)
      (firstSize.trans secondSize.symm)).1
  · exact .inr collision

theorem rtm_work_is_distinct_sample :
    ∃ (template : RtmTemplate) (coinbase other : ParsedTransaction)
      (firstHeader secondHeader firstAfter secondAfter : Bytes),
      RtmBlockTemplate .documented (sampleRequest .undefined)
        samplePoolAddress 1710000000 = .ok template ∧
      (Index.convertRtmBlob .documented).runOn
          (template.work (List.replicate 17 7)) =
        (.ok firstHeader, firstAfter) ∧
      (Index.convertRtmBlob .documented).runOn
          (template.work (List.replicate 17 8)) =
        (.ok secondHeader, secondAfter) ∧
      (firstHeader = secondHeader →
        ∃ others, Merkle.Collision Packages.documented.hash256
          (Index.merkleStrings Packages.documented.hash256
            (coinbase :: others))
          (Index.merkleStrings Packages.documented.hash256
            (other :: others))) := by
  obtain ⟨template, built⟩ := sampleRequest_built
  obtain ⟨coinbase, other, others, firstHeader, secondHeader, firstAfter,
    secondAfter, -, -, first, second, distinct⟩ :=
    @rtm_work_is_distinct _ _ _ _ _ Packages.documented_varuint
      Packages.documented_fastRoot built ⟨.inl rfl, nofun⟩
      (List.replicate 17 7) (List.replicate 17 8) List.length_replicate
      List.length_replicate
  refine ⟨template, coinbase, other, firstHeader, secondHeader, firstAfter,
    secondAfter, built, first, second, fun same => ⟨others, ?_⟩⟩
  exact (distinct same).resolve_left (by decide)

end Mining

end BlockTemplate.Rtm
