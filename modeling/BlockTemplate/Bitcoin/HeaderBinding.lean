import BlockTemplate.Bitcoin.NonceWriting
import BlockTemplate.Merkle.Binding

/-!
# What a converted header binds

A miner gets the converted header and nothing of the transactions.  Two
templates with one converted header and as many transactions have the same
header fields and the same stripped transactions, or two different strings that
the convert function hashes have one hash.
-/

namespace BlockTemplate.Index

variable {packages : Packages}

/-- Two hashes next to each other, as they are hashed. -/
def joinedBytes (left right : Hash) : Bytes :=
  left.bytes ++ right.bytes

theorem joinedBytes_injective : Function.Injective2 joinedBytes := by
  intro left left' right right' same
  obtain ⟨first, second⟩ := List.append_inj same
    (left.length_bytes.trans left'.length_bytes.symm)
  exact ⟨Blob.ext first, Blob.ext second⟩

/-- What is hashed for the Merkle root of these transactions. -/
def merkleStrings (hash : Bytes → Hash)
    (transactions : List ParsedTransaction) : List Bytes :=
  transactions.map ParsedTransaction.rawNoWitness ++
    Merkle.oddNodes joinedBytes hash transactions.length
      (transactions.map fun transaction => hash transaction.rawNoWitness)

/-- What a convert function hashes: Raven's gives the hash of its header. -/
def Family.hashedStrings (packages : Packages) (family : Family)
    (header : Bytes) (transactions : List ParsedTransaction) : List Bytes :=
  match family with
  | raven => header :: merkleStrings packages.hash256 transactions
  | other => merkleStrings (other.layout packages).hash transactions

private theorem merkleStrings_subset (family : Family) (header : Bytes)
    (transactions : List ParsedTransaction) :
    merkleStrings (family.layout packages).hash transactions ⊆
      family.hashedStrings packages header transactions := by
  cases family with
  | raven => exact List.subset_cons_self _ _
  | rtm => exact List.Subset.refl _
  | kcn => exact List.Subset.refl _

private theorem ne_nil_of_walked {payload : Bool} {body : Bytes}
    {transactions : List ParsedTransaction}
    (walked : blockTransactions packages payload body = .ok transactions) :
    transactions ≠ [] := by
  obtain ⟨count, size, -, positive, -, walk⟩ :=
    blockTransactions_eq_ok.mp walked
  obtain ⟨remaining, rfl⟩ := Nat.exists_eq_succ_of_ne_zero
    (Nat.one_le_iff_ne_zero.mp positive)
  obtain ⟨-, tx, after, skipped, others, -, -, -, rfl⟩ :=
    readBlockTransactions_succ.mp walk
  exact List.cons_ne_nil _ _

private theorem map_transactionHash (hash : Bytes → Hash)
    (transactions : List ParsedTransaction) :
    (transactions.map fun transaction =>
      transactionHash hash transaction false) =
        transactions.map fun transaction => hash transaction.rawNoWitness :=
  List.map_congr_left fun transaction _ =>
    transactionHash_stripped hash transaction

theorem oddRoot_of_walked (documented : packages.FastRootDocumented)
    {hash : Bytes → Hash} {transactions : List ParsedTransaction}
    (nonempty : transactions ≠ []) :
    Merkle.oddRoot (Merkle.joinHashed joinedBytes hash)
        (transactions.map fun transaction => hash transaction.rawNoWitness) =
      some (getMerkleRoot packages hash transactions) := by
  have filled : transactions.isEmpty = false :=
    List.isEmpty_eq_false_iff.mpr nonempty
  rw [getMerkleRoot, filled, if_neg Bool.false_ne_true, map_transactionHash]
  apply documented
  rwa [Ne, List.map_eq_nil_iff]

/-- A Merkle root binds as many stripped transactions. -/
theorem getMerkleRoot_inj (documented : packages.FastRootDocumented)
    {hash : Bytes → Hash} {first second : List ParsedTransaction}
    (nonempty : first ≠ []) (count : first.length = second.length)
    (same : getMerkleRoot packages hash first =
      getMerkleRoot packages hash second) :
    first.map ParsedTransaction.rawNoWitness =
        second.map ParsedTransaction.rawNoWitness ∨
      Merkle.Collision hash (merkleStrings hash first)
        (merkleStrings hash second) := by
  have nonempty' : second ≠ [] := by
    rwa [← List.length_pos_iff, ← count, List.length_pos_iff]
  have firstRoot := @oddRoot_of_walked _ documented hash _ nonempty
  have secondRoot := @oddRoot_of_walked _ documented hash _ nonempty'
  rw [← same] at secondRoot
  have size : (first.map fun transaction =>
      hash transaction.rawNoWitness).length =
        (second.map fun transaction => hash transaction.rawNoWitness).length := by
    rw [List.length_map, List.length_map, count]
  rcases Merkle.oddRoot_inj joinedBytes_injective size firstRoot secondRoot
    with leaves | collision
  · have hashes : (first.map ParsedTransaction.rawNoWitness).map hash =
        (second.map ParsedTransaction.rawNoWitness).map hash := by
      rw [List.map_map, List.map_map]
      exact leaves
    exact (Merkle.eq_or_collision hashes).imp_right fun collision =>
      collision.mono (List.subset_append_left _ _)
        (List.subset_append_left _ _)
  · rw [List.length_map, List.length_map] at collision
    exact .inr (collision.mono (List.subset_append_right _ _)
      (List.subset_append_right _ _))

private theorem getMerkleRoot_congr {hash : Bytes → Hash}
    {first second : List ParsedTransaction}
    (same : first.map ParsedTransaction.rawNoWitness =
      second.map ParsedTransaction.rawNoWitness) :
    getMerkleRoot packages hash first = getMerkleRoot packages hash second := by
  have hashes := congrArg (List.map hash) same
  rw [List.map_map, List.map_map] at hashes
  have empty := congrArg List.isEmpty same
  rw [List.isEmpty_map, List.isEmpty_map] at empty
  rw [getMerkleRoot, getMerkleRoot, map_transactionHash, map_transactionHash,
    empty]
  exact congrArg (ite _ _ <| packages.fastMerkleRoot · hash) hashes

/-- The header of a blob with its root. -/
def rootedHeader (blob : Bytes) (root : Hash) : Bytes :=
  (overwrite blob 36 root.bytes).take 80

private theorem root_inside {blob : Bytes} (root : Hash)
    (long : 68 ≤ blob.length) : 36 + root.bytes.length ≤ blob.length := by
  rw [root.length_bytes]
  exact long

private theorem rootedHeader_inj {first second : Bytes} {root other : Hash}
    (firstLong : 68 ≤ first.length) (secondLong : 68 ≤ second.length)
    (same : rootedHeader first root = rootedHeader second other) :
    root = other ∧ ∀ index < 80, ¬(36 ≤ index ∧ index < 68) →
      first[index]? = second[index]? := by
  have firstInside := root_inside root firstLong
  have secondInside := root_inside other secondLong
  constructor
  · have range (blob : Bytes) (found : Hash)
        (inside : 36 + found.bytes.length ≤ blob.length) :
        ((rootedHeader blob found).drop 36).take 32 = found.bytes := by
      have taken := take_drop_overwrite inside
      rw [found.length_bytes] at taken
      rw [rootedHeader, List.drop_take, List.take_take]
      exact taken
    apply Blob.ext
    rw [← range first root firstInside, same, range second other secondInside]
  · intro index inHeader outside
    have bytes := congrArg (fun header => header[index]?) same
    simp only [rootedHeader, List.getElem?_take_of_lt inHeader] at bytes
    rwa [getElem?_overwrite firstInside, getElem?_overwrite secondInside,
      root.length_bytes, other.length_bytes, if_neg outside, if_neg outside]
      at bytes

private theorem rootedHeader_congr {first second : Bytes} (root : Hash)
    (firstLong : 68 ≤ first.length) (secondLong : 68 ≤ second.length)
    (same : ∀ index < 80, ¬(36 ≤ index ∧ index < 68) →
      first[index]? = second[index]?) :
    rootedHeader first root = rootedHeader second root := by
  apply List.ext_getElem?
  intro index
  by_cases inHeader : index < 80
  · rw [rootedHeader, rootedHeader, List.getElem?_take_of_lt inHeader,
      List.getElem?_take_of_lt inHeader,
      getElem?_overwrite (root_inside root firstLong),
      getElem?_overwrite (root_inside root secondLong), root.length_bytes]
    by_cases covered : 36 ≤ index ∧ index < 68
    · rw [if_pos covered, if_pos covered]
    · rw [if_neg covered, if_neg covered, same index inHeader covered]
  · have behind : 80 ≤ index := Nat.le_of_not_lt inHeader
    rw [rootedHeader, rootedHeader, List.getElem?_take_eq_none behind,
      List.getElem?_take_eq_none behind]

private theorem shown_inj {family : Family} {first second : Bytes}
    (transactions others : List ParsedTransaction)
    (same : family.shown packages first = family.shown packages second) :
    first = second ∨
      Merkle.Collision (family.layout packages).hash
        (family.hashedStrings packages first transactions)
        (family.hashedStrings packages second others) := by
  cases family with
  | raven =>
      have hashes : packages.hash256 first = packages.hash256 second :=
        Blob.ext (List.reverse_injective same)
      by_cases equal : first = second
      · exact .inl equal
      · exact .inr ⟨first, List.mem_cons_self, second, List.mem_cons_self,
          equal, hashes⟩
  | rtm => exact .inl same
  | kcn => exact .inl same

/-- The header fields are the bytes of the header outside of the root. -/
theorem converted_header_binds (documented : packages.FastRootDocumented)
    {family : Family} {first second converted firstAfter secondAfter : Bytes}
    {transactions others : List ParsedTransaction}
    (firstConverted : (family.convert packages).runOn first =
      (.ok converted, firstAfter))
    (secondConverted : (family.convert packages).runOn second =
      (.ok converted, secondAfter))
    (firstWalked : blockTransactions packages (family.layout packages).payload
      (first.drop (family.layout packages).bodyOffset) = .ok transactions)
    (secondWalked : blockTransactions packages
      (family.layout packages).payload
      (second.drop (family.layout packages).bodyOffset) = .ok others)
    (count : transactions.length = others.length) :
    ((∀ index < 80, ¬(36 ≤ index ∧ index < 68) →
        first[index]? = second[index]?) ∧
      transactions.map ParsedTransaction.rawNoWitness =
        others.map ParsedTransaction.rawNoWitness) ∨
      Merkle.Collision (family.layout packages).hash
        (family.hashedStrings packages (firstAfter.take 80) transactions)
        (family.hashedStrings packages (secondAfter.take 80) others) := by
  have firstFound := blockRoot_of_walked firstWalked
  have secondFound := blockRoot_of_walked secondWalked
  have firstLong := bodyOffset_lt_of_blockRoot firstFound
  have secondLong := bodyOffset_lt_of_blockRoot secondFound
  have behind := @Family.eighty_le_bodyOffset packages family
  rw [Family.convert_ok firstFound] at firstConverted
  rw [Family.convert_ok secondFound] at secondConverted
  obtain ⟨shown, rfl⟩ := Prod.mk.inj firstConverted
  obtain ⟨shown', rfl⟩ := Prod.mk.inj secondConverted
  have nonempty := ne_nil_of_walked firstWalked
  rcases shown_inj transactions others
    (Except.ok.inj (shown.trans shown'.symm)) with header | collision
  · obtain ⟨roots, fields⟩ := rootedHeader_inj (by omega) (by omega) header
    rcases getMerkleRoot_inj documented nonempty count roots with
      stripped | collision
    · exact .inl ⟨fields, stripped⟩
    · exact .inr (collision.mono (merkleStrings_subset family _ _)
        (merkleStrings_subset family _ _))
  · exact .inr collision

/-- An 80-byte header with an old root and one transaction, with an input, an
output and this witness item. -/
def signedBlob (item : Byte) : Bytes :=
  List.replicate 36 0 ++ List.replicate 32 item ++ List.replicate 12 0 ++
    [1] ++ [1, 0, 0, 0] ++ advancedMarker ++
    [1] ++ List.replicate 32 9 ++ [2, 0, 0, 0] ++ [1, 0x51] ++ [3, 0, 0, 0] ++
    [1] ++ leBytes 8 5000 ++ [2, 0x6a, 0x24] ++
    [1, 1, item] ++ [4, 0, 0, 0]

private theorem signedBlobs_walked :
    ∃ transactions others,
      blockTransactions .documented true ((signedBlob 7).drop 80) =
        .ok transactions ∧
      blockTransactions .documented true ((signedBlob 8).drop 80) =
        .ok others ∧
      transactions.map ParsedTransaction.rawNoWitness =
        others.map ParsedTransaction.rawNoWitness ∧
      transactions.map ParsedTransaction.rawWithWitness ≠
        others.map ParsedTransaction.rawWithWitness := by
  let walk (item : Byte) :=
    blockTransactions .documented true ((signedBlob item).drop 80)
  obtain ⟨transactions, walked⟩ :=
    exists_of_isOk (show (walk 7).isOk = true by decide +kernel)
  obtain ⟨others, otherWalked⟩ :=
    exists_of_isOk (show (walk 8).isOk = true by decide +kernel)
  have stripped :
      (walk 7).toOption.map (List.map ParsedTransaction.rawNoWitness) =
        (walk 8).toOption.map (List.map ParsedTransaction.rawNoWitness) := by
    decide +kernel
  have signed :
      (walk 7).toOption.map (List.map ParsedTransaction.rawWithWitness) ≠
        (walk 8).toOption.map (List.map ParsedTransaction.rawWithWitness) := by
    decide +kernel
  rw [walked, otherWalked] at stripped signed
  refine ⟨transactions, others, walked, otherWalked, Option.some.inj stripped,
    fun same => signed ?_⟩
  exact congrArg some same

/-- The old root and the witness are not bound. -/
theorem converted_header_binds_signed :
    ∃ converted firstAfter secondAfter transactions others,
      (convertRtmBlob .documented).runOn (signedBlob 7) =
        (.ok converted, firstAfter) ∧
      (convertRtmBlob .documented).runOn (signedBlob 8) =
        (.ok converted, secondAfter) ∧
      transactions.map ParsedTransaction.rawWithWitness ≠
        others.map ParsedTransaction.rawWithWitness ∧
      (((∀ index < 80, ¬(36 ≤ index ∧ index < 68) →
          (signedBlob 7)[index]? = (signedBlob 8)[index]?) ∧
        transactions.map ParsedTransaction.rawNoWitness =
          others.map ParsedTransaction.rawNoWitness) ∨
        Merkle.Collision Packages.documented.hash256
          (merkleStrings Packages.documented.hash256 transactions)
          (merkleStrings Packages.documented.hash256 others)) := by
  obtain ⟨transactions, others, walked, otherWalked, bare, signed⟩ :=
    signedBlobs_walked
  have fields : ∀ index < 80, ¬(36 ≤ index ∧ index < 68) →
      (signedBlob 7)[index]? = (signedBlob 8)[index]? := by
    decide +kernel
  have header := rootedHeader_congr
    (getMerkleRoot .documented Packages.documented.hash256 transactions)
    (show 68 ≤ (signedBlob 7).length by decide +kernel)
    (show 68 ≤ (signedBlob 8).length by decide +kernel) fields
  have firstConverted : (convertRtmBlob .documented).runOn (signedBlob 7) =
      (.ok (rootedHeader (signedBlob 7) _), _) :=
    @Family.convert_ok .documented .rtm _ _ (blockRoot_of_walked walked)
  have secondConverted : (convertRtmBlob .documented).runOn (signedBlob 8) =
      (.ok (rootedHeader (signedBlob 8) _), _) :=
    @Family.convert_ok .documented .rtm _ _ (blockRoot_of_walked otherWalked)
  rw [show (Family.rtm.layout .documented).hash =
      Packages.documented.hash256 from rfl, header, getMerkleRoot_congr bare]
    at firstConverted
  have count : transactions.length = others.length := by
    rw [← List.length_map ParsedTransaction.rawNoWitness, bare,
      List.length_map]
  refine ⟨_, _, _, transactions, others, firstConverted, secondConverted,
    signed, ?_⟩
  exact @converted_header_binds .documented Packages.documented_fastRoot .rtm
    _ _ _ _ _ _ _ firstConverted secondConverted walked otherWalked count

end BlockTemplate.Index
