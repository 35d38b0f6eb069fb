import BlockTemplate.Crypto.TreeHash
import BlockTemplate.Merkle.LeftBranch

/-!
# `tree_hash` in its arrays

The same computation with every access checked: a read or a write outside of
an array, an assertion that does not hold and a loop that does not end have no
result.  The buffer starts with what `malloc` found there.  The result is the
recursive root of a CryptoNote tree.
-/

namespace BlockTemplate

open Merkle

variable (cnFastHash : Bytes → Hash)

/-- The two hashes at `hashes[i]`. -/
def readPair (hashes : List Hash) (i : Nat) : Option Bytes := do
  let first ← hashes[i]?
  let second ← hashes[i + 1]?
  return first.bytes ++ second.bytes

def writeHash (ints : List Hash) (j : Nat) (hash : Hash) :
    Option (List Hash) :=
  if j < ints.length then some (ints.set j hash) else none

/-- `memcpy(target, source, size * HASH_SIZE)`. -/
def memcpyHashes (target source : List Hash) (size : Nat) :
    Option (List Hash) :=
  if size ≤ target.length ∧ size ≤ source.length then
    some (source.take size ++ target.drop size)
  else none

/-- `malloc(size * HASH_SIZE)`; `junk` is what is in memory. -/
def mallocHashes (junk : Nat → Hash) (size : Nat) : List Hash :=
  (List.range size).map junk

/-- `hashPairs` with its accesses checked, and the index it ends with. -/
def hashPairsChecked (source : List Hash → List Hash) :
    (steps i j : Nat) → List Hash → Option (Nat × List Hash)
  | 0, i, _, ints => some (i, ints)
  | steps + 1, i, j, ints => do
    let data ← readPair (source ints) i
    let ints ← writeHash ints j (cnFastHash data)
    hashPairsChecked source steps (i + 2) (j + 1) ints

/-- `hashLevels` with its accesses checked; it has to end within the
rounds. -/
def hashLevelsChecked : (rounds cnt : Nat) → List Hash → Option (List Hash)
  | 0, _, _ => none
  | rounds + 1, cnt, ints =>
    if 2 < cnt then do
      let (_, ints) ← hashPairsChecked cnFastHash id (cnt >>> 1) 0 0 ints
      hashLevelsChecked rounds (cnt >>> 1) ints
    else some ints

/-- `tree_hash` with its accesses checked. -/
def treeHashChecked (junk : Nat → Hash) (hashes : List Hash) : Option Hash :=
  let count := hashes.length
  if count = 0 then none
  else if count = 1 then hashes[0]?
  else if count = 2 then (readPair hashes 0).map cnFastHash
  else
    let cnt := (greatestPowerBelow (BitVec.ofNat 64 count)).toNat
    if (2 ^ 64 - 1) / 32 < cnt then some (Blob.zero 32)
    else do
      let kept := 2 * cnt - count
      let ints ← memcpyHashes (mallocHashes junk cnt) hashes kept
      let (i, ints) ← hashPairsChecked cnFastHash (fun _ => hashes)
        (cnt - kept) kept kept ints
      guard (i = count)
      let ints ← hashLevelsChecked cnFastHash 64 cnt ints
      let data ← readPair ints 0
      return cnFastHash data

/-- The node over two hashes. -/
def hashNode (left right : Hash) : Hash :=
  cnFastHash (joinHashes left right)

/-- The recursive CryptoNote root: the largest power of two below the count
nodes, of which the last are hashes of pairs, under a perfect tree. -/
def treeRoot (hashes : List Hash) : Hash :=
  if hashes.length = 1 then hashes.headD default
  else
    halvesRoot (hashNode cnFastHash) (Nat.log 2 (hashes.length - 1))
      (firstLevel cnFastHash (Nat.log 2 (hashes.length - 1)) hashes)

variable {cnFastHash}

private theorem readPair_eq {hashes : List Hash} {i : Nat}
    (inside : i + 1 < hashes.length) :
    readPair hashes i = some (pairAt hashes i) := by
  have first : hashes[i]? = some (hashes.getD i default) := by
    rw [List.getD_eq_getElem?_getD, List.getElem?_eq_getElem (by omega)]
    rfl
  have second : hashes[i + 1]? = some (hashes.getD (i + 1) default) := by
    rw [List.getD_eq_getElem?_getD, List.getElem?_eq_getElem inside]
    rfl
  rw [readPair, first, second]
  rfl

/-- The checks of a pass hold when the pairs and the places are inside. -/
theorem hashPairsChecked_eq
    {source : List Hash → List Hash} (ahead : ReadAhead source)
    {steps i j : Nat} {ints : List Hash} {hashed : List Bytes}
    (inside : i + 2 * steps ≤ (source ints).length)
    (room : j + steps ≤ ints.length) :
    hashPairsChecked cnFastHash source steps i j ints =
      some (i + 2 * steps,
        (hashPairs cnFastHash source steps i j ⟨ints, hashed⟩).ints) := by
  induction steps generalizing i j ints hashed with
  | zero => rfl
  | succ steps ih =>
      have read := @readPair_eq (source ints) i (by omega)
      have write : writeHash ints j (cnFastHash (pairAt (source ints) i)) =
          some (ints.set j (cnFastHash (pairAt (source ints) i))) :=
        if_pos (by omega)
      have later := @ih (i + 2) (j + 1)
        (ints.set j (cnFastHash (pairAt (source ints) i)))
        (hashed ++ [pairAt (source ints) i])
        (by rw [ahead.length_set]; omega) (by rw [List.length_set]; omega)
      rw [hashPairsChecked, read, Option.bind_eq_bind, Option.bind_some,
        write, Option.bind_eq_bind, Option.bind_some, later, hashPairs,
        show i + 2 + 2 * steps = i + 2 * (steps + 1) by omega]

private theorem length_hashPairs
    {source : List Hash → List Hash} {steps i j : Nat}
    {state : TreeHashState} :
    (hashPairs cnFastHash source steps i j state).ints.length =
      state.ints.length := by
  induction steps generalizing i j state with
  | zero => rfl
  | succ steps ih => rw [hashPairs, ih, List.length_set]

private theorem length_hashLevels {rounds cnt : Nat} {state : TreeHashState} :
    (hashLevels cnFastHash rounds cnt state).ints.length =
      state.ints.length := by
  induction rounds generalizing cnt state with
  | zero => rfl
  | succ rounds ih =>
      rw [hashLevels]
      split
      · rw [ih, length_hashPairs]
      · rfl

/-- The checks of the levels hold in a buffer of `2 ^ (depth + 1)` hashes, and
`depth` levels are the last. -/
theorem hashLevelsChecked_eq
    {depth rounds : Nat} {ints : List Hash} {hashed : List Bytes}
    (enough : depth < rounds) (size : 2 ^ (depth + 1) ≤ ints.length) :
    hashLevelsChecked cnFastHash rounds (2 ^ (depth + 1)) ints =
      some (hashLevels cnFastHash rounds (2 ^ (depth + 1))
        ⟨ints, hashed⟩).ints := by
  induction depth generalizing rounds ints hashed with
  | zero =>
      obtain ⟨rounds, rfl⟩ := Nat.exists_eq_succ_of_ne_zero enough.ne'
      rfl
  | succ depth ih =>
      obtain ⟨rounds, rfl⟩ :=
        Nat.exists_eq_succ_of_ne_zero (Nat.zero_lt_of_lt enough).ne'
      obtain ⟨half, shifted⟩ := two_pow_halved (depth + 1)
      have large := two_lt_two_pow depth
      have pass := @hashPairsChecked_eq cnFastHash id readAhead_self
        (2 ^ (depth + 1)) 0 0 ints hashed (by rw [id]; omega) (by omega)
      rw [hashLevelsChecked, if_pos large, shifted, pass,
        Option.bind_eq_bind, Option.bind_some]
      simp only [Nat.succ_eq_add_one]
      rw [hashLevels, if_pos large, shifted]
      apply ih (by omega)
      rw [length_hashPairs]
      dsimp only
      omega

/-- Both functions copy some hashes into new memory and fill it up with the
hashes of the last pairs, whatever is in the memory. -/
theorem fill_malloc
    (junk : Nat → Hash) {hashes source : List Hash} {size kept i : Nat}
    (room : kept ≤ size) (inside : kept ≤ source.length)
    (last : hashes.length = i + 2 * (size - kept)) (before : kept ≤ i) :
    ∃ ints, memcpyHashes (mallocHashes junk size) source kept = some ints ∧
      hashPairsChecked cnFastHash (fun _ => hashes) (size - kept) i kept ints =
        some (hashes.length, source.take kept ++
          levelUp joinHashes cnFastHash (hashes.drop i)) := by
  have allocated : (mallocHashes junk size).length = size := by
    rw [mallocHashes, List.length_map, List.length_range]
  have copied : memcpyHashes (mallocHashes junk size) source kept =
      some (source.take kept ++ (mallocHashes junk size).drop kept) :=
    if_pos ⟨by omega, inside⟩
  have front : (source.take kept).length = kept := List.length_take_of_le inside
  have rest : ((mallocHashes junk size).drop kept).length = size - kept := by
    rw [List.length_drop, allocated]
  have filled := @hashPairs_fill cnFastHash hashes (source.take kept) _ _ _
    last rest (by omega)
  have pairs := @hashPairsChecked_eq cnFastHash (fun _ => hashes)
    (readAhead_other hashes) (size - kept) i kept
    (source.take kept ++ (mallocHashes junk size).drop kept) [] last.ge
    (by rw [List.length_append, front, rest])
  rw [front] at filled
  rw [filled, ← last] at pairs
  exact ⟨_, copied, pairs⟩

/-- The levels leave the two hashes that the root is made of. -/
theorem hashLevelsChecked_root
    {nodes : List Hash} {depth : Nat}
    (size : nodes.length = 2 ^ (depth + 1)) (enough : depth < 64) :
    ∃ ints pair, hashLevelsChecked cnFastHash 64 (2 ^ (depth + 1)) nodes =
        some ints ∧
      readPair ints 0 = some pair ∧
      cnFastHash pair = halvesRoot (hashNode cnFastHash) (depth + 1) nodes := by
  have positive : 2 ≤ 2 ^ (depth + 1) :=
    Nat.pow_le_pow_right (n := 2) (by decide) (show 1 ≤ depth + 1 by omega)
  have levels := @hashLevelsChecked_eq cnFastHash depth 64 nodes [] enough
    size.ge
  have pair := @readPair_eq
    (hashLevels cnFastHash 64 (2 ^ (depth + 1)) ⟨nodes, []⟩).ints 0
    (by rw [length_hashLevels]; dsimp only; omega)
  have root := @hashLevels_root cnFastHash nodes [] depth size enough.le
  rw [climb_eq_halvesRoot size] at root
  exact ⟨_, _, levels, pair, (List.cons.inj root.1).1⟩

/-- Three hashes or more: all accesses are inside, and the root is that of the
tower over the first level. -/
theorem treeHashChecked_eq
    (junk : Nat → Hash) {hashes : List Hash} {depth : Nat}
    (low : 2 ^ (depth + 1) < hashes.length)
    (high : hashes.length ≤ 2 * 2 ^ (depth + 1))
    (small : depth + 1 < 59) :
    treeHashChecked cnFastHash junk hashes =
      some (halvesRoot (hashNode cnFastHash) (depth + 1)
        (firstLevel cnFastHash (depth + 1) hashes)) := by
  obtain ⟨positive, bounded⟩ := two_pow_range small
  have power := greatestPowerBelow_depth low high small
  obtain ⟨ints, copied, pairs⟩ := @fill_malloc cnFastHash junk hashes hashes
    (2 ^ (depth + 1)) (2 * 2 ^ (depth + 1) - hashes.length)
    (2 * 2 ^ (depth + 1) - hashes.length) (by omega) (by omega) (by omega) le_rfl
  rw [← firstLevel] at pairs
  obtain ⟨final, data, levels, read, root⟩ := @hashLevelsChecked_root cnFastHash
    (firstLevel cnFastHash (depth + 1) hashes) depth
    (length_firstLevel cnFastHash low.le high) (by omega)
  unfold treeHashChecked
  simp only [power]
  rw [if_neg (by omega), if_neg (by omega), if_neg (by omega),
    if_neg (by omega), copied]
  simp only [Option.bind_eq_bind, Option.bind_some, pairs, levels, read,
    guard_true, Option.pure_def, root]

/-- `treeRoot` of three hashes or more. -/
theorem treeRoot_eq
    {hashes : List Hash} {depth : Nat}
    (low : 2 ^ (depth + 1) < hashes.length)
    (high : hashes.length ≤ 2 * 2 ^ (depth + 1)) :
    treeRoot cnFastHash hashes =
      halvesRoot (hashNode cnFastHash) (depth + 1)
        (firstLevel cnFastHash (depth + 1) hashes) := by
  have positive : 0 < 2 ^ (depth + 1) := Nat.two_pow_pos (depth + 1)
  have log : Nat.log 2 (hashes.length - 1) = depth + 1 := by
    rw [Nat.log_eq_iff (by omega), Nat.pow_succ 2 (depth + 1)]
    omega
  rw [treeRoot, if_neg (by omega), log]

/-- The three shapes that `tree_hash` tells apart. -/
theorem tree_sizes
    {hashes : List Hash} (nonempty : hashes ≠ [])
    (addressable : hashes.length ≤ (2 ^ 64 - 1) / 32) :
    (∃ hash, hashes = [hash]) ∨ (∃ first second, hashes = [first, second]) ∨
      ∃ depth, depth + 1 < 59 ∧ 2 ^ (depth + 1) < hashes.length ∧
        hashes.length ≤ 2 * 2 ^ (depth + 1) := by
  have positive := List.length_pos_iff.mpr nonempty
  rcases Nat.lt_trichotomy hashes.length 2 with one | two | more
  · exact .inl (List.length_eq_one_iff.mp (by omega))
  · exact .inr (.inl (List.length_eq_two.mp two))
  · exact .inr (.inr (exists_depth more (by omega)))

/-- `tree_hash` stays inside of its arrays, ends, and returns the recursive
root of the list.  An array has no more hashes than memory has addresses
for. -/
theorem tree_hash_recursive
    (cnFastHash : Bytes → Hash) (junk : Nat → Hash) (hashes : List Hash)
    (nonempty : hashes ≠ [])
    (addressable : hashes.length ≤ (2 ^ 64 - 1) / 32) :
    treeHashChecked cnFastHash junk hashes =
      some (treeRoot cnFastHash hashes) := by
  rcases tree_sizes nonempty addressable with
    ⟨hash, rfl⟩ | ⟨first, second, rfl⟩ | ⟨depth, small, low, high⟩
  · rfl
  · rfl
  · rw [treeHashChecked_eq junk low high small, treeRoot_eq low high]

theorem tree_hash_recursive_three :
    treeHashChecked (fun _ => Blob.zero 32) (fun _ => Blob.zero 32)
        [Blob.zero 32, Blob.zero 32, Blob.zero 32] =
      some (treeRoot (fun _ => Blob.zero 32)
        [Blob.zero 32, Blob.zero 32, Blob.zero 32]) :=
  tree_hash_recursive _ _ _ (List.cons_ne_nil _ _) (by decide)

/-- The root that the block hashes are made with is the same one. -/
theorem treeHash_eq_treeRoot
    {hashes : List Hash} (nonempty : hashes ≠ [])
    (addressable : hashes.length ≤ (2 ^ 64 - 1) / 32) :
    (treeHash cnFastHash hashes).1 = treeRoot cnFastHash hashes := by
  rcases tree_sizes nonempty addressable with
    ⟨hash, rfl⟩ | ⟨first, second, rfl⟩ | ⟨depth, small, low, high⟩
  · rfl
  · rfl
  · have root := (treeHash_eq cnFastHash low high small).2
    rw [climb_eq_halvesRoot (length_firstLevel cnFastHash low.le high)] at root
    rw [treeRoot_eq low high]
    exact (List.cons.inj root).1

end BlockTemplate
