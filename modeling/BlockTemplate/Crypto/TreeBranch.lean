import BlockTemplate.Crypto.TreeArrays

/-!
# The branch of the first hash

`tree_depth`, `tree_branch` and `tree_hash_from_branch` of
`crypto/tree-hash.c`, with the accesses and the assertions checked as in
`TreeArrays`.  The buffer of `tree_branch` leaves out the leftmost node of its
level, so its first place holds the sibling that goes into the branch, which
is filled from the end.
-/

namespace BlockTemplate

open Merkle

variable (cnFastHash : Bytes → Hash)

/-- `sizeof(size_t) << 2` and its halves. -/
def treeShifts : List Nat := [32, 16, 8, 4, 2, 1]

def treeDepth (count : BitVec 64) : Nat :=
  (treeShifts.foldl (fun (state : BitVec 64 × Nat) i =>
    if (0 : BitVec 64) < state.1 >>> i then (state.1 >>> i, state.2 + i) else state)
    (count, 0)).2

/-- `cnt` and `depth` of `tree_branch`. -/
def branchSize (count : BitVec 64) : BitVec 64 × Nat :=
  treeShifts.foldl (fun (state : BitVec 64 × Nat) i =>
    if state.1 <<< i ≤ count then (state.1 <<< i, state.2 + i) else state)
    (1, 0)

/-- `while (depth > 0)` of `tree_branch`. -/
def treeBranchLoop : (depth cnt : Nat) → (ints branch : List Hash) →
    Option (List Hash)
  | 0, _, _, branch => some branch
  | depth + 1, cnt, ints, branch => do
    guard (cnt = 1 <<< (depth + 1))
    let cnt := cnt >>> 1
    let sibling ← ints[0]?
    let branch ← writeHash branch depth sibling
    let (_, ints) ← hashPairsChecked cnFastHash id (cnt - 1) 1 0 ints
    treeBranchLoop depth cnt ints branch

/-- The allocation is taken to succeed; without a buffer of no hashes at all
nothing is left to do either. -/
def treeBranch (junk : Nat → Hash) (hashes branch : List Hash) :
    Option (List Hash) := do
  let count := hashes.length
  guard (0 < count)
  let size := branchSize (BitVec.ofNat 64 count)
  let cnt := size.1.toNat
  let depth := size.2
  guard (cnt = 1 <<< depth)
  guard (depth = treeDepth (BitVec.ofNat 64 count))
  if (2 ^ 64 - 1) / 32 < cnt - 1 then
    memcpyHashes branch (List.replicate depth (Blob.zero 32)) depth
  else
    let kept := 2 * cnt - count - 1
    let ints ← memcpyHashes (mallocHashes junk (cnt - 1)) (hashes.drop 1) kept
    let (i, ints) ← hashPairsChecked cnFastHash (fun _ => hashes)
      (cnt - 1 - kept) (2 * cnt - count) kept ints
    guard (i = count)
    treeBranchLoop cnFastHash depth cnt ints branch

/-- Whether the path leads to a right child; a null path never does. -/
def pathBit (path : Option Bytes) (depth : Nat) : Option Bool :=
  match path with
  | none => some false
  | some bytes => (bytes[depth >>> 3]?).map (·.getLsbD (depth &&& 7))

/-- `while (depth > 0)` of `tree_hash_from_branch`, on its buffer. -/
def treeHashFromBranchLoop (branch : List Hash) (leaf : Hash)
    (path : Option Bytes) :
    (depth : Nat) → (fromLeaf : Bool) → Hash × Hash → Option (Hash × Hash)
  | 0, _, buffer => some buffer
  | depth + 1, fromLeaf, buffer => do
    let right ← pathBit path depth
    let node :=
      if fromLeaf then leaf else cnFastHash (joinHashes buffer.1 buffer.2)
    let sibling ← branch[depth]?
    treeHashFromBranchLoop branch leaf path depth false
      (if right then (sibling, node) else (node, sibling))

def treeHashFromBranch (junk : Nat → Hash) (branch : List Hash) (depth : Nat)
    (leaf : Hash) (path : Option Bytes) : Option Hash :=
  if depth = 0 then some leaf
  else do
    let buffer ← treeHashFromBranchLoop cnFastHash branch leaf path depth true
      (junk 0, junk 1)
    return cnFastHash (joinHashes buffer.1 buffer.2)

/-- The bits of a depth below 64 are found from the highest one on. -/
theorem foldl_treeShifts : ∀ top < 64,
    treeShifts.foldl (fun depth i => if depth + i ≤ top then depth + i else depth)
      0 = top := by
  decide

private theorem pow_le_count_iff
    {count top depth : Nat} (low : 2 ^ top ≤ count)
    (high : count < 2 ^ (top + 1)) : 2 ^ depth ≤ count ↔ depth ≤ top := by
  constructor
  · intro fits
    by_contra large
    have := Nat.pow_le_pow_right (n := 2) (by decide) (Nat.lt_of_not_le large)
    rw [Nat.succ_eq_add_one] at this
    omega
  · intro bounded
    exact (Nat.pow_le_pow_right (by decide) bounded).trans low

private theorem toNat_count
    {count top : Nat} (high : count < 2 ^ (top + 1)) (small : top < 64) :
    (BitVec.ofNat 64 count).toNat = count := by
  have := Nat.pow_le_pow_right (n := 2) (by decide)
    (show top + 1 ≤ 64 by omega)
  rw [BitVec.toNat_ofNat, Nat.mod_eq_of_lt (by omega)]

section Depth

variable {count top : Nat} (low : 2 ^ top ≤ count)
  (high : count < 2 ^ (top + 1)) (small : top < 64)

include low high small

private theorem foldl_treeDepth {shifts : List Nat} {depth : Nat} :
    (shifts.foldl (fun (state : BitVec 64 × Nat) i =>
      if (0 : BitVec 64) < state.1 >>> i then (state.1 >>> i, state.2 + i)
      else state) (BitVec.ofNat 64 count >>> depth, depth)).2 =
      shifts.foldl (fun depth i => if depth + i ≤ top then depth + i else depth)
        depth := by
  induction shifts generalizing depth with
  | nil => rfl
  | cons i shifts ih =>
      have positive : (0 : BitVec 64) < BitVec.ofNat 64 count >>> depth >>> i ↔
          depth + i ≤ top := by
        rw [← BitVec.shiftRight_add, BitVec.lt_def, BitVec.toNat_ushiftRight,
          toNat_count high small, Nat.shiftRight_eq_div_pow,
          ← pow_le_count_iff low high]
        exact Nat.div_pos_iff.trans
          (and_iff_right (Nat.two_pow_pos (depth + i)))
      rw [List.foldl_cons, List.foldl_cons]
      dsimp only
      by_cases inside : depth + i ≤ top
      · rw [if_pos (positive.mpr inside), if_pos inside,
          ← BitVec.shiftRight_add]
        exact ih
      · rw [if_neg (mt positive.mp inside), if_neg inside]
        exact ih

/-- The loop of `tree_depth` finds the highest bit. -/
theorem treeDepth_eq : treeDepth (BitVec.ofNat 64 count) = top := by
  have folded := @foldl_treeDepth count top low high small treeShifts 0
  rw [BitVec.ushiftRight_zero, foldl_treeShifts top small] at folded
  exact folded

private theorem foldl_branchSize {shifts : List Nat} {depth : Nat}
    (room : depth + shifts.sum < 64) :
    shifts.foldl (fun (state : BitVec 64 × Nat) i =>
      if state.1 <<< i ≤ BitVec.ofNat 64 count then
        (state.1 <<< i, state.2 + i)
      else state) (BitVec.twoPow 64 depth, depth) =
      (BitVec.twoPow 64 (shifts.foldl
          (fun depth i => if depth + i ≤ top then depth + i else depth) depth),
        shifts.foldl
          (fun depth i => if depth + i ≤ top then depth + i else depth)
          depth) := by
  induction shifts generalizing depth with
  | nil => rfl
  | cons i shifts ih =>
      rw [List.sum_cons] at room
      have shifted : BitVec.twoPow 64 depth <<< i =
          BitVec.twoPow 64 (depth + i) := by
        rw [BitVec.twoPow_eq, BitVec.twoPow_eq, BitVec.shiftLeft_add]
      have fits : BitVec.twoPow 64 (depth + i) ≤ BitVec.ofNat 64 count ↔
          depth + i ≤ top := by
        rw [BitVec.le_def, toNat_count high small, BitVec.toNat_twoPow,
          Nat.mod_eq_of_lt (Nat.pow_lt_pow_right (by decide) (by omega)),
          pow_le_count_iff low high]
      rw [List.foldl_cons, List.foldl_cons]
      dsimp only
      rw [shifted]
      by_cases inside : depth + i ≤ top
      · rw [if_pos (fits.mpr inside), if_pos inside]
        exact ih (by omega)
      · rw [if_neg (mt fits.mp inside), if_neg inside]
        exact ih (by omega)

/-- The loop of `tree_branch` finds the greatest power of two up to the
count. -/
theorem branchSize_eq :
    branchSize (BitVec.ofNat 64 count) = (BitVec.twoPow 64 top, top) := by
  have folded := @foldl_branchSize count top low high small treeShifts 0
    (by decide)
  rw [foldl_treeShifts top small] at folded
  exact folded

end Depth

variable {cnFastHash}

/-- A pass behind the sibling of the leftmost node leaves the next level
without its leftmost node, and what was behind it. -/
theorem hashPairsChecked_behindSibling
    {sibling : Hash} {behind : List Hash} {half : Nat}
    (inside : 2 * half ≤ behind.length) :
    ∃ i, hashPairsChecked cnFastHash id half 1 0 (sibling :: behind) =
      some (i, levelUp joinHashes cnFastHash (behind.take (2 * half)) ++
        (sibling :: behind).drop half) := by
  have pass := @hashPairsChecked_eq cnFastHash id readAhead_self half 1 0
    (sibling :: behind) [] (by rw [id, List.length_cons]; omega)
    (by rw [List.length_cons]; omega)
  have filled := @hashPairs_eq cnFastHash id readAhead_self half 1 0
    ⟨sibling :: behind, []⟩ (by rw [id]; dsimp only [List.length_cons]; omega)
    (by dsimp only [List.length_cons]; omega) (by omega)
  simp only [id, List.take_zero, List.drop_succ_cons, List.drop_zero,
    List.nil_append, Nat.zero_add] at filled
  rw [filled] at pass
  exact ⟨_, pass⟩

/-- With a buffer that holds the nodes behind the leftmost one, the loop fills
the branch with the leftmost one's siblings, from the end on. -/
theorem treeBranchLoop_eq
    {depth : Nat} {nodes ints branch : List Hash}
    (size : nodes.length = 2 ^ depth)
    (intsSize : 2 ^ depth - 1 ≤ ints.length)
    (holds : ints.take (2 ^ depth - 1) = nodes.drop 1)
    (room : depth ≤ branch.length) :
    treeBranchLoop cnFastHash depth (2 ^ depth) ints branch =
      some ((leftSiblings (hashNode cnFastHash) depth nodes).reverse ++
        branch.drop depth) := by
  induction depth generalizing nodes ints branch with
  | zero => rfl
  | succ depth ih =>
      obtain ⟨double, shifted⟩ := two_pow_halved depth
      have positive : 0 < 2 ^ depth := Nat.two_pow_pos depth
      match nodes with
      | [] | [_] =>
          simp only [List.length_cons, List.length_nil] at size
          omega
      | left :: sibling :: rest =>
          simp only [List.length_cons] at size
          have odd : 2 ^ (depth + 1) - 1 = 2 * (2 ^ depth - 1) + 1 := by omega
          -- The buffer starts with the sibling of the leftmost node.
          obtain ⟨behind, rfl, pairs⟩ : ∃ behind, ints = sibling :: behind ∧
              behind.take (2 * (2 ^ depth - 1)) = rest := by
            rw [odd] at holds intsSize
            match ints with
            | [] => simp at intsSize
            | first :: behind =>
                rw [List.take_succ_cons] at holds
                obtain ⟨rfl, pairs⟩ := List.cons.inj holds
                exact ⟨behind, rfl, pairs⟩
          have write : writeHash branch depth sibling =
              some (branch.set depth sibling) :=
            if_pos room
          obtain ⟨i, pass⟩ := @hashPairsChecked_behindSibling cnFastHash sibling
            behind (2 ^ depth - 1) (by rw [List.length_cons] at intsSize; omega)
          rw [pairs] at pass
          have even : rest.length = 2 * (2 ^ depth - 1) := by omega
          have upper := @levelUp_eq_joinNeighbours _ _ joinHashes cnFastHash
            rest _ even
          have upperSize := @length_joinNeighbours _ (hashNode cnFastHash)
            (left :: sibling :: rest)
          simp only [List.length_cons] at upperSize
          have later := @ih
            (joinNeighbours (hashNode cnFastHash) (left :: sibling :: rest))
            (levelUp joinHashes cnFastHash rest ++
              (sibling :: behind).drop (2 ^ depth - 1))
            (branch.set depth sibling) (by omega)
            (by rw [List.length_append, length_levelUp]; omega)
            (by
              rw [List.take_left' (by rw [length_levelUp]; omega), upper]
              rfl)
            (by rw [List.length_set]; omega)
          rw [treeBranchLoop, Nat.one_shiftLeft]
          simp only [guard_true, Option.pure_def, Option.bind_eq_bind,
            Option.bind_some, shifted, List.getElem?_cons_zero, write, pass,
            later]
          have last : (branch.set depth sibling).drop depth =
              sibling :: branch.drop (depth + 1) := by
            rw [List.drop_eq_getElem_cons (by rw [List.length_set]; omega),
              List.getElem_set_self, List.drop_set_of_lt (by omega)]
          rw [last, leftSiblings, List.reverse_cons, List.append_assoc,
            List.singleton_append]

private theorem treeHashFromBranchLoop_null
    {depth : Nat} {branch : List Hash} {leaf : Hash} {buffer : Hash × Hash}
    (inside : depth ≤ branch.length) :
    (treeHashFromBranchLoop cnFastHash branch leaf none depth false
      buffer).map (fun buffer => hashNode cnFastHash buffer.1 buffer.2) =
      some ((branch.take depth).reverse.foldl (hashNode cnFastHash)
        (hashNode cnFastHash buffer.1 buffer.2)) := by
  induction depth generalizing buffer with
  | zero => rfl
  | succ depth ih =>
      have sibling : branch[depth]? = some branch[depth] :=
        List.getElem?_eq_getElem inside
      have later := @ih (hashNode cnFastHash buffer.1 buffer.2, branch[depth])
        (by omega)
      rw [treeHashFromBranchLoop, sibling, List.take_add_one, sibling,
        Option.toList_some, List.reverse_append, List.reverse_singleton,
        List.singleton_append, List.foldl_cons]
      exact later

/-- A null path joins the leaf with the entries from the last one on. -/
theorem treeHashFromBranch_null
    {junk : Nat → Hash} {depth : Nat} {branch : List Hash} {leaf : Hash}
    (inside : depth ≤ branch.length) :
    treeHashFromBranch cnFastHash junk branch depth leaf none =
      some ((branch.take depth).reverse.foldl (hashNode cnFastHash) leaf) := by
  cases depth with
  | zero => rfl
  | succ depth =>
      have sibling : branch[depth]? = some branch[depth] :=
        List.getElem?_eq_getElem inside
      have later := @treeHashFromBranchLoop_null cnFastHash depth branch leaf
        (leaf, branch[depth]) (by omega)
      rw [Option.map_eq_some_iff] at later
      obtain ⟨buffer, ended, root⟩ := later
      rw [treeHashFromBranch, if_neg (Nat.succ_ne_zero depth),
        treeHashFromBranchLoop, sibling, List.take_add_one, sibling,
        Option.toList_some, List.reverse_append, List.reverse_singleton,
        List.singleton_append, List.foldl_cons, ← root]
      change (treeHashFromBranchLoop cnFastHash branch leaf none depth false
        (leaf, branch[depth])).bind _ = _
      rw [ended]
      rfl

/-- The level of `tree_branch` is under the same root: for a power of two it
is one level below the first one of `tree_hash`. -/
theorem climb_firstLevel
    {hashes : List Hash} {top : Nat} (low : 2 ^ top ≤ hashes.length)
    (high : hashes.length < 2 ^ (top + 1)) :
    climb joinHashes cnFastHash top (firstLevel cnFastHash top hashes) =
      [treeRoot cnFastHash hashes] := by
  have positive : 0 < 2 ^ top := Nat.two_pow_pos top
  by_cases one : hashes.length = 1
  · obtain ⟨hash, rfl⟩ := List.length_eq_one_iff.mp one
    obtain rfl : top = 0 := by
      by_contra large
      have := Nat.one_lt_two_pow large
      rw [List.length_singleton] at low
      omega
    rfl
  rw [treeRoot, if_neg one]
  by_cases power : hashes.length = 2 ^ top
  · obtain ⟨lower, rfl⟩ : ∃ lower, top = lower + 1 := by
      apply Nat.exists_eq_succ_of_ne_zero
      rintro rfl
      exact one power
    have double : 2 ^ (lower + 1) = 2 * 2 ^ lower := by
      rw [Nat.pow_succ, Nat.mul_comm]
    have lowerPositive : 0 < 2 ^ lower := Nat.two_pow_pos lower
    have log : Nat.log 2 (hashes.length - 1) = lower := by
      rw [Nat.log_eq_iff (by omega)]
      omega
    have whole : firstLevel cnFastHash (lower + 1) hashes = hashes := by
      rw [firstLevel, List.take_of_length_le (by omega),
        List.drop_eq_nil_of_le (by omega)]
      exact List.append_nil hashes
    have next : firstLevel cnFastHash lower hashes =
        levelUp joinHashes cnFastHash hashes := by
      rw [firstLevel, ← double, ← power, Nat.sub_self]
      rfl
    rw [whole, log, next, climb]
    apply climb_eq_halvesRoot
    rw [length_levelUp]
    omega
  · have log : Nat.log 2 (hashes.length - 1) = top := by
      rw [Nat.log_eq_iff (by omega)]
      omega
    rw [log]
    exact climb_eq_halvesRoot
      (length_firstLevel cnFastHash low (by rw [Nat.pow_succ] at high; omega))

/-- What `tree_branch` keeps of the first level. -/
theorem firstLevel_behindLeftmost
    {hashes : List Hash} {top kept : Nat} (low : 2 ^ top ≤ hashes.length)
    (keptEq : kept + 1 + hashes.length = 2 * 2 ^ top) :
    (firstLevel cnFastHash top hashes).drop 1 =
      (hashes.drop 1).take kept ++
        levelUp joinHashes cnFastHash (hashes.drop (kept + 1)) := by
  have positive : 0 < 2 ^ top := Nat.two_pow_pos top
  rw [firstLevel, show 2 * 2 ^ top - hashes.length = kept + 1 by omega,
    List.drop_append_of_le_length, List.drop_take, Nat.add_sub_cancel]
  rw [List.length_take]
  omega

/-- `tree_branch` fills its branch with the siblings of the first hash. -/
theorem treeBranch_eq
    (junk : Nat → Hash) {hashes branch : List Hash} {top : Nat}
    (low : 2 ^ top ≤ hashes.length) (high : hashes.length < 2 ^ (top + 1))
    (addressable : hashes.length ≤ (2 ^ 64 - 1) / 32)
    (room : top ≤ branch.length) :
    treeBranch cnFastHash junk hashes branch =
      some ((leftSiblings (hashNode cnFastHash) top
        (firstLevel cnFastHash top hashes)).reverse ++ branch.drop top) := by
  have positive : 0 < 2 ^ top := Nat.two_pow_pos top
  have double : 2 ^ (top + 1) = 2 * 2 ^ top := by
    rw [Nat.pow_succ, Nat.mul_comm]
  have small : top < 59 := by
    by_contra large
    have := Nat.pow_le_pow_right (n := 2) (by decide) (Nat.le_of_not_lt large)
    omega
  have size := branchSize_eq low high (by omega)
  have depth := treeDepth_eq low high (by omega)
  have cnt : (BitVec.twoPow 64 top).toNat = 2 ^ top := by
    rw [BitVec.toNat_twoPow,
      Nat.mod_eq_of_lt (Nat.pow_lt_pow_right (by decide) (by omega))]
  obtain ⟨kept, keptEq⟩ : ∃ kept, kept + 1 + hashes.length = 2 * 2 ^ top :=
    ⟨2 * 2 ^ top - hashes.length - 1, by omega⟩
  have keptCode : 2 * 2 ^ top - hashes.length = kept + 1 := by omega
  obtain ⟨ints, copied, pairs⟩ := @fill_malloc cnFastHash junk hashes
    (hashes.drop 1) (2 ^ top - 1) kept (kept + 1) (by omega)
    (by rw [List.length_drop]; omega) (by omega) (Nat.le_succ kept)
  rw [← firstLevel_behindLeftmost low keptEq] at pairs
  have nodes := length_firstLevel cnFastHash low (by omega)
  have behind : ((firstLevel cnFastHash top hashes).drop 1).length =
      2 ^ top - 1 := by
    rw [List.length_drop, nodes]
  have loop := @treeBranchLoop_eq cnFastHash top
    (firstLevel cnFastHash top hashes)
    ((firstLevel cnFastHash top hashes).drop 1) branch nodes behind.ge
    (List.take_of_length_le behind.le) room
  unfold treeBranch
  simp only [size, cnt, depth, keptCode, Nat.add_sub_cancel, Nat.one_shiftLeft,
    guard_true, Option.pure_def, Option.bind_eq_bind, Option.bind_some]
  rw [if_neg (by omega), copied]
  simp only [Option.bind_some, pairs, guard_true, Option.pure_def, loop,
    show 0 < hashes.length by omega]

/-- Any number above zero lies between a power of two and its double. -/
theorem exists_top {hashes : List Hash} (nonempty : hashes ≠ []) :
    ∃ top, 2 ^ top ≤ hashes.length ∧ hashes.length < 2 ^ (top + 1) := by
  have positive := List.length_pos_iff.mpr nonempty
  exact ⟨Nat.log 2 hashes.length,
    Nat.pow_log_le_self 2 positive.ne',
    Nat.lt_pow_succ_log_self (by decide) hashes.length⟩

/-- The first hash is the leftmost node of the first level. -/
theorem firstLevel_head {hashes : List Hash} {top : Nat}
    (nonempty : hashes ≠ []) (high : hashes.length < 2 ^ (top + 1)) :
    ∃ rest, firstLevel cnFastHash top hashes =
      hashes.head nonempty :: rest := by
  cases hashes with
  | nil => contradiction
  | cons first behind =>
      rw [Nat.pow_succ, List.length_cons] at high
      obtain ⟨kept, keptEq⟩ : ∃ kept,
          2 * 2 ^ top - (first :: behind).length = kept + 1 :=
        ⟨2 * 2 ^ top - behind.length - 2, by rw [List.length_cons]; omega⟩
      rw [firstLevel, keptEq, List.take_succ_cons, List.cons_append]
      exact ⟨_, rfl⟩

/-- `tree_branch` fills `tree_depth` entries and nothing else, with all its
accesses inside and all its assertions true; from these entries and the first
hash, `tree_hash_from_branch` with a null path gets the root of
`tree_hash`. -/
theorem tree_branch_leads_to_root
    (cnFastHash : Bytes → Hash) (junk : Nat → Hash) (hashes : List Hash)
    (nonempty : hashes ≠ [])
    (addressable : hashes.length ≤ (2 ^ 64 - 1) / 32) :
    ∃ filled root,
      filled.length = treeDepth (BitVec.ofNat 64 hashes.length) ∧
      (∀ branch : List Hash, filled.length ≤ branch.length →
        treeBranch cnFastHash junk hashes branch =
          some (filled ++ branch.drop filled.length)) ∧
      treeHashChecked cnFastHash junk hashes = some root ∧
      ∀ behind : List Hash,
        treeHashFromBranch cnFastHash junk (filled ++ behind)
          (treeDepth (BitVec.ofNat 64 hashes.length)) (hashes.head nonempty)
          none = some root := by
  obtain ⟨top, low, high⟩ := exists_top nonempty
  have nodesSize := length_firstLevel cnFastHash low
    (by rw [Nat.pow_succ] at high; omega)
  have small : top < 64 := by
    by_contra large
    have := Nat.pow_le_pow_right (n := 2) (by decide) (Nat.le_of_not_lt large)
    omega
  have depth := treeDepth_eq low high small
  have siblings :
      (leftSiblings (hashNode cnFastHash) top
        (firstLevel cnFastHash top hashes)).length = top :=
    length_leftSiblings nodesSize
  have found : rootWithin (hashNode cnFastHash) top
      (firstLevel cnFastHash top hashes) = some (treeRoot cnFastHash hashes) :=
    rootWithin_of_climb nodesSize (climb_firstLevel low high)
  obtain ⟨rest, nodes⟩ := @firstLevel_head cnFastHash _ _ nonempty high
  refine ⟨(leftSiblings (hashNode cnFastHash) top
    (firstLevel cnFastHash top hashes)).reverse, treeRoot cnFastHash hashes,
    ?_, ?_, tree_hash_recursive cnFastHash junk hashes nonempty addressable, ?_⟩
  · rw [List.length_reverse, siblings, depth]
  · intro branch room
    rw [List.length_reverse, siblings] at room ⊢
    exact treeBranch_eq junk low high addressable room
  · intro behind
    rw [depth, treeHashFromBranch_null]
    · rw [List.take_left' (by rw [List.length_reverse, siblings]),
        List.reverse_reverse]
      rw [nodes] at found ⊢
      rw [foldl_leftSiblings found]
    · rw [List.length_append, List.length_reverse, siblings]
      omega

theorem tree_branch_leads_to_root_three :
    ∃ filled root,
      filled.length = treeDepth (BitVec.ofNat 64 3) ∧
      (∀ branch : List Hash, filled.length ≤ branch.length →
        treeBranch (fun _ => Blob.zero 32) (fun _ => Blob.zero 32)
            [Blob.zero 32, Blob.zero 32, Blob.zero 32] branch =
          some (filled ++ branch.drop filled.length)) ∧
      treeHashChecked (fun _ => Blob.zero 32) (fun _ => Blob.zero 32)
        [Blob.zero 32, Blob.zero 32, Blob.zero 32] = some root ∧
      ∀ behind : List Hash,
        treeHashFromBranch (fun _ => Blob.zero 32) (fun _ => Blob.zero 32)
          (filled ++ behind) (treeDepth (BitVec.ofNat 64 3)) (Blob.zero 32)
          none = some root :=
  tree_branch_leads_to_root (fun _ => Blob.zero 32) (fun _ => Blob.zero 32)
    [Blob.zero 32, Blob.zero 32, Blob.zero 32] (List.cons_ne_nil _ _)
    (by decide)

end BlockTemplate
