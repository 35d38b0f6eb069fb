import BlockTemplate.Crypto.TreeBranch
import BlockTemplate.Merkle.Binding

/-!
# Branches of any hash

`tree_hash_from_branch` takes a path, the sides of a leaf on its way to the
root.  A branch that leads to the root of `tree_hash` leads there from the node
at the position that the path spells, or shows two strings with one hash, and
for every path there is such a branch.
-/

namespace BlockTemplate

open Merkle

variable (cnFastHash : Bytes → Hash)

/-- The sides on a path, the lowest one first. -/
def pathSides (path : Option Bytes) : Nat → Option (List Bool)
  | 0 => some []
  | depth + 1 => do
    let right ← pathBit path depth
    let above ← pathSides path depth
    pure (right :: above)

/-- The siblings on the way with their sides. -/
def pathSteps (sides : List Bool) (branch : List Hash) : List (Bool × Hash) :=
  sides.zip (branch.take sides.length).reverse

variable {cnFastHash} {path : Option Bytes} {branch : List Hash} {leaf : Hash}

private theorem length_pathSides {depth : Nat} {sides : List Bool}
    (read : pathSides path depth = some sides) : sides.length = depth := by
  induction depth generalizing sides with
  | zero =>
      obtain rfl := Option.some.inj read
      rfl
  | succ depth ih =>
      obtain ⟨right, -, read⟩ := Option.bind_eq_some_iff.mp read
      obtain ⟨above, aboveRead, read⟩ := Option.bind_eq_some_iff.mp read
      obtain rfl := Option.some.inj read
      rw [List.length_cons, ih aboveRead]

/-- The step that the loop takes at a depth. -/
theorem pathSteps_cons {right : Bool} {above : List Bool} {sibling : Hash}
    (siblingIs : branch[above.length]? = some sibling) :
    pathSteps (right :: above) branch =
      (right, sibling) :: pathSteps above branch := by
  rw [pathSteps, List.length_cons, List.take_add_one, siblingIs,
    Option.toList_some, List.reverse_append, List.reverse_singleton,
    List.singleton_append, List.zip_cons_cons]
  rfl

/-- The buffer of a step holds the node above. -/
theorem joinHashes_step (right : Bool) (sibling node : Hash) :
    joinHashes (if right then (sibling, node) else (node, sibling)).1
        (if right then (sibling, node) else (node, sibling)).2 =
      stepNode joinHashes node (right, sibling) := by
  cases right <;> rfl

private theorem treeHashFromBranchLoop_eq {depth : Nat} {sides : List Bool}
    {buffer : Hash × Hash} (inside : depth ≤ branch.length)
    (read : pathSides path depth = some sides) :
    (treeHashFromBranchLoop cnFastHash branch leaf path depth false
      buffer).map (fun buffer => cnFastHash (joinHashes buffer.1 buffer.2)) =
      some (follow joinHashes cnFastHash (pathSteps sides branch)
        (cnFastHash (joinHashes buffer.1 buffer.2))) := by
  induction depth generalizing sides buffer with
  | zero =>
      obtain rfl := Option.some.inj read
      rfl
  | succ depth ih =>
      obtain ⟨right, bit, read⟩ := Option.bind_eq_some_iff.mp read
      obtain ⟨above, aboveRead, read⟩ := Option.bind_eq_some_iff.mp read
      obtain rfl := Option.some.inj read
      obtain ⟨sibling, siblingIs⟩ : ∃ sibling, branch[depth]? = some sibling :=
        ⟨_, List.getElem?_eq_getElem inside⟩
      rw [treeHashFromBranchLoop, bit, siblingIs]
      have later := @ih above (if right then (sibling,
          cnFastHash (joinHashes buffer.1 buffer.2)) else
            (cnFastHash (joinHashes buffer.1 buffer.2), sibling))
        (by omega) aboveRead
      rw [joinHashes_step] at later
      have height := length_pathSides aboveRead
      rw [← height] at siblingIs
      rw [pathSteps_cons siblingIs, follow]
      exact later

/-- The function climbs from the leaf along its path. -/
theorem treeHashFromBranch_eq_follow {junk : Nat → Hash} {depth : Nat}
    {sides : List Bool} (inside : depth ≤ branch.length)
    (read : pathSides path depth = some sides) :
    treeHashFromBranch cnFastHash junk branch depth leaf path =
      some (follow joinHashes cnFastHash (pathSteps sides branch) leaf) := by
  cases depth with
  | zero =>
      obtain rfl := Option.some.inj read
      rfl
  | succ depth =>
      obtain ⟨right, bit, read⟩ := Option.bind_eq_some_iff.mp read
      obtain ⟨above, aboveRead, read⟩ := Option.bind_eq_some_iff.mp read
      obtain rfl := Option.some.inj read
      obtain ⟨sibling, siblingIs⟩ : ∃ sibling, branch[depth]? = some sibling :=
        ⟨_, List.getElem?_eq_getElem inside⟩
      have later := @treeHashFromBranchLoop_eq cnFastHash path branch leaf
        depth above
        (if right then (sibling, leaf) else (leaf, sibling))
        (by omega) aboveRead
      rw [joinHashes_step, Option.map_eq_some_iff] at later
      obtain ⟨buffer, ended, root⟩ := later
      have height := length_pathSides aboveRead
      rw [treeHashFromBranch, if_neg (Nat.succ_ne_zero depth),
        treeHashFromBranchLoop, bit, siblingIs]
      rw [← height] at siblingIs
      rw [pathSteps_cons siblingIs, follow, ← root]
      change (treeHashFromBranchLoop cnFastHash branch leaf path depth false
        (if right then (sibling, leaf) else (leaf, sibling))).bind _ = _
      rw [ended]
      rfl

/-- The path of a branch is checked against the root of `tree_hash`: what it
accepts is the node at its position, and it accepts that node. -/
theorem tree_paths_exact (cnFastHash : Bytes → Hash) (junk : Nat → Hash)
    {hashes : List Hash} (nonempty : hashes ≠ [])
    (addressable : hashes.length ≤ (2 ^ 64 - 1) / 32)
    {path : Option Bytes} {sides : List Bool}
    (read : pathSides path (treeDepth (BitVec.ofNat 64 hashes.length)) =
      some sides) :
    let depth := treeDepth (BitVec.ofNat 64 hashes.length)
    let root := (treeHash cnFastHash hashes).1
    let nodes := firstLevel cnFastHash depth hashes
    (∀ (branch : List Hash) (leaf : Hash), depth ≤ branch.length →
      treeHashFromBranch cnFastHash junk branch depth leaf path = some root →
        nodes[positionOf sides]? = some leaf ∨
          Collision cnFastHash
            (followed joinHashes cnFastHash (pathSteps sides branch) leaf)
            (climbed joinHashes cnFastHash depth nodes)) ∧
    ∃ (branch : List Hash) (leaf : Hash), branch.length = depth ∧
      nodes[positionOf sides]? = some leaf ∧
      treeHashFromBranch cnFastHash junk branch depth leaf path =
        some root := by
  obtain ⟨top, low, high⟩ := exists_top nonempty
  have small : top < 64 := by
    by_contra large
    have := Nat.pow_le_pow_right (n := 2) (by decide) (Nat.le_of_not_lt large)
    omega
  have depthEq := treeDepth_eq low high small
  have size := length_firstLevel cnFastHash low
    (by rw [Nat.pow_succ] at high; omega)
  have climbs := @climb_firstLevel cnFastHash _ _ low high
  rw [← treeHash_eq_treeRoot nonempty addressable] at climbs
  simp only [depthEq] at read ⊢
  have height := length_pathSides read
  subst height
  constructor
  · intro branch leaf room accepted
    have steps : (pathSteps sides branch).map Prod.fst = sides := by
      apply List.map_fst_zip
      rw [List.length_reverse, List.length_take_of_le room]
    have number : (pathSteps sides branch).length = sides.length := by
      rw [← List.length_map, steps]
    rw [treeHashFromBranch_eq_follow room read] at accepted
    rw [← Option.some.inj accepted, ← number] at climbs
    rw [← number] at size
    have sound := follow_sound joinHashes_injective size climbs
    rwa [steps, number] at sound
  · obtain ⟨steps, sidesEq, leaf, leafIs, root⟩ :=
      @follow_complete _ _ joinHashes cnFastHash sides _ size
    have number : steps.length = sides.length := by
      rw [← sidesEq, List.length_map]
    refine ⟨(steps.map Prod.snd).reverse, leaf, ?_, leafIs, ?_⟩
    · rw [List.length_reverse, List.length_map, number]
    · have whole : pathSteps sides (steps.map Prod.snd).reverse = steps := by
        rw [pathSteps, List.take_of_length_le, List.reverse_reverse, ← sidesEq,
          ← List.unzip_fst, ← List.unzip_snd, List.zip_unzip]
        rw [List.length_reverse, List.length_map, number]
      rw [treeHashFromBranch_eq_follow _ read, whole]
      · exact congrArg some
          (List.cons.inj (root.symm.trans climbs)).1
      · rw [List.length_reverse, List.length_map, number]

theorem tree_paths_exact_three :
    let hashes : List Hash := List.replicate 3 (Blob.zero 32)
    ∃ (branch : List Hash) (leaf : Hash), branch.length = 1 ∧
      treeHashFromBranch (fun _ => Blob.zero 32) (fun _ => Blob.zero 32)
        branch 1 leaf (some [1]) =
          some (treeHash (fun _ => Blob.zero 32) hashes).1 := by
  have read : pathSides (some [1]) (treeDepth (BitVec.ofNat 64
      (List.replicate 3 (Blob.zero 32)).length)) = some [true] := by
    decide
  obtain ⟨-, branch, leaf, size, -, accepted⟩ :=
    tree_paths_exact (fun _ => Blob.zero 32) (fun _ => Blob.zero 32)
      (by decide) (by decide) read
  exact ⟨branch, leaf, size, accepted⟩

end BlockTemplate
