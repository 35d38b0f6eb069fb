import BlockTemplate.Merkle.OddTree
import BlockTemplate.Merkle.Pairing

/-!
# What roots and paths bind

Lists of one length with one root are equal, or two different nodes on the way
have one hash.  The length has to be known: an odd level does not tell whether
its last node was joined with itself or with a copy of itself.  A path to a
root binds its leaf and its siblings in the same sense, once the side is known
on which each sibling lies.
-/

namespace BlockTemplate.Merkle

variable {Leaf Node : Type} (join : Leaf → Leaf → Node) (hash : Node → Leaf)

/-- Two leaves joined and hashed. -/
def joinHashed (left right : Leaf) : Leaf :=
  hash (join left right)

/-- The nodes of one level, with an odd last leaf joined with itself. -/
def oddPairs : List Leaf → List Node
  | left :: right :: rest => join left right :: oddPairs rest
  | [last] => [join last last]
  | [] => []

/-- The nodes that are hashed in the first `rounds` levels. -/
def oddNodes : Nat → List Leaf → List Node
  | 0, _ => []
  | rounds + 1, leaves =>
    oddPairs join leaves ++
      oddNodes rounds (joinNeighbours (joinHashed join hash) leaves)

variable {join hash}

theorem joinNeighbours_joinHashed (leaves : List Leaf) :
    joinNeighbours (joinHashed join hash) leaves =
      (oddPairs join leaves).map hash := by
  induction leaves using oddPairs.induct with
  | case1 left right rest ih =>
      rw [joinNeighbours, oddPairs, ih]
      rfl
  | case2 last => rfl
  | case3 => rfl

theorem oddPairs_inj (injective : Function.Injective2 join)
    {first second : List Leaf} (size : first.length = second.length)
    (same : oddPairs join first = oddPairs join second) : first = second := by
  induction first using oddPairs.induct generalizing second with
  | case1 left right rest ih =>
      obtain ⟨left', right', rest', rfl⟩ :
          ∃ left' right' rest', second = left' :: right' :: rest' := by
        rcases second with _ | ⟨_, _ | ⟨_, _⟩⟩
        · cases size
        · simp at size
        · exact ⟨_, _, _, rfl⟩
      simp only [oddPairs, List.cons.injEq] at same
      obtain ⟨rfl, rfl⟩ := injective same.1
      simp only [List.length_cons, Nat.add_right_cancel_iff] at size
      rw [ih size same.2]
  | case2 last =>
      obtain ⟨other, rfl⟩ := List.length_eq_one_iff.mp size.symm
      simp only [oddPairs, List.cons.injEq, and_true] at same
      rw [(injective same).1]
  | case3 => exact (List.length_eq_zero_iff.mp size.symm).symm

/-- One level. -/
theorem joinNeighbours_inj (injective : Function.Injective2 join)
    {first second : List Leaf} (size : first.length = second.length)
    (same : joinNeighbours (joinHashed join hash) first =
      joinNeighbours (joinHashed join hash) second) :
    first = second ∨
      Collision hash (oddPairs join first) (oddPairs join second) := by
  rw [joinNeighbours_joinHashed, joinNeighbours_joinHashed] at same
  exact (eq_or_collision same).imp_left (oddPairs_inj injective size)

/-- A tower of levels. -/
theorem rootWithin_inj (injective : Function.Injective2 join)
    {rounds : Nat} {first second : List Leaf} {root : Leaf}
    (size : first.length = second.length)
    (firstRoot : rootWithin (joinHashed join hash) rounds first = some root)
    (secondRoot : rootWithin (joinHashed join hash) rounds second =
      some root) :
    first = second ∨
      Collision hash (oddNodes join hash rounds first)
        (oddNodes join hash rounds second) := by
  induction rounds generalizing first second with
  | zero =>
      left
      rcases first with _ | ⟨x, _ | ⟨_, _⟩⟩
      · cases firstRoot
      · obtain ⟨y, rfl⟩ := List.length_eq_one_iff.mp size.symm
        exact congrArg (fun leaf => [leaf])
          (Option.some.inj (firstRoot.trans secondRoot.symm))
      · cases firstRoot
  | succ rounds ih =>
      rcases first with _ | ⟨x, _ | ⟨x', rest⟩⟩
      · exact .inl (List.length_eq_zero_iff.mp size.symm).symm
      · obtain ⟨y, rfl⟩ := List.length_eq_one_iff.mp size.symm
        left
        exact congrArg (fun leaf => [leaf])
          (Option.some.inj (firstRoot.trans secondRoot.symm))
      · rcases second with _ | ⟨y, _ | ⟨y', rest'⟩⟩
        · cases size
        · simp at size
        · have levels : (joinNeighbours (joinHashed join hash)
              (x :: x' :: rest)).length =
                (joinNeighbours (joinHashed join hash)
                  (y :: y' :: rest')).length := by
            rw [length_joinNeighbours, length_joinNeighbours, size]
          rcases ih levels firstRoot secondRoot with upper | collision
          · exact (joinNeighbours_inj injective size upper).imp_right
              fun collision => collision.mono (List.subset_append_left _ _)
                (List.subset_append_left _ _)
          · exact .inr (collision.mono (List.subset_append_right _ _)
              (List.subset_append_right _ _))

/-- The root binds a list of known length. -/
theorem oddRoot_inj (injective : Function.Injective2 join)
    {first second : List Leaf} {root : Leaf}
    (size : first.length = second.length)
    (firstRoot : oddRoot (joinHashed join hash) first = some root)
    (secondRoot : oddRoot (joinHashed join hash) second = some root) :
    first = second ∨
      Collision hash (oddNodes join hash first.length first)
        (oddNodes join hash second.length second) := by
  rw [oddRoot, ← size] at secondRoot
  rw [← size]
  exact rootWithin_inj injective size firstRoot secondRoot

variable (join hash)

/-- The node above, for a sibling on the left or on the right. -/
def stepNode (leaf : Leaf) (step : Bool × Leaf) : Node :=
  if step.1 then join step.2 leaf else join leaf step.2

/-- From a leaf to the root, the lowest sibling first. -/
def follow : List (Bool × Leaf) → Leaf → Leaf
  | [], leaf => leaf
  | step :: steps, leaf => follow steps (hash (stepNode join leaf step))

/-- The nodes that are hashed on the way. -/
def followed : List (Bool × Leaf) → Leaf → List Node
  | [], _ => []
  | step :: steps, leaf =>
    stepNode join leaf step ::
      followed steps (hash (stepNode join leaf step))

variable {join hash}

theorem stepNode_inj (injective : Function.Injective2 join)
    {leaf other : Leaf} {step step' : Bool × Leaf} (side : step.1 = step'.1)
    (same : stepNode join leaf step = stepNode join other step') :
    leaf = other ∧ step = step' := by
  obtain ⟨right, sibling⟩ := step
  obtain ⟨right', sibling'⟩ := step'
  obtain rfl : right = right' := side
  cases right with
  | true =>
      obtain ⟨rfl, rfl⟩ := injective same
      exact ⟨rfl, rfl⟩
  | false =>
      obtain ⟨rfl, rfl⟩ := injective same
      exact ⟨rfl, rfl⟩

/-- The end of a path binds the leaf and the siblings. -/
theorem follow_inj (injective : Function.Injective2 join)
    {steps others : List (Bool × Leaf)} {leaf other : Leaf}
    (sides : steps.map Prod.fst = others.map Prod.fst)
    (same : follow join hash steps leaf = follow join hash others other) :
    (leaf = other ∧ steps = others) ∨
      Collision hash (followed join hash steps leaf)
        (followed join hash others other) := by
  induction steps generalizing others leaf other with
  | nil =>
      obtain rfl := List.map_eq_nil_iff.mp sides.symm
      exact .inl ⟨same, rfl⟩
  | cons step steps ih =>
      rcases others with _ | ⟨step', others⟩
      · cases sides
      · rw [List.map_cons, List.map_cons, List.cons.injEq] at sides
        rcases ih sides.2 same with ⟨above, rest⟩ | collision
        · by_cases nodes : stepNode join leaf step = stepNode join other step'
          · obtain ⟨leaves, steps⟩ := stepNode_inj injective sides.1 nodes
            rw [leaves, steps, rest]
            exact .inl ⟨rfl, rfl⟩
          · exact .inr ⟨_, List.mem_cons_self, _, List.mem_cons_self, nodes,
              above⟩
        · exact .inr (collision.mono (List.subset_cons_self _ _)
            (List.subset_cons_self _ _))

/-- The position of the leaf, where a sibling on the left makes a 1. -/
def positionOf : List Bool → Nat
  | [] => 0
  | side :: sides => side.toNat + 2 * positionOf sides

theorem joinPairs_getElem? (leaves : List Leaf) (i : Nat) :
    (joinPairs join leaves)[i]? =
      (leaves[2 * i]?).bind fun left =>
        (leaves[2 * i + 1]?).map fun right => join left right := by
  induction leaves using joinPairs.induct generalizing i with
  | case1 first second rest ih =>
      cases i with
      | zero => rfl
      | succ i => exact ih i
  | case2 leaves short =>
      rcases leaves with _ | ⟨first, _ | ⟨second, rest⟩⟩
      · simp [joinPairs]
      · cases i <;> simp [joinPairs]
      · exact (short first second rest rfl).elim

/-- A level above, at the position of a pair. -/
theorem levelUp_getElem? (leaves : List Leaf) (i : Nat) :
    (levelUp join hash leaves)[i]? =
      ((joinPairs join leaves)[i]?).map hash :=
  List.getElem?_map

/-- A path that ends in the root of a tower starts from one of its leaves. -/
theorem follow_sound (injective : Function.Injective2 join)
    {steps : List (Bool × Leaf)} {leaf : Leaf} {leaves : List Leaf}
    (size : leaves.length = 2 ^ steps.length)
    (root : climb join hash steps.length leaves =
      [follow join hash steps leaf]) :
    leaves[positionOf (steps.map Prod.fst)]? = some leaf ∨
      Collision hash (followed join hash steps leaf)
        (climbed join hash steps.length leaves) := by
  induction steps generalizing leaf leaves with
  | nil =>
      left
      exact congrArg (fun level => level[0]?) root
  | cons step steps ih =>
      have half : (levelUp join hash leaves).length = 2 ^ steps.length := by
        rw [length_levelUp, size, List.length_cons, Nat.pow_succ]
        omega
      rcases ih half root with above | collision
      · rw [levelUp_getElem?, Option.map_eq_some_iff] at above
        obtain ⟨node, joined, hashes⟩ := above
        have member : node ∈ joinPairs join leaves :=
          List.mem_of_getElem? joined
        by_cases same : stepNode join leaf step = node
        · left
          subst same
          rw [joinPairs_getElem?, Option.bind_eq_some_iff] at joined
          obtain ⟨left, leftIs, joined⟩ := joined
          rw [Option.map_eq_some_iff] at joined
          obtain ⟨right, rightIs, joined⟩ := joined
          obtain ⟨side, sibling⟩ := step
          cases side with
          | true =>
              obtain ⟨-, rfl⟩ := injective joined
              rw [List.map_cons, positionOf, Bool.toNat_true, Nat.add_comm]
              exact rightIs
          | false =>
              obtain ⟨rfl, -⟩ := injective joined
              rw [List.map_cons, positionOf, Bool.toNat_false, Nat.zero_add]
              exact leftIs
        · exact .inr ⟨_, List.mem_cons_self, node,
            List.mem_append_left _ member, same, hashes.symm⟩
      · exact .inr (collision.mono (List.subset_cons_self _ _)
          (List.subset_append_right _ _))

/-- Every leaf of a tower has a path to the root, on which the sides are the
digits of its position. -/
theorem follow_complete {sides : List Bool} {leaves : List Leaf}
    (size : leaves.length = 2 ^ sides.length) :
    ∃ steps : List (Bool × Leaf), steps.map Prod.fst = sides ∧
      ∃ leaf, leaves[positionOf sides]? = some leaf ∧
        climb join hash sides.length leaves =
          [follow join hash steps leaf] := by
  induction sides generalizing leaves with
  | nil =>
      obtain ⟨leaf, rfl⟩ := List.length_eq_one_iff.mp size
      exact ⟨[], rfl, leaf, rfl, rfl⟩
  | cons side sides ih =>
      have half : (levelUp join hash leaves).length = 2 ^ sides.length := by
        rw [length_levelUp, size, List.length_cons, Nat.pow_succ]
        omega
      obtain ⟨steps, rfl, above, aboveIs, root⟩ := ih half
      rw [levelUp_getElem?, Option.map_eq_some_iff] at aboveIs
      obtain ⟨node, joined, rfl⟩ := aboveIs
      rw [joinPairs_getElem?, Option.bind_eq_some_iff] at joined
      obtain ⟨left, leftIs, joined⟩ := joined
      rw [Option.map_eq_some_iff] at joined
      obtain ⟨right, rightIs, rfl⟩ := joined
      cases side with
      | true =>
          refine ⟨(true, left) :: steps, rfl, right, ?_, root⟩
          rw [positionOf, Bool.toNat_true, Nat.add_comm]
          exact rightIs
      | false =>
          refine ⟨(false, right) :: steps, rfl, left, ?_, root⟩
          rw [positionOf, Bool.toNat_false, Nat.zero_add]
          exact leftIs

end BlockTemplate.Merkle
