import Mathlib.Data.List.Basic

/-!
# Merkle trees of any width

A level joins neighbours; an odd last node is joined with itself.  Levels are
formed until one node is left.
-/

namespace BlockTemplate.Merkle

variable {Node : Type} (join : Node → Node → Node)

def joinNeighbours : List Node → List Node
  | left :: right :: rest => join left right :: joinNeighbours rest
  | [last] => [join last last]
  | [] => []

/-- At most `rounds` levels. -/
def rootWithin : Nat → List Node → Option Node
  | _, [node] => some node
  | 0, _ => none
  | rounds + 1, nodes => rootWithin rounds (joinNeighbours join nodes)

def oddRoot (nodes : List Node) : Option Node :=
  rootWithin join nodes.length nodes

variable {join}

theorem length_joinNeighbours (nodes : List Node) :
    (joinNeighbours join nodes).length = (nodes.length + 1) / 2 := by
  induction nodes using joinNeighbours.induct with
  | case1 left right rest ih =>
      simp only [joinNeighbours, List.length_cons, ih]
      omega
  | case2 last => simp [joinNeighbours]
  | case3 => simp [joinNeighbours]

theorem rootWithin_isSome {rounds : Nat} {nodes : List Node}
    (nonempty : nodes ≠ []) (enough : nodes.length ≤ rounds + 1) :
    (rootWithin join rounds nodes).isSome := by
  induction rounds generalizing nodes with
  | zero =>
      obtain ⟨node, rfl⟩ : ∃ node, nodes = [node] := by
        apply List.length_eq_one_iff.mp
        have := List.length_pos_iff.mpr nonempty
        omega
      rfl
  | succ rounds ih =>
      match nodes with
      | [] => contradiction
      | [node] => rfl
      | left :: right :: rest =>
          have size := @length_joinNeighbours _ join (left :: right :: rest)
          simp only [List.length_cons] at size enough
          apply ih
          · apply List.length_pos_iff.mp
            omega
          · omega

/-- Every list but the empty one has a root. -/
theorem oddRoot_isSome {nodes : List Node} (nonempty : nodes ≠ []) :
    (oddRoot join nodes).isSome :=
  rootWithin_isSome nonempty (Nat.le_succ _)

end BlockTemplate.Merkle
