import BlockTemplate.Merkle.Pairing
import BlockTemplate.Merkle.OddTree
import Mathlib.Algebra.Order.Ring.Nat

/-!
# Roots by halves and paths of first leaves

The root over a power of two is the join of the roots of its halves, which is
what a tower of levels computes.  The first leaf is a left child on every
level, so its path consists of the nodes next to the leftmost ones, and
joining them one after the other gives the root.
-/

namespace BlockTemplate.Merkle

section Halves

variable {Node : Type} [Inhabited Node] (join : Node → Node → Node)

/-- The root over `2 ^ depth` nodes. -/
def halvesRoot : (depth : Nat) → List Node → Node
  | 0, nodes => nodes.headD default
  | depth + 1, nodes =>
    join (halvesRoot depth (nodes.take (2 ^ depth)))
      (halvesRoot depth (nodes.drop (2 ^ depth)))

end Halves

section Levels

variable {Leaf Node : Type} {join : Leaf → Leaf → Node} {hash : Node → Leaf}

theorem joinPairs_append {first second : List Leaf} {half : Nat}
    (even : first.length = 2 * half) :
    joinPairs join (first ++ second) =
      joinPairs join first ++ joinPairs join second := by
  induction half generalizing first with
  | zero =>
      rw [List.length_eq_zero_iff.mp even]
      rfl
  | succ half ih =>
      match first with
      | a :: b :: rest =>
          simp only [List.length_cons] at even
          have restEven : rest.length = 2 * half := by omega
          simp only [List.cons_append, joinPairs, ih restEven]
      | [] | [_] =>
          simp only [List.length_cons, List.length_nil] at even
          omega

theorem levelUp_append {first second : List Leaf} {half : Nat}
    (even : first.length = 2 * half) :
    levelUp join hash (first ++ second) =
      levelUp join hash first ++ levelUp join hash second := by
  rw [levelUp, joinPairs_append even, List.map_append]
  rfl

theorem climb_append {depth count : Nat} {first second : List Leaf}
    (size : first.length = 2 ^ depth * count) :
    climb join hash depth (first ++ second) =
      climb join hash depth first ++ climb join hash depth second := by
  induction depth generalizing first second with
  | zero => rfl
  | succ depth ih =>
      have even : first.length = 2 * (2 ^ depth * count) := by
        rw [size, Nat.pow_succ, Nat.mul_comm (2 ^ depth) 2, Nat.mul_assoc]
      rw [climb, levelUp_append even, ih]
      · rfl
      · rw [length_levelUp, even]
        omega

/-- A tower of levels computes the root by halves. -/
theorem climb_eq_halvesRoot [Inhabited Leaf]
    {depth : Nat} {leaves : List Leaf} (size : leaves.length = 2 ^ depth) :
    climb join hash depth leaves =
      [halvesRoot (fun left right => hash (join left right)) depth leaves] := by
  induction depth generalizing leaves with
  | zero =>
      obtain ⟨leaf, rfl⟩ := List.length_eq_one_iff.mp size
      rfl
  | succ depth ih =>
      have double : leaves.length = 2 ^ depth + 2 ^ depth := by
        rw [size, Nat.pow_succ, Nat.mul_two]
      have left : (leaves.take (2 ^ depth)).length = 2 ^ depth := by
        rw [List.length_take]
        omega
      have right : (leaves.drop (2 ^ depth)).length = 2 ^ depth := by
        rw [List.length_drop]
        omega
      have halves : climb join hash depth leaves =
          climb join hash depth (leaves.take (2 ^ depth)) ++
            climb join hash depth (leaves.drop (2 ^ depth)) := by
        rw [← @climb_append _ _ _ _ depth 1 _ _ (by rw [left, Nat.mul_one]),
          List.take_append_drop]
      rw [climb_succ, halves, ih left, ih right]
      rfl

/-- Levels over a power of two have no odd last node. -/
theorem levelUp_eq_joinNeighbours {leaves : List Leaf} {half : Nat}
    (even : leaves.length = 2 * half) :
    levelUp join hash leaves =
      joinNeighbours (fun left right => hash (join left right)) leaves := by
  induction half generalizing leaves with
  | zero =>
      rw [List.length_eq_zero_iff.mp even]
      rfl
  | succ half ih =>
      match leaves with
      | a :: b :: rest =>
          simp only [List.length_cons] at even
          have restEven : rest.length = 2 * half := by omega
          rw [joinNeighbours, ← ih restEven]
          rfl
      | [] | [_] =>
          simp only [List.length_cons, List.length_nil] at even
          omega

theorem rootWithin_of_climb
    {depth : Nat} {leaves : List Leaf} {root : Leaf}
    (size : leaves.length = 2 ^ depth)
    (climbed : climb join hash depth leaves = [root]) :
    rootWithin (fun left right => hash (join left right)) depth leaves =
      some root := by
  induction depth generalizing leaves with
  | zero =>
      rw [climb] at climbed
      rw [climbed]
      rfl
  | succ depth ih =>
      have even : leaves.length = 2 * 2 ^ depth := by
        rw [size, Nat.pow_succ, Nat.mul_comm]
      have positive : 0 < 2 ^ depth := Nat.two_pow_pos depth
      rcases leaves with _ | ⟨first, _ | ⟨second, rest⟩⟩
      · simp only [List.length_nil] at even
        omega
      · simp only [List.length_cons, List.length_nil] at even
        omega
      · rw [rootWithin, ← levelUp_eq_joinNeighbours even]
        · exact ih (by rw [length_levelUp, even]; omega) climbed
        · intro node single
          cases single

end Levels

section Path

variable {Node : Type} (join : Node → Node → Node)

/-- The node next to the leftmost one of every level, from the leaves up. -/
def leftSiblings : (rounds : Nat) → List Node → List Node
  | rounds + 1, left :: sibling :: rest =>
    sibling ::
      leftSiblings rounds (joinNeighbours join (left :: sibling :: rest))
  | _, _ => []

/-- The path of the first leaf in a tree of any width. -/
def leftPath (nodes : List Node) : List Node :=
  leftSiblings join nodes.length nodes

variable {join}

/-- The path of the first leaf leads to the root. -/
theorem foldl_leftSiblings
    {rounds : Nat} {first root : Node} {rest : List Node}
    (found : rootWithin join rounds (first :: rest) = some root) :
    (leftSiblings join rounds (first :: rest)).foldl join first = root := by
  induction rounds generalizing first rest with
  | zero =>
      cases rest with
      | nil => exact Option.some.inj found
      | cons => cases found
  | succ rounds ih =>
      cases rest with
      | nil => exact Option.some.inj found
      | cons sibling rest => exact ih found

/-- There are at most as many levels as it takes to halve the nodes down to
one. -/
theorem length_leftSiblings_le
    {rounds levels : Nat} {nodes : List Node}
    (size : nodes.length ≤ 2 ^ levels) :
    (leftSiblings join rounds nodes).length ≤ levels := by
  induction rounds generalizing nodes levels with
  | zero => exact Nat.zero_le levels
  | succ rounds ih =>
      match nodes with
      | [] | [_] => exact Nat.zero_le levels
      | left :: sibling :: rest =>
          have length := @length_joinNeighbours _ join (left :: sibling :: rest)
          simp only [List.length_cons] at size length
          obtain ⟨lower, rfl⟩ : ∃ lower, levels = lower + 1 := by
            apply Nat.exists_eq_succ_of_ne_zero
            rintro rfl
            rw [Nat.pow_zero] at size
            omega
          rw [Nat.pow_succ] at size
          rw [leftSiblings, List.length_cons]
          exact Nat.succ_le_succ (ih (by omega))

theorem length_leftSiblings
    {depth : Nat} {nodes : List Node} (size : nodes.length = 2 ^ depth) :
    (leftSiblings join depth nodes).length = depth := by
  induction depth generalizing nodes with
  | zero => rfl
  | succ depth ih =>
      have positive : 0 < 2 ^ depth := Nat.two_pow_pos depth
      rw [Nat.pow_succ] at size
      match nodes with
      | left :: sibling :: rest =>
          have length := @length_joinNeighbours _ join (left :: sibling :: rest)
          rw [leftSiblings, List.length_cons, ih]
          omega
      | [] | [_] =>
          simp only [List.length_cons, List.length_nil] at size
          omega

end Path

end BlockTemplate.Merkle
