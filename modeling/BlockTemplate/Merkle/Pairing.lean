import Mathlib.Algebra.Order.Ring.Nat
import Mathlib.Data.List.Basic
import Mathlib.Logic.Function.Basic

/-!
# Hashing a list pair by pair

One level of a hash tree joins consecutive elements and hashes each pair.
Equal results of two levels of the same size come from equal lists, or from
two different nodes with one hash; the same holds of a tower of levels.
-/

namespace BlockTemplate.Merkle

variable {Leaf Node : Type} (join : Leaf → Leaf → Node) (hash : Node → Leaf)

/-- The nodes of one level: consecutive elements, joined. -/
def joinPairs : List Leaf → List Node
  | first :: second :: rest => join first second :: joinPairs rest
  | _ => []

/-- One level of the tree. -/
def levelUp (leaves : List Leaf) : List Leaf :=
  (joinPairs join leaves).map hash

/-- `depth` levels of the tree. -/
def climb : Nat → List Leaf → List Leaf
  | 0, leaves => leaves
  | depth + 1, leaves => climb depth (levelUp join hash leaves)

/-- The nodes that are hashed on the way up. -/
def climbed : Nat → List Leaf → List Node
  | 0, _ => []
  | depth + 1, leaves =>
    joinPairs join leaves ++ climbed depth (levelUp join hash leaves)

/-- Two different nodes, one of each list, with one hash. -/
def Collision (first second : List Node) : Prop :=
  ∃ x ∈ first, ∃ y ∈ second, x ≠ y ∧ hash x = hash y

variable {join hash}

theorem Collision.mono
    {first second firstMore secondMore : List Node}
    (collision : Collision hash first second)
    (firstSub : first ⊆ firstMore) (secondSub : second ⊆ secondMore) :
    Collision hash firstMore secondMore := by
  obtain ⟨x, xMember, y, yMember, different, same⟩ := collision
  exact ⟨x, firstSub xMember, y, secondSub yMember, different, same⟩

theorem eq_or_collision
    {first second : List Node}
    (same : first.map hash = second.map hash) :
    first = second ∨ Collision hash first second := by
  induction first generalizing second with
  | nil =>
      left
      exact (List.map_eq_nil_iff.mp same.symm).symm
  | cons x first ih =>
      cases second with
      | nil => cases same
      | cons y second =>
          rw [List.map_cons, List.map_cons, List.cons.injEq] at same
          rcases ih same.2 with rest | collision
          · by_cases equal : x = y
            · left
              rw [equal, rest]
            · right
              exact ⟨x, List.mem_cons_self, y, List.mem_cons_self, equal,
                same.1⟩
          · right
            exact collision.mono (List.subset_cons_self _ _)
              (List.subset_cons_self _ _)

theorem length_joinPairs (leaves : List Leaf) :
    (joinPairs join leaves).length = leaves.length / 2 := by
  induction leaves using joinPairs.induct with
  | case1 first second rest ih =>
      rw [joinPairs, List.length_cons, ih, List.length_cons, List.length_cons]
      omega
  | case2 leaves short =>
      cases leaves with
      | nil => simp [joinPairs]
      | cons first rest =>
          cases rest with
          | nil => simp [joinPairs]
          | cons second rest => exact (short first second rest rfl).elim

@[simp]
theorem length_levelUp (leaves : List Leaf) :
    (levelUp join hash leaves).length = leaves.length / 2 := by
  rw [levelUp, List.length_map, length_joinPairs]

theorem joinPairs_inj
    (injective : Function.Injective2 join)
    {first second : List Leaf} {half : Nat}
    (firstSize : first.length = 2 * half)
    (secondSize : second.length = 2 * half)
    (same : joinPairs join first = joinPairs join second) :
    first = second := by
  induction half generalizing first second with
  | zero =>
      rw [List.length_eq_zero_iff.mp firstSize,
        List.length_eq_zero_iff.mp secondSize]
  | succ half ih =>
      match first, second with
      | a :: b :: first, c :: d :: second =>
          simp only [joinPairs, List.cons.injEq] at same
          obtain ⟨rfl, rfl⟩ := injective same.1
          simp only [List.length_cons] at firstSize secondSize
          rw [ih (by omega) (by omega) same.2]
      | [], _ | [_], _ =>
          simp only [List.length_cons, List.length_nil] at firstSize
          omega
      | _ :: _ :: _, [] | _ :: _ :: _, [_] =>
          simp only [List.length_cons, List.length_nil] at secondSize
          omega

theorem climb_succ (depth : Nat) (leaves : List Leaf) :
    climb join hash (depth + 1) leaves =
      levelUp join hash (climb join hash depth leaves) := by
  induction depth generalizing leaves with
  | zero => rfl
  | succ depth ih => exact ih (levelUp join hash leaves)

theorem climbed_succ (depth : Nat) (leaves : List Leaf) :
    climbed join hash (depth + 1) leaves =
      climbed join hash depth leaves ++
        joinPairs join (climb join hash depth leaves) := by
  induction depth generalizing leaves with
  | zero => simp [climbed, climb]
  | succ depth ih =>
      rw [climbed, ih, climbed, climb, List.append_assoc]

theorem length_climb {depth : Nat} {leaves : List Leaf} (rest : Nat)
    (size : leaves.length = 2 ^ (depth + rest)) :
    (climb join hash depth leaves).length = 2 ^ rest := by
  induction depth generalizing leaves with
  | zero => simpa [climb] using size
  | succ depth ih =>
      apply ih
      rw [length_levelUp, size, Nat.add_right_comm, Nat.pow_succ]
      omega

/-- A level binds the list under it. -/
theorem levelUp_inj
    (injective : Function.Injective2 join)
    {first second : List Leaf} {half : Nat}
    (firstSize : first.length = 2 * half)
    (secondSize : second.length = 2 * half)
    (same : levelUp join hash first = levelUp join hash second) :
    first = second ∨
      Collision hash (joinPairs join first) (joinPairs join second) :=
  (eq_or_collision same).imp_left
    (joinPairs_inj injective firstSize secondSize)

/-- A tower of levels over a power of two binds the list under it. -/
theorem climb_inj
    (injective : Function.Injective2 join)
    {depth : Nat} {first second : List Leaf}
    (firstSize : first.length = 2 ^ depth)
    (secondSize : second.length = 2 ^ depth)
    (same : climb join hash depth first = climb join hash depth second) :
    first = second ∨
      Collision hash (climbed join hash depth first)
        (climbed join hash depth second) := by
  induction depth generalizing first second with
  | zero => exact .inl same
  | succ depth ih =>
      have half : 2 ^ (depth + 1) = 2 * 2 ^ depth := by
        rw [Nat.pow_succ, Nat.mul_comm]
      have upper := ih
        (by rw [length_levelUp, firstSize]; omega)
        (by rw [length_levelUp, secondSize]; omega) same
      rcases upper with equal | collision
      · exact (levelUp_inj injective (firstSize.trans half)
          (secondSize.trans half) equal).imp_right fun collision =>
            collision.mono (List.subset_append_left _ _)
              (List.subset_append_left _ _)
      · exact .inr (collision.mono (List.subset_append_right _ _)
          (List.subset_append_right _ _))

end BlockTemplate.Merkle
