import Mathlib.Data.BitVec

/-!
# Lanes

Words side by side: sums of rotated words, where the sum is the exclusive or,
and lanes that move one place along a path while each of them is changed.
-/

namespace BlockTemplate.Lanes

variable {Lane : Type} {size : Nat}

theorem get_set (lanes : Vector Lane size) (i j : Fin size) (lane : Lane) :
    (lanes.set i lane).get j = if i = j then lane else lanes.get j := by
  simp only [Fin.ext_iff]
  exact Vector.getElem_set i.isLt j.isLt

section Sums

variable {width : Nat}

theorem xor_across {a b c d : BitVec width} (same : a ^^^ c = b ^^^ d) :
    a ^^^ b = c ^^^ d :=
  calc a ^^^ b = (a ^^^ c) ^^^ (c ^^^ b) := by
        rw [BitVec.xor_assoc, ← BitVec.xor_assoc c, BitVec.xor_self,
          BitVec.zero_xor]
    _ = (b ^^^ d) ^^^ (c ^^^ b) := by rw [same]
    _ = (b ^^^ b) ^^^ (c ^^^ d) := by ac_rfl
    _ = c ^^^ d := by rw [BitVec.xor_self, BitVec.zero_xor]

theorem rotateLeft_rotateLeft (x : BitVec width) (first second : Nat) :
    (x.rotateLeft first).rotateLeft second = x.rotateLeft (first + second) := by
  apply BitVec.eq_of_getMsbD_eq
  intro i inside
  have positive : 0 < width := Nat.zero_lt_of_lt inside
  simp only [BitVec.getMsbD_rotateLeft, inside, decide_true, Bool.true_and,
    Nat.mod_lt _ positive]
  congr 1
  rw [Nat.add_mod_mod, Nat.add_assoc]

theorem rotateLeft_xor (x y : BitVec width) (turn : Nat) :
    (x ^^^ y).rotateLeft turn = x.rotateLeft turn ^^^ y.rotateLeft turn := by
  apply BitVec.eq_of_getMsbD_eq
  intro i inside
  simp [BitVec.getMsbD_rotateLeft, inside]

theorem rotateLeft_width (x : BitVec width) : x.rotateLeft width = x := by
  apply BitVec.eq_of_getMsbD_eq
  intro i inside
  simp [BitVec.getMsbD_rotateLeft, inside, Nat.mod_eq_of_lt inside]

theorem rotateLeft_inj {x y : BitVec width} {turn : Nat}
    (same : x.rotateLeft turn = y.rotateLeft turn) : x = y := by
  have whole (z : BitVec width) :
      (z.rotateLeft turn).rotateLeft (width - turn % width) = z := by
    rw [← BitVec.rotateLeft_mod_eq_rotateLeft (r := turn),
      rotateLeft_rotateLeft]
    rcases Nat.eq_zero_or_pos width with rfl | positive
    · exact BitVec.eq_of_getMsbD_eq fun i inside => absurd inside (by simp)
    · rw [Nat.add_sub_cancel' (Nat.mod_lt _ positive).le, rotateLeft_width]
  rw [← whole x, ← whole y, same]

variable {p : Nat → BitVec width} {first second turn : Nat}

/-- A sum of two operators that commute, applied twice: the mixed terms cancel
each other. -/
theorem sum_twice
    (sum : ∀ i, p i = p (i + first) ^^^ (p (i + second)).rotateLeft turn)
    (i : Nat) :
    p i = p (i + 2 * first) ^^^
      (p (i + 2 * second)).rotateLeft (2 * turn) := by
  have left := sum (i + first)
  have right := sum (i + second)
  rw [show i + first + second = i + second + first by omega] at left
  rw [sum i, left, right, rotateLeft_xor, rotateLeft_rotateLeft,
    BitVec.xor_assoc, ← BitVec.xor_assoc (BitVec.rotateLeft _ turn),
    BitVec.xor_self, BitVec.zero_xor]
  simp only [Nat.two_mul, Nat.add_assoc]

theorem sum_doubled
    (sum : ∀ i, p i = p (i + first) ^^^ (p (i + second)).rotateLeft turn)
    (times : Nat) :
    ∀ i, p i = p (i + 2 ^ times * first) ^^^
      (p (i + 2 ^ times * second)).rotateLeft (2 ^ times * turn) := by
  induction times with
  | zero => simpa using sum
  | succ times induction =>
      intro i
      have doubled := sum_twice induction i
      simpa only [← Nat.mul_assoc, ← Nat.pow_succ'] using doubled

end Sums

section Path

/-- Each step puts the lane that is carried at its place and carries on with
the lane that was there. -/
def carryLane (carried : Vector Lane size × Lane)
    (step : Fin size × (Lane → Lane)) : Vector Lane size × Lane :=
  (carried.1.set step.1 (step.2 carried.2), carried.1.get step.1)

theorem carryLane_inj {step : Fin size × (Lane → Lane)}
    (turns : Function.Injective step.2)
    {carried other : Vector Lane size × Lane}
    (same : carryLane carried step = carryLane other step) :
    carried = other := by
  obtain ⟨lanes, lane⟩ := carried
  obtain ⟨lanes', lane'⟩ := other
  obtain ⟨written, replaced⟩ := Prod.mk.inj same
  have entry (i : Fin size) := congrArg (·.get i) written
  simp only [get_set] at entry
  refine Prod.ext (Vector.ext fun i inside => ?_) (turns ?_)
  · by_cases here : step.1 = ⟨i, inside⟩
    · have stayed := replaced
      rw [here] at stayed
      exact stayed
    · have stayed := entry ⟨i, inside⟩
      rw [if_neg here, if_neg here] at stayed
      exact stayed
  · simpa using entry step.1

theorem carryLanes_inj {path : List (Fin size × (Lane → Lane))}
    (turns : ∀ step ∈ path, Function.Injective step.2)
    {carried other : Vector Lane size × Lane}
    (same : path.foldl carryLane carried = path.foldl carryLane other) :
    carried = other := by
  induction path generalizing carried other with
  | nil => exact same
  | cons step path induction =>
      obtain ⟨turn, others⟩ := List.forall_mem_cons.mp turns
      exact carryLane_inj turn (induction others same)

/-- Lanes beside the path stay. -/
theorem carryLanes_beside {path : List (Fin size × (Lane → Lane))}
    {place : Fin size} (beside : place ∉ path.map Prod.fst)
    (carried : Vector Lane size × Lane) :
    (path.foldl carryLane carried).1.get place = carried.1.get place := by
  induction path generalizing carried with
  | nil => rfl
  | cons step path induction =>
      rw [List.map_cons, List.mem_cons, not_or] at beside
      rw [List.foldl_cons, induction beside.2]
      simp [carryLane, get_set, Ne.symm beside.1]

/-- A path that ends where it takes its first lane permutes the lanes. -/
theorem path_inj {start middle : List (Fin size × (Lane → Lane))}
    {place : Fin size} {turn : Lane → Lane} {next : Fin size × (Lane → Lane)}
    (path : next :: middle = start ++ [(place, turn)])
    (turns : ∀ step ∈ next :: middle, Function.Injective step.2)
    (unvisited : place ∉ start.map Prod.fst)
    (unchanged : next.1 ∉ middle.map Prod.fst)
    {lanes other : Vector Lane size}
    (same : ((next :: middle).foldl carryLane (lanes, lanes.get place)).1 =
      ((next :: middle).foldl carryLane (other, other.get place)).1) :
    lanes = other := by
  have first (lanes : Vector Lane size) :
      ((next :: middle).foldl carryLane (lanes, lanes.get place)).1.get
        next.1 = next.2 (lanes.get place) := by
    rw [List.foldl_cons, carryLanes_beside unchanged]
    simp [carryLane, get_set]
  have last (lanes : Vector Lane size) :
      ((next :: middle).foldl carryLane (lanes, lanes.get place)).2 =
        lanes.get place := by
    rw [path, List.foldl_concat]
    exact carryLanes_beside unvisited _
  have taken : lanes.get place = other.get place := by
    apply turns next List.mem_cons_self
    rw [← first lanes, ← first other, same]
  have whole := carryLanes_inj turns (Prod.ext same (by
    rw [last, last, taken]))
  exact congrArg Prod.fst whole

end Path

end BlockTemplate.Lanes
