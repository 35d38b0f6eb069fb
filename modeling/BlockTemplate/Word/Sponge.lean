import Mathlib.Logic.Function.Basic

/-!
# Sponges

Blocks are mixed into a state one after the other, and the state is permuted
after each of them.  A permutation loses nothing, so that a collision of whole
states takes more than one block.
-/

namespace BlockTemplate.Sponge

variable {State Block : Type} (mix : State → Block → State)
  (permute : State → State)

def absorb (state : State) (blocks : List Block) : State :=
  blocks.foldl (fun state block => permute (mix state block)) state

variable {mix permute}

theorem absorb_concat (state : State) (blocks : List Block) (block : Block) :
    absorb mix permute state (blocks ++ [block]) =
      permute (mix (absorb mix permute state blocks) block) := by
  simp [absorb]

theorem absorb_inj (permutes : Function.Injective permute)
    (mixes : ∀ block, Function.Injective (mix · block))
    {blocks : List Block} {state other : State}
    (same : absorb mix permute state blocks =
      absorb mix permute other blocks) : state = other := by
  induction blocks generalizing state other with
  | nil => exact same
  | cons block blocks induction =>
      exact mixes block (permutes (induction same))

/-- Blocks that differ in one place only lead to different states. -/
theorem absorb_one_block (permutes : Function.Injective permute)
    (mixes : ∀ block, Function.Injective (mix · block))
    {whole : Block → Prop}
    (mixesWhole : ∀ state first second, whole first → whole second →
      mix state first = mix state second → first = second)
    {first second : List Block} (firstWhole : ∀ block ∈ first, whole block)
    (secondWhole : ∀ block ∈ second, whole block)
    (length : first.length = second.length) {place : Nat}
    (others : ∀ i, i ≠ place → first[i]? = second[i]?) {state : State}
    (same : absorb mix permute state first =
      absorb mix permute state second) : first = second := by
  induction first generalizing second place state with
  | nil => exact (List.length_eq_zero_iff.mp length.symm).symm
  | cons block blocks induction =>
      cases second with
      | nil => exact absurd length (Nat.succ_ne_zero _)
      | cons block' blocks' =>
          obtain ⟨here, firstRest⟩ := List.forall_mem_cons.mp firstWhole
          obtain ⟨here', secondRest⟩ := List.forall_mem_cons.mp secondWhole
          cases place with
          | zero =>
              have rest : blocks = blocks' :=
                List.ext_getElem? fun i => others (i + 1) (Nat.succ_ne_zero i)
              subst rest
              have mixed := permutes (absorb_inj permutes mixes same)
              rw [mixesWhole state block block' here here' mixed]
          | succ place =>
              have head : block = block' := by
                simpa using others 0 (Nat.succ_ne_zero place).symm
              subst head
              have rest : blocks = blocks' := by
                have step := @induction blocks' firstRest secondRest
                  (Nat.succ.inj length) place
                refine step ?_ same
                intro i apart
                exact others (i + 1) (fun equal => apart (Nat.succ.inj equal))
              rw [rest]

end BlockTemplate.Sponge
