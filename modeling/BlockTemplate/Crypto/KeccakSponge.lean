import BlockTemplate.Crypto.Keccak
import BlockTemplate.Word.Lanes
import BlockTemplate.Word.Sponge
import Mathlib.Data.Finite.Prod
import Mathlib.Tactic.IntervalCases

/-!
# Keccak as a sponge

Every step of `keccakf` can be undone, so that the states of the sponge only
forget bytes of the input where two blocks work together.
-/

namespace BlockTemplate.Keccak

open Lanes

private theorem get_eq_lane (st : State) (k : Fin 25) :
    st.get k = lane st (k / 5) k := by
  unfold lane
  congr 1
  apply Fin.ext
  rw [Fin.val_ofNat, Nat.div_add_mod, Nat.mod_eq_of_lt k.isLt]

private theorem lane_mod (st : State) (row column : Nat) :
    lane st row (column % 5) = lane st row column := by
  simp [lane]

private theorem ext_lanes {st other : State}
    (same : ∀ row < 5, ∀ column < 5,
      lane st row column = lane other row column) : st = other := by
  apply Vector.ext
  intro i inside
  change st.get ⟨i, inside⟩ = other.get ⟨i, inside⟩
  rw [get_eq_lane, get_eq_lane, ← lane_mod, ← lane_mod other]
  exact same _ (Nat.div_lt_of_lt_mul inside) _ (Nat.mod_lt _ (by decide))

private theorem lane_ofFn (entry : Fin 25 → BitVec 64) (row column : Nat) :
    lane (.ofFn entry) row column =
      entry (Fin.ofNat 25 (5 * row + column % 5)) :=
  Vector.getElem_ofFn _

/-- `bc[i]` of theta. -/
def parity (st : State) (column : Nat) : BitVec 64 :=
  lane st 0 column ^^^ lane st 1 column ^^^ lane st 2 column ^^^
    lane st 3 column ^^^ lane st 4 column

private theorem parity_mod (st : State) (column : Nat) :
    parity st (column % 5) = parity st column := by
  simp [parity, lane_mod]

/-- The place of a lane has the row and the column of the lane. -/
theorem place_of_lane {row : Nat} (inside : row < 5) (column : Nat) :
    (Fin.ofNat 25 (5 * row + column % 5)).val / 5 = row ∧
      (Fin.ofNat 25 (5 * row + column % 5)).val % 5 = column % 5 := by
  rw [Fin.val_ofNat]
  omega

private theorem lane_theta (st : State) {row : Nat} (inside : row < 5)
    (column : Nat) :
    lane (theta st) row column = lane st row column ^^^
      (parity st (column + 4) ^^^
        (parity st (column + 1)).rotateLeft 1) := by
  unfold theta
  rw [lane_ofFn]
  obtain ⟨-, place⟩ := place_of_lane inside column
  have next (step : Nat) :
      parity st ((Fin.ofNat 25 (5 * row + column % 5)).val + step) =
        parity st (column + step) := by
    rw [← parity_mod, Nat.add_mod, place, ← Nat.add_mod, parity_mod]
  change lane st row column ^^^ (parity st (_ + 4) ^^^
    (parity st (_ + 1)).rotateLeft 1) = _
  rw [next, next]

/-- A word that is the sum of both neighbours in a ring of five is zero. -/
theorem zero_of_neighbours {p : Nat → BitVec 64}
    (ring : ∀ i, p (i + 5) = p i) (sum : ∀ i, p i = p (i + 1) ^^^ p (i + 4))
    (i : Nat) : p i = 0 := by
  have next (i : Nat) : p (i + 2) = p (i + 1) ^^^ p i := by
    rw [sum (i + 1), ring, BitVec.xor_assoc, BitVec.xor_self,
      BitVec.xor_zero]
  have third (i : Nat) : p (i + 3) = p i := by
    rw [next (i + 1), next i, BitVec.xor_comm, ← BitVec.xor_assoc,
      BitVec.xor_self, BitVec.zero_xor]
  have first : p (i + 1) = p i := by
    rw [← ring, ← third i, ← third (i + 3)]
  rw [sum i, third (i + 1), BitVec.xor_self]
  rfl

private theorem theta_inj {st other : State} (same : theta st = theta other) :
    st = other := by
  let p (i : Nat) := parity st i ^^^ parity other i
  have ring (i : Nat) : p (i + 5) = p i := by
    simp only [p]
    rw [← parity_mod, ← parity_mod other, Nat.add_mod_right, parity_mod,
      parity_mod]
  have lanes {row : Nat} (inside : row < 5) (column : Nat) :
      lane st row column ^^^ lane other row column =
        p (column + 4) ^^^ (p (column + 1)).rotateLeft 1 := by
    have equal := congrArg (lane · row column) same
    simp only [lane_theta _ inside] at equal
    simp only [p, rotateLeft_xor]
    rw [xor_across equal]
    ac_rfl
  have sum (i : Nat) : p i = p (i + 4) ^^^ (p (i + 1)).rotateLeft 1 := by
    have parities : p i = (lane st 0 i ^^^ lane other 0 i) ^^^
        (lane st 1 i ^^^ lane other 1 i) ^^^
        (lane st 2 i ^^^ lane other 2 i) ^^^
        (lane st 3 i ^^^ lane other 3 i) ^^^
        (lane st 4 i ^^^ lane other 4 i) := by
      simp only [p, parity]
      ac_rfl
    rw [parities]
    simp only [lanes, Nat.reduceLT, BitVec.xor_self, BitVec.zero_xor]
  have zero (i : Nat) : p i = 0 := by
    apply zero_of_neighbours ring
    intro i
    have whole := sum_doubled sum 6 i
    have turned (place turn : Nat) : p (place + 5 * turn) = p place := by
      induction turn with
      | zero => rfl
      | succ turn induction => rw [Nat.mul_succ, ← Nat.add_assoc, ring, induction]
    rw [whole, show i + 2 ^ 6 * 4 = i + 1 + 5 * 51 by omega,
      show i + 2 ^ 6 * 1 = i + 4 + 5 * 12 by omega, turned, turned,
      show 2 ^ 6 * 1 = 64 from rfl, rotateLeft_width]
  apply ext_lanes
  intro row inside column _
  have apart := lanes inside column
  rw [zero, zero] at apart
  simpa using apart

/-- The places of rho and pi, with the rotation on the way to each. -/
def rhoPath : List (Fin 25 × (BitVec 64 → BitVec 64)) :=
  (keccakfPiln.zip keccakfRotc).map fun (j, rotation) =>
    (j, fun t => t.rotateLeft rotation)

private theorem rhoPi_eq (st : State) :
    rhoPi st = (rhoPath.foldl carryLane (st, st.get 1)).1 := by
  rw [rhoPath, List.foldl_map]
  rfl

private theorem rhoPi_inj {st other : State} (same : rhoPi st = rhoPi other) :
    st = other := by
  rw [rhoPi_eq, rhoPi_eq] at same
  have turns : ∀ step ∈ rhoPath, Function.Injective step.2 := by
    intro step member
    obtain ⟨⟨j, rotation⟩, -, rfl⟩ := List.mem_map.mp member
    exact fun _ _ => rotateLeft_inj
  have path : rhoPath = rhoPath.dropLast ++ [(1, fun t => t.rotateLeft 44)] :=
    rfl
  exact path_inj path turns (by decide) (by decide) same

private theorem lane_chi (st : State) {row : Nat} (inside : row < 5)
    (column : Nat) :
    lane (chi st) row column = lane st row column ^^^
      (~~~(lane st row (column + 1)) &&& lane st row (column + 2)) := by
  unfold chi
  rw [lane_ofFn]
  obtain ⟨placeRow, place⟩ := place_of_lane inside column
  have next (step : Nat) :
      lane st row ((Fin.ofNat 25 (5 * row + column % 5)).val + step) =
        lane st row (column + step) := by
    rw [← lane_mod, Nat.add_mod, place, ← Nat.add_mod, lane_mod]
  change lane st row column ^^^
    (~~~(lane st (_ / 5) (_ + 1)) &&& lane st (_ / 5) (_ + 2)) = _
  rw [placeRow, next, next]

/-- Five bits in a ring, each changed by the two that follow it. -/
theorem chi_bits_inj : ∀ a b c d e a' b' c' d' e' : Bool,
    (a ^^ (!b && c)) = (a' ^^ (!b' && c')) →
    (b ^^ (!c && d)) = (b' ^^ (!c' && d')) →
    (c ^^ (!d && e)) = (c' ^^ (!d' && e')) →
    (d ^^ (!e && a)) = (d' ^^ (!e' && a')) →
    (e ^^ (!a && b)) = (e' ^^ (!a' && b')) →
      a = a' ∧ b = b' ∧ c = c' ∧ d = d' ∧ e = e' := by
  decide

private theorem chi_inj {st other : State} (same : chi st = chi other) :
    st = other := by
  apply ext_lanes
  intro row inside column small
  apply BitVec.eq_of_getLsbD_eq
  intro i valid
  have bits (column : Nat) :=
    congrArg (fun st => (lane st row column).getLsbD i) same
  simp only [lane_chi _ inside, BitVec.getLsbD_xor, BitVec.getLsbD_and,
    BitVec.getLsbD_not, valid, decide_true, Bool.true_and] at bits
  have around (step : Nat) (st : State) :
      lane st row (5 + step) = lane st row step := by
    rw [← lane_mod, Nat.add_mod_left, lane_mod]
  have third := bits 3
  have fourth := bits 4
  simp only [Nat.reduceAdd, around 0, around 1] at third fourth
  obtain ⟨first, second, third, fourth, fifth⟩ :=
    chi_bits_inj _ _ _ _ _ _ _ _ _ _ (bits 0) (bits 1) (bits 2) third fourth
  interval_cases column <;> assumption

private theorem iota_inj {rndc : BitVec 64} {st other : State}
    (same : iota rndc st = iota rndc other) : st = other := by
  have get_iota (st : State) (k : Fin 25) :
      (iota rndc st).get k = if 0 = k then st.get 0 ^^^ rndc else st.get k :=
    get_set st 0 k _
  apply Vector.ext
  intro i inside
  have here := congrArg (·.get ⟨i, inside⟩) same
  simp only [get_iota] at here
  by_cases first : 0 = (⟨i, inside⟩ : Fin 25)
  · rw [if_pos first, if_pos first, BitVec.xor_left_inj, first] at here
    exact here
  · rw [if_neg first, if_neg first] at here
    exact here

private theorem keccakf_inj {rounds : Fin 25} {st other : State}
    (same : keccakf st rounds = keccakf other rounds) : st = other := by
  unfold keccakf at same
  generalize keccakfRndc.take rounds = constants at same
  induction constants generalizing st other with
  | nil => exact same
  | cons rndc rest induction =>
      rw [List.foldl_cons, List.foldl_cons] at same
      have step := induction same
      exact theta_inj (rhoPi_inj (chi_inj (iota_inj step)))

instance finiteLane : Finite (BitVec 64) :=
  Finite.of_injective BitVec.toFin fun _ _ => BitVec.eq_of_toFin_eq

instance finiteState : Finite State :=
  Finite.of_injective (fun st : State => fun k => st.get k) fun _ _ same =>
    Vector.ext fun i inside => congrFun same ⟨i, inside⟩

/-- The steps of a round are permutations of the states, and so is any number of
rounds. -/
theorem keccakf_bijective (rounds : Fin 25) :
    Function.Bijective theta ∧ Function.Bijective rhoPi ∧
      Function.Bijective chi ∧ (∀ rndc, Function.Bijective (iota rndc)) ∧
      Function.Bijective (keccakf · rounds) := by
  have permutes {step : State → State} (injective : Function.Injective step) :
      Function.Bijective step :=
    Finite.injective_iff_bijective.mp injective
  refine ⟨permutes fun _ _ => theta_inj, permutes fun _ _ => rhoPi_inj,
    permutes fun _ _ => chi_inj, fun rndc => permutes fun _ _ => iota_inj, ?_⟩
  exact permutes fun _ _ => keccakf_inj

/-- So many full blocks of the input. -/
def fullBlocks : Nat → Bytes → List Bytes
  | 0, _ => []
  | blocks + 1, data =>
    data.take hashDataArea :: fullBlocks blocks (data.drop hashDataArea)

/-- All blocks that the input is absorbed in. -/
def paddedBlocks (data : Bytes) : List Bytes :=
  let blocks := data.length / hashDataArea
  fullBlocks blocks data ++ [lastBlock (data.drop (hashDataArea * blocks))]

private theorem getElem?_fullBlocks (blocks : Nat) (data : Bytes) (i : Nat) :
    (fullBlocks blocks data)[i]? =
      if i < blocks then
        some ((data.drop (hashDataArea * i)).take hashDataArea)
      else none := by
  induction blocks generalizing data i with
  | zero => simp [fullBlocks]
  | succ blocks induction =>
      cases i with
      | zero => simp [fullBlocks]
      | succ i =>
          rw [fullBlocks, List.getElem?_cons_succ, induction]
          simp [List.drop_drop, Nat.mul_succ, Nat.add_comm]

private theorem xorBlock_take (st : State) (data : Bytes) :
    xorBlock st (data.take hashDataArea) = xorBlock st data := by
  unfold xorBlock
  congr 1
  funext i
  split
  next inside =>
    have room : 8 ≤ hashDataArea - 8 * i.val := by
      rw [hashDataArea] at *
      omega
    rw [List.drop_take, List.take_take, Nat.min_eq_left room]
  next => rfl

private theorem keccakLoop_eq (blocks : Nat) (st : State) (data : Bytes) :
    keccakLoop blocks st data =
      (Sponge.absorb xorBlock (keccakf · keccakRounds) st
        (fullBlocks blocks data), data.drop (hashDataArea * blocks)) := by
  induction blocks generalizing st data with
  | zero => rfl
  | succ blocks induction =>
      rw [keccakLoop, induction, List.drop_drop, Nat.mul_succ, Nat.add_comm,
        fullBlocks]
      simp only [Sponge.absorb, List.foldl_cons, xorBlock_take]

private theorem keccak1600_eq (data : Bytes) :
    keccak1600 data =
      Sponge.absorb xorBlock (keccakf · keccakRounds) (.replicate 25 0)
        (paddedBlocks data) := by
  unfold keccak1600 paddedBlocks
  rw [keccakLoop_eq, Sponge.absorb_concat]

private theorem get_xorBlock (st : State) (data : Bytes) (i : Fin 25) :
    (xorBlock st data).get i =
      if i < hashDataArea / 8 then
        st.get i ^^^ BitVec.ofNat 64 (leValue ((data.drop (8 * i)).take 8))
      else st.get i :=
  Vector.getElem_ofFn _

private theorem xorBlock_inj_state (data : Bytes) :
    Function.Injective (xorBlock · data) := by
  intro st other same
  apply Vector.ext
  intro i inside
  have here := congrArg (·.get ⟨i, inside⟩) same
  simp only [get_xorBlock] at here
  split at here
  · exact (BitVec.xor_left_inj _).mp here
  · exact here

private theorem eq_of_leValue {first second : Bytes}
    (length : first.length = second.length)
    (same : leValue first = leValue second) : first = second := by
  rw [← leBytes_leValue first, length, same, leBytes_leValue]

private theorem xorBlock_inj_block {st : State} {first second : Bytes}
    (firstWhole : first.length = hashDataArea)
    (secondWhole : second.length = hashDataArea)
    (same : xorBlock st first = xorBlock st second) : first = second := by
  have words (i : Nat) (inside : i < hashDataArea / 8) :
      (first.drop (8 * i)).take 8 = (second.drop (8 * i)).take 8 := by
    have here := congrArg (·.get ⟨i, inside.trans (by decide)⟩) same
    simp only [get_xorBlock, if_pos inside, BitVec.xor_right_inj] at here
    have numbers := congrArg BitVec.toNat here
    have size {data : Bytes} (whole : data.length = hashDataArea) :
        ((data.drop (8 * i)).take 8).length = 8 := by
      rw [List.length_take, List.length_drop, whole, hashDataArea] at *
      omega
    have small {data : Bytes} (whole : data.length = hashDataArea) :
        leValue ((data.drop (8 * i)).take 8) < 2 ^ 64 := by
      have bound := leValue_lt ((data.drop (8 * i)).take 8)
      rw [size whole] at bound
      exact bound
    rw [BitVec.toNat_ofNat, BitVec.toNat_ofNat,
      Nat.mod_eq_of_lt (small firstWhole),
      Nat.mod_eq_of_lt (small secondWhole)] at numbers
    exact eq_of_leValue ((size firstWhole).trans (size secondWhole).symm)
      numbers
  apply List.ext_getElem?
  intro i
  by_cases inside : i < hashDataArea
  · have word := words (i / 8) (by rw [hashDataArea] at *; omega)
    have byte := congrArg (·[i % 8]?) word
    simpa [List.getElem?_take, Nat.mod_lt, Nat.div_add_mod] using byte
  · rw [List.getElem?_eq_none (firstWhole.trans_le (Nat.not_lt.mp inside)),
      List.getElem?_eq_none (secondWhole.trans_le (Nat.not_lt.mp inside))]

section LastBlock

variable {rest : Bytes} (short : rest.length < hashDataArea) {i : Nat}

include short in
private theorem length_lastBlock : (lastBlock rest).length = hashDataArea := by
  rw [hashDataArea] at *
  simp [lastBlock, hashDataArea]
  omega

include short in
private theorem lastBlock_before (inside : i < rest.length) :
    (lastBlock rest)[i]? = rest[i]? := by
  have beforeLast : hashDataArea - 1 ≠ i := by omega
  rw [lastBlock, List.getElem?_modify, List.getElem?_append_left inside]
  simp [beforeLast]

/-- The last bit of the mark of the end. -/
theorem lastBlock_mark (rest : Bytes) :
    (lastBlock rest)[rest.length]?.map (· &&& 1) = some 1 := by
  rw [lastBlock, List.getElem?_modify,
    List.getElem?_append_right (Nat.le_refl _), Nat.sub_self]
  simp only [List.getElem?_cons_zero, Option.map_eq_map, Option.map_some]
  split
  · rfl
  · rfl

private theorem lastBlock_behind (behind : rest.length < i) :
    ∀ byte ∈ (lastBlock rest)[i]?, byte &&& 1 = 0 := by
  intro byte member
  obtain ⟨offset, rfl⟩ := Nat.exists_eq_add_of_lt behind
  rw [lastBlock, List.getElem?_modify,
    List.getElem?_append_right (by omega), Nat.add_assoc,
    Nat.add_sub_cancel_left, List.getElem?_cons_succ] at member
  obtain ⟨padding, zero, rfl⟩ := Option.map_eq_some_iff.mp member
  obtain rfl := List.eq_of_mem_replicate (List.mem_of_getElem? zero)
  split
  · rfl
  · rfl

end LastBlock

private theorem length_le_of_lastBlock {first second : Bytes}
    (same : lastBlock first = lastBlock second) :
    second.length ≤ first.length := by
  by_contra less
  have mark := lastBlock_mark second
  rw [← same] at mark
  obtain ⟨byte, member, bit⟩ := Option.map_eq_some_iff.mp mark
  have clear := lastBlock_behind (Nat.not_le.mp less) byte member
  rw [clear] at bit
  exact absurd bit (by decide)

private theorem lastBlock_inj {first second : Bytes}
    (firstShort : first.length < hashDataArea)
    (secondShort : second.length < hashDataArea)
    (same : lastBlock first = lastBlock second) : first = second := by
  have length : first.length = second.length :=
    Nat.le_antisymm (length_le_of_lastBlock same.symm)
      (length_le_of_lastBlock same)
  apply List.ext_getElem?
  intro i
  by_cases inside : i < first.length
  · rw [← lastBlock_before firstShort inside, same,
      lastBlock_before secondShort (length ▸ inside)]
  · rw [List.getElem?_eq_none (Nat.not_lt.mp inside),
      List.getElem?_eq_none (length ▸ Nat.not_lt.mp inside)]

private theorem whole_fullBlocks {blocks : Nat} {data : Bytes}
    (room : hashDataArea * blocks ≤ data.length) :
    ∀ block ∈ fullBlocks blocks data, block.length = hashDataArea := by
  induction blocks generalizing data with
  | zero => exact fun _ member => absurd member List.not_mem_nil
  | succ blocks induction =>
      rw [Nat.mul_succ] at room
      intro block member
      rcases List.mem_cons.mp member with rfl | member
      · rw [List.length_take]
        omega
      · refine induction ?_ block member
        rw [List.length_drop]
        omega

private theorem length_fullBlocks (blocks : Nat) (data : Bytes) :
    (fullBlocks blocks data).length = blocks := by
  induction blocks generalizing data with
  | zero => rfl
  | succ blocks induction => simp [fullBlocks, induction]

private theorem flatten_fullBlocks (blocks : Nat) (data : Bytes) :
    (fullBlocks blocks data).flatten = data.take (hashDataArea * blocks) := by
  induction blocks generalizing data with
  | zero => simp [fullBlocks]
  | succ blocks induction =>
      rw [fullBlocks, List.flatten_cons, induction, Nat.mul_succ,
        Nat.add_comm, List.take_add]

private theorem short_rest (data : Bytes) :
    (data.drop (hashDataArea * (data.length / hashDataArea))).length <
      hashDataArea := by
  rw [List.length_drop, ← Nat.mod_eq_sub]
  exact Nat.mod_lt _ (by decide)

private theorem whole_paddedBlocks (data : Bytes) :
    ∀ block ∈ paddedBlocks data, block.length = hashDataArea := by
  intro block member
  rcases List.mem_append.mp member with full | last
  · exact whole_fullBlocks (Nat.mul_div_le _ _) block full
  · rw [List.mem_singleton.mp last]
    exact length_lastBlock (short_rest data)

private theorem paddedBlocks_inj {first second : Bytes}
    (same : paddedBlocks first = paddedBlocks second) : first = second := by
  unfold paddedBlocks at same
  obtain ⟨full, last⟩ := List.append_inj' same rfl
  have count : first.length / hashDataArea = second.length / hashDataArea := by
    simpa only [length_fullBlocks] using congrArg List.length full
  have rest := lastBlock_inj (short_rest first) (short_rest second)
    (List.cons.inj last).1
  have front := congrArg List.flatten full
  rw [flatten_fullBlocks, flatten_fullBlocks] at front
  rw [← List.take_append_drop
    (hashDataArea * (first.length / hashDataArea)) first, front, rest,
    List.take_append_drop]

/-- Inputs of as many blocks that differ inside one block only do not even
collide in the whole state. -/
theorem one_block_never_collides {first second : Bytes} {place : Nat}
    (count : first.length / hashDataArea = second.length / hashDataArea)
    (outside : ∀ i, i / hashDataArea ≠ place → first[i]? = second[i]?) :
    keccak1600 first = keccak1600 second ↔ first = second := by
  refine ⟨fun same => ?_, congrArg keccak1600⟩
  rw [keccak1600_eq, keccak1600_eq] at same
  have blocksAgree (blocks : Nat) (apart : blocks ≠ place) :
      (first.drop (hashDataArea * blocks)).take hashDataArea =
        (second.drop (hashDataArea * blocks)).take hashDataArea := by
    apply List.ext_getElem?
    intro i
    rw [List.getElem?_take, List.getElem?_take]
    split
    next inside =>
      rw [List.getElem?_drop, List.getElem?_drop]
      apply outside
      rwa [Nat.mul_add_div (by decide), Nat.div_eq_of_lt inside, Nat.add_zero]
    next => rfl
  have others (i : Nat) (apart : i ≠ place) :
      (paddedBlocks first)[i]? = (paddedBlocks second)[i]? := by
    simp only [paddedBlocks, count]
    rcases Nat.lt_trichotomy i (second.length / hashDataArea) with
      full | rfl | behind
    · rw [List.getElem?_append_left (by rwa [length_fullBlocks]),
        List.getElem?_append_left (by rwa [length_fullBlocks]),
        getElem?_fullBlocks, getElem?_fullBlocks, blocksAgree i apart]
    · have rests := blocksAgree _ apart
      rw [List.take_of_length_le (short_rest second).le, ← count,
        List.take_of_length_le (short_rest first).le] at rests
      rw [List.getElem?_append_right (length_fullBlocks _ _).le,
        List.getElem?_append_right (length_fullBlocks _ _).le,
        length_fullBlocks, length_fullBlocks, ← count, rests]
    · rw [List.getElem?_eq_none, List.getElem?_eq_none]
      all_goals
        rw [List.length_append, length_fullBlocks]
        exact behind
  apply paddedBlocks_inj
  apply Sponge.absorb_one_block (fun _ _ => keccakf_inj) xorBlock_inj_state
    (fun _ _ _ => xorBlock_inj_block) (whole_paddedBlocks first)
    (whole_paddedBlocks second) _ others same
  simp [paddedBlocks, length_fullBlocks, count]

theorem one_block_never_collides_empty :
    keccak1600 [] = keccak1600 [1] ↔ ([] : Bytes) = [1] := by
  apply @one_block_never_collides [] [1] 0 (by decide)
  intro i far
  cases i with
  | zero => exact absurd (by decide) far
  | succ i => rfl

end BlockTemplate.Keccak
