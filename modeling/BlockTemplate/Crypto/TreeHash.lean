import Mathlib.Data.Nat.Log
import BlockTemplate.Merkle.Pairing
import BlockTemplate.Cryptonote.PricingRecord

/-!
# `tree_hash`

`crypto/tree-hash.c`: the Merkle root of a list of hashes.  The first level
joins as many hashes of the end of the list as it takes to leave a power of
two, then the levels are computed in place.  The model keeps the strings that
are hashed on the way, and `treeHash_eq` describes root and strings as a tower
of levels.
-/

namespace BlockTemplate

variable (cnFastHash : Bytes → Hash)

/-- The buffer of a running `tree_hash`, and the strings hashed so far. -/
structure TreeHashState where
  ints : List Hash
  hashed : List Bytes

/-- The 64 bytes that start at `hashes[i]`. -/
def pairAt (hashes : List Hash) (i : Nat) : Bytes :=
  (hashes.getD i default).bytes ++ (hashes.getD (i + 1) default).bytes

/-- `for (; ...; i += 2, ++j) cn_fast_hash(hashes[i], 64, ints[j])`, where the
source is another list or the buffer itself. -/
def hashPairs (source : List Hash → List Hash) :
    Nat → Nat → Nat → TreeHashState → TreeHashState
  | 0, _, _, state => state
  | steps + 1, i, j, state =>
    let data := pairAt (source state.ints) i
    hashPairs source steps (i + 2) (j + 1)
      { ints := state.ints.set j (cnFastHash data)
        hashed := state.hashed ++ [data] }

/-- `while (cnt > 2)`; `cnt` halves, so 64 rounds are enough. -/
def hashLevels : Nat → Nat → TreeHashState → TreeHashState
  | 0, _, state => state
  | rounds + 1, cnt, state =>
    if 2 < cnt then
      hashLevels rounds (cnt >>> 1)
        (hashPairs cnFastHash id (cnt >>> 1) 0 0 state)
    else state

/-- The greatest power of two below `count`, by smearing its highest bit. -/
def greatestPowerBelow (count : BitVec 64) : BitVec 64 :=
  let cnt := count - 1
  let cnt := cnt ||| cnt >>> 1
  let cnt := cnt ||| cnt >>> 2
  let cnt := cnt ||| cnt >>> 4
  let cnt := cnt ||| cnt >>> 8
  let cnt := cnt ||| cnt >>> 16
  let cnt := cnt ||| cnt >>> 32
  cnt &&& ~~~(cnt >>> 1)

/-- `tree_hash`: the root and the strings that were hashed for it.  The
allocation of the buffer is taken to succeed. -/
def treeHash (hashes : List Hash) : Hash × List Bytes :=
  let count := hashes.length
  if count = 1 then
    (hashes.getD 0 default, [])
  else if count = 2 then
    (cnFastHash (pairAt hashes 0), [pairAt hashes 0])
  else
    let cnt := (greatestPowerBelow (BitVec.ofNat 64 count)).toNat
    if (2 ^ 64 - 1) / 32 < cnt then
      (Blob.zero 32, [])
    else
      let kept := 2 * cnt - count
      let ints := hashes.take kept ++ List.replicate (cnt - kept) default
      let state := hashPairs cnFastHash (fun _ => hashes) (cnt - kept) kept
        kept ⟨ints, []⟩
      let state := hashLevels cnFastHash 64 cnt state
      (cnFastHash (pairAt state.ints 0),
        state.hashed ++ [pairAt state.ints 0])

/-- The bits of `x` at and just below position `top` are set, and none above
it. -/
structure Smeared (x : BitVec 64) (top width : Nat) : Prop where
  ones : ∀ i, i ≤ top → top < i + width → x.getLsbD i = true
  zeros : ∀ i, top < i → x.getLsbD i = false

theorem Smeared.step {x : BitVec 64} {top width : Nat}
    (smeared : Smeared x top width) :
    Smeared (x ||| x >>> width) top (width + width) where
  ones := by
    intro i below near
    rw [BitVec.getLsbD_or, BitVec.getLsbD_ushiftRight, Bool.or_eq_true]
    by_cases old : top < i + width
    · exact .inl (smeared.ones i below old)
    · exact .inr (smeared.ones (width + i) (by omega) (by omega))
  zeros := by
    intro i above
    rw [BitVec.getLsbD_or, BitVec.getLsbD_ushiftRight,
      smeared.zeros i above, smeared.zeros (width + i) (by omega)]
    rfl

private theorem smeared_of_range {x : BitVec 64} {top : Nat}
    (low : 2 ^ top ≤ x.toNat) (high : x.toNat < 2 ^ (top + 1)) :
    Smeared x top 1 where
  ones := by
    intro i below near
    have here : i = top := by omega
    subst here
    exact Nat.testBit_of_two_pow_le_and_two_pow_add_one_gt low high
  zeros := by
    intro i above
    exact Nat.testBit_lt_two_pow
      (high.trans_le (Nat.pow_le_pow_right (by decide) above))

private theorem toNat_greatestPowerBelow
    {count top : Nat} (small : count < 2 ^ 64)
    (low : 2 ^ top < count) (high : count ≤ 2 ^ (top + 1)) :
    (greatestPowerBelow (BitVec.ofNat 64 count)).toNat = 2 ^ top := by
  have positive : 0 < 2 ^ top := Nat.two_pow_pos top
  have start : (BitVec.ofNat 64 count - 1).toNat = count - 1 := by
    rw [BitVec.toNat_sub_of_le]
    · rw [BitVec.toNat_ofNat, Nat.mod_eq_of_lt small]
      rfl
    · rw [BitVec.le_def, BitVec.toNat_ofNat, Nat.mod_eq_of_lt small]
      have one : (1 : BitVec 64).toNat = 1 := rfl
      omega
  have topSmall : top < 64 := by
    by_contra large
    have := Nat.pow_le_pow_right (n := 2) (by decide) (Nat.le_of_not_lt large)
    omega
  have smeared : Smeared (BitVec.ofNat 64 count - 1) top 1 :=
    smeared_of_range (by omega) (by omega)
  have full := smeared.step.step.step.step.step.step
  have bits (i : Nat) :
      (greatestPowerBelow (BitVec.ofNat 64 count)).getLsbD i =
        decide (i = top) := by
    simp only [greatestPowerBelow, BitVec.getLsbD_and, BitVec.getLsbD_not,
      BitVec.getLsbD_ushiftRight]
    rcases Nat.lt_trichotomy i top with below | rfl | above
    · rw [full.ones (1 + i) (by omega) (by omega)]
      simp [below.ne]
    · rw [full.ones i le_rfl (by omega), full.zeros (1 + i) (by omega)]
      simp [topSmall]
    · rw [full.zeros i above]
      simp [above.ne']
  have power : greatestPowerBelow (BitVec.ofNat 64 count) =
      BitVec.twoPow 64 top := by
    apply BitVec.eq_of_getLsbD_eq
    intro i inside
    rw [bits, BitVec.getLsbD_twoPow]
    by_cases same : i = top
    · simp [same, topSmall]
    · simp [same, Ne.symm same]
  rw [power, BitVec.toNat_twoPow,
    Nat.mod_eq_of_lt (Nat.pow_lt_pow_right (by decide) topSmall)]

/-- The power of two for a count that memory has room for. -/
theorem greatestPowerBelow_depth
    {count depth : Nat} (low : 2 ^ depth < count)
    (high : count ≤ 2 * 2 ^ depth) (small : depth < 59) :
    (greatestPowerBelow (BitVec.ofNat 64 count)).toNat = 2 ^ depth := by
  have bounded : 2 ^ depth < 2 ^ 59 := Nat.pow_lt_pow_right (by decide) small
  apply toNat_greatestPowerBelow
  · omega
  · exact low
  · rwa [Nat.pow_succ, Nat.mul_comm]

open Merkle

/-- The 64-byte string of two hashes. -/
def joinHashes (first second : Hash) : Bytes :=
  first.bytes ++ second.bytes

theorem joinHashes_injective : Function.Injective2 joinHashes := by
  intro first firstOther second secondOther same
  have parts := List.append_inj same
    (first.length_bytes.trans firstOther.length_bytes.symm)
  exact ⟨Blob.ext parts.1, Blob.ext parts.2⟩

/-- A source that the loop does not overwrite before it has read it. -/
structure ReadAhead (source : List Hash → List Hash) : Prop where
  drop_set : ∀ (ints : List Hash) (j : Nat) (value : Hash) (n : Nat), j < n →
    (source (ints.set j value)).drop n = (source ints).drop n
  length_set : ∀ (ints : List Hash) (j : Nat) (value : Hash),
    (source (ints.set j value)).length = (source ints).length

theorem readAhead_self : ReadAhead id where
  drop_set _ _ _ _ before := List.drop_set_of_lt before
  length_set _ _ _ := List.length_set

theorem readAhead_other (hashes : List Hash) : ReadAhead fun _ => hashes where
  drop_set _ _ _ _ _ := rfl
  length_set _ _ _ := rfl

theorem hashPairs_eq
    {source : List Hash → List Hash} (ahead : ReadAhead source)
    {steps i j : Nat} {state : TreeHashState}
    (inside : i + 2 * steps ≤ (source state.ints).length)
    (room : j + steps ≤ state.ints.length) (before : j ≤ i) :
    hashPairs cnFastHash source steps i j state =
      { ints := state.ints.take j ++
          (levelUp joinHashes cnFastHash
            (((source state.ints).drop i).take (2 * steps)) ++
              state.ints.drop (j + steps))
        hashed := state.hashed ++
          joinPairs joinHashes
            (((source state.ints).drop i).take (2 * steps)) } := by
  induction steps generalizing i j state with
  | zero => simp [hashPairs, levelUp, joinPairs]
  | succ steps ih =>
      have segment : ((source state.ints).drop i).take (2 * (steps + 1)) =
          (source state.ints).getD i default ::
            (source state.ints).getD (i + 1) default ::
              ((source state.ints).drop (i + 2)).take (2 * steps) := by
        rw [List.drop_eq_getElem_cons (by omega),
          List.drop_eq_getElem_cons (by omega),
          show 2 * (steps + 1) = 2 * steps + 1 + 1 by omega,
          List.take_succ_cons, List.take_succ_cons,
          List.getD_eq_getElem?_getD, List.getD_eq_getElem?_getD,
          List.getElem?_eq_getElem (by omega),
          List.getElem?_eq_getElem (by omega), Option.getD_some,
          Option.getD_some]
      rw [hashPairs, ih]
      · rw [ahead.drop_set _ _ _ _ (by omega), segment]
        have written : (state.ints.set j
            (cnFastHash (pairAt (source state.ints) i))).take (j + 1) =
            state.ints.take j ++ [cnFastHash (pairAt (source state.ints) i)] := by
          rw [List.take_add_one, List.getElem?_set_self (by omega),
            List.take_set_of_le le_rfl]
          rfl
        rw [written, List.drop_set_of_lt (by omega),
          show j + 1 + steps = j + (steps + 1) by omega]
        simp [joinPairs, levelUp, pairAt, joinHashes]
      · rw [ahead.length_set]
        omega
      · rw [List.length_set]
        omega
      · omega

theorem two_pow_halved (depth : Nat) :
    2 ^ (depth + 1) = 2 * 2 ^ depth ∧ 2 ^ (depth + 1) >>> 1 = 2 ^ depth := by
  have half : 2 ^ (depth + 1) = 2 * 2 ^ depth := by
    rw [Nat.pow_succ, Nat.mul_comm]
  refine ⟨half, ?_⟩
  rw [Nat.shiftRight_eq_div_pow, half]
  omega

theorem two_pow_range {depth top : Nat} (small : depth + 1 < top) :
    2 ≤ 2 ^ (depth + 1) ∧ 2 ^ (depth + 1) < 2 ^ top :=
  ⟨Nat.le_self_pow (Nat.succ_ne_zero depth) 2,
    Nat.pow_lt_pow_right (by decide) small⟩

theorem two_lt_two_pow (depth : Nat) : 2 < 2 ^ (depth + 1 + 1) := by
  have positive : 0 < 2 ^ depth := Nat.two_pow_pos depth
  rw [(two_pow_halved (depth + 1)).1, (two_pow_halved depth).1]
  omega

/-- The levels leave, in the first two places, what a tower of levels over
the first `2 ^ (depth + 1)` hashes leaves. -/
theorem hashLevels_eq
    {depth rounds : Nat} {state : TreeHashState}
    (enough : depth ≤ rounds) (size : 2 ^ (depth + 1) ≤ state.ints.length) :
    let final := hashLevels cnFastHash rounds (2 ^ (depth + 1)) state
    final.ints.take 2 =
        climb joinHashes cnFastHash depth (state.ints.take (2 ^ (depth + 1))) ∧
      final.hashed = state.hashed ++
        climbed joinHashes cnFastHash depth
          (state.ints.take (2 ^ (depth + 1))) := by
  induction depth generalizing rounds state with
  | zero =>
      cases rounds with
      | zero => simp [hashLevels, climb, climbed]
      | succ rounds => simp [hashLevels, climb, climbed]
  | succ depth ih =>
      cases rounds with
      | zero => omega
      | succ rounds =>
          obtain ⟨half, shifted⟩ := two_pow_halved (depth + 1)
          have large := two_lt_two_pow depth
          have pass := hashPairs_eq cnFastHash readAhead_self
            (show 0 + 2 * 2 ^ (depth + 1) ≤ (id state.ints).length by
              simp only [id]
              omega)
            (show 0 + 2 ^ (depth + 1) ≤ state.ints.length by omega) le_rfl
          simp only [id, List.take_zero, List.drop_zero, List.nil_append,
            Nat.zero_add, ← half] at pass
          have levelSize : (levelUp joinHashes cnFastHash
              (state.ints.take (2 ^ (depth + 1 + 1)))).length =
              2 ^ (depth + 1) := by
            rw [length_levelUp, List.length_take_of_le size, half]
            omega
          simp only [hashLevels, if_pos large, shifted, pass]
          have upper := @ih rounds
            { ints := levelUp joinHashes cnFastHash
                (state.ints.take (2 ^ (depth + 1 + 1))) ++
                  state.ints.drop (2 ^ (depth + 1))
              hashed := state.hashed ++ joinPairs joinHashes
                (state.ints.take (2 ^ (depth + 1 + 1))) }
            (by omega) (by rw [List.length_append, levelSize]; omega)
          simp only [List.take_append_of_le_length levelSize.ge,
            List.take_of_length_le levelSize.le] at upper
          refine ⟨upper.1, ?_⟩
          rw [upper.2, climbed, List.append_assoc]

/-- The first level of an incomplete tree: as many hashes of the end of the
list are joined as leave `2 ^ top`. -/
def firstLevel (top : Nat) (hashes : List Hash) : List Hash :=
  hashes.take (2 * 2 ^ top - hashes.length) ++
    levelUp joinHashes cnFastHash
      (hashes.drop (2 * 2 ^ top - hashes.length))

theorem length_firstLevel
    {top : Nat} {hashes : List Hash}
    (low : 2 ^ top ≤ hashes.length) (high : hashes.length ≤ 2 * 2 ^ top) :
    (firstLevel cnFastHash top hashes).length = 2 ^ top := by
  rw [firstLevel, List.length_append, length_levelUp, List.length_take,
    List.length_drop]
  omega

private theorem pairAt_zero_of_take {ints : List Hash} {first second : Hash}
    (two : ints.take 2 = [first, second]) :
    pairAt ints 0 = joinHashes first second := by
  match ints, two with
  | _ :: _ :: _, rfl => rfl

/-- A loop over the last hashes of the list fills the buffer behind what is in
it, whatever was there before. -/
theorem hashPairs_fill
    {hashes front junk : List Hash} {i steps : Nat}
    (last : hashes.length = i + 2 * steps) (size : junk.length = steps)
    (before : front.length ≤ i) :
    hashPairs cnFastHash (fun _ => hashes) steps i front.length
        ⟨front ++ junk, []⟩ =
      { ints := front ++ levelUp joinHashes cnFastHash (hashes.drop i)
        hashed := joinPairs joinHashes (hashes.drop i) } := by
  have all : (hashes.drop i).take (2 * steps) = hashes.drop i :=
    List.take_of_length_le (by rw [List.length_drop]; omega)
  have room : (front ++ junk).length = front.length + steps := by
    rw [List.length_append, size]
  rw [hashPairs_eq cnFastHash (readAhead_other hashes) last.ge room.ge before,
    all, List.take_left, List.drop_eq_nil_of_le room.le, List.append_nil,
    List.nil_append]

/-- The first loop fills the buffer with the first level. -/
theorem hashPairs_firstLevel
    {hashes junk : List Hash} {top : Nat}
    (low : 2 ^ top ≤ hashes.length) (high : hashes.length ≤ 2 * 2 ^ top)
    (size : junk.length = 2 ^ top - (2 * 2 ^ top - hashes.length)) :
    hashPairs cnFastHash (fun _ => hashes)
        (2 ^ top - (2 * 2 ^ top - hashes.length))
        (2 * 2 ^ top - hashes.length) (2 * 2 ^ top - hashes.length)
        ⟨hashes.take (2 * 2 ^ top - hashes.length) ++ junk, []⟩ =
      { ints := firstLevel cnFastHash top hashes
        hashed := joinPairs joinHashes
          (hashes.drop (2 * 2 ^ top - hashes.length)) } := by
  rw [firstLevel]
  generalize 2 ^ top = cnt at *
  generalize keptEq : 2 * cnt - hashes.length = kept at *
  have length : (hashes.take kept).length = kept :=
    List.length_take_of_le (by omega)
  have filled := @hashPairs_fill cnFastHash hashes (hashes.take kept) junk kept
    (cnt - kept) (by omega) size length.le
  rwa [length] at filled

/-- The other loops leave the two hashes that the root is made of. -/
theorem hashLevels_root
    {nodes : List Hash} {hashed : List Bytes} {depth : Nat}
    (size : nodes.length = 2 ^ (depth + 1)) (enough : depth ≤ 64) :
    let final := hashLevels cnFastHash 64 (2 ^ (depth + 1)) ⟨nodes, hashed⟩
    [cnFastHash (pairAt final.ints 0)] =
        climb joinHashes cnFastHash (depth + 1) nodes ∧
      final.hashed ++ [pairAt final.ints 0] =
        hashed ++ climbed joinHashes cnFastHash (depth + 1) nodes := by
  have levels := @hashLevels_eq cnFastHash depth 64 ⟨nodes, hashed⟩ enough
    size.ge
  rw [List.take_of_length_le size.le] at levels
  have two : (climb joinHashes cnFastHash depth nodes).length = 2 :=
    length_climb 1 size
  obtain ⟨first, second, pair⟩ := List.length_eq_two.mp two
  dsimp only
  rw [pairAt_zero_of_take (levels.1.trans pair), levels.2, climb_succ,
    climbed_succ, pair, List.append_assoc]
  exact ⟨rfl, rfl⟩

/-- Root and hashed strings of three hashes or more. -/
theorem treeHash_eq
    {hashes : List Hash} {depth : Nat}
    (low : 2 ^ (depth + 1) < hashes.length)
    (high : hashes.length ≤ 2 * 2 ^ (depth + 1))
    (small : depth + 1 < 59) :
    (treeHash cnFastHash hashes).2 =
        joinPairs joinHashes
            (hashes.drop (2 * 2 ^ (depth + 1) - hashes.length)) ++
          climbed joinHashes cnFastHash (depth + 1)
            (firstLevel cnFastHash (depth + 1) hashes) ∧
      [(treeHash cnFastHash hashes).1] =
        climb joinHashes cnFastHash (depth + 1)
          (firstLevel cnFastHash (depth + 1) hashes) := by
  obtain ⟨positive, bounded⟩ := two_pow_range small
  have power := greatestPowerBelow_depth low high small
  have filled := @hashPairs_firstLevel cnFastHash hashes
    (List.replicate (2 ^ (depth + 1) -
      (2 * 2 ^ (depth + 1) - hashes.length)) default) (depth + 1)
    low.le high List.length_replicate
  have levels := @hashLevels_root cnFastHash
    (firstLevel cnFastHash (depth + 1) hashes)
    (joinPairs joinHashes
      (hashes.drop (2 * 2 ^ (depth + 1) - hashes.length))) depth
    (length_firstLevel cnFastHash low.le high) (by omega)
  unfold treeHash
  simp only [power]
  rw [if_neg (by omega), if_neg (by omega), if_neg (by omega), filled]
  exact ⟨levels.2, levels.1⟩

private theorem length_pairAt (hashes : List Hash) (i : Nat) :
    (pairAt hashes i).length = 64 := by
  rw [pairAt, List.length_append, Blob.length_bytes, Blob.length_bytes]

/-- Every string hashed so far has 64 bytes. -/
def TreeHashState.HashesPairs (state : TreeHashState) : Prop :=
  ∀ data ∈ state.hashed, data.length = 64

private theorem hashPairs_hashesPairs
    {source : List Hash → List Hash} {steps i j : Nat}
    {state : TreeHashState} (pairs : state.HashesPairs) :
    (hashPairs cnFastHash source steps i j state).HashesPairs := by
  induction steps generalizing i j state with
  | zero => exact pairs
  | succ steps ih =>
      apply ih
      intro data member
      rcases List.mem_append.mp member with old | new
      · exact pairs data old
      · rw [List.mem_singleton.mp new]
        exact length_pairAt _ _

private theorem hashLevels_hashesPairs
    {rounds cnt : Nat} {state : TreeHashState} (pairs : state.HashesPairs) :
    (hashLevels cnFastHash rounds cnt state).HashesPairs := by
  induction rounds generalizing cnt state with
  | zero => exact pairs
  | succ rounds ih =>
      unfold hashLevels
      split
      · apply ih
        exact hashPairs_hashesPairs cnFastHash pairs
      · exact pairs

theorem length_hashed {hashes : List Hash} {data : Bytes}
    (member : data ∈ (treeHash cnFastHash hashes).2) : data.length = 64 := by
  simp only [treeHash] at member
  split at member
  · cases member
  split at member
  · rw [List.mem_singleton.mp member]
    exact length_pairAt _ _
  split at member
  · cases member
  rcases List.mem_append.mp member with level | last
  · refine hashLevels_hashesPairs cnFastHash ?_ data level
    apply hashPairs_hashesPairs
    exact fun data none => absurd none List.not_mem_nil
  · rw [List.mem_singleton.mp last]
    exact length_pairAt _ _

variable {cnFastHash} {first second : List Hash}

/-- The first level of an incomplete tree binds the list. -/
theorem firstLevel_inj
    {top : Nat} (sameLength : first.length = second.length)
    (low : 2 ^ top ≤ first.length) (high : first.length ≤ 2 * 2 ^ top)
    (same : firstLevel cnFastHash top first =
      firstLevel cnFastHash top second) :
    first = second ∨
      Collision cnFastHash
        (joinPairs joinHashes (first.drop (2 * 2 ^ top - first.length)))
        (joinPairs joinHashes (second.drop (2 * 2 ^ top - second.length))) := by
  unfold firstLevel at same
  rw [← sameLength] at same ⊢
  generalize keptEq : 2 * 2 ^ top - first.length = kept at same ⊢
  have sameKept : (first.take kept).length = (second.take kept).length := by
    rw [List.length_take, List.length_take, sameLength]
  have parts := List.append_inj same sameKept
  have firstSize : (first.drop kept).length = 2 * (first.length - 2 ^ top) := by
    rw [List.length_drop]
    omega
  have secondSize :
      (second.drop kept).length = 2 * (first.length - 2 ^ top) := by
    rw [List.length_drop]
    omega
  rcases levelUp_inj joinHashes_injective firstSize secondSize parts.2 with
    equal | collision
  · left
    rw [← List.take_append_drop kept first, parts.1, equal,
      List.take_append_drop]
  · exact .inr collision

/-- A number above one lies between a power of two and its double. -/
theorem exists_depth {count : Nat} (large : 2 < count)
    (small : count < 2 ^ 59) :
    ∃ depth, depth + 1 < 59 ∧ 2 ^ (depth + 1) < count ∧
      count ≤ 2 * 2 ^ (depth + 1) := by
  have low : 2 ^ Nat.log 2 (count - 1) ≤ count - 1 :=
    Nat.pow_log_le_self 2 (by omega)
  have high : count - 1 < 2 ^ (Nat.log 2 (count - 1) + 1) :=
    Nat.lt_pow_succ_log_self (by decide) _
  have positive : 0 < Nat.log 2 (count - 1) :=
    Nat.log_pos (by decide) (by omega)
  have bounded : Nat.log 2 (count - 1) < 59 :=
    Nat.log_lt_of_lt_pow (by omega) (by omega)
  refine ⟨Nat.log 2 (count - 1) - 1, ?_, ?_, ?_⟩
  · omega
  · rw [Nat.sub_add_cancel positive]
    omega
  · rw [Nat.sub_add_cancel positive, ← Nat.pow_succ']
    omega

/-- Equal roots of lists of one length: the lists are equal, or two different
strings that were hashed have one hash. -/
theorem treeHash_inj
    (sameLength : first.length = second.length)
    (positive : 0 < first.length) (small : first.length < 2 ^ 59)
    (same : (treeHash cnFastHash first).1 = (treeHash cnFastHash second).1) :
    first = second ∨
      Collision cnFastHash (treeHash cnFastHash first).2
        (treeHash cnFastHash second).2 := by
  rcases Nat.lt_trichotomy first.length 2 with one | two | more
  · have one : first.length = 1 := by omega
    obtain ⟨a, rfl⟩ := List.length_eq_one_iff.mp one
    obtain ⟨b, rfl⟩ := List.length_eq_one_iff.mp (sameLength.symm.trans one)
    exact .inl (congrArg (fun hash => [hash]) same)
  · obtain ⟨a, b, rfl⟩ := List.length_eq_two.mp two
    obtain ⟨c, d, rfl⟩ := List.length_eq_two.mp (sameLength.symm.trans two)
    exact @levelUp_inj _ _ joinHashes cnFastHash joinHashes_injective [a, b]
      [c, d] 1 rfl rfl (congrArg (fun hash => [hash]) same)
  · obtain ⟨depth, depthSmall, low, high⟩ := exists_depth more small
    have firstTree := treeHash_eq cnFastHash low high depthSmall
    have secondTree := treeHash_eq cnFastHash (sameLength ▸ low)
      (sameLength ▸ high) depthSmall
    have sameTop : climb joinHashes cnFastHash (depth + 1)
        (firstLevel cnFastHash (depth + 1) first) =
          climb joinHashes cnFastHash (depth + 1)
            (firstLevel cnFastHash (depth + 1) second) := by
      rw [← firstTree.2, ← secondTree.2, same]
    rw [firstTree.1, secondTree.1]
    have upper := climb_inj joinHashes_injective
      (length_firstLevel cnFastHash low.le high)
      (length_firstLevel cnFastHash (sameLength ▸ low.le)
        (sameLength ▸ high)) sameTop
    rcases upper with equal | collision
    · exact (firstLevel_inj sameLength low.le high equal).imp_right
        fun collision => collision.mono (List.subset_append_left _ _)
          (List.subset_append_left _ _)
    · exact .inr (collision.mono (List.subset_append_right _ _)
        (List.subset_append_right _ _))

end BlockTemplate
