import BlockTemplate.Bitcoin.Index

/-!
# Writing a nonce

A construct function writes the Merkle root that the convert function computes
and the nonce, and nothing else.  The walk over the transactions looks at no
byte in front of them, so neither write changes what it finds, and the two
functions can be called in any order and any number of times.
-/

namespace BlockTemplate.Index

variable (packages : Packages)

inductive Family
  | raven
  | rtm
  | kcn
deriving DecidableEq

namespace Family

def layout : Family → Layout
  | raven => ravenLayout packages
  | rtm => rtmLayout packages
  | kcn => kcnLayout packages

def convert : Family → BufferM Bytes
  | raven => convertRavenBlob packages
  | rtm => convertRtmBlob packages
  | kcn => convertKcnBlob packages

/-- Only `constructNewRavenBlob` gets a mix hash. -/
def construct (nonceBuff mixhashBuff : Bytes) : Family → BufferM Bytes
  | raven => constructNewRavenBlob packages nonceBuff mixhashBuff
  | rtm => constructNewRtmBlob packages nonceBuff
  | kcn => constructNewKcnBlob packages nonceBuff

def nonceSize : Family → Nat
  | raven => 8
  | _ => 4

def mixhashSize : Family → Nat
  | raven => 32
  | _ => 0

/-- The field that a construct function fills in besides the Merkle root. -/
def sealOffset : Family → Nat
  | raven => 80
  | _ => 76

def sealSize (family : Family) : Nat :=
  family.nonceSize + family.mixhashSize

def sealBytes (family : Family) (nonceBuff mixhashBuff : Bytes) : Bytes :=
  nonceBuff.take family.nonceSize ++ mixhashBuff.take family.mixhashSize

/-- The writes of a construct function behind the Merkle root. -/
def sealed (family : Family) (nonceBuff mixhashBuff rooted : Bytes) : Bytes :=
  match family with
  | raven => copy mixhashBuff (copy nonceBuff rooted 80 8) 88 32
  | _ => copy nonceBuff rooted 76 4

/-- The bytes outside of the Merkle root and the sealed field. -/
def Untouched (family : Family) (index : Nat) : Prop :=
  ¬(36 ≤ index ∧ index < 68) ∧
    ¬(family.sealOffset ≤ index ∧
      index < family.sealOffset + family.sealSize)

/-- What converting gives once the nonce is in its place: the nonce of Raven
lies behind the header. -/
def withNonce (family : Family) (converted nonceBuff : Bytes) : Bytes :=
  match family with
  | raven => converted
  | _ => overwrite converted 76 (nonceBuff.take 4)

end Family

def blockRoot (layout : Layout) (blob : Bytes) : Except String Hash :=
  (blockTransactions packages layout.payload
    (blob.drop layout.bodyOffset)).map
    (getMerkleRoot packages layout.hash)

variable {packages}

theorem walked_of_blockRoot
    {layout : Layout} {blob : Bytes} {root : Hash}
    (found : blockRoot packages layout blob = .ok root) :
    ∃ transactions,
      blockTransactions packages layout.payload
        (blob.drop layout.bodyOffset) = .ok transactions := by
  rw [blockRoot] at found
  cases walked : blockTransactions packages layout.payload
      (blob.drop layout.bodyOffset) with
  | error message =>
      rw [walked] at found
      cases found
  | ok transactions => exact ⟨transactions, rfl⟩

theorem blockRoot_of_walked
    {layout : Layout} {blob : Bytes} {transactions : List ParsedTransaction}
    (walked : blockTransactions packages layout.payload
      (blob.drop layout.bodyOffset) = .ok transactions) :
    blockRoot packages layout blob =
      .ok (getMerkleRoot packages layout.hash transactions) := by
  rw [blockRoot, walked]
  rfl

/-- A blob that is walked has a byte behind its fields. -/
theorem bodyOffset_lt_of_blockRoot
    {layout : Layout} {blob : Bytes} {root : Hash}
    (found : blockRoot packages layout blob = .ok root) :
    layout.bodyOffset < blob.length := by
  obtain ⟨transactions, walked⟩ := walked_of_blockRoot found
  obtain ⟨count, size, -, positive, -, walk⟩ :=
    blockTransactions_eq_ok.mp walked
  obtain ⟨remaining, rfl⟩ := Nat.exists_eq_succ_of_ne_zero
    (Nat.one_le_iff_ne_zero.mp positive)
  have nonempty := (readBlockTransactions_succ.mp walk).1
  rw [List.drop_drop] at nonempty
  have inside : ¬blob.length ≤ layout.bodyOffset + size := fun outside =>
    nonempty (List.drop_eq_nil_of_le outside)
  omega

theorem blockRoot_overwrite
    {layout : Layout} {blob data : Bytes} {offset : Nat}
    (inside : offset + data.length ≤ blob.length)
    (before : offset + data.length ≤ layout.bodyOffset) :
    blockRoot packages layout (overwrite blob offset data) =
      blockRoot packages layout blob := by
  rw [blockRoot, drop_overwrite inside before, blockRoot]

/-- Whether the header or the whole blob gets the root, the buffer is the
same afterwards. -/
theorem copy_root
    {blob : Bytes} {view : Nat} (root : Hash)
    (long : 68 ≤ blob.length) (sees : 68 ≤ view) :
    copy root.bytes (blob.take view) (4 + 32) 32 ++ blob.drop view =
      overwrite blob 36 root.bytes := by
  have whole : (root.bytes.take 32).take ((blob.take view).length - (4 + 32)) =
      root.bytes := by
    rw [List.take_take, List.take_of_length_le]
    rw [root.length_bytes, List.length_take]
    omega
  have inside : 36 + root.bytes.length ≤ blob.length := by
    rw [root.length_bytes]
    exact long
  have seen : 36 + root.bytes.length ≤ view := by
    rw [root.length_bytes]
    exact sees
  rw [copy, whole, ← take_overwrite inside seen,
    ← drop_overwrite inside seen, List.take_append_drop]

theorem updateMerkleRootHash_run
    {layout : Layout} {blob : Bytes} {view : Nat} :
    (updateMerkleRootHash packages layout view).runOn blob =
      match blockRoot packages layout blob with
      | .error message => (.error message, blob)
      | .ok root =>
        (.ok (),
          copy root.bytes (blob.take view) (4 + 32) 32 ++ blob.drop view) := by
  unfold updateMerkleRootHash blockRoot
  have looked : (get : BufferM Bytes).runOn blob = (.ok blob, blob) := rfl
  rw [Stateful.runOn_bind_ok looked]
  cases blockTransactions packages layout.payload
    (blob.drop layout.bodyOffset) <;> rfl

private theorem updateMerkleRootHash_ok
    {layout : Layout} {blob : Bytes} {view : Nat} {root : Hash}
    (found : blockRoot packages layout blob = .ok root)
    (behind : 80 ≤ layout.bodyOffset) (sees : 68 ≤ view) :
    (updateMerkleRootHash packages layout view).runOn blob =
      (.ok (), overwrite blob 36 root.bytes) := by
  have long := bodyOffset_lt_of_blockRoot found
  rw [updateMerkleRootHash_run, found]
  exact congrArg _ (copy_root root (by omega) sees)

private theorem updateMerkleRootHash_error
    {layout : Layout} {blob : Bytes} {view : Nat} {message : String}
    (failed : blockRoot packages layout blob = .error message) :
    (updateMerkleRootHash packages layout view).runOn blob =
      (.error message, blob) := by
  rw [updateMerkleRootHash_run, failed]

private theorem convertHeader_ok
    {layout : Layout} {blob : Bytes} {root : Hash}
    (found : blockRoot packages layout blob = .ok root)
    (behind : 80 ≤ layout.bodyOffset) :
    (convertHeader packages layout).runOn blob =
      (.ok ((overwrite blob 36 root.bytes).take 80),
        overwrite blob 36 root.bytes) := by
  rw [convertHeader, Stateful.runOn_bind_ok
    (updateMerkleRootHash_ok found behind (by decide))]
  rfl

private theorem constructWhole_ok
    {layout : Layout} {blob : Bytes} {root : Hash}
    (found : blockRoot packages layout blob = .ok root)
    (behind : 80 ≤ layout.bodyOffset) :
    (constructWhole packages layout).runOn blob =
      (.ok (), overwrite blob 36 root.bytes) := by
  have long := bodyOffset_lt_of_blockRoot found
  have looked : (get : BufferM Bytes).runOn blob = (.ok blob, blob) := rfl
  rw [constructWhole, Stateful.runOn_bind_ok looked]
  exact updateMerkleRootHash_ok found behind (by omega)

private theorem constructWhole_error
    {layout : Layout} {blob : Bytes} {message : String}
    (failed : blockRoot packages layout blob = .error message) :
    (constructWhole packages layout).runOn blob = (.error message, blob) := by
  have looked : (get : BufferM Bytes).runOn blob = (.ok blob, blob) := rfl
  rw [constructWhole, Stateful.runOn_bind_ok looked]
  exact updateMerkleRootHash_error failed

private theorem copy_eq_overwrite
    {source target : Bytes} {start size : Nat}
    (room : start + size ≤ target.length) :
    copy source target start size =
      overwrite target start (source.take size) := by
  rw [copy, List.take_of_length_le]
  rw [List.length_take]
  omega

namespace Family

/-- What a convert function makes of the header. -/
def shown (packages : Packages) (family : Family) (header : Bytes) : Bytes :=
  match family with
  | raven => blockHashBuff packages header
  | _ => header

theorem eighty_le_bodyOffset (family : Family) :
    80 ≤ (family.layout packages).bodyOffset := by
  cases family <;> exact Nat.le_of_ble_eq_true rfl

/-- The seal lies between the Merkle root and the transactions. -/
theorem seal_le_bodyOffset (family : Family) :
    family.sealOffset + family.sealSize =
      (family.layout packages).bodyOffset := by
  cases family <;> rfl

theorem root_le_sealOffset (family : Family) :
    36 + 32 ≤ family.sealOffset := by
  cases family <;> decide

theorem length_sealBytes
    {family : Family} {nonceBuff mixhashBuff : Bytes}
    (nonceEnough : family.nonceSize ≤ nonceBuff.length)
    (mixhashEnough : family.mixhashSize ≤ mixhashBuff.length) :
    (family.sealBytes nonceBuff mixhashBuff).length = family.sealSize := by
  rw [sealBytes, List.length_append, List.length_take_of_le nonceEnough,
    List.length_take_of_le mixhashEnough, sealSize]

theorem convert_ok
    {family : Family} {blob : Bytes} {root : Hash}
    (found : blockRoot packages (family.layout packages) blob = .ok root) :
    (family.convert packages).runOn blob =
      (.ok (family.shown packages
          ((overwrite blob 36 root.bytes).take 80)),
        overwrite blob 36 root.bytes) := by
  have converted := convertHeader_ok found family.eighty_le_bodyOffset
  cases family with
  | raven => exact Stateful.runOn_bind_ok converted
  | rtm => exact converted
  | kcn => exact converted

private theorem convert_error
    {family : Family} {blob : Bytes} {message : String}
    (failed : blockRoot packages (family.layout packages) blob =
      .error message) :
    (family.convert packages).runOn blob = (.error message, blob) := by
  have unconverted : (convertHeader packages (family.layout packages)).runOn
      blob = (.error message, blob) :=
    Stateful.runOn_bind_error (updateMerkleRootHash_error failed)
  cases family with
  | raven => exact Stateful.runOn_bind_error unconverted
  | rtm => exact unconverted
  | kcn => exact unconverted

/-- A blob that is converted has a Merkle root. -/
theorem blockRoot_of_convert
    {family : Family} {blob converted after : Bytes}
    (result : (family.convert packages).runOn blob = (.ok converted, after)) :
    ∃ root, blockRoot packages (family.layout packages) blob = .ok root := by
  cases found : blockRoot packages (family.layout packages) blob with
  | error message =>
      rw [convert_error found] at result
      cases result
  | ok root => exact ⟨root, rfl⟩

private theorem construct_error
    {family : Family} {blob nonceBuff mixhashBuff : Bytes} {message : String}
    (failed : blockRoot packages (family.layout packages) blob =
      .error message) :
    (family.construct packages nonceBuff mixhashBuff).runOn blob =
      (.error message, blob) := by
  have unconstructed := constructWhole_error failed
  cases family <;> exact Stateful.runOn_bind_error unconstructed

/-- The writes behind the root fill one range. -/
theorem sealed_eq
    {family : Family} {nonceBuff mixhashBuff rooted : Bytes}
    (nonceEnough : family.nonceSize ≤ nonceBuff.length)
    (mixhashEnough : family.mixhashSize ≤ mixhashBuff.length)
    (room : family.sealOffset + family.sealSize ≤ rooted.length) :
    family.sealed nonceBuff mixhashBuff rooted =
      overwrite rooted family.sealOffset
        (family.sealBytes nonceBuff mixhashBuff) := by
  have size := length_sealBytes nonceEnough mixhashEnough
  cases family with
  | raven =>
      have nonceSize : (nonceBuff.take 8).length = 8 :=
        List.length_take_of_le nonceEnough
      have nonceRoom : 80 + (nonceBuff.take 8).length ≤ rooted.length := by
        rw [nonceSize]
        exact room.trans' (by decide)
      have mixhashRoom : 88 + 32 ≤
          (overwrite rooted 80 (nonceBuff.take 8)).length := by
        rw [length_overwrite nonceRoom]
        exact room
      have adjacent : overwrite (overwrite rooted 80 (nonceBuff.take 8))
          (80 + (nonceBuff.take 8).length) (mixhashBuff.take 32) =
            overwrite rooted 80
              (nonceBuff.take 8 ++ mixhashBuff.take 32) := by
        apply overwrite_adjacent
        exact room.trans' (Nat.add_le_add_left size.le 80)
      rw [sealed, copy_eq_overwrite (room.trans' (by decide)),
        copy_eq_overwrite mixhashRoom]
      rwa [nonceSize] at adjacent
  | rtm =>
      exact (copy_eq_overwrite room).trans
        (congrArg _ (List.append_nil _).symm)
  | kcn =>
      exact (copy_eq_overwrite room).trans
        (congrArg _ (List.append_nil _).symm)

/-- A construct function writes the root and one range behind it. -/
theorem construct_ok
    {family : Family} {blob nonceBuff mixhashBuff : Bytes} {root : Hash}
    (found : blockRoot packages (family.layout packages) blob = .ok root)
    (nonceEnough : family.nonceSize ≤ nonceBuff.length)
    (mixhashEnough : family.mixhashSize ≤ mixhashBuff.length) :
    (family.construct packages nonceBuff mixhashBuff).runOn blob =
      (.ok (overwrite (overwrite blob 36 root.bytes) family.sealOffset
          (family.sealBytes nonceBuff mixhashBuff)),
        overwrite (overwrite blob 36 root.bytes) family.sealOffset
          (family.sealBytes nonceBuff mixhashBuff)) := by
  have long := bodyOffset_lt_of_blockRoot found
  have behind := @eighty_le_bodyOffset packages family
  have inside : 36 + root.bytes.length ≤ blob.length := by
    rw [root.length_bytes]
    omega
  have room : family.sealOffset + family.sealSize ≤
      (overwrite blob 36 root.bytes).length := by
    rw [@seal_le_bodyOffset packages, length_overwrite inside]
    exact long.le
  have constructed := constructWhole_ok found behind
  rw [← sealed_eq nonceEnough mixhashEnough room]
  cases family <;> exact Stateful.runOn_bind_ok constructed

section Accepted

variable {family : Family} {blob nonceBuff mixhashBuff : Bytes} {root : Hash}
  (found : blockRoot packages (family.layout packages) blob = .ok root)
  (nonceEnough : family.nonceSize ≤ nonceBuff.length)
  (mixhashEnough : family.mixhashSize ≤ mixhashBuff.length)

include found

theorem root_inside : 36 + root.bytes.length ≤ blob.length := by
  have long := bodyOffset_lt_of_blockRoot found
  have behind := @eighty_le_bodyOffset packages family
  rw [root.length_bytes]
  omega

private theorem seal_inside
    (data : Bytes) (size : data.length = family.sealSize) :
    family.sealOffset + data.length ≤
      (overwrite blob 36 root.bytes).length := by
  have long := bodyOffset_lt_of_blockRoot found
  rw [length_overwrite (root_inside found), size,
    @seal_le_bodyOffset packages]
  exact long.le

/-- The walk sees neither the root nor the seal. -/
theorem blockRoot_rooted :
    blockRoot packages (family.layout packages)
      (overwrite blob 36 root.bytes) = .ok root := by
  have behind := @eighty_le_bodyOffset packages family
  rw [blockRoot_overwrite (root_inside found), found]
  rw [root.length_bytes]
  omega

private theorem blockRoot_sealed (data : Bytes)
    (size : data.length = family.sealSize) :
    blockRoot packages (family.layout packages)
      (overwrite (overwrite blob 36 root.bytes) family.sealOffset data) =
        .ok root := by
  have sealEnd := @seal_le_bodyOffset packages family
  rw [blockRoot_overwrite (seal_inside found data size),
    blockRoot_rooted found]
  rw [size]
  exact sealEnd.le

/-- A root that is there already is written again without a change. -/
theorem overwrite_root_sealed (data : Bytes)
    (size : data.length = family.sealSize) :
    overwrite (overwrite (overwrite blob 36 root.bytes) family.sealOffset data)
      36 root.bytes =
        overwrite (overwrite blob 36 root.bytes) family.sealOffset data := by
  have inside := root_inside found
  have sealInside := seal_inside found data size
  have disjoint : 36 + root.bytes.length ≤ family.sealOffset := by
    rw [root.length_bytes]
    exact family.root_le_sealOffset
  rw [length_overwrite inside] at sealInside
  rw [overwrite_comm disjoint sealInside]
  apply overwrite_overwrite _ rfl
  rw [length_overwrite sealInside]
  exact inside

include nonceEnough mixhashEnough

/-- Converting the sealed blob gives the header with the nonce. -/
theorem shown_sealed :
    family.shown packages ((overwrite (overwrite blob 36 root.bytes)
      family.sealOffset (family.sealBytes nonceBuff mixhashBuff)).take 80) =
      family.withNonce (family.shown packages
        ((overwrite blob 36 root.bytes).take 80)) nonceBuff := by
  have size := length_sealBytes nonceEnough mixhashEnough
  have inside := seal_inside found _ size
  cases family with
  | raven =>
      rw [take_overwrite_of_le inside (Nat.le_refl 80)]
      rfl
  | rtm =>
      have early : 76 + (rtm.sealBytes nonceBuff mixhashBuff).length ≤ 80 :=
        Nat.add_le_add_left size.le 76
      exact (take_overwrite inside early).trans
        (congrArg _ (List.append_nil _))
  | kcn =>
      have early : 76 + (kcn.sealBytes nonceBuff mixhashBuff).length ≤ 80 :=
        Nat.add_le_add_left size.le 76
      exact (take_overwrite inside early).trans
        (congrArg _ (List.append_nil _))

end Accepted

end Family

theorem constructs_what_is_converted
    (family : Family) (blob nonceBuff mixhashBuff : Bytes)
    (nonceEnough : family.nonceSize ≤ nonceBuff.length)
    (mixhashEnough : family.mixhashSize ≤ mixhashBuff.length) :
    (∀ converted after,
      (family.convert packages).runOn blob = (.ok converted, after) →
        ∃ result,
          (family.construct packages nonceBuff mixhashBuff).runOn blob =
            (.ok result, result) ∧
          result.length = blob.length ∧
          (∀ index, family.Untouched index →
            result[index]? = blob[index]?) ∧
          (result.drop family.sealOffset).take family.sealSize =
            family.sealBytes nonceBuff mixhashBuff ∧
          (∃ again, (family.convert packages).runOn result =
            (.ok (family.withNonce converted nonceBuff), again)) ∧
          (family.construct packages nonceBuff mixhashBuff).runOn after =
            (.ok result, result) ∧
          ∀ nonce mixhash, family.nonceSize ≤ nonce.length →
            family.mixhashSize ≤ mixhash.length →
              ∃ other,
                (family.construct packages nonce mixhash).runOn blob =
                  (.ok other, other) ∧
                (family.construct packages nonceBuff mixhashBuff).runOn
                  other = (.ok result, result)) ∧
    ∀ message after,
      (family.construct packages nonceBuff mixhashBuff).runOn blob =
        (.error message, after) → after = blob := by
  cases found : blockRoot packages (family.layout packages) blob with
  | error message =>
      rw [Family.convert_error found, Family.construct_error found]
      constructor
      · intro converted after impossible
        cases impossible
      · intro thrown after result
        cases result
        rfl
  | ok root =>
      have size := Family.length_sealBytes nonceEnough mixhashEnough
      have inside := Family.root_inside found
      have sealInside := Family.seal_inside found _ size
      have constructed :=
        Family.construct_ok found nonceEnough mixhashEnough
      rw [constructed]
      constructor
      · intro converted after result
        rw [Family.convert_ok found] at result
        cases result
        refine ⟨_, rfl, ?_, ?_, ?_, ?_, ?_, ?_⟩
        · rw [length_overwrite sealInside, length_overwrite inside]
        · intro index untouched
          rw [getElem?_overwrite sealInside, size, if_neg untouched.2,
            getElem?_overwrite inside, root.length_bytes,
            if_neg untouched.1]
        · rw [← size]
          exact take_drop_overwrite sealInside
        · have again := Family.blockRoot_sealed found _ size
          rw [Family.convert_ok again,
            Family.overwrite_root_sealed found _ size,
            Family.shown_sealed found nonceEnough mixhashEnough]
          exact ⟨_, rfl⟩
        · rw [Family.construct_ok (Family.blockRoot_rooted found) nonceEnough
              mixhashEnough, overwrite_overwrite inside rfl]
        · intro nonce mixhash nonceFits mixhashFits
          have otherSize := Family.length_sealBytes nonceFits mixhashFits
          have other := Family.blockRoot_sealed found _ otherSize
          have otherInside := Family.seal_inside found _ otherSize
          refine ⟨_, Family.construct_ok found nonceFits mixhashFits, ?_⟩
          rw [Family.construct_ok other nonceEnough mixhashEnough,
            Family.overwrite_root_sealed found _ otherSize,
            overwrite_overwrite otherInside (otherSize.trans size.symm)]
      · intro message after impossible
        cases impossible

/-- A header and one transaction without inputs and outputs. -/
def smallestBlob : Bytes :=
  List.replicate 80 0 ++ [1] ++ [1, 0, 0, 0, 0, 0, 0, 0, 0, 0]

theorem constructs_what_is_converted_smallest :
    ∃ result converted again,
      (Family.rtm.construct .documented [1, 2, 3, 4] []).runOn smallestBlob =
        (.ok result, result) ∧
      result.length = 91 ∧
      (Family.rtm.convert .documented).runOn result =
        (.ok converted, again) ∧
      converted.drop 76 = [1, 2, 3, 4] := by
  have accepted : ∃ converted after,
      (Family.rtm.convert .documented).runOn smallestBlob =
        (.ok converted, after) ∧ converted.length = 80 := ⟨_, _, rfl, rfl⟩
  obtain ⟨converted, after, run, size⟩ := accepted
  obtain ⟨result, constructed, sameLength, -, -, ⟨again, reconverted⟩, -⟩ :=
    (constructs_what_is_converted .rtm smallestBlob [1, 2, 3, 4] []
      (by decide) (by decide)).1 converted after run
  refine ⟨result, _, again, constructed, sameLength, reconverted, ?_⟩
  have inside : 76 + ([1, 2, 3, 4] : Bytes).length ≤ converted.length :=
    size.ge
  have written := take_drop_overwrite inside
  rwa [List.take_of_length_le] at written
  rw [List.length_drop, length_overwrite inside, size]
  decide

end BlockTemplate.Index
