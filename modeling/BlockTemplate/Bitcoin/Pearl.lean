import BlockTemplate.Bitcoin.Index
import BlockTemplate.Merkle.LeftBranch
import Mathlib.Data.List.GetD

/-!
# Headers for Pearl workers

`derivePearlWorkerHeader` puts the byte of a worker into a copy of the
coinbase, climbs from it along a branch of siblings and writes the root into a
copy of the header.  Buffers are passed by reference: which of them a call
changes is part of what it does.
-/

namespace BlockTemplate

/-- What the checks of arguments throw. -/
inductive JsError
  | typeError (message : String)
  | rangeError (message : String)
deriving DecidableEq

/-- The buffers that exist; a reference is an index. -/
abbrev Heap := List Bytes

/-- An argument. -/
inductive Passed
  | buffer (reference : Nat)
  | value (value : JsValue)

namespace Heap

/-- The bytes of an argument for which `Buffer.isBuffer` holds. -/
def bufferOf (heap : Heap) : Passed → Option Bytes
  | .buffer reference => heap[reference]?
  | .value _ => none

end Heap

/-- `Buffer.from` of a buffer. -/
def bufferFrom (bytes : Bytes) : StateM Heap Nat := do
  let heap ← get
  set (heap ++ [bytes])
  pure heap.length

def readBuffer (reference : Nat) : StateM Heap Bytes := do
  let heap ← get
  pure (heap.getD reference [])

def updateBuffer (reference : Nat) (update : Bytes → Bytes) :
    StateM Heap Unit :=
  modify fun heap => heap.modify reference update

private theorem run_bufferFrom (bytes : Bytes) (heap : Heap) :
    (bufferFrom bytes).run heap = pure (heap.length, heap ++ [bytes]) :=
  rfl

private theorem run_readBuffer (reference : Nat) (heap : Heap) :
    (readBuffer reference).run heap = pure (heap.getD reference [], heap) :=
  rfl

private theorem run_updateBuffer (reference : Nat) (update : Bytes → Bytes)
    (heap : Heap) :
    (updateBuffer reference update).run heap =
      pure ((), heap.modify reference update) :=
  rfl

/-- Changing a new buffer changes none of the others. -/
theorem Heap.modify_fresh (heap fresh : Heap) (index : Nat)
    (update : Bytes → Bytes) :
    (heap ++ fresh).modify (heap.length + index) update =
      heap ++ fresh.modify index update :=
  List.modifyTailIdx_add _ _ _ _

namespace Index

/-- What is passed to `derivePearlWorkerHeader`. -/
structure PearlArguments where
  baseHeader : Passed
  coinbase : Passed
  coinbaseOffset : JsValue
  merkleBranch : Passed
  workerId : JsValue

/-- Arguments that pass all checks. -/
structure PearlRequest where
  baseHeader : Blob 76
  coinbase : Bytes
  coinbase_size : coinbase.length ≤ 16 * 1024
  coinbaseOffset : Fin coinbase.length
  merkleBranch : Bytes
  branch_size : merkleBranch.length ≤ 32 * 32
  branch_whole : merkleBranch.length % 32 = 0
  workerId : Byte

private theorem toNat_lt_of_inside {offset : Int} {size : Nat}
    (inside : ¬(offset < 0 ∨ offset ≥ size)) : offset.toNat < size := by
  omega

/-- The checks, in their order. -/
def checkPearl (heap : Heap) (passed : PearlArguments) :
    Except JsError PearlRequest :=
  match heap.bufferOf passed.baseHeader with
  | none => .error (.typeError "Pearl header must be a Buffer")
  | some baseHeader =>
  if headerSize : baseHeader.length ≠ 76 then
    .error (.rangeError "Pearl header must be 76 bytes")
  else match heap.bufferOf passed.coinbase with
  | none => .error (.typeError "Pearl coinbase must be a Buffer")
  | some coinbase =>
  if coinbaseSize : coinbase.length = 0 ∨ coinbase.length > 16 * 1024 then
    .error (.rangeError "Pearl coinbase size is invalid")
  else match passed.coinbaseOffset.safeInteger with
  | none => .error (.rangeError "Pearl coinbase worker offset is out of bounds")
  | some coinbaseOffset =>
  if outside : coinbaseOffset < 0 ∨ coinbaseOffset ≥ coinbase.length then
    .error (.rangeError "Pearl coinbase worker offset is out of bounds")
  else match heap.bufferOf passed.merkleBranch with
  | none => .error (.typeError "Pearl Merkle branch must be a Buffer")
  | some merkleBranch =>
  if branchSize : merkleBranch.length > 32 * 32 ∨ merkleBranch.length % 32 ≠ 0 then
    .error (.rangeError "Pearl Merkle branch must contain at most 32 hashes")
  else match passed.workerId with
  | .number workerId =>
    if workerId < 0 ∨ workerId > 0xff then
      .error (.rangeError "Pearl worker ID must be an unsigned byte")
    else
      .ok
        { baseHeader := ⟨baseHeader, not_not.mp headerSize⟩
          coinbase := coinbase
          coinbase_size := Nat.le_of_not_lt (not_or.mp coinbaseSize).2
          coinbaseOffset := ⟨coinbaseOffset.toNat, toNat_lt_of_inside outside⟩
          merkleBranch := merkleBranch
          branch_size := Nat.le_of_not_lt (not_or.mp branchSize).1
          branch_whole := not_not.mp (not_or.mp branchSize).2
          workerId := BitVec.ofInt 8 workerId }
  | _ => .error (.rangeError "Pearl worker ID must be an unsigned byte")

section Derivation

variable (packages : Packages)

/-- The loop over the hashes of the branch. -/
def foldMerkleBranch (merkleBranch : Bytes) (offset : Nat) (root : Hash) :
    Hash :=
  if offset < merkleBranch.length then
    foldMerkleBranch merkleBranch (offset + 32)
      (packages.hash256 (root.bytes ++ (merkleBranch.drop offset).take 32))
  else root
termination_by merkleBranch.length - offset

/-- What follows the checks. -/
def PearlRequest.derive (request : PearlRequest) : StateM Heap Nat := do
  let header ← bufferFrom request.baseHeader.bytes
  let workerCoinbase ← bufferFrom request.coinbase
  updateBuffer workerCoinbase fun bytes =>
    bytes.set request.coinbaseOffset request.workerId
  let patched ← readBuffer workerCoinbase
  let root :=
    foldMerkleBranch packages request.merkleBranch 0 (packages.hash256 patched)
  updateBuffer header fun bytes => copy root.bytes bytes 36 32
  pure header

/-- The result is a reference to the header. -/
def derivePearlWorkerHeader (passed : PearlArguments) :
    StateM Heap (Except JsError Nat) := do
  let heap ← get
  match checkPearl heap passed with
  | .error error => pure (.error error)
  | .ok request =>
    let header ← request.derive packages
    pure (.ok header)

end Derivation

/-- The arguments mean the request. -/
structure PearlArguments.Means (passed : PearlArguments) (heap : Heap)
    (request : PearlRequest) : Prop where
  baseHeader : heap.bufferOf passed.baseHeader = some request.baseHeader.bytes
  coinbase : heap.bufferOf passed.coinbase = some request.coinbase
  coinbaseOffset : passed.coinbaseOffset = .number request.coinbaseOffset.val
  merkleBranch : heap.bufferOf passed.merkleBranch = some request.merkleBranch
  workerId : passed.workerId = .number request.workerId.toNat

private theorem safeInteger_eq_some {value : JsValue} {number : Int} :
    value.safeInteger = some number ↔
      value = .number number ∧ number.natAbs ≤ CompactSize.maxSafeInteger := by
  cases value with
  | number found =>
      rw [JsValue.safeInteger, JsValue.number.injEq]
      split_ifs with safe
      · rw [Option.some.injEq]
        constructor
        · rintro rfl
          exact ⟨rfl, safe⟩
        · exact And.left
      · constructor
        · intro impossible
          cases impossible
        · rintro ⟨rfl, small⟩
          exact (safe small).elim
  | _ => simp [JsValue.safeInteger]

/-- A request that the checks let through is what the arguments mean. -/
theorem means_of_checkPearl
    {heap : Heap} {passed : PearlArguments} {request : PearlRequest}
    (checked : checkPearl heap passed = .ok request) :
    passed.Means heap request := by
  unfold checkPearl at checked
  split at checked
  · cases checked
  rename_i baseHeader headerIs
  split_ifs at checked with headerSize
  split at checked
  · cases checked
  rename_i coinbase coinbaseIs
  split_ifs at checked with coinbaseSize
  split at checked
  · cases checked
  rename_i coinbaseOffset offsetIs
  split_ifs at checked with outside
  split at checked
  · cases checked
  rename_i merkleBranch branchIs
  split_ifs at checked with branchSize
  split at checked
  · rename_i workerId workerIs
    split_ifs at checked with notByte
    obtain rfl := Except.ok.inj checked
    obtain ⟨number, -⟩ := safeInteger_eq_some.mp offsetIs
    refine ⟨headerIs, coinbaseIs, ?_, branchIs, ?_⟩
    · rw [number]
      exact congrArg JsValue.number (Int.toNat_of_nonneg (by omega)).symm
    · rw [workerIs, toNat_ofInt_of_range (by omega)]
  · cases checked

theorem checkPearl_of_means
    {heap : Heap} {passed : PearlArguments} {request : PearlRequest}
    (means : passed.Means heap request) :
    checkPearl heap passed = .ok request := by
  obtain ⟨⟨baseHeader, headerSize⟩, coinbase, coinbaseSize, ⟨offset, inside⟩,
    merkleBranch, branchSize, branchWhole, workerId⟩ := request
  obtain ⟨headerIs, coinbaseIs, offsetIs, branchIs, workerIs⟩ := means
  have safe : passed.coinbaseOffset.safeInteger = some (offset : Int) := by
    rw [safeInteger_eq_some]
    refine ⟨offsetIs, ?_⟩
    rw [CompactSize.maxSafeInteger]
    omega
  have small := workerId.isLt
  simp only at headerSize headerIs coinbaseIs branchIs workerIs
  simp only [checkPearl, headerIs, coinbaseIs, safe, branchIs, workerIs]
  rw [dif_neg (by omega), dif_neg (by omega), dif_neg (by omega),
    dif_neg (by omega), if_neg (by omega)]
  simp only [Int.toNat_natCast, BitVec.ofInt_natCast, BitVec.ofNat_toNat,
    BitVec.setWidth_eq]

section Calls

variable {packages : Packages}

namespace PearlRequest

variable (request : PearlRequest)

/-- The coinbase with the byte of the worker. -/
def workerCoinbase : Bytes :=
  request.coinbase.set request.coinbaseOffset request.workerId

variable (packages) in
def root : Hash :=
  foldMerkleBranch packages request.merkleBranch 0
    (packages.hash256 request.workerCoinbase)

variable (packages) in
def workerHeader : Bytes :=
  copy (request.root packages).bytes request.baseHeader.bytes 36 32

/-- Two new buffers, the header first. -/
theorem run_derive (heap : Heap) :
    (request.derive packages).run heap =
      (heap.length,
        heap ++ [request.workerHeader packages, request.workerCoinbase]) := by
  have afterPatch (change : Bytes → Bytes) :
      (heap ++ [request.baseHeader.bytes] ++ [request.coinbase]).modify
          (heap ++ [request.baseHeader.bytes]).length change =
        heap ++ [request.baseHeader.bytes, change request.coinbase] := by
    rw [List.append_assoc, List.length_append]
    exact Heap.modify_fresh heap _ 1 change
  have patched (coinbase : Bytes) :
      (heap ++ [request.baseHeader.bytes, coinbase]).getD
        (heap ++ [request.baseHeader.bytes]).length [] = coinbase := by
    rw [List.length_append, List.getD_append_right _ _ _ _ (Nat.le_add_right _ _),
      Nat.add_sub_cancel_left]
    rfl
  have afterRoot (change : Bytes → Bytes) (coinbase : Bytes) :
      (heap ++ [request.baseHeader.bytes, coinbase]).modify heap.length change =
        heap ++ [change request.baseHeader.bytes, coinbase] :=
    Heap.modify_fresh heap _ 0 change
  simp only [derive, StateT.run_bind, run_bufferFrom, run_updateBuffer,
    run_readBuffer, pure_bind, afterPatch, patched, afterRoot]
  rfl

theorem workerHeader_eq :
    request.workerHeader packages =
      request.baseHeader.bytes.take 36 ++ (request.root packages).bytes ++
        request.baseHeader.bytes.drop 68 := by
  have room : ((request.root packages).bytes.take 32).take
      (request.baseHeader.bytes.length - 36) =
        (request.root packages).bytes := by
    rw [List.take_of_length_le, List.take_of_length_le]
    · rw [Blob.length_bytes]
    · rw [List.length_take, Blob.length_bytes, Blob.length_bytes]
      omega
  rw [workerHeader, copy, room, overwrite, Blob.length_bytes]

end PearlRequest

private theorem run_derivePearlWorkerHeader_of_error
    {heap : Heap} {passed : PearlArguments} {error : JsError}
    (checked : checkPearl heap passed = .error error) :
    (derivePearlWorkerHeader packages passed).run heap =
      (.error error, heap) := by
  rw [derivePearlWorkerHeader, StateT.run_bind, StateT.run_get, pure_bind,
    checked]
  rfl

theorem run_derivePearlWorkerHeader_of_ok
    {heap : Heap} {passed : PearlArguments} {request : PearlRequest}
    (checked : checkPearl heap passed = .ok request) :
    (derivePearlWorkerHeader packages passed).run heap =
      (.ok heap.length,
        heap ++ [request.workerHeader packages, request.workerCoinbase]) := by
  rw [derivePearlWorkerHeader, StateT.run_bind, StateT.run_get, pure_bind,
    checked]
  simp only [StateT.run_bind, request.run_derive heap]
  rfl

/-- No call changes a buffer that exists before it. -/
theorem derivePearlWorkerHeader_frame (heap : Heap) (passed : PearlArguments) :
    heap <+: ((derivePearlWorkerHeader packages passed).run heap).2 := by
  cases checked : checkPearl heap passed with
  | error error =>
      have unchanged := @run_derivePearlWorkerHeader_of_error packages _ _ _ checked
      exact ⟨[], by rw [unchanged, List.append_nil]⟩
  | ok request =>
      have added := @run_derivePearlWorkerHeader_of_ok packages _ _ _ checked
      exact ⟨_, by rw [added]⟩

/-- Exactly the calls with a meaning give a header. -/
theorem derivePearlWorkerHeader_isOk_iff (heap : Heap) (passed : PearlArguments) :
    (∃ header, ((derivePearlWorkerHeader packages passed).run heap).1 =
      .ok header) ↔ ∃ request, passed.Means heap request := by
  constructor
  · rintro ⟨header, accepted⟩
    cases checked : checkPearl heap passed with
    | error error =>
        rw [run_derivePearlWorkerHeader_of_error checked] at accepted
        cases accepted
    | ok request => exact ⟨request, means_of_checkPearl checked⟩
  · rintro ⟨request, means⟩
    rw [run_derivePearlWorkerHeader_of_ok (checkPearl_of_means means)]
    exact ⟨_, rfl⟩

/-- The loop over the bytes of some nodes joins them one after the other. -/
theorem foldMerkleBranch_nodes (before : Bytes) (nodes : List Hash)
    (root : Hash) :
    foldMerkleBranch packages (before ++ nodes.flatMap Blob.bytes)
        before.length root =
      nodes.foldl (Packages.joined packages.hash256) root := by
  induction nodes generalizing before root with
  | nil =>
      rw [foldMerkleBranch, if_neg]
      · rfl
      · simp
  | cons node rest ih =>
      have inside : before.length <
          (before ++ (node :: rest).flatMap Blob.bytes).length := by
        rw [List.flatMap_cons, List.length_append, List.length_append,
          Blob.length_bytes]
        omega
      have hash : (((before ++ (node :: rest).flatMap Blob.bytes).drop
          before.length).take 32) = node.bytes := by
        rw [List.drop_left, List.flatMap_cons,
          List.take_left' node.length_bytes]
      have rest := ih (before ++ node.bytes)
        (packages.hash256 (root.bytes ++ node.bytes))
      rw [List.length_append, Blob.length_bytes, List.append_assoc,
        ← List.flatMap_cons] at rest
      rw [foldMerkleBranch, if_pos inside, hash, rest]
      rfl

/-- The branch of up to `2 ^ 32` nodes passes the check of its size. -/
theorem length_leftPath_bytes
    {join : Hash → Hash → Hash} {nodes : List Hash}
    (few : nodes.length ≤ 2 ^ 32) :
    ((Merkle.leftPath join nodes).flatMap Blob.bytes).length ≤ 32 * 32 ∧
      ((Merkle.leftPath join nodes).flatMap Blob.bytes).length % 32 = 0 := by
  have levels : (Merkle.leftPath join nodes).length ≤ 32 :=
    Merkle.length_leftSiblings_le few
  have size : ((Merkle.leftPath join nodes).flatMap Blob.bytes).length =
      (Merkle.leftPath join nodes).length * 32 := by
    simp [List.length_flatMap]
  omega

/-- The header and the coinbase may be one buffer.  The last part is about
all transactions with these hashes. -/
theorem derive_pearl_worker_header_exact
    (fastRoot : packages.FastRootDocumented)
    {heap : Heap} {passed : PearlArguments} {baseHeader coinbase : Bytes}
    {offset workerId : Nat} {hashes leaves : List Hash}
    (headerIs : heap.bufferOf passed.baseHeader = some baseHeader)
    (headerSize : baseHeader.length = 76)
    (coinbaseIs : heap.bufferOf passed.coinbase = some coinbase)
    (coinbaseSize : 1 ≤ coinbase.length ∧ coinbase.length ≤ 16384)
    (offsetIs : passed.coinbaseOffset = .number offset)
    (inside : offset < coinbase.length)
    (workerIs : passed.workerId = .number workerId)
    (workerByte : workerId ≤ 255)
    (fewLeaves : leaves.length ≤ 2 ^ 32 - 1)
    (hashesAre : hashes =
      packages.hash256 (coinbase.set offset (BitVec.ofNat 8 workerId)) ::
        leaves)
    (branchIs : heap.bufferOf passed.merkleBranch =
      some ((Merkle.leftPath (Packages.joined packages.hash256)
        hashes).flatMap Blob.bytes)) :
    ∃ header after root,
      (derivePearlWorkerHeader packages passed).run heap =
        (.ok header, after) ∧
      heap.length ≤ header ∧ heap <+: after ∧
      after[header]? = some
        (baseHeader.take 36 ++ Blob.bytes root ++ baseHeader.drop 68) ∧
      Merkle.oddRoot (Packages.joined packages.hash256) hashes = some root ∧
      ∀ transactions : List ParsedTransaction,
        transactions.map (fun transaction =>
          transactionHash packages.hash256 transaction false) = hashes →
        root = getMerkleRoot packages packages.hash256 transactions := by
  have nonempty : hashes ≠ [] := by
    rw [hashesAre]
    exact List.cons_ne_nil _ _
  obtain ⟨short, whole⟩ :=
    @length_leftPath_bytes (Packages.joined packages.hash256) hashes (by
      rw [hashesAre, List.length_cons]
      omega)
  let request : PearlRequest :=
    { baseHeader := ⟨baseHeader, headerSize⟩
      coinbase := coinbase
      coinbase_size := coinbaseSize.2
      coinbaseOffset := ⟨offset, inside⟩
      merkleBranch := _
      branch_size := short
      branch_whole := whole
      workerId := BitVec.ofNat 8 workerId }
  have means : passed.Means heap request := by
    refine ⟨headerIs, coinbaseIs, offsetIs, branchIs, ?_⟩
    rw [workerIs, BitVec.toNat_ofNat, Nat.mod_eq_of_lt (by omega)]
  have found := fastRoot hashes packages.hash256 nonempty
  have root : request.root packages =
      packages.fastMerkleRoot hashes packages.hash256 := by
    have folded := @foldMerkleBranch_nodes packages []
      (Merkle.leftPath (Packages.joined packages.hash256) hashes)
      (packages.hash256 request.workerCoinbase)
    rw [List.nil_append] at folded
    rw [PearlRequest.root]
    refine folded.trans ?_
    rw [hashesAre] at found ⊢
    exact Merkle.foldl_leftSiblings found
  refine ⟨_, _, _, run_derivePearlWorkerHeader_of_ok
    (checkPearl_of_means means), le_rfl, List.prefix_append heap _, ?_,
    found, ?_⟩
  · rw [List.getElem?_append_right le_rfl, Nat.sub_self,
      List.getElem?_cons_zero, request.workerHeader_eq, root]
  · intro transactions same
    have filled : transactions.isEmpty = false := by
      rw [List.isEmpty_eq_false_iff]
      rintro rfl
      exact nonempty same.symm
    rw [getMerkleRoot, filled, if_neg Bool.false_ne_true, same]

def pearlLeaves : List Hash := [Blob.zero 32, sha256 [1]]

/-- A header, a coinbase and the branch over the patched coinbase and two
more leaves. -/
def pearlHeap : Heap :=
  [List.replicate 76 0xa5, [1, 2, 3],
    (Merkle.leftPath (Packages.joined (Packages.hash256 .documented))
      (Packages.hash256 .documented [1, 0x7b, 3] :: pearlLeaves)).flatMap
        Blob.bytes]

theorem derive_pearl_worker_header_exact_three :
    ∃ header after root,
      (derivePearlWorkerHeader .documented
        ⟨.buffer 0, .buffer 1, .number 1, .buffer 2, .number 0x7b⟩).run
          pearlHeap = (.ok header, after) ∧
      pearlHeap.length ≤ header ∧ pearlHeap <+: after ∧
      after[header]? = some
        ((List.replicate 76 0xa5).take 36 ++ Blob.bytes root ++
          (List.replicate 76 0xa5).drop 68) ∧
      Merkle.oddRoot (Packages.joined (Packages.hash256 .documented))
        (Packages.hash256 .documented [1, 0x7b, 3] :: pearlLeaves) =
          some root ∧
      ∀ transactions : List ParsedTransaction,
        transactions.map (fun transaction =>
          transactionHash (Packages.hash256 .documented) transaction false) =
            Packages.hash256 .documented [1, 0x7b, 3] :: pearlLeaves →
        root = getMerkleRoot .documented (Packages.hash256 .documented)
          transactions :=
  derive_pearl_worker_header_exact Packages.documented_fastRoot
    rfl List.length_replicate rfl (by decide) rfl (by decide) rfl (by decide)
    (by decide) rfl rfl

end Calls

end Index

end BlockTemplate
