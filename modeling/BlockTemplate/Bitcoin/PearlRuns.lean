import BlockTemplate.Bitcoin.HeaderBinding
import BlockTemplate.Bitcoin.Pearl

/-!
# Headers of many workers

One job is derived for one worker after the other, and their headers exist
side by side.  No two workers get the same header, unless two different strings
that are hashed for them have one hash.
-/

namespace BlockTemplate.Index

variable {packages : Packages}

/-- The arguments with another worker. -/
def PearlArguments.forWorker (passed : PearlArguments) (workerId : Byte) :
    PearlArguments :=
  { passed with workerId := .number workerId.toNat }

/-- The request with another worker. -/
def PearlRequest.forWorker (request : PearlRequest) (workerId : Byte) :
    PearlRequest :=
  { request with workerId }

/-- One call for each worker, in their order. -/
def deriveAll (packages : Packages) (passed : PearlArguments) :
    List Byte → StateM Heap (List (Except JsError Nat))
  | [] => pure []
  | workerId :: rest => do
    let header ←
      derivePearlWorkerHeader packages (passed.forWorker workerId)
    let headers ← deriveAll packages passed rest
    pure (header :: headers)

private theorem Heap.bufferOf_of_prefix {heap after : Heap} {passed : Passed}
    {bytes : Bytes} (grows : heap <+: after)
    (found : heap.bufferOf passed = some bytes) :
    after.bufferOf passed = some bytes := by
  obtain ⟨fresh, rfl⟩ := grows
  cases passed with
  | buffer reference =>
      have inside := (List.getElem?_eq_some_iff.mp found).1
      exact (List.getElem?_append_left inside).trans found
  | value value => cases found

section Means

variable {passed : PearlArguments} {heap after : Heap} {request : PearlRequest}
  (means : passed.Means heap request)

include means

private theorem PearlArguments.Means.grow (grows : heap <+: after) :
    passed.Means after request where
  baseHeader := Heap.bufferOf_of_prefix grows means.baseHeader
  coinbase := Heap.bufferOf_of_prefix grows means.coinbase
  coinbaseOffset := means.coinbaseOffset
  merkleBranch := Heap.bufferOf_of_prefix grows means.merkleBranch
  workerId := means.workerId

private theorem PearlArguments.Means.forWorker (workerId : Byte) :
    (passed.forWorker workerId).Means heap (request.forWorker workerId) :=
  { means with workerId := rfl }

end Means

/-- The buffers that the calls for these workers leave behind. -/
def workerBuffers (packages : Packages) (request : PearlRequest)
    (workers : List Byte) : List Bytes :=
  workers.flatMap fun workerId =>
    [(request.forWorker workerId).workerHeader packages,
      (request.forWorker workerId).workerCoinbase]

/-- A run adds two buffers for each worker, the header first. -/
theorem run_deriveAll {passed : PearlArguments} {heap : Heap}
    {request : PearlRequest} (means : passed.Means heap request)
    (workers : List Byte) :
    (deriveAll packages passed workers).run heap =
      ((List.range' heap.length workers.length 2).map .ok,
        heap ++ workerBuffers packages request workers) := by
  induction workers generalizing heap with
  | nil =>
      rw [workerBuffers, List.flatMap_nil, List.append_nil]
      rfl
  | cons workerId rest ih =>
      have derived := @run_derivePearlWorkerHeader_of_ok packages _ _ _
        (checkPearl_of_means (means.forWorker workerId))
      have later := ih (means.grow (List.prefix_append heap
        [(request.forWorker workerId).workerHeader packages,
          (request.forWorker workerId).workerCoinbase]))
      rw [List.length_append, List.append_assoc] at later
      rw [deriveAll, StateT.run_bind, derived]
      simp only [StateT.run_bind]
      exact congrArg (fun result => (_ :: result.1, result.2)) later

/-- The header of a worker of the run. -/
theorem header_of_run {heap : Heap} {request : PearlRequest}
    {workers : List Byte} {index : Nat} {workerId : Byte}
    (worker : workers[index]? = some workerId) :
    (heap ++ workerBuffers packages request workers)[heap.length + 2 * index]? =
      some ((request.forWorker workerId).workerHeader packages) := by
  rw [List.getElem?_append_right (Nat.le_add_right _ _),
    Nat.add_sub_cancel_left]
  induction workers generalizing index with
  | nil => cases worker
  | cons first rest ih =>
      cases index with
      | zero =>
          obtain rfl := Option.some.inj worker
          rfl
      | succ index =>
          rw [List.getElem?_cons_succ] at worker
          exact ih worker

private theorem exists_nodes {bytes : Bytes} (whole : bytes.length % 32 = 0) :
    ∃ nodes : List Hash, bytes = nodes.flatMap Blob.bytes := by
  induction size : bytes.length using Nat.strong_induction_on
    generalizing bytes with
  | _ length ih =>
      subst size
      rcases Nat.eq_zero_or_pos bytes.length with empty | positive
      · exact ⟨[], List.length_eq_zero_iff.mp empty⟩
      · have node : (bytes.take 32).length = 32 := by
          rw [List.length_take]
          omega
        have shorter : (bytes.drop 32).length < bytes.length := by
          rw [List.length_drop]
          omega
        have restWhole : (bytes.drop 32).length % 32 = 0 := by
          rw [List.length_drop]
          omega
        obtain ⟨rest, same⟩ := ih _ shorter restWhole rfl
        refine ⟨⟨bytes.take 32, node⟩ :: rest, ?_⟩
        rw [List.flatMap_cons, ← same, List.take_append_drop]

/-- The steps of a branch, where every sibling lies on the right. -/
def branchSteps (nodes : List Hash) : List (Bool × Hash) :=
  nodes.map fun node => (false, node)

private theorem foldl_joined
    (hash : Bytes → Hash) (nodes : List Hash) (leaf : Hash) :
    nodes.foldl (Packages.joined hash) leaf =
      Merkle.follow joinedBytes hash (branchSteps nodes) leaf := by
  induction nodes generalizing leaf with
  | nil => rfl
  | cons node rest ih => exact ih (hash (leaf.bytes ++ node.bytes))

/-- What is hashed for the header of a worker. -/
def PearlRequest.hashedStrings (packages : Packages) (request : PearlRequest)
    (nodes : List Hash) : List Bytes :=
  request.workerCoinbase ::
    Merkle.followed joinedBytes packages.hash256 (branchSteps nodes)
      (packages.hash256 request.workerCoinbase)

private theorem PearlRequest.workerCoinbase_inj {request : PearlRequest}
    {first second : Byte}
    (same : (request.forWorker first).workerCoinbase =
      (request.forWorker second).workerCoinbase) : first = second := by
  have bytes := congrArg
    (fun coinbase => coinbase[request.coinbaseOffset.val]?) same
  have inside := request.coinbaseOffset.isLt
  simp only [workerCoinbase, forWorker, List.getElem?_set_self inside,
    Option.some.injEq] at bytes
  exact bytes

/-- One header of two workers shows a collision. -/
theorem PearlRequest.workerHeader_inj {request : PearlRequest}
    {nodes : List Hash}
    (branch : request.merkleBranch = nodes.flatMap Blob.bytes)
    {first second : Byte}
    (same : (request.forWorker first).workerHeader packages =
      (request.forWorker second).workerHeader packages) :
    first = second ∨
      Merkle.Collision packages.hash256
        ((request.forWorker first).hashedStrings packages nodes)
        ((request.forWorker second).hashedStrings packages nodes) := by
  have climbs (workerId : Byte) :
      (request.forWorker workerId).root packages =
        Merkle.follow joinedBytes packages.hash256 (branchSteps nodes)
          (packages.hash256 (request.forWorker workerId).workerCoinbase) := by
    rw [← foldl_joined, root]
    change foldMerkleBranch packages request.merkleBranch 0 _ = _
    rw [branch]
    exact foldMerkleBranch_nodes [] nodes _
  rw [workerHeader_eq, workerHeader_eq] at same
  have roots : (request.forWorker first).root packages =
      (request.forWorker second).root packages := by
    apply Blob.ext
    have front := List.append_cancel_right same
    exact List.append_cancel_left front
  rw [climbs, climbs] at roots
  rcases Merkle.follow_inj joinedBytes_injective rfl roots with
    ⟨hashes, -⟩ | collision
  · by_cases equal : (request.forWorker first).workerCoinbase =
        (request.forWorker second).workerCoinbase
    · exact .inl (workerCoinbase_inj equal)
    · exact .inr ⟨_, List.mem_cons_self, _, List.mem_cons_self, equal, hashes⟩
  · exact .inr (collision.mono (List.subset_cons_self _ _)
      (List.subset_cons_self _ _))

/-- The headers of a run stay, and only one worker has each of them. -/
theorem worker_headers_distinct {passed : PearlArguments} {heap : Heap}
    {request : PearlRequest} (means : passed.Means heap request) :
    ∃ nodes : List Hash, request.merkleBranch = nodes.flatMap Blob.bytes ∧
      ∀ workers : List Byte, ∃ (headers : List Nat) (after : Heap),
        (deriveAll packages passed workers).run heap =
          (headers.map .ok, after) ∧
        heap <+: after ∧ headers.length = workers.length ∧
        ∀ (i j : Nat) (first second : Byte), workers[i]? = some first →
          workers[j]? = some second →
            ∃ header other, headers[i]? = some header ∧
              headers[j]? = some other ∧
              heap.length ≤ header ∧
              after[header]? =
                some ((request.forWorker first).workerHeader packages) ∧
              (after[header]? = after[other]? → first = second ∨
                Merkle.Collision packages.hash256
                  ((request.forWorker first).hashedStrings packages nodes)
                  ((request.forWorker second).hashedStrings packages
                    nodes)) := by
  obtain ⟨nodes, branch⟩ := exists_nodes request.branch_whole
  refine ⟨nodes, branch, fun workers => ?_⟩
  refine ⟨_, _, run_deriveAll means workers, List.prefix_append heap _,
    List.length_range', ?_⟩
  intro i j first second firstIs secondIs
  have reference (index : Nat) (worker : Byte)
      (found : workers[index]? = some worker) :
      (List.range' heap.length workers.length 2)[index]? =
        some (heap.length + 2 * index) := by
    rw [List.getElem?_range' (List.getElem?_eq_some_iff.mp found).1]
  refine ⟨_, _, reference i first firstIs, reference j second secondIs,
    Nat.le_add_right _ _, header_of_run firstIs, ?_⟩
  rw [header_of_run firstIs, header_of_run secondIs, Option.some.injEq]
  exact PearlRequest.workerHeader_inj branch

/-- A job with one sibling. -/
def workerHeap : Heap :=
  [List.replicate 76 0, [1, 2, 3], List.replicate 32 0]

theorem worker_headers_distinct_three :
    ∃ (headers : List Nat) (after : Heap),
      (deriveAll .documented
        ⟨.buffer 0, .buffer 1, .number 1, .buffer 2, .number 0⟩
          [0, 1, 255]).run workerHeap = (headers.map .ok, after) ∧
      workerHeap <+: after ∧ headers.length = 3 := by
  let request : PearlRequest :=
    { baseHeader := ⟨List.replicate 76 0, rfl⟩
      coinbase := [1, 2, 3]
      coinbase_size := by decide
      coinbaseOffset := ⟨1, by decide⟩
      merkleBranch := List.replicate 32 0
      branch_size := by decide
      branch_whole := by decide
      workerId := 0 }
  have means : PearlArguments.Means
      ⟨.buffer 0, .buffer 1, .number 1, .buffer 2, .number 0⟩ workerHeap
        request := ⟨rfl, rfl, rfl, rfl, rfl⟩
  obtain ⟨nodes, -, runs⟩ := @worker_headers_distinct .documented _ _ _ means
  obtain ⟨headers, after, run, grows, size, -⟩ := runs [0, 1, 255]
  exact ⟨headers, after, run, grows, size⟩

end BlockTemplate.Index
