/-
# The nodes of the scheduler (`Manager` of `dragon/workflows/batch/batch.py`)

The scheduler hands the nodes of the allocation out to the subnode managers and to the
multi-node jobs.  A request that cannot be met waits, and is tried again, by priority, when
nodes come back.

Conventions:

* a Python dictionary is an `AList`, a set of hostnames a list;
* a hostname is in a request at most once, so `list.remove` finds each of them;
* the clients of a request are left out, as nothing reads them.
-/
import DragonRuntime.BatchTask

namespace Batch

/-- A Python dictionary. -/
abbrev Table (K V : Type) : Type := AList fun _ : K => V

/-- `PendingAllocInfo`. -/
structure PendingAllocInfo where
  hostnames : Option (List Hostname)
  numNodes : ℕ
  priorityWeight : ℕ
  deriving DecidableEq, Repr

/-- A task core that several containers of a manager refer to. -/
structure TaskRef where
  tuid : Tuid
  compiledTuid : CompiledTuid
  deriving DecidableEq, Repr

/-- The scheduler's books of nodes. -/
structure NodeState where
  availableNodes : List Hostname
  allocHandleCtr : ℕ
  allocHandles : Table ℕ (List Hostname)
  pendingAllocRequests : Table ℕ PendingAllocInfo
  newlySatisfiedAllocs : List (ℕ × List Hostname)
  /-- The subnode manager that waits for the handle. -/
  subnodeAllocReplyQs : Table ℕ ℕ
  /-- The handle of each subnode manager. -/
  subnodeAllocHandle : Table ℕ ℕ
  /-- The multi-node job, and its client, that waits for the handle. -/
  pendingMnjTasks : Table ℕ (TaskRef × ℕ)
  mnjRunning : Table Tuid (List Hostname)

/-- `sorted` and `list.sort`. -/
def sortHostnames (hostnames : List Hostname) : List Hostname := hostnames.insertionSort (· ≤ ·)

/-! ## Claims -/

/-- `_claim_requested_nodes`: what is claimed, and what stays available. -/
def claimRequestedNodes (availableNodes hostnames : List Hostname) :
    Option (List Hostname × List Hostname) :=
  if ∀ hostname ∈ hostnames, hostname ∈ availableNodes then
    some (hostnames, hostnames.foldl List.erase availableNodes)
  else none

/-- `_claim_required_and_contiguous_nodes`.  No request asks for fewer nodes than it names,
so the check that raises is left out. -/
def claimRequiredAndContiguousNodes (availableNodes hostnames : List Hostname) (numNodes : ℕ) :
    Option (List Hostname × List Hostname) :=
  if ∀ hostname ∈ hostnames, hostname ∈ availableNodes then
    let remainingAvailable := availableNodes.filter fun hostname => hostname ∉ hostnames
    let extraNodesNeeded := numNodes - hostnames.length
    if remainingAvailable.length < extraNodesNeeded then none
    else
      let allocated := sortHostnames hostnames ++ remainingAvailable.take extraNodesNeeded
      some (allocated, allocated.foldl List.erase availableNodes)
  else none

/-- `_claim_contiguous_nodes`. -/
def claimContiguousNodes (availableNodes : List Hostname) (numNodes : ℕ) :
    Option (List Hostname × List Hostname) :=
  if availableNodes.length < numNodes then none
  else some (availableNodes.take numNodes, availableNodes.drop numNodes)

/-- `_build_alloc_request`. -/
def buildAllocRequest (numNodes : ℕ) (hostnames : Option (List Hostname)) (priorityWeight : ℕ) :
    PendingAllocInfo :=
  match hostnames with
  | some hostnames => ⟨some (sortHostnames hostnames), max numNodes hostnames.length, priorityWeight⟩
  | none => ⟨none, numNodes, priorityWeight⟩

/-- `_try_allocate_request`. -/
def tryAllocateRequest (availableNodes : List Hostname) (request : PendingAllocInfo) :
    Option (List Hostname × List Hostname) :=
  match request.hostnames with
  | some hostnames =>
    if request.numNodes = hostnames.length then claimRequestedNodes availableNodes hostnames
    else claimRequiredAndContiguousNodes availableNodes hostnames request.numNodes
  | none => claimContiguousNodes availableNodes request.numNodes

namespace NodeState

/-! ## Requests and releases -/

/-- `_record_allocation`, with what stays available. -/
def recordAllocation (nodes : NodeState) (handle : ℕ) (hostnames availableNodes : List Hostname)
    (deferred : Bool) : NodeState :=
  { nodes with
    availableNodes := availableNodes
    allocHandles := nodes.allocHandles.insert handle hostnames
    newlySatisfiedAllocs :=
      if deferred then nodes.newlySatisfiedAllocs ++ [(handle, hostnames)]
      else nodes.newlySatisfiedAllocs }

/-- `request_nodes`: the new state and the handle. -/
def requestNodes (nodes : NodeState) (numNodes : ℕ) (hostnames : Option (List Hostname))
    (priorityWeight : ℕ) : NodeState × ℕ :=
  let handle := nodes.allocHandleCtr
  let request := buildAllocRequest numNodes hostnames priorityWeight
  let nodes := { nodes with allocHandleCtr := nodes.allocHandleCtr + 1 }
  match tryAllocateRequest nodes.availableNodes request with
  | some (allocated, availableNodes) =>
    (nodes.recordAllocation handle allocated availableNodes false, handle)
  | none =>
    ({ nodes with pendingAllocRequests := nodes.pendingAllocRequests.insert handle request }, handle)

/-- `_pending_alloc_sort_key`. -/
def pendingAllocSortKey (entry : (_ : ℕ) × PendingAllocInfo) : ℤ ×ₗ ℕ :=
  toLex (-(entry.2.priorityWeight : ℤ), entry.1)

/-- One turn of the loop of `free_nodes`.  The requests that are met are deleted after the
loop, which reads none of them again. -/
def grantPending (nodes : NodeState) (entry : (_ : ℕ) × PendingAllocInfo) : NodeState :=
  match tryAllocateRequest nodes.availableNodes entry.2 with
  | some (allocated, availableNodes) =>
    { nodes.recordAllocation entry.1 allocated availableNodes true with
      pendingAllocRequests := nodes.pendingAllocRequests.erase entry.1 }
  | none => nodes

/-- `free_nodes`. -/
def freeNodes (nodes : NodeState) (hostnames : List Hostname) : NodeState :=
  let nodes := { nodes with availableNodes := sortHostnames (nodes.availableNodes ++ hostnames) }
  (nodes.pendingAllocRequests.entries.insertionSort fun a b =>
    pendingAllocSortKey a ≤ pendingAllocSortKey b).foldl grantPending nodes

end NodeState

end Batch
