/-
# What the duties of a manager do to tasks and nodes

A task core keeps its static part while it is at its manager, and a request of a multi-node job is
met at once or waits.
-/
import DragonRuntime.BatchDuties

namespace Batch

/-! ## Static parts -/

/-- A task core without the fields that its manager assigns. -/
def TaskCore.static {V : Type} (taskCore : TaskCore V) : TaskCore V :=
  { taskCore with
    argLists := []
    numDepSat := 0
    isCancelled := .none
    cancelSourceTuid := none
    cachedQueue := none
    hostnameList := none }

/-- A work chunk, with its task cores without the fields that the manager assigns. -/
def Work.static {V : Type} (work : Work V) : Work V :=
  { work with
    readyTaskCores := work.readyTaskCores.map TaskCore.static
    blockedTaskCores := work.blockedTaskCores.map TaskCore.static }

section Static

variable {V : Type}

theorem modifyTask_static (taskCores : List (TaskCore (PyVal V))) (tuid : Tuid)
    {f : TaskCore (PyVal V) → TaskCore (PyVal V)}
    (hf : ∀ taskCore ∈ taskCores, taskCore.tuid = tuid → (f taskCore).static = taskCore.static) :
    (Manager.modifyTask taskCores tuid f).map TaskCore.static =
      taskCores.map TaskCore.static := by
  rw [Manager.modifyTask, List.map_map]
  apply List.map_congr_left
  intro taskCore hmem
  simp only [Function.comp]
  split
  next htuid => exact hf taskCore hmem htuid
  next => rfl

theorem markTaskCancelled_static (taskCore : TaskCore (PyVal V)) :
    (Manager.markTaskCancelled taskCore).static = taskCore.static := by
  rw [Manager.markTaskCancelled]
  split
  · rfl
  · rfl

theorem cancelInWork_static (work : Work (PyVal V)) (tuid : Tuid) :
    (Manager.cancelInWork work tuid).static = work.static := by
  rw [Work.static, Work.static, Manager.cancelInWork]
  simp only []
  rw [modifyTask_static _ _ fun taskCore _ _ => markTaskCancelled_static taskCore,
    modifyTask_static _ _ fun taskCore _ _ => markTaskCancelled_static taskCore]

theorem satisfy_static (results : Tuid → Option (PyVal V × Bool)) (depSat : DepSat)
    (taskCore : TaskCore (PyVal V)) :
    (Manager.satisfy results depSat taskCore).static = taskCore.static := by
  rw [Manager.satisfy]
  split
  · split
    · rfl
    · rfl
  · split
    · rfl
    · rfl

end Static

/-! ## Enough nodes for a multi-node job -/

namespace Ledger

variable {V : Type}

theorem buildContiguousHostnameList_isSome (ranksPerNode : ℕ) (hostnames : List Hostname)
    (remaining : ℕ) (h : remaining ≤ ranksPerNode * hostnames.length) :
    (Manager.buildContiguousHostnameList ranksPerNode hostnames remaining).isSome := by
  induction hostnames generalizing remaining with
  | nil =>
    have hzero : remaining = 0 := by simpa using h
    rw [Manager.buildContiguousHostnameList, if_pos hzero]
    rfl
  | cons hostname hostnames ih =>
    rw [Manager.buildContiguousHostnameList]
    split
    · rfl
    · rw [Option.isSome_map]
      apply ih
      rw [List.length_cons, Nat.mul_succ] at h
      omega

theorem exists_hostnameList {physicalCoresPerNode : ℕ} (hcores : 0 < physicalCoresPerNode)
    (taskCore : TaskCore (PyVal V)) {hostnames : List Hostname}
    (hlength : hostnames.length = Manager.numNodes physicalCoresPerNode taskCore) :
    ∃ hostnameList, Manager.buildContiguousHostnameList physicalCoresPerNode hostnames
      (Manager.numProcs taskCore) = some hostnameList := by
  apply Option.isSome_iff_exists.mp
  apply buildContiguousHostnameList_isSome
  rw [hlength, Manager.numNodes]
  have hdiv := Nat.div_add_mod (Manager.numProcs taskCore + physicalCoresPerNode - 1)
    physicalCoresPerNode
  have hmod := Nat.mod_lt (Manager.numProcs taskCore + physicalCoresPerNode - 1) hcores
  omega

end Ledger

/-! ## Multi-node jobs that become ready -/

namespace Manager

variable {V : Type} {m : Manager V} {ref : TaskRef} {taskCore : TaskCore (PyVal V)}

/-- The nodes of the scheduler after a request that is met at once. -/
def grantedNodes (nodes : NodeState) (numNodes : ℕ) : NodeState :=
  { nodes with
    allocHandleCtr := nodes.allocHandleCtr + 1
    availableNodes := nodes.availableNodes.drop numNodes
    allocHandles := nodes.allocHandles.insert nodes.allocHandleCtr
      (nodes.availableNodes.take numNodes) }

/-- The nodes of the scheduler after a request that has to wait. -/
def waitingNodes (nodes : NodeState) (numNodes priorityWeight : ℕ) : NodeState :=
  { nodes with
    allocHandleCtr := nodes.allocHandleCtr + 1
    pendingAllocRequests := nodes.pendingAllocRequests.insert nodes.allocHandleCtr
      ⟨none, numNodes, priorityWeight⟩ }

/-- There are nodes enough for the job. -/
theorem requestMnjAlloc_granted (hnames : requestsHostnames taskCore = false)
    (henough : numNodes m.physicalCoresPerNode taskCore ≤ m.nodes.availableNodes.length) :
    m.requestMnjAlloc ref taskCore =
      { m with
        mnjPendingCounts := increase m.mnjPendingCounts taskCore.clientId 1
        nodes := grantedNodes m.nodes (numNodes m.physicalCoresPerNode taskCore)
        }.submitMnjTask ref taskCore taskCore.clientId
          (m.nodes.availableNodes.take (numNodes m.physicalCoresPerNode taskCore)) := by
  have hclaim : tryAllocateRequest m.nodes.availableNodes
      ⟨none, numNodes m.physicalCoresPerNode taskCore, taskCore.weight⟩ =
        some (m.nodes.availableNodes.take (numNodes m.physicalCoresPerNode taskCore),
          m.nodes.availableNodes.drop (numNodes m.physicalCoresPerNode taskCore)) := by
    rw [tryAllocateRequest, claimContiguousNodes, if_neg (not_lt.mpr henough)]
  have hrequest : m.nodes.requestNodes (numNodes m.physicalCoresPerNode taskCore) none
      taskCore.weight =
        (grantedNodes m.nodes (numNodes m.physicalCoresPerNode taskCore),
          m.nodes.allocHandleCtr) := by
    rw [NodeState.requestNodes, buildAllocRequest]
    simp only [hclaim]
    rfl
  have hlookup : (grantedNodes m.nodes (numNodes m.physicalCoresPerNode taskCore)).allocHandles.lookup
      m.nodes.allocHandleCtr =
        some (m.nodes.availableNodes.take (numNodes m.physicalCoresPerNode taskCore)) :=
    AList.lookup_insert _
  rw [requestMnjAlloc, hnames]
  simp only [Bool.false_eq_true, if_false]
  rw [hrequest]
  simp only [hlookup]

/-- There are not nodes enough for the job. -/
theorem requestMnjAlloc_waits (hnames : requestsHostnames taskCore = false)
    (hfew : m.nodes.availableNodes.length < numNodes m.physicalCoresPerNode taskCore)
    (hfresh : m.nodes.allocHandles.lookup m.nodes.allocHandleCtr = none) :
    m.requestMnjAlloc ref taskCore =
      { m with
        mnjPendingCounts := increase m.mnjPendingCounts taskCore.clientId 1
        nodes :=
          { waitingNodes m.nodes (numNodes m.physicalCoresPerNode taskCore)
              taskCore.weight with
            pendingMnjTasks := m.nodes.pendingMnjTasks.insert m.nodes.allocHandleCtr
              (ref, taskCore.clientId) } } := by
  have hclaim : tryAllocateRequest m.nodes.availableNodes
      ⟨none, numNodes m.physicalCoresPerNode taskCore, taskCore.weight⟩ = none := by
    rw [tryAllocateRequest, claimContiguousNodes, if_pos hfew]
  have hrequest : m.nodes.requestNodes (numNodes m.physicalCoresPerNode taskCore) none
      taskCore.weight =
        (waitingNodes m.nodes (numNodes m.physicalCoresPerNode taskCore) taskCore.weight,
          m.nodes.allocHandleCtr) := by
    rw [NodeState.requestNodes, buildAllocRequest]
    simp only [hclaim]
    rfl
  have hlookup : (waitingNodes m.nodes (numNodes m.physicalCoresPerNode taskCore)
      taskCore.weight).allocHandles.lookup m.nodes.allocHandleCtr = none := hfresh
  rw [requestMnjAlloc, hnames]
  simp only [Bool.false_eq_true, if_false]
  rw [hrequest]
  simp only [hlookup]
  rfl

theorem releaseRunningTask_eq (m : Manager V) (tuid : Tuid) :
    ∃ runningTaskState subnodeAvailableCores, m.releaseRunningTask tuid =
      { m with
        runningTaskState := runningTaskState
        subnodeAvailableCores := subnodeAvailableCores } := by
  rw [releaseRunningTask]
  split
  · exact ⟨_, _, rfl⟩
  · exact ⟨m.runningTaskState, m.subnodeAvailableCores, rfl⟩

end Manager

end Batch
