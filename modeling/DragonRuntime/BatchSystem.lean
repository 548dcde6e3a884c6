/-
# The managers of a batch

What a manager is before its first message, and the part of its main loop that handles one result.
An index beyond the subnode managers stands for no manager.
-/
import DragonRuntime.BatchManager

namespace Batch

/-- The first item of the queue of results is handled. -/
def System.handleNextResult {V : Type} (m : Manager V) : Manager V :=
  match m.asyncQueue with
  | [] => m
  | completion :: rest => { m with asyncQueue := rest }.handleResults completion

/-- The nodes, cores and clients of a batch. -/
structure Config where
  /-- The hostname of the node of each subnode manager. -/
  hostnames : List Hostname
  nodup : hostnames.Nodup
  ne_nil : hostnames ≠ []
  physicalCoresPerNode : ℕ
  cores_pos : 0 < physicalCoresPerNode
  managedLifecycle : Bool
  clients : Finset ℕ

namespace Config

variable {V : Type}

/-- The manager `idx` before it has received a message.  An index beyond the subnode managers
stands for no manager: its main loop has been left from the start. -/
def manager (config : Config) (idx : ManagerIdx) : Manager V where
  idx := idx
  physicalCoresPerNode := config.physicalCoresPerNode
  managedLifecycle := config.managedLifecycle
  poolHostnames :=
    match idx with
    | .scheduler => []
    | .subnode i => (config.hostnames[i]?).toList
  numSubnodeManagers := config.hostnames.length
  workBacklog := ∅
  unexpectedDepSat := ∅
  activeClients := config.clients
  retQ := config.clients
  completedTuids := fun _ _ => none
  depRequestReplyMap := ∅
  pendingTaskCounts := fun _ => none
  clientsPendingReap := ∅
  poolLaunchArgsList := []
  asyncQueue := []
  destroyCalled := false
  exited :=
    match idx with
    | .scheduler => false
    | .subnode i => config.hostnames.length ≤ i
  cachedQueues := []
  queueCtr := 0
  cancelJobs := fun _ => 0
  runningTaskState := fun _ => none
  nodes :=
    { availableNodes :=
        match idx with
        | .scheduler => sortHostnames config.hostnames
        | .subnode _ => []
      allocHandleCtr := 0
      allocHandles := ∅
      pendingAllocRequests := ∅
      newlySatisfiedAllocs := []
      subnodeAllocReplyQs := ∅
      subnodeAllocHandle := ∅
      pendingMnjTasks := ∅
      mnjRunning := ∅ }
  subnodeOutstanding := fun _ => none
  mnjPendingCounts := fun _ => none
  mnjClientIds := ∅
  schedulerFenceRequests := ∅
  subnodeHasAlloc := false
  subnodeAllocPending := false
  pendingWorkChunks := []
  queuedWorkChunks := []
  allocPhaseClientWorkCounts := ∅
  subnodeReadyHeap := []
  subnodeAvailableCores := config.physicalCoresPerNode
  subnodeHasWork := false
  outbox := []

end Config

end Batch
