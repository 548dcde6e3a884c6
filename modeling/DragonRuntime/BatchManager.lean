/-
# The managers of a batch (`Manager` of `dragon/workflows/batch/batch.py`)

The scheduler routes work chunks to the subnode managers, hands out the nodes, and runs the
multi-node jobs; a subnode manager runs the tasks of its chunks while it holds its node.
Both take messages from their work queue, one after the other, and go on with what their
main loop does between messages.

Conventions:

* what a handler puts on queues is collected in `outbox`, in order, and delivered after the
  handler;
* a task core that is referred to from several containers is kept in the work backlog, and
  the other containers hold its ids;
* an exception that leaves a handler keeps the changes made before it.  The exceptions that
  the code can meet are modelled where they are raised; running out of memory, and failures
  of queues and of the worker pool, are left out;
* a clock is left out, so `destroy` comes without a force timeout; names, texts of logs and
  telemetry are left out, and so are the task ids of an allocation phase, which are only
  logged;
* clients are registered with every manager from the start.
-/
import DragonRuntime.BatchNodes
import DragonRuntime.BatchCompiler

namespace Batch

/-! ## Values and messages -/

/-- An exception object. -/
inductive Exc : Type where
  | user (code : ℕ)
  | taskCancelled
  | readAfterWriteDependency
  deriving DecidableEq, Repr

/-- A Python value: an exception object, or any other. -/
inductive PyVal (V : Type) : Type where
  | value (v : V)
  | exception (e : Exc)
  deriving DecidableEq, Repr

/-- `DepSat`. -/
structure DepSat where
  sourceTuid : Tuid
  tuid : Tuid
  compiledTuid : CompiledTuid
  argDepUpdates : List ArgDepUpdate
  cancelReason : TaskCancellationReason
  deriving DecidableEq, Repr

/-- `DepSatRequest`. -/
structure DepSatRequest where
  upstreamTuid : Tuid
  tuid : Tuid
  compiledTuid : CompiledTuid
  argDepUpdates : List ArgDepUpdate
  replyQ : ManagerIdx
  clientId : ℕ
  isRaw : Bool
  deriving DecidableEq, Repr

/-- `TaskComplete`. -/
structure TaskComplete where
  tuid : Tuid
  compiledTuid : CompiledTuid
  raised : Bool
  deriving DecidableEq, Repr

/-- What is put on the work queue of a manager. -/
inductive Msg (V : Type) : Type where
  | work (work : Work (PyVal V))
  | depSat (depSat : DepSat)
  | depSatRequest (request : DepSatRequest)
  | unregisterClient (clientId : ℕ) (cleanDetach : Bool)
  | destroyCalled
  | fenceRequest (clientId : ℕ)
  | cancelRequest (clientId : ℕ) (tuid : Tuid) (managerIdx : Option ManagerIdx)
  | subnodeAllocRequest (managerIdx : ℕ) (hostnames : List Hostname) (priorityWeight : ℕ)
  | subnodeAllocResponse
  | subnodeFreeRequest (managerIdx : ℕ) (clientWorkCounts : Table ℕ ℕ)
  | clearFenceState (clientId : ℕ)

/-- What a manager sends: to the work queue of a manager, to its worker pool, or to a
client. -/
inductive Output (V : Type) : Type where
  | send (dest : ManagerIdx) (msg : Msg V)
  | launch (taskCore : TaskCore (PyVal V))
  | fenceComplete (clientId : ℕ)
  | cancelResponse (tuid : Tuid) (cancelled : Bool)
  | unregistered (clientId : ℕ) (lastClient : Bool)
  | completedTuid (clientId : ℕ) (tuid : Tuid)

/-- `StartedTaskInfo`. -/
structure StartedTaskInfo where
  controlQ : ℕ
  reservedCores : ℕ
  deriving DecidableEq, Repr

/-! ## The state of a manager -/

/-- `Manager`. -/
structure Manager (V : Type) where
  idx : ManagerIdx
  physicalCoresPerNode : ℕ
  managedLifecycle : Bool
  poolHostnames : List Hostname
  numSubnodeManagers : ℕ
  workBacklog : Table CompiledTuid (Work (PyVal V))
  unexpectedDepSat : Table CompiledTuid (List DepSat)
  activeClients : Finset ℕ
  /-- The clients with a return queue. -/
  retQ : Finset ℕ
  /-- Of each client, the completed tasks and whether they raised. -/
  completedTuids : ℕ → Tuid → Option Bool
  depRequestReplyMap : Table Tuid (List DepSatRequest)
  pendingTaskCounts : ℕ → Option ℕ
  clientsPendingReap : Finset ℕ
  poolLaunchArgsList : List TaskRef
  asyncQueue : List TaskComplete
  destroyCalled : Bool
  /-- The main loop has been left. -/
  exited : Bool
  cachedQueues : List ℕ
  /-- The number of control queues that have been made. -/
  queueCtr : ℕ
  /-- The number of `CancelJob` messages in each control queue. -/
  cancelJobs : ℕ → ℕ
  runningTaskState : Tuid → Option StartedTaskInfo
  -- the scheduler
  nodes : NodeState
  subnodeOutstanding : ℕ → Option ℕ
  mnjPendingCounts : ℕ → Option ℕ
  mnjClientIds : Table Tuid ℕ
  schedulerFenceRequests : Finset ℕ
  -- a subnode manager
  subnodeHasAlloc : Bool
  subnodeAllocPending : Bool
  pendingWorkChunks : List (Work (PyVal V))
  queuedWorkChunks : List (Work (PyVal V))
  allocPhaseClientWorkCounts : Table ℕ ℕ
  subnodeReadyHeap : List ((ℤ ×ₗ ℕ ×ₗ String) × TaskRef)
  subnodeAvailableCores : ℕ
  subnodeHasWork : Bool
  /-- What the handler at work has sent. -/
  outbox : List (Output V)

namespace Manager

variable {V : Type}

/-- `is_scheduler`. -/
def isScheduler (m : Manager V) : Bool := m.idx = .scheduler

/-- A put on a queue. -/
def put (m : Manager V) (output : Output V) : Manager V := { m with outbox := m.outbox ++ [output] }

/-- `d[key] = d.get(key, 0) + n`. -/
def increase (counts : ℕ → Option ℕ) (key n : ℕ) : ℕ → Option ℕ :=
  Function.update counts key (some ((counts key).getD 0 + n))

/-! ## Task cores of the backlog -/

/-- A task of the ready dictionaries of the backlog. -/
def readyTask (m : Manager V) (ref : TaskRef) : Option (TaskCore (PyVal V)) :=
  match m.workBacklog.lookup ref.compiledTuid with
  | some work => work.readyTaskCores.find? fun taskCore => taskCore.tuid = ref.tuid
  | none => none

/-- An assignment to fields of a task core. -/
def modifyTask (taskCores : List (TaskCore (PyVal V))) (tuid : Tuid)
    (f : TaskCore (PyVal V) → TaskCore (PyVal V)) : List (TaskCore (PyVal V)) :=
  taskCores.map fun taskCore => if taskCore.tuid = tuid then f taskCore else taskCore

/-- An assignment to fields of a task core in a ready dictionary of the backlog. -/
def modifyReady (m : Manager V) (ref : TaskRef) (f : TaskCore (PyVal V) → TaskCore (PyVal V)) :
    Manager V :=
  match m.workBacklog.lookup ref.compiledTuid with
  | some work =>
    { m with
      workBacklog := m.workBacklog.insert ref.compiledTuid
        { work with readyTaskCores := modifyTask work.readyTaskCores ref.tuid f } }
  | none => m

/-! ## Launch -/

/-- `_borrow_cached_queue`. -/
def borrowCachedQueue (m : Manager V) : ℕ × Manager V :=
  match m.cachedQueues with
  | queue :: rest => (queue, { m with cachedQueues := rest })
  | [] => (m.queueCtr, { m with queueCtr := m.queueCtr + 1 })

/-- `_get_queue_for_task`. -/
def getQueueForTask (m : Manager V) (taskCore : TaskCore (PyVal V)) : ℕ × Manager V :=
  match taskCore.cachedQueue with
  | some queue => (queue, m)
  | none => m.borrowCachedQueue

/-- `_register_running_task`. -/
def registerRunningTask (m : Manager V) (tuid : Tuid) (controlQ reservedCores : ℕ) : Manager V :=
  { m with
    runningTaskState := Function.update m.runningTaskState tuid (some ⟨controlQ, reservedCores⟩)
    subnodeAvailableCores := m.subnodeAvailableCores - reservedCores }

/-- `_release_running_task`. -/
def releaseRunningTask (m : Manager V) (tuid : Tuid) : Manager V :=
  match m.runningTaskState tuid with
  | some startedTask =>
    { m with
      runningTaskState := Function.update m.runningTaskState tuid none
      subnodeAvailableCores := m.subnodeAvailableCores + startedTask.reservedCores }
  | none => m

/-- `_recycle_queue`. -/
def recycleQueue (m : Manager V) (queue : ℕ) : Manager V :=
  { m with
    cancelJobs := Function.update m.cancelJobs queue 0
    cachedQueues := queue :: m.cachedQueues }

/-- What `_submit_mnj_task` and `_setup_subnode_task` share: the task gets its control queue
and its hostnames, and is queued for launch. -/
def startTask (m : Manager V) (ref : TaskRef) (taskCore : TaskCore (PyVal V))
    (hostnameList : Option (List Hostname)) (reservedCores : ℕ) : Manager V :=
  let controlQ := (m.getQueueForTask taskCore).1
  let m := (m.getQueueForTask taskCore).2.registerRunningTask ref.tuid controlQ reservedCores
  let m := m.modifyReady ref fun taskCore =>
    { taskCore with cachedQueue := some controlQ, hostnameList := hostnameList }
  { m with poolLaunchArgsList := m.poolLaunchArgsList ++ [ref] }

/-- `_subnode_cores_for_task`. -/
def subnodeCoresForTask (taskCore : TaskCore (PyVal V)) : ℕ :=
  match taskCore.kind with
  | .function => 1
  | .job numProcs _ _ => numProcs

/-- `_setup_subnode_task`. -/
def setupSubnodeTask (m : Manager V) (ref : TaskRef) (taskCore : TaskCore (PyVal V)) : Manager V :=
  let reservedCores := subnodeCoresForTask taskCore
  let hostnameList := match taskCore.kind with
    | .function => taskCore.hostnameList
    | .job _ _ _ => some (List.replicate reservedCores (m.poolHostnames.headD 0))
  m.startTask ref taskCore hostnameList reservedCores

/-- `_build_contiguous_hostname_list`: ranks are packed onto the nodes in order. -/
def buildContiguousHostnameList (ranksPerNode : ℕ) : List Hostname → ℕ → Option (List Hostname)
  | [], remaining => if remaining = 0 then some [] else none
  | hostname :: hostnames, remaining =>
    let nranks := min ranksPerNode remaining
    if remaining - nranks = 0 then some (List.replicate nranks hostname)
    else (buildContiguousHostnameList ranksPerNode hostnames (remaining - nranks)).map
      fun rest => List.replicate nranks hostname ++ rest

/-- The number of processes of a job. -/
def numProcs (taskCore : TaskCore (PyVal V)) : ℕ :=
  match taskCore.kind with
  | .function => 0
  | .job numProcs _ _ => numProcs

/-- `_submit_mnj_task`. -/
def submitMnjTask (m : Manager V) (ref : TaskRef) (taskCore : TaskCore (PyVal V)) (clientId : ℕ)
    (hostnames : List Hostname) : Manager V :=
  match buildContiguousHostnameList m.physicalCoresPerNode hostnames (numProcs taskCore) with
  | none => m
  | some hostnameList =>
    let m :=
      { m with
        nodes := { m.nodes with mnjRunning := m.nodes.mnjRunning.insert ref.tuid hostnames }
        mnjClientIds := m.mnjClientIds.insert ref.tuid clientId }
    m.startTask ref taskCore (some hostnameList) 0

/-- A job with an explicit `HOST_NAME` placement in one of its templates. -/
def requestsHostnames (taskCore : TaskCore (PyVal V)) : Bool :=
  match taskCore.kind with
  | .function => false
  | .job _ _ policies => policies.any fun policy => policy ≠ .other

/-- `_enqueue_ready_task` raises: on the scheduler for a task that is not a multi-node job,
and for a multi-node job with explicit hostnames, which are checked against the attribute
`_all_node_hostnames` that a manager does not have. -/
def enqueueRaises (m : Manager V) (taskCore : TaskCore (PyVal V)) : Bool :=
  m.isScheduler &&
    (!isMultiNodeJob taskCore m.physicalCoresPerNode || requestsHostnames taskCore)

/-- The number of nodes of a multi-node job: `math.ceil(num_procs / physical_cores_per_node)`. -/
def numNodes (physicalCoresPerNode : ℕ) (taskCore : TaskCore (PyVal V)) : ℕ :=
  (numProcs taskCore + physicalCoresPerNode - 1) / physicalCoresPerNode

/-- `_request_mnj_alloc`. -/
def requestMnjAlloc (m : Manager V) (ref : TaskRef) (taskCore : TaskCore (PyVal V)) : Manager V :=
  let clientId := taskCore.clientId
  let m := { m with mnjPendingCounts := increase m.mnjPendingCounts clientId 1 }
  if requestsHostnames taskCore then m
  else
    let requested := m.nodes.requestNodes (numNodes m.physicalCoresPerNode taskCore) none
      taskCore.weight
    let nodes := requested.1
    let handle := requested.2
    match nodes.allocHandles.lookup handle with
    | some hostnames => { m with nodes := nodes }.submitMnjTask ref taskCore clientId hostnames
    | none =>
      { m with
        nodes := { nodes with
          pendingMnjTasks := nodes.pendingMnjTasks.insert handle (ref, clientId) } }

/-- `_enqueue_ready_task`, up to the exception if it raises one. -/
def enqueueReadyTask (m : Manager V) (ref : TaskRef) (taskCore : TaskCore (PyVal V)) : Manager V :=
  if m.isScheduler then
    if isMultiNodeJob taskCore m.physicalCoresPerNode then m.requestMnjAlloc ref taskCore else m
  else { m with subnodeReadyHeap := (taskHeftPriorityKey taskCore, ref) :: m.subnodeReadyHeap }

/-- One turn of the loop of `_drain_subnode_ready_tasks`.  A deferred task goes back to the
heap, which the loop has emptied. -/
def drainStep (m : Manager V) (item : (ℤ ×ₗ ℕ ×ₗ String) × TaskRef) : Manager V :=
  match m.readyTask item.2 with
  | none => m
  | some taskCore =>
    if subnodeCoresForTask taskCore ≤ m.subnodeAvailableCores then
      m.setupSubnodeTask item.2 taskCore
    else { m with subnodeReadyHeap := m.subnodeReadyHeap ++ [item] }

/-- `_drain_subnode_ready_tasks`. -/
def drainSubnodeReadyTasks (m : Manager V) : Manager V :=
  (m.subnodeReadyHeap.insertionSort fun a b => a.1 ≤ b.1).foldl drainStep
    { m with subnodeReadyHeap := [] }

/-- The tasks of the launch list are handed to the workers. -/
def launchList (m : Manager V) : Manager V :=
  { (m.poolLaunchArgsList.filterMap m.readyTask).foldl
      (fun m taskCore => m.put (.launch taskCore)) m with poolLaunchArgsList := [] }

/-- The manager notes that it has had tasks. -/
def noteWork (m : Manager V) : Manager V :=
  { m with
    subnodeHasWork := m.subnodeHasWork || !m.poolLaunchArgsList.isEmpty ||
      (!m.isScheduler && !m.subnodeReadyHeap.isEmpty) }

/-- The launch part of the main loop: `_launch_tasks` and what is around it. -/
def launchTasks (m : Manager V) : Manager V :=
  if m.isScheduler then m.noteWork.launchList
  else if m.subnodeHasAlloc then m.noteWork.drainSubnodeReadyTasks.launchList
  else { m.noteWork with poolLaunchArgsList := [] }

/-! ## Clients and fences -/

/-- `_reap_client_state`. -/
def reapClientState (m : Manager V) (clientId : ℕ) : Manager V :=
  let m :=
    { m with
      retQ := m.retQ.erase clientId
      completedTuids := Function.update m.completedTuids clientId fun _ => none
      pendingTaskCounts := Function.update m.pendingTaskCounts clientId none
      clientsPendingReap := m.clientsPendingReap.erase clientId }
  if m.isScheduler then
    { m with
      subnodeOutstanding := Function.update m.subnodeOutstanding clientId none
      mnjPendingCounts := Function.update m.mnjPendingCounts clientId none
      schedulerFenceRequests := m.schedulerFenceRequests.erase clientId }
  else m

/-- `_can_reap_client_state`. -/
def canReapClientState (m : Manager V) (clientId : ℕ) : Bool :=
  clientId ∉ m.activeClients && (m.pendingTaskCounts clientId).getD 0 = 0 &&
    (!m.isScheduler ||
      ((m.subnodeOutstanding clientId).getD 0 = 0 && (m.mnjPendingCounts clientId).getD 0 = 0 &&
        clientId ∉ m.schedulerFenceRequests))

/-- `_maybe_reap_client_state`. -/
def maybeReapClientState (m : Manager V) (clientId : ℕ) : Manager V :=
  if clientId ∈ m.clientsPendingReap ∧ m.canReapClientState clientId then
    m.reapClientState clientId
  else m

/-- `_try_satisfy_scheduler_fence`. -/
def trySatisfySchedulerFence (m : Manager V) (clientId : ℕ) : Manager V :=
  if clientId ∉ m.schedulerFenceRequests then m
  else if (m.mnjPendingCounts clientId).getD 0 = 0 ∧ (m.subnodeOutstanding clientId).getD 0 = 0 then
    let m := { m with schedulerFenceRequests := m.schedulerFenceRequests.erase clientId }
    let m := (List.range m.numSubnodeManagers).foldl
      (fun m subnode => m.put (.send (.subnode subnode) (.clearFenceState clientId))) m
    { m with completedTuids := Function.update m.completedTuids clientId fun _ => none }.put
      (.fenceComplete clientId)
  else m

/-- `_handle_scheduler_fence_request`. -/
def handleSchedulerFenceRequest (m : Manager V) (clientId : ℕ) : Manager V :=
  { m with schedulerFenceRequests := insert clientId m.schedulerFenceRequests
    }.trySatisfySchedulerFence clientId

/-- `_handle_unregister_client`. -/
def handleUnregisterClient (m : Manager V) (clientId : ℕ) (cleanDetach : Bool) : Manager V :=
  let m := { m with activeClients := m.activeClients.erase clientId }
  let m :=
    if cleanDetach then m.reapClientState clientId
    else { m with clientsPendingReap := insert clientId m.clientsPendingReap
      }.maybeReapClientState clientId
  let lastClient : Bool := m.activeClients = ∅
  let m := if lastClient && !m.managedLifecycle then { m with destroyCalled := true } else m
  if m.isScheduler then m.put (.unregistered clientId lastClient) else m

/-! ## Nodes -/

/-- `_handle_subnode_alloc_request`. -/
def handleSubnodeAllocRequest (m : Manager V) (managerIdx : ℕ) (hostnames : List Hostname)
    (priorityWeight : ℕ) : Manager V :=
  let requested := m.nodes.requestNodes 0 (some hostnames) priorityWeight
  let nodes := requested.1
  let handle := requested.2
  match nodes.allocHandles.lookup handle with
  | some _ =>
    { m with nodes := { nodes with
        subnodeAllocHandle := nodes.subnodeAllocHandle.insert managerIdx handle } }.put
      (.send (.subnode managerIdx) .subnodeAllocResponse)
  | none =>
    { m with nodes := { nodes with
        subnodeAllocReplyQs := nodes.subnodeAllocReplyQs.insert handle managerIdx } }

/-- One turn of the loop of `_process_alloc_completions`. -/
def processAllocCompletion (m : Manager V) (entry : ℕ × List Hostname) : Manager V :=
  match m.nodes.subnodeAllocReplyQs.lookup entry.1 with
  | some managerIdx =>
    { m with nodes := { m.nodes with
        subnodeAllocReplyQs := m.nodes.subnodeAllocReplyQs.erase entry.1
        subnodeAllocHandle := m.nodes.subnodeAllocHandle.insert managerIdx entry.1 } }.put
      (.send (.subnode managerIdx) .subnodeAllocResponse)
  | none =>
    match m.nodes.pendingMnjTasks.lookup entry.1 with
    | some (ref, clientId) =>
      let m := { m with nodes := { m.nodes with
        pendingMnjTasks := m.nodes.pendingMnjTasks.erase entry.1 } }
      match m.readyTask ref with
      | some taskCore => m.submitMnjTask ref taskCore clientId entry.2
      | none => m
    | none => m

/-- `d[key] = d.get(key, 0) - n`, where an entry that is not positive is removed. -/
def decrease (counts : ℕ → Option ℕ) (key n default : ℕ) : ℕ → Option ℕ :=
  let newCount := (counts key).getD default - n
  Function.update counts key (if newCount = 0 then none else some newCount)

/-- One turn of the loop of `_handle_subnode_free_request` over the clients. -/
def releaseClientWork (m : Manager V) (entry : (_ : ℕ) × ℕ) : Manager V :=
  { m with subnodeOutstanding := decrease m.subnodeOutstanding entry.1 entry.2 0
    }.trySatisfySchedulerFence entry.1 |>.maybeReapClientState entry.1

/-- The node of a subnode manager comes back. -/
def freeSubnode (m : Manager V) (managerIdx : ℕ) : Manager V :=
  match m.nodes.subnodeAllocHandle.lookup managerIdx with
  | some handle =>
    let nodes := { m.nodes with
      subnodeAllocHandle := m.nodes.subnodeAllocHandle.erase managerIdx
      allocHandles := m.nodes.allocHandles.erase handle }
    { m with nodes := nodes.freeNodes ((m.nodes.allocHandles.lookup handle).getD []) }
  | none => m

/-- `_handle_subnode_free_request`. -/
def handleSubnodeFreeRequest (m : Manager V) (managerIdx : ℕ) (clientWorkCounts : Table ℕ ℕ) :
    Manager V :=
  clientWorkCounts.entries.foldl releaseClientWork (m.freeSubnode managerIdx)

/-- The nodes of a multi-node job come back. -/
def freeMnj (m : Manager V) (tuid : Tuid) : Manager V :=
  let nodes := m.nodes.freeNodes ((m.nodes.mnjRunning.lookup tuid).getD [])
  { m with nodes := { nodes with mnjRunning := nodes.mnjRunning.erase tuid } }

/-- `_handle_mnj_complete`. -/
def handleMnjComplete (m : Manager V) (tuid : Tuid) : Manager V :=
  let m := m.freeMnj tuid
  match m.mnjClientIds.lookup tuid with
  | some clientId =>
    { m with
      mnjClientIds := m.mnjClientIds.erase tuid
      mnjPendingCounts := decrease m.mnjPendingCounts clientId 1 1
      }.trySatisfySchedulerFence clientId |>.maybeReapClientState clientId
  | none => m

/-! ## Dependencies -/

/-- `_update_task_args`: the result takes the place of the task arguments. -/
def updateTaskArgs (argLists : List (List (Option (PyVal V)))) (argDepUpdates : List ArgDepUpdate)
    (newArg : PyVal V) : List (List (Option (PyVal V))) :=
  argDepUpdates.foldl
    (fun argLists update => argLists.modify update.templateIdx fun args =>
      args.set update.argIdx (some newArg)) argLists

/-- The blocked task of a notification; when the result for its arguments cannot be read there is
none. -/
def notified (results : Tuid → Option (PyVal V × Bool)) (work : Work (PyVal V)) (depSat : DepSat) :
    Option (TaskCore (PyVal V)) :=
  (work.blockedTaskCores.find? fun taskCore => taskCore.tuid = depSat.tuid).filter fun _ =>
    depSat.argDepUpdates.isEmpty || (results depSat.sourceTuid).isSome

/-- The task core after a dependency is satisfied. -/
def satisfy (results : Tuid → Option (PyVal V × Bool)) (depSat : DepSat)
    (taskCore : TaskCore (PyVal V)) : TaskCore (PyVal V) :=
  let taskCore :=
    match depSat.argDepUpdates, results depSat.sourceTuid with
    | update :: updates, some (newArg, _) =>
      { taskCore with argLists := updateTaskArgs taskCore.argLists (update :: updates) newArg }
    | _, _ => taskCore
  let taskCore :=
    if depSat.cancelReason = .upstreamRawFailure ∧ taskCore.isCancelled = .none then
      { taskCore with
        isCancelled := .upstreamRawFailure
        cancelSourceTuid := some depSat.sourceTuid }
    else taskCore
  { taskCore with numDepSat := taskCore.numDepSat + 1 }

/-- The notification is kept until its work chunk arrives. -/
def stashDepSat (m : Manager V) (depSat : DepSat) : Manager V :=
  { m with
    unexpectedDepSat := m.unexpectedDepSat.insert depSat.compiledTuid
      ((m.unexpectedDepSat.lookup depSat.compiledTuid).getD [] ++ [depSat]) }

/-- The blocked task has been assigned to. -/
def updateBlocked (m : Manager V) (work : Work (PyVal V)) (compiledTuid : CompiledTuid)
    (taskCore : TaskCore (PyVal V)) : Manager V :=
  { m with
    workBacklog := m.workBacklog.insert compiledTuid
      { work with
        blockedTaskCores := modifyTask work.blockedTaskCores taskCore.tuid fun _ => taskCore } }

/-- The blocked task has moved to the ready dictionary. -/
def unblock (m : Manager V) (work : Work (PyVal V)) (compiledTuid : CompiledTuid)
    (taskCore : TaskCore (PyVal V)) : Manager V :=
  { m with
    workBacklog := m.workBacklog.insert compiledTuid
      { work with
        readyTaskCores := work.readyTaskCores ++ [taskCore]
        blockedTaskCores := work.blockedTaskCores.filter fun other =>
          other.tuid ≠ taskCore.tuid } }

/-- `_handle_dep_sat`, and whether it raises.  A task with all its dependencies is in the ready
dictionary when it is queued; when queueing raises it is in the blocked one. -/
def handleDepSat (results : Tuid → Option (PyVal V × Bool)) (m : Manager V) (depSat : DepSat) :
    Manager V × Bool :=
  match m.workBacklog.lookup depSat.compiledTuid with
  | none => (m.stashDepSat depSat, false)
  | some work =>
    match notified results work depSat with
    | none => (m.stashDepSat depSat, false)
    | some taskCore =>
      let taskCore := satisfy results depSat taskCore
      let ref : TaskRef := ⟨depSat.tuid, depSat.compiledTuid⟩
      if taskCore.numDepSat = taskCore.numDepTot then
        if m.enqueueRaises taskCore then
          ((m.updateBlocked work depSat.compiledTuid taskCore).enqueueReadyTask ref taskCore, true)
        else
          ((m.unblock work depSat.compiledTuid taskCore).enqueueReadyTask ref taskCore, false)
      else (m.updateBlocked work depSat.compiledTuid taskCore, false)

/-- `_handle_dep_sat_request`. -/
def handleDepSatRequest (m : Manager V) (request : DepSatRequest) : Manager V :=
  match m.completedTuids request.clientId request.upstreamTuid with
  | some raised =>
    m.put (.send request.replyQ (.depSat
      ⟨request.upstreamTuid, request.tuid, request.compiledTuid, request.argDepUpdates,
        if request.isRaw && raised then .upstreamRawFailure else .none⟩))
  | none =>
    { m with
      depRequestReplyMap := m.depRequestReplyMap.insert request.upstreamTuid
        ((m.depRequestReplyMap.lookup request.upstreamTuid).getD [] ++ [request]) }

/-! ## Work chunks -/

/-- The weight of the task that comes first in the launch order
(`_get_subnode_alloc_request_metadata`). -/
def priorityWeight (workChunks : List (Work (PyVal V))) : ℕ :=
  let taskCores := workChunks.flatMap fun work => work.readyTaskCores ++ work.blockedTaskCores
  match taskCores.insertionSort fun a b => taskHeftPriorityKey a ≤ taskHeftPriorityKey b with
  | taskCore :: _ => taskCore.weight
  | [] => 0

/-- `_send_subnode_alloc_request`. -/
def sendSubnodeAllocRequest (m : Manager V) : Manager V :=
  match m.idx with
  | .scheduler => m
  | .subnode managerIdx =>
    if m.subnodeHasAlloc || m.subnodeAllocPending || m.pendingWorkChunks.isEmpty then m
    else
      { m with subnodeAllocPending := true }.put (.send .scheduler
        (.subnodeAllocRequest managerIdx m.poolHostnames (priorityWeight m.pendingWorkChunks)))

/-- The loop over the ready tasks of a work chunk, and whether it raises. -/
def enqueueReadyTasks : Manager V → List (TaskCore (PyVal V)) → CompiledTuid → Manager V × Bool
  | m, [], _ => (m, false)
  | m, taskCore :: taskCores, compiledTuid =>
    let queued := m.enqueueReadyTask ⟨taskCore.tuid, compiledTuid⟩ taskCore
    if m.enqueueRaises taskCore then (queued, true)
    else enqueueReadyTasks queued taskCores compiledTuid

/-- The requests for the completion of upstream tasks from earlier batches. -/
def depSatRequests (m : Manager V) (work : Work (PyVal V)) : List (Output V) :=
  work.blockedTaskCores.flatMap fun taskCore => taskCore.upstreamRoutes.map fun route =>
    .send route.queue (.depSatRequest
      ⟨route.upstreamTuid, taskCore.tuid, work.compiledTuid, route.argDepUpdates, m.idx,
        work.clientId, route.isRaw⟩)

/-- The loop over the stashed notifications of a work chunk, and whether it raises. -/
def replayDepSats (results : Tuid → Option (PyVal V × Bool)) :
    Manager V → List DepSat → Manager V × Bool
  | m, [] => (m, false)
  | m, depSat :: depSats =>
    match handleDepSat results m depSat with
    | (m, true) => (m, true)
    | (m, false) => replayDepSats results m depSats

/-- The chunk is counted, and put in the backlog. -/
def countWork (m : Manager V) (work : Work (PyVal V)) : Manager V :=
  { m with
    pendingTaskCounts := increase m.pendingTaskCounts work.clientId 1
    allocPhaseClientWorkCounts := m.allocPhaseClientWorkCounts.insert work.clientId
      ((m.allocPhaseClientWorkCounts.lookup work.clientId).getD 0 + 1)
    workBacklog := m.workBacklog.insert work.compiledTuid work }

/-- `_handle_compiled_task` from where the chunk is counted.  The notifications that are stashed for
it are deleted after the loop over them, but not when it raises; one that the loop stashes again,
which would keep the loop of the source going, is deleted with them. -/
def acceptWork (results : Tuid → Option (PyVal V × Bool)) (m : Manager V) (work : Work (PyVal V)) :
    Manager V :=
  match (m.countWork work).enqueueReadyTasks work.readyTaskCores work.compiledTuid with
  | (m, true) => m
  | (m, false) =>
    let m := { m with outbox := m.outbox ++ m.depSatRequests work }
    match replayDepSats results m ((m.unexpectedDepSat.lookup work.compiledTuid).getD []) with
    | (m, true) => m
    | (m, false) => { m with unexpectedDepSat := m.unexpectedDepSat.erase work.compiledTuid }

/-- A subnode manager without its node parks the chunk. -/
def park (m : Manager V) (work : Work (PyVal V)) : Manager V :=
  if m.subnodeAllocPending then { m with queuedWorkChunks := m.queuedWorkChunks ++ [work] }
  else { m with pendingWorkChunks := m.pendingWorkChunks ++ [work] }.sendSubnodeAllocRequest

/-- `_handle_compiled_task`: a chunk of an unknown client is dropped, and an empty one is not
counted. -/
def handleCompiledTask (results : Tuid → Option (PyVal V × Bool)) (m : Manager V)
    (work : Work (PyVal V)) : Manager V :=
  if work.clientId ∉ m.retQ then m
  else if m.isScheduler then m.acceptWork results work
  else if work.readyTaskCores.isEmpty && work.blockedTaskCores.isEmpty then m
  else if m.subnodeHasAlloc then m.acceptWork results work
  else m.park work

/-- The scheduler counts a chunk, and sends it on to its subnode manager. -/
def routeWork (m : Manager V) (work : Work (PyVal V)) (managerIdx : ℕ) : Manager V :=
  if m.numSubnodeManagers ≤ managerIdx then m
  else
    { m with subnodeOutstanding := increase m.subnodeOutstanding work.clientId 1 }.put
      (.send (.subnode managerIdx) (.work work))

/-- `_handle_request` of a work chunk. -/
def handleWork (results : Tuid → Option (PyVal V × Bool)) (m : Manager V)
    (work : Work (PyVal V)) : Manager V :=
  match m.isScheduler, work.managerIdx with
  | true, .subnode managerIdx => m.routeWork work managerIdx
  | _, _ => m.handleCompiledTask results work

/-- The loop over the parked chunks, which ends when a chunk of an unknown client raises. -/
def processPending (results : Tuid → Option (PyVal V × Bool)) :
    Manager V → List (Work (PyVal V)) → Manager V
  | m, [] => m
  | m, work :: pending =>
    if work.clientId ∉ m.retQ then m
    else processPending results (m.handleCompiledTask results work) pending

/-- A subnode manager has got its node. -/
def takeNode (m : Manager V) : Manager V :=
  { m with
    subnodeHasAlloc := true
    subnodeAllocPending := false
    queuedWorkChunks := []
    pendingWorkChunks := [] }

/-- `_handle_subnode_alloc_response`. -/
def handleSubnodeAllocResponse (results : Tuid → Option (PyVal V × Bool)) (m : Manager V) :
    Manager V :=
  m.takeNode.processPending results (m.pendingWorkChunks ++ m.queuedWorkChunks)

/-- `_has_ready_work`. -/
def hasReadyWork (m : Manager V) : Bool :=
  m.workBacklog.entries.any fun entry => !entry.2.readyTaskCores.isEmpty

/-- A subnode manager gives its node back, with the numbers of chunks it has worked off. -/
def freeNode (m : Manager V) (managerIdx : ℕ) : Manager V :=
  { m with
    allocPhaseClientWorkCounts := ∅
    subnodeHasAlloc := false
    subnodeReadyHeap := []
    subnodeHasWork := false }.put
    (.send .scheduler (.subnodeFreeRequest managerIdx m.allocPhaseClientWorkCounts))

/-- The chunks that wait for the next grant are asked for. -/
def askAgain (m : Manager V) : Manager V :=
  if m.queuedWorkChunks.isEmpty then m
  else
    { m with
      pendingWorkChunks := m.queuedWorkChunks
      queuedWorkChunks := [] }.sendSubnodeAllocRequest

/-- The release part of the main loop of a subnode manager. -/
def releaseAllocation (m : Manager V) : Manager V :=
  match m.idx with
  | .scheduler => m
  | .subnode managerIdx =>
    if m.subnodeHasAlloc && m.subnodeHasWork && !m.hasReadyWork &&
        m.workBacklog.entries.isEmpty then
      (m.freeNode managerIdx).askAgain
    else m

/-! ## Cancellation -/

/-- `_mark_task_cancelled`. -/
def markTaskCancelled (taskCore : TaskCore (PyVal V)) : TaskCore (PyVal V) :=
  if taskCore.isCancelled = .none then { taskCore with isCancelled := .userRequested } else taskCore

/-- The chunk holds the task (`_find_waiting_task_in_work_chunks`). -/
def holdsTask (work : Work (PyVal V)) (tuid : Tuid) : Bool :=
  (work.blockedTaskCores ++ work.readyTaskCores).any fun taskCore => taskCore.tuid = tuid

/-- The task of a chunk is marked. -/
def cancelInWork (work : Work (PyVal V)) (tuid : Tuid) : Work (PyVal V) :=
  { work with
    readyTaskCores := modifyTask work.readyTaskCores tuid markTaskCancelled
    blockedTaskCores := modifyTask work.blockedTaskCores tuid markTaskCancelled }

/-- The ready task has not been handed to a worker: it waits for its nodes, is queued for
launch, or is in the ready heap. -/
def readyNotLaunched (m : Manager V) (tuid : Tuid) : Bool :=
  (m.nodes.pendingMnjTasks.entries.any fun entry => entry.2.1.tuid = tuid) ||
    (m.poolLaunchArgsList.any fun ref => ref.tuid = tuid) ||
    m.subnodeReadyHeap.any fun item => item.2.tuid = tuid

/-- A chunk of the backlog in which the task can still be marked. -/
def cancellableIn (m : Manager V) (tuid : Tuid) (work : Work (PyVal V)) : Bool :=
  (work.blockedTaskCores.any fun taskCore => taskCore.tuid = tuid) ||
    ((work.readyTaskCores.any fun taskCore => taskCore.tuid = tuid) && m.readyNotLaunched tuid)

/-- `_handle_cancel_request` of the manager that has the task. -/
def cancelLocally (m : Manager V) (clientId : ℕ) (tuid : Tuid) : Manager V :=
  if (m.completedTuids clientId tuid).isSome then m.put (.cancelResponse tuid false)
  else if m.pendingWorkChunks.any (holdsTask · tuid) then
    { m with pendingWorkChunks := m.pendingWorkChunks.map (cancelInWork · tuid) }.put
      (.cancelResponse tuid true)
  else if m.queuedWorkChunks.any (holdsTask · tuid) then
    { m with queuedWorkChunks := m.queuedWorkChunks.map (cancelInWork · tuid) }.put
      (.cancelResponse tuid true)
  else
    match m.workBacklog.entries.find? fun entry => m.cancellableIn tuid entry.2 with
    | some entry =>
      { m with workBacklog := m.workBacklog.insert entry.1 (cancelInWork entry.2 tuid) }.put
        (.cancelResponse tuid true)
    | none =>
      match m.runningTaskState tuid with
      | some startedTask =>
        { m with
          cancelJobs := Function.update m.cancelJobs startedTask.controlQ
            (m.cancelJobs startedTask.controlQ + 1) }.put (.cancelResponse tuid true)
      | none => m.put (.cancelResponse tuid false)

/-- `_handle_cancel_request`: the scheduler sends it on to the subnode manager of the task. -/
def handleCancelRequest (m : Manager V) (clientId : ℕ) (tuid : Tuid)
    (managerIdx : Option ManagerIdx) : Manager V :=
  match m.isScheduler, managerIdx with
  | true, some (.subnode dest) =>
    if m.numSubnodeManagers ≤ dest then m.put (.cancelResponse tuid false)
    else m.put (.send (.subnode dest) (.cancelRequest clientId tuid managerIdx))
  | _, _ => m.cancelLocally clientId tuid

/-! ## Results -/

/-- The control queue of a task is recycled. -/
def recycleTaskQueue (m : Manager V) (taskCore : TaskCore (PyVal V)) : Manager V :=
  match taskCore.cachedQueue with
  | some queue => m.recycleQueue queue
  | none => m

/-- The end of `_handle_results` for a task: its queue is recycled, its completion recorded
and reported. -/
def reportCompletion (m : Manager V) (clientId : ℕ) (taskCore : TaskCore (PyVal V))
    (completion : TaskComplete) : Manager V :=
  let m := m.recycleTaskQueue taskCore
  let waiting := (m.depRequestReplyMap.lookup completion.tuid).getD []
  let m :=
    { m with
      completedTuids := Function.update m.completedTuids clientId
        (Function.update (m.completedTuids clientId) completion.tuid (some completion.raised))
      depRequestReplyMap := m.depRequestReplyMap.erase completion.tuid }
  let m : Manager V := waiting.foldl (fun m request => m.put (.send request.replyQ (.depSat
    ⟨completion.tuid, request.tuid, request.compiledTuid, request.argDepUpdates,
      if request.isRaw && completion.raised then .upstreamRawFailure else .none⟩))) m
  if clientId ∈ m.retQ then m.put (.completedTuid clientId completion.tuid) else m

/-- `_handle_results` after the task has left its chunk.  A chunk whose client has no entry in
`_pending_task_counts` any more raises when its last task completes. -/
def finishTask (m : Manager V) (work : Work (PyVal V)) (taskCore : TaskCore (PyVal V))
    (completion : TaskComplete) : Manager V :=
  let m := m.releaseRunningTask completion.tuid
  if work.readyTaskCores.isEmpty && work.blockedTaskCores.isEmpty then
    let m := { m with workBacklog := m.workBacklog.erase completion.compiledTuid }
    match m.pendingTaskCounts work.clientId with
    | none => m
    | some count =>
      let m :=
        { m with
          pendingTaskCounts := Function.update m.pendingTaskCounts work.clientId
            (if count - 1 = 0 then none else some (count - 1)) }
      (m.maybeReapClientState work.clientId).reportCompletion work.clientId taskCore completion
  else m.reportCompletion work.clientId taskCore completion

/-- The chunk without a ready task. -/
def dropReady (work : Work (PyVal V)) (tuid : Tuid) : Work (PyVal V) :=
  { work with readyTaskCores := work.readyTaskCores.filter fun other => other.tuid ≠ tuid }

/-- `_handle_results` for a task. -/
def handleResults (m : Manager V) (completion : TaskComplete) : Manager V :=
  match m.workBacklog.lookup completion.compiledTuid with
  | none => m
  | some work =>
    match work.readyTaskCores.find? fun taskCore => taskCore.tuid = completion.tuid with
    | none => m
    | some taskCore =>
      let work := dropReady work completion.tuid
      let m := { m with workBacklog := m.workBacklog.insert completion.compiledTuid work }
      let m :=
        if m.isScheduler && isMultiNodeJob taskCore m.physicalCoresPerNode then
          m.handleMnjComplete completion.tuid
        else m
      m.finishTask work taskCore completion

/-! ## Messages -/

/-- `_handle_request`. -/
def handleRequest (results : Tuid → Option (PyVal V × Bool)) (m : Manager V) : Msg V → Manager V
  | .work work => m.handleWork results work
  | .depSat depSat => (handleDepSat results m depSat).1
  | .depSatRequest request => m.handleDepSatRequest request
  | .unregisterClient clientId cleanDetach => m.handleUnregisterClient clientId cleanDetach
  | .destroyCalled => { m with destroyCalled := true }
  | .fenceRequest clientId =>
    if m.isScheduler then m.handleSchedulerFenceRequest clientId else m
  | .cancelRequest clientId tuid managerIdx => m.handleCancelRequest clientId tuid managerIdx
  | .subnodeAllocRequest managerIdx hostnames priorityWeight =>
    if m.isScheduler then m.handleSubnodeAllocRequest managerIdx hostnames priorityWeight else m
  | .subnodeAllocResponse =>
    if m.isScheduler then m else m.handleSubnodeAllocResponse results
  | .subnodeFreeRequest managerIdx clientWorkCounts =>
    if m.isScheduler then m.handleSubnodeFreeRequest managerIdx clientWorkCounts else m
  | .clearFenceState clientId =>
    { m with
      completedTuids := Function.update m.completedTuids clientId fun _ => none
      pendingTaskCounts := Function.update m.pendingTaskCounts clientId none }

end Manager

end Batch
