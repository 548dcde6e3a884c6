/-
# Which part of a manager a duty can change

The state of a manager falls into parts, and a duty can change few of them (`Duty.Touches`); all
other parts stay as they are (`exec_frame`).  Where more is needed of a handler, a footprint says
that the manager after it is the manager before it with some fields replaced.
-/
import DragonRuntime.BatchEffects

namespace Batch

variable {V : Type}

/-- The parts of the state of a manager. -/
inductive Part : Type where
  | unexpectedDepSat
  | activeClients
  | retQ
  | completedTuids
  | depRequestReplyMap
  | pendingTaskCounts
  | launchList
  | asyncQueue
  | destroyCalled
  | controlQueues
  | cancelJobs
  | nodes
  | subnodeOutstanding
  | mnjPendingCounts
  | mnjClientIds
  | fenceRequests
  | hasAlloc
  | allocPending
  | parkedChunks
  | phaseCounts
  | readyHeap
  | hasWork
  | workBacklog
  deriving DecidableEq

/-- The parts that the message can change. -/
def Msg.parts : Msg V → List Part
  | .work _ => [.subnodeOutstanding]
  | .depSat _ => []
  | .depSatRequest _ => [.depRequestReplyMap]
  | .unregisterClient _ _ =>
    [.activeClients, .retQ, .completedTuids, .pendingTaskCounts, .destroyCalled,
      .subnodeOutstanding, .mnjPendingCounts, .fenceRequests]
  | .destroyCalled => [.destroyCalled]
  | .fenceRequest _ => [.fenceRequests]
  | .cancelRequest _ _ _ => [.cancelJobs, .parkedChunks, .workBacklog]
  | .subnodeAllocRequest _ _ _ => [.nodes]
  | .subnodeAllocResponse => [.hasAlloc, .allocPending, .parkedChunks]
  | .subnodeFreeRequest _ _ => [.nodes]
  | .clearFenceState _ => [.completedTuids, .pendingTaskCounts]

/-- The parts that a duty can change. -/
def Duty.parts : Duty V → List Part
  | .request msg => msg.parts
  | .chunk _ => [.pendingTaskCounts, .allocPending, .parkedChunks, .phaseCounts, .workBacklog]
  | .parkedChunk _ => []
  | .enqueue _ _ =>
    [.launchList, .controlQueues, .nodes, .mnjPendingCounts, .mnjClientIds, .readyHeap,
      .workBacklog]
  | .depSatRequests _ => []
  | .replay _ => []
  | .forget _ => [.unexpectedDepSat]
  | .depSat _ => [.unexpectedDepSat, .mnjPendingCounts, .workBacklog]
  | .fence _ => [.completedTuids, .fenceRequests]
  | .reap _ =>
    [.retQ, .completedTuids, .pendingTaskCounts, .subnodeOutstanding, .mnjPendingCounts,
      .fenceRequests]
  | .release _ _ => [.subnodeOutstanding]
  | .allocCompletions => [.nodes]
  | .allocCompletion _ => [.launchList, .controlQueues, .nodes, .mnjClientIds, .workBacklog]
  | .launchTasks => [.launchList, .readyHeap, .hasWork]
  | .drain _ => [.launchList, .controlQueues, .readyHeap, .workBacklog]
  | .launch => [.launchList]
  | .releaseAllocation =>
    [.hasAlloc, .allocPending, .parkedChunks, .phaseCounts, .readyHeap, .hasWork]
  | .results => [.asyncQueue, .workBacklog]
  | .mnjComplete _ => [.nodes, .mnjPendingCounts, .mnjClientIds]
  | .finish _ _ _ =>
    [.retQ, .completedTuids, .depRequestReplyMap, .pendingTaskCounts, .controlQueues,
      .cancelJobs, .subnodeOutstanding, .mnjPendingCounts, .fenceRequests, .workBacklog]

/-- Books of nodes in which there is nothing. -/
def NodeState.blank : NodeState where
  availableNodes := []
  allocHandleCtr := 0
  allocHandles := ∅
  pendingAllocRequests := ∅
  newlySatisfiedAllocs := []
  subnodeAllocReplyQs := ∅
  subnodeAllocHandle := ∅
  pendingMnjTasks := ∅
  mnjRunning := ∅

/-- What of a manager no duty changes. -/
structure Site where
  idx : ManagerIdx
  physicalCoresPerNode : ℕ
  managedLifecycle : Bool
  poolHostnames : List Hostname
  numSubnodeManagers : ℕ
  exited : Bool

/-- The site of a manager. -/
def Manager.site (m : Manager V) : Site :=
  ⟨m.idx, m.physicalCoresPerNode, m.managedLifecycle, m.poolHostnames, m.numSubnodeManagers, m.exited⟩

namespace Manager

/-- The manager without some of its parts, and without what it has sent. -/
def without (m : Manager V) (parts : List Part) : Manager V :=
  { m with
    unexpectedDepSat := if parts.contains .unexpectedDepSat then ∅ else m.unexpectedDepSat
    activeClients := if parts.contains .activeClients then ∅ else m.activeClients
    retQ := if parts.contains .retQ then ∅ else m.retQ
    clientsPendingReap := if parts.contains .retQ then ∅ else m.clientsPendingReap
    completedTuids := if parts.contains .completedTuids then fun _ _ => none else m.completedTuids
    depRequestReplyMap := if parts.contains .depRequestReplyMap then ∅ else m.depRequestReplyMap
    pendingTaskCounts :=
      if parts.contains .pendingTaskCounts then fun _ => none else m.pendingTaskCounts
    poolLaunchArgsList := if parts.contains .launchList then [] else m.poolLaunchArgsList
    asyncQueue := if parts.contains .asyncQueue then [] else m.asyncQueue
    destroyCalled := if parts.contains .destroyCalled then false else m.destroyCalled
    cachedQueues := if parts.contains .controlQueues then [] else m.cachedQueues
    queueCtr := if parts.contains .controlQueues then 0 else m.queueCtr
    runningTaskState := if parts.contains .controlQueues then fun _ => none else m.runningTaskState
    subnodeAvailableCores := if parts.contains .controlQueues then 0 else m.subnodeAvailableCores
    cancelJobs := if parts.contains .cancelJobs then fun _ => 0 else m.cancelJobs
    nodes := if parts.contains .nodes then NodeState.blank else m.nodes
    subnodeOutstanding :=
      if parts.contains .subnodeOutstanding then fun _ => none else m.subnodeOutstanding
    mnjPendingCounts := if parts.contains .mnjPendingCounts then fun _ => none else m.mnjPendingCounts
    mnjClientIds := if parts.contains .mnjClientIds then ∅ else m.mnjClientIds
    schedulerFenceRequests := if parts.contains .fenceRequests then ∅ else m.schedulerFenceRequests
    subnodeHasAlloc := if parts.contains .hasAlloc then false else m.subnodeHasAlloc
    subnodeAllocPending := if parts.contains .allocPending then false else m.subnodeAllocPending
    pendingWorkChunks := if parts.contains .parkedChunks then [] else m.pendingWorkChunks
    queuedWorkChunks := if parts.contains .parkedChunks then [] else m.queuedWorkChunks
    allocPhaseClientWorkCounts :=
      if parts.contains .phaseCounts then ∅ else m.allocPhaseClientWorkCounts
    subnodeReadyHeap := if parts.contains .readyHeap then [] else m.subnodeReadyHeap
    subnodeHasWork := if parts.contains .hasWork then false else m.subnodeHasWork
    workBacklog := if parts.contains .workBacklog then ∅ else m.workBacklog
    outbox := [] }

/-- The other parts are as they were. -/
def Frame (parts : List Part) (m m' : Manager V) : Prop := m'.without parts = m.without parts

section Frame

variable {parts : List Part} {m m' : Manager V}

/-- More parts may change. -/
theorem Frame.mono (h : Frame parts m m') {more : List Part}
    (hmore : parts.all more.contains = true) : Frame more m m' := by
  have hite : ∀ {α : Type} (part : Part) (blank value : α),
      (if more.contains part then blank else if parts.contains part then blank else value)
        = if more.contains part then blank else value := by
    intro α part blank value
    by_cases hpart : more.contains part = true
    · rw [if_pos hpart, if_pos hpart]
    · have hnot : ¬ parts.contains part = true := by
        intro hmem
        exact hpart (List.all_eq_true.mp hmore part (List.contains_iff_mem.mp hmem))
      rw [if_neg hpart, if_neg hpart, if_neg hnot]
  have hwithout : ∀ m : Manager V, (m.without parts).without more = m.without more := by
    intro m
    simp only [without, hite]
  unfold Frame
  rw [← hwithout, ← hwithout m, h]

theorem Frame.site (h : Frame parts m m') : m'.site = m.site := by
  have hsite := congrArg Manager.site (h : m'.without parts = m.without parts)
  exact hsite

/-- A field outside the parts stays as it is. -/
theorem Frame.field {α : Type} (h : Frame parts m m') (f : Manager V → α)
    (hf : ∀ m : Manager V, f (m.without parts) = f m) : f m' = f m := by
  rw [← hf m', ← hf m, h]

section Fields

variable (h : Frame parts m m')
include h

theorem Frame.poolLaunchArgsList (hpart : parts.contains .launchList = false) :
    m'.poolLaunchArgsList = m.poolLaunchArgsList :=
  h.field (·.poolLaunchArgsList) fun _ => if_neg (ne_true_of_eq_false hpart)

theorem Frame.asyncQueue (hpart : parts.contains .asyncQueue = false) : m'.asyncQueue = m.asyncQueue :=
  h.field (·.asyncQueue) fun _ => if_neg (ne_true_of_eq_false hpart)

theorem Frame.runningTaskState (hpart : parts.contains .controlQueues = false) :
    m'.runningTaskState = m.runningTaskState :=
  h.field (·.runningTaskState) fun _ => if_neg (ne_true_of_eq_false hpart)

theorem Frame.subnodeAvailableCores (hpart : parts.contains .controlQueues = false) :
    m'.subnodeAvailableCores = m.subnodeAvailableCores :=
  h.field (·.subnodeAvailableCores) fun _ => if_neg (ne_true_of_eq_false hpart)

theorem Frame.nodes (hpart : parts.contains .nodes = false) : m'.nodes = m.nodes :=
  h.field (·.nodes) fun _ => if_neg (ne_true_of_eq_false hpart)

theorem Frame.pendingWorkChunks (hpart : parts.contains .parkedChunks = false) :
    m'.pendingWorkChunks = m.pendingWorkChunks :=
  h.field (·.pendingWorkChunks) fun _ => if_neg (ne_true_of_eq_false hpart)

theorem Frame.queuedWorkChunks (hpart : parts.contains .parkedChunks = false) :
    m'.queuedWorkChunks = m.queuedWorkChunks :=
  h.field (·.queuedWorkChunks) fun _ => if_neg (ne_true_of_eq_false hpart)

theorem Frame.subnodeReadyHeap (hpart : parts.contains .readyHeap = false) :
    m'.subnodeReadyHeap = m.subnodeReadyHeap :=
  h.field (·.subnodeReadyHeap) fun _ => if_neg (ne_true_of_eq_false hpart)

theorem Frame.workBacklog (hpart : parts.contains .workBacklog = false) :
    m'.workBacklog = m.workBacklog :=
  h.field (·.workBacklog) fun _ => if_neg (ne_true_of_eq_false hpart)

end Fields

end Frame

/-! ## Footprints -/

section Footprints

variable (m : Manager V)

theorem foldl_put_eq {α : Type} (f : α → Output V) (xs : List α) :
    xs.foldl (fun m x => m.put (f x)) m = { m with outbox := m.outbox ++ xs.map f } := by
  induction xs generalizing m with
  | nil => rw [List.map_nil, List.append_nil]; rfl
  | cons x xs ih =>
    rw [List.foldl_cons, ih, List.map_cons]
    simp only [put, List.append_assoc, List.singleton_append]

theorem modifyReady_eq (ref : TaskRef) (f : TaskCore (PyVal V) → TaskCore (PyVal V)) :
    ∃ workBacklog, m.modifyReady ref f = { m with workBacklog := workBacklog } := by
  rw [modifyReady]
  split
  · exact ⟨_, rfl⟩
  · exact ⟨m.workBacklog, rfl⟩

theorem startTask_eq (ref : TaskRef) (taskCore : TaskCore (PyVal V))
    (hostnameList : Option (List Hostname)) (reservedCores : ℕ) :
    ∃ cachedQueues queueCtr runningTaskState subnodeAvailableCores workBacklog,
    m.startTask ref taskCore hostnameList reservedCores =
      { m with
        cachedQueues := cachedQueues
        queueCtr := queueCtr
        runningTaskState := runningTaskState
        subnodeAvailableCores := subnodeAvailableCores
        workBacklog := workBacklog
        poolLaunchArgsList := m.poolLaunchArgsList ++ [ref] } := by
  have hqueue : ∃ cachedQueues queueCtr, (m.getQueueForTask taskCore).2 =
      { m with cachedQueues := cachedQueues, queueCtr := queueCtr } := by
    rw [getQueueForTask]
    split
    · exact ⟨m.cachedQueues, m.queueCtr, rfl⟩
    · rw [borrowCachedQueue]
      split
      · exact ⟨_, m.queueCtr, rfl⟩
      · exact ⟨m.cachedQueues, _, rfl⟩
  obtain ⟨cachedQueues, queueCtr, hqueue⟩ := hqueue
  rw [startTask]
  generalize m.getQueueForTask taskCore = queued at hqueue ⊢
  obtain ⟨controlQ, m₁⟩ := queued
  simp only [] at hqueue ⊢
  subst hqueue
  obtain ⟨workBacklog, hmodify⟩ := modifyReady_eq
    ({ m with cachedQueues := cachedQueues, queueCtr := queueCtr }.registerRunningTask ref.tuid
      controlQ reservedCores) ref
    (fun other => { other with cachedQueue := some controlQ, hostnameList := hostnameList })
  rw [hmodify]
  exact ⟨_, _, _, _, _, rfl⟩

/-- What a task that is queued on the scheduler can change. -/
theorem submitMnjTask_eq (ref : TaskRef) (taskCore : TaskCore (PyVal V)) (clientId : ℕ)
    {hostnames hostnameList : List Hostname}
    (hbuild : buildContiguousHostnameList m.physicalCoresPerNode hostnames (numProcs taskCore) =
      some hostnameList) :
    ∃ cachedQueues queueCtr runningTaskState subnodeAvailableCores workBacklog,
    m.submitMnjTask ref taskCore clientId hostnames =
      { m with
        nodes := { m.nodes with mnjRunning := m.nodes.mnjRunning.insert ref.tuid hostnames }
        mnjClientIds := m.mnjClientIds.insert ref.tuid clientId
        cachedQueues := cachedQueues
        queueCtr := queueCtr
        runningTaskState := runningTaskState
        subnodeAvailableCores := subnodeAvailableCores
        workBacklog := workBacklog
        poolLaunchArgsList := m.poolLaunchArgsList ++ [ref] } := by
  rw [submitMnjTask, hbuild]
  exact startTask_eq
    { m with
      nodes := { m.nodes with mnjRunning := m.nodes.mnjRunning.insert ref.tuid hostnames }
      mnjClientIds := m.mnjClientIds.insert ref.tuid clientId } ref taskCore _ _

theorem drainStep_eq (item : (ℤ ×ₗ ℕ ×ₗ String) × TaskRef) :
    ∃ cachedQueues queueCtr runningTaskState subnodeAvailableCores workBacklog poolLaunchArgsList
      subnodeReadyHeap,
    m.drainStep item =
      { m with
        cachedQueues := cachedQueues
        queueCtr := queueCtr
        runningTaskState := runningTaskState
        subnodeAvailableCores := subnodeAvailableCores
        workBacklog := workBacklog
        poolLaunchArgsList := poolLaunchArgsList
        subnodeReadyHeap := subnodeReadyHeap } := by
  rw [drainStep]
  split
  · exact ⟨m.cachedQueues, m.queueCtr, m.runningTaskState, m.subnodeAvailableCores,
      m.workBacklog, m.poolLaunchArgsList, m.subnodeReadyHeap, rfl⟩
  next taskCore _ =>
    split
    · rw [setupSubnodeTask]
      cases taskCore.kind with
      | function =>
        obtain ⟨a, b, c, d, e, h⟩ := m.startTask_eq item.2 taskCore taskCore.hostnameList
          (subnodeCoresForTask taskCore)
        exact ⟨a, b, c, d, e, _, m.subnodeReadyHeap, h⟩
      | job =>
        obtain ⟨a, b, c, d, e, h⟩ := m.startTask_eq item.2 taskCore
          (some (List.replicate (subnodeCoresForTask taskCore) (m.poolHostnames.headD 0)))
          (subnodeCoresForTask taskCore)
        exact ⟨a, b, c, d, e, _, m.subnodeReadyHeap, h⟩
    · exact ⟨m.cachedQueues, m.queueCtr, m.runningTaskState, m.subnodeAvailableCores,
        m.workBacklog, m.poolLaunchArgsList, _, rfl⟩

theorem launchList_eq :
    m.launchList =
      { m with
        poolLaunchArgsList := []
        outbox := m.outbox ++ (m.poolLaunchArgsList.filterMap m.readyTask).map .launch } := by
  rw [launchList, foldl_put_eq]

theorem sendSubnodeAllocRequest_eq :
    ∃ subnodeAllocPending outbox, m.sendSubnodeAllocRequest =
      { m with subnodeAllocPending := subnodeAllocPending, outbox := outbox } := by
  rw [sendSubnodeAllocRequest]
  split
  · exact ⟨m.subnodeAllocPending, m.outbox, rfl⟩
  · split
    · exact ⟨m.subnodeAllocPending, m.outbox, rfl⟩
    · exact ⟨_, _, rfl⟩

theorem reportCompletion_eq (clientId : ℕ) (taskCore : TaskCore (PyVal V))
    (completion : TaskComplete) :
    ∃ cancelJobs cachedQueues completedTuids depRequestReplyMap outbox,
    m.reportCompletion clientId taskCore completion =
      { m with
        cancelJobs := cancelJobs
        cachedQueues := cachedQueues
        completedTuids := completedTuids
        depRequestReplyMap := depRequestReplyMap
        outbox := outbox } := by
  have hqueue : ∃ cancelJobs cachedQueues, m.recycleTaskQueue taskCore =
      { m with cancelJobs := cancelJobs, cachedQueues := cachedQueues } := by
    rw [recycleTaskQueue]
    split
    · exact ⟨_, _, rfl⟩
    · exact ⟨m.cancelJobs, m.cachedQueues, rfl⟩
  obtain ⟨cancelJobs, cachedQueues, hqueue⟩ := hqueue
  rw [reportCompletion, hqueue]
  simp only [foldl_put_eq]
  split
  · exact ⟨_, _, _, _, _, rfl⟩
  · exact ⟨_, _, _, _, _, rfl⟩

end Footprints

/-! ## Frames of the handlers -/

section Handlers

variable (m : Manager V)

theorem reapClientState_frame (clientId : ℕ) :
    Frame (Duty.reap clientId : Duty V).parts m (m.reapClientState clientId) := by
  rw [reapClientState]
  split
  · rfl
  · rfl

theorem maybeReapClientState_frame (clientId : ℕ) :
    Frame (Duty.reap clientId : Duty V).parts m (m.maybeReapClientState clientId) := by
  rw [maybeReapClientState]
  split
  · exact m.reapClientState_frame clientId
  · rfl

theorem handleUnregisterClient_frame (clientId : ℕ) (cleanDetach : Bool) :
    Frame (Msg.unregisterClient clientId cleanDetach : Msg V).parts m
      (m.handleUnregisterClient clientId cleanDetach) := by
  have hreap : Frame (Msg.unregisterClient clientId cleanDetach : Msg V).parts m
      (if cleanDetach then
        { m with activeClients := m.activeClients.erase clientId }.reapClientState clientId
      else { m with
        activeClients := m.activeClients.erase clientId
        clientsPendingReap := insert clientId m.clientsPendingReap
        }.maybeReapClientState clientId) := by
    split
    · exact (reapClientState_frame _ clientId).mono rfl
    · exact (maybeReapClientState_frame _ clientId).mono rfl
  rw [handleUnregisterClient]
  dsimp only
  generalize (if cleanDetach then Manager.reapClientState _ _ else _) = reaped at hreap ⊢
  split_ifs
  all_goals exact hreap

theorem requestMnjAlloc_frame (ref : TaskRef) (taskCore : TaskCore (PyVal V)) :
    Frame (Duty.enqueue ref taskCore).parts m (m.requestMnjAlloc ref taskCore) := by
  rw [requestMnjAlloc]
  split
  · rfl
  · simp only []
    split
    next hostnames _ =>
      rcases hbuild : buildContiguousHostnameList m.physicalCoresPerNode hostnames
        (numProcs taskCore) with _ | hostnameList
      · rw [submitMnjTask, hbuild]
        rfl
      · obtain ⟨_, _, _, _, _, heq⟩ := submitMnjTask_eq
          { m with
            mnjPendingCounts := increase m.mnjPendingCounts taskCore.clientId 1
            nodes := (m.nodes.requestNodes (numNodes m.physicalCoresPerNode taskCore) none
              taskCore.weight).1 } ref taskCore taskCore.clientId hbuild
        rw [heq]
        rfl
    next => rfl

theorem enqueueReadyTask_frame (ref : TaskRef) (taskCore : TaskCore (PyVal V)) :
    Frame (Duty.enqueue ref taskCore).parts m (m.enqueueReadyTask ref taskCore) := by
  rw [enqueueReadyTask]
  split
  · split
    · exact m.requestMnjAlloc_frame ref taskCore
    · rfl
  · rfl

theorem processAllocCompletion_frame (entry : ℕ × List Hostname) :
    Frame (Duty.allocCompletion entry : Duty V).parts m (m.processAllocCompletion entry) := by
  rw [processAllocCompletion]
  split
  · rfl
  · split
    next ref clientId _ =>
      simp only []
      split
      next taskCore _ =>
        rcases hbuild : buildContiguousHostnameList m.physicalCoresPerNode entry.2
          (numProcs taskCore) with _ | hostnameList
        · rw [submitMnjTask, hbuild]
          rfl
        · obtain ⟨_, _, _, _, _, heq⟩ := submitMnjTask_eq
            { m with nodes := { m.nodes with
                pendingMnjTasks := m.nodes.pendingMnjTasks.erase entry.1 } } ref taskCore clientId
            hbuild
          rw [heq]
          rfl
      next => rfl
    next => rfl

theorem park_frame (work : Work (PyVal V)) :
    Frame (Duty.chunk work).parts m (m.park work) := by
  rw [park]
  split
  · rfl
  · obtain ⟨_, _, heq⟩ := sendSubnodeAllocRequest_eq
      { m with pendingWorkChunks := m.pendingWorkChunks ++ [work] }
    rw [heq]
    rfl

/-- A manager that gives its node back has no work. -/
theorem releaseAllocation_frame :
    Frame (Duty.releaseAllocation : Duty V).parts m m.releaseAllocation ∧
      (m.releaseAllocation = m ∨ m.workBacklog.entries = []) := by
  rw [releaseAllocation]
  split
  · exact ⟨rfl, .inl rfl⟩
  next managerIdx _ =>
    split
    next hrelease =>
      simp only [Bool.and_eq_true, List.isEmpty_iff] at hrelease
      refine ⟨?_, .inr hrelease.2⟩
      rw [askAgain]
      split
      · rfl
      · obtain ⟨_, _, heq⟩ := sendSubnodeAllocRequest_eq
          { m.freeNode managerIdx with
            pendingWorkChunks := (m.freeNode managerIdx).queuedWorkChunks
            queuedWorkChunks := [] }
        rw [heq]
        rfl
    next => exact ⟨rfl, .inl rfl⟩

/-- A task whose queueing raises is at most counted. -/
theorem enqueueRaises_frame {m : Manager V} {taskCore : TaskCore (PyVal V)}
    (h : m.enqueueRaises taskCore = true) (ref : TaskRef) :
    Frame [.mnjPendingCounts] m (m.enqueueReadyTask ref taskCore) := by
  rw [enqueueRaises, Bool.and_eq_true, Bool.or_eq_true] at h
  rw [enqueueReadyTask, if_pos h.1]
  split
  next hmnj =>
    have hnames : requestsHostnames taskCore = true := by
      rcases h.2 with hnot | hnames
      · rw [hmnj] at hnot
        cases hnot
      · exact hnames
    rw [requestMnjAlloc, if_pos hnames]
    rfl
  next => rfl

/-- What a satisfied dependency touches. -/
theorem execDepSat_frame (results : Tuid → Option (PyVal V × Bool)) (depSat : DepSat) :
    Frame (Duty.depSat depSat : Duty V).parts m (m.execDepSat results depSat).1 := by
  rw [execDepSat]
  split
  · rfl
  next work _ =>
    split
    · rfl
    next taskCore _ =>
      simp only []
      split
      · split
        next hraises =>
          have hraises' : (m.updateBlocked work depSat.compiledTuid
            (satisfy results depSat taskCore)).enqueueRaises (satisfy results depSat taskCore) =
              true := hraises
          exact (enqueueRaises_frame hraises' ⟨depSat.tuid, depSat.compiledTuid⟩).mono rfl
        next => rfl
      · rfl

theorem handleCancelRequest_frame (clientId : ℕ) (tuid : Tuid) (managerIdx : Option ManagerIdx) :
    Frame (Msg.cancelRequest clientId tuid managerIdx : Msg V).parts m
      (m.handleCancelRequest clientId tuid managerIdx) := by
  unfold handleCancelRequest
  split
  · split
    · rfl
    · rfl
  · rw [cancelLocally]
    split
    · rfl
    · split
      · rfl
      · split
        · rfl
        · split
          · rfl
          · split
            · rfl
            · rfl

theorem finishTask_frame (work : Work (PyVal V)) (taskCore : TaskCore (PyVal V))
    (completion : TaskComplete) :
    Frame (Duty.finish work taskCore completion).parts m
      (m.finishTask work taskCore completion) := by
  have hreport : ∀ m' : Manager V, Frame (Duty.finish work taskCore completion).parts m m' →
      Frame (Duty.finish work taskCore completion).parts m
        (m'.reportCompletion work.clientId taskCore completion) := by
    intro m' hm'
    obtain ⟨_, _, _, _, _, heq⟩ := m'.reportCompletion_eq work.clientId taskCore completion
    rw [heq]
    exact hm'
  obtain ⟨_, _, hrelease⟩ := m.releaseRunningTask_eq completion.tuid
  rw [finishTask, hrelease]
  split
  · simp only []
    split
    · rfl
    · exact hreport _ ((maybeReapClientState_frame _ work.clientId).mono rfl)
  · exact hreport _ rfl

end Handlers

/-- A message begins to be handled: only the parts that it can change are changed. -/
theorem execRequest_frame (results : Tuid → Option (PyVal V × Bool)) (m : Manager V) (msg : Msg V) :
    Frame msg.parts m (m.execRequest results msg).1 := by
  cases msg with
  | work work =>
    match hm : m.isScheduler, hidx : work.managerIdx with
    | true, .subnode managerIdx =>
      simp only [execRequest, hm, hidx, routeWork]
      split
      · rfl
      · rfl
    | true, .scheduler =>
      simp only [execRequest, hm, hidx]
      rfl
    | false, _ =>
      simp only [execRequest, hm]
      rfl
  | depSat => rfl
  | depSatRequest request =>
    change Frame _ m (m.handleDepSatRequest request)
    rw [handleDepSatRequest]
    split
    · rfl
    · rfl
  | unregisterClient clientId cleanDetach =>
    exact m.handleUnregisterClient_frame clientId cleanDetach
  | destroyCalled => rfl
  | fenceRequest =>
    simp only [execRequest]
    split
    · rfl
    · rfl
  | cancelRequest clientId tuid managerIdx =>
    exact m.handleCancelRequest_frame clientId tuid managerIdx
  | subnodeAllocRequest =>
    change Frame _ m (if m.isScheduler = true then _ else m)
    split
    · rw [handleSubnodeAllocRequest]
      split
      · rfl
      · rfl
    · rfl
  | subnodeAllocResponse =>
    simp only [execRequest]
    split
    · rfl
    · rfl
  | subnodeFreeRequest =>
    simp only [execRequest]
    split
    · rw [freeSubnode]
      split
      · rfl
      · rfl
    · rfl
  | clearFenceState => rfl

/-- **Frame.**  A duty changes only the parts that it can change. -/
theorem exec_frame (results : Tuid → Option (PyVal V × Bool)) (m : Manager V) (duty : Duty V) :
    Frame duty.parts m (m.exec results duty).1 := by
  cases duty with
  | request msg => exact execRequest_frame results m msg
  | chunk work =>
    change Frame _ m (m.execChunk work).1
    rw [execChunk]
    split
    · rfl
    · split
      · rfl
      · split
        · rfl
        · split
          · rfl
          · exact m.park_frame work
  | parkedChunk => rfl
  | enqueue ref taskCore => exact m.enqueueReadyTask_frame ref taskCore
  | depSatRequests => rfl
  | replay => rfl
  | forget => rfl
  | depSat depSat => exact m.execDepSat_frame results depSat
  | fence clientId =>
    change Frame _ m (m.trySatisfySchedulerFence clientId)
    rw [trySatisfySchedulerFence]
    split
    · rfl
    · split
      · simp only [foldl_put_eq]
        rfl
      · rfl
  | reap clientId => exact m.maybeReapClientState_frame clientId
  | release => rfl
  | allocCompletions => rfl
  | allocCompletion entry => exact m.processAllocCompletion_frame entry
  | launchTasks =>
    change Frame _ m m.execLaunchTasks.1
    rw [execLaunchTasks]
    split_ifs
    · rfl
    · rfl
    · rfl
  | drain item =>
    obtain ⟨_, _, _, _, _, _, _, heq⟩ := m.drainStep_eq item
    change Frame _ m (m.drainStep item)
    rw [heq]
    rfl
  | launch =>
    change Frame _ m m.launchList
    rw [m.launchList_eq]
    rfl
  | releaseAllocation => exact m.releaseAllocation_frame.1
  | results =>
    change Frame _ m m.execResults.1
    rw [execResults]
    split
    · rfl
    · simp only []
      split
      · rfl
      · split
        · rfl
        · rfl
  | mnjComplete tuid =>
    change Frame _ m (m.execMnjComplete tuid).1
    rw [execMnjComplete]
    split
    · rfl
    · rfl
  | finish work taskCore completion => exact m.finishTask_frame work taskCore completion

end Manager

end Batch
