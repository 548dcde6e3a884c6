/-
# The core budget over whole runs

Every message and every part of the main loop of a subnode manager keeps its books
(`booked_handleRequest`, `booked_launchTasks`, `booked_handleNextResult`,
`booked_releaseAllocation`), so in every state that the manager can get to the free and the
reserved cores are the cores of its node, a task in the ready heap is ready, and an allocation
is released with an empty heap (`core_budget`).
-/
import DragonRuntime.BatchCores
import DragonRuntime.Runs

/-! ## Tables -/

namespace TableSums

variable {K V : Type*} [DecidableEq K]

theorem erase_insert (table : AList fun _ : K => V) (key : K) (value : V) :
    (table.insert key value).erase key = table.erase key := by
  apply AList.ext
  -- an insertion puts the new entry in front
  change List.kerase key (List.kinsert key value table.entries) = List.kerase key table.entries
  rw [List.kinsert_def]
  exact @List.kerase_cons_eq K (fun _ => V) _ key ⟨key, value⟩ _ rfl

theorem lookup_eq_none_of_entries_nil {table : AList fun _ : K => V} (h : table.entries = [])
    (key : K) : table.lookup key = none := by
  unfold AList.lookup
  rw [h]
  rfl

end TableSums

namespace Batch

namespace Manager

variable {V : Type}

/-! ## Launch and completion -/

theorem readyTask_of_ready {m : Manager V} {ref : TaskRef} (h : m.Ready ref) :
    ∃ work taskCore, m.workBacklog.lookup ref.compiledTuid = some work ∧
      taskCore ∈ work.readyTaskCores ∧ taskCore.tuid = ref.tuid ∧
      m.readyTask ref = some taskCore := by
  obtain ⟨work, hlookup, hmem⟩ := h
  obtain ⟨other, hother, htuid⟩ := List.mem_map.mp hmem
  have hsome : (work.readyTaskCores.find? fun taskCore => taskCore.tuid = ref.tuid).isSome := by
    rw [List.find?_isSome]
    exact ⟨other, hother, by simpa using htuid⟩
  obtain ⟨taskCore, hfind⟩ := Option.isSome_iff_exists.mp hsome
  refine ⟨work, taskCore, hlookup, List.mem_of_find?_eq_some hfind, ?_, ?_⟩
  · simpa using List.find?_some hfind
  · rw [readyTask, hlookup]
    exact hfind

theorem mem_dropReady {work : Work (PyVal V)} {tuid other : Tuid}
    (hmem : other ∈ work.readyTaskCores.map TaskCore.tuid) (hne : other ≠ tuid) :
    other ∈ (dropReady work tuid).readyTaskCores.map TaskCore.tuid := by
  obtain ⟨taskCore, hcore, rfl⟩ := List.mem_map.mp hmem
  exact List.mem_map_of_mem (List.mem_filter.mpr ⟨hcore, decide_eq_true hne⟩)

section Books

variable {tasks : Tuid → Option CompiledTuid} {parked : List (Work (PyVal V))}
  {queued running : List TaskRef} {m : Manager V}

/-- The cores of the running tasks do not depend on the state of another task. -/
theorem sum_reservedCores_update {refs : List TaskRef} {tuid : Tuid}
    (hnew : tuid ∉ refs.map TaskRef.tuid) (runningTaskState : Tuid → Option StartedTaskInfo)
    (started : Option StartedTaskInfo) :
    (refs.map fun ref =>
        reservedCores (Function.update runningTaskState tuid started) ref.tuid).sum =
      (refs.map fun ref => reservedCores runningTaskState ref.tuid).sum := by
  congr 1
  apply List.map_congr_left
  intro ref href
  have hne : ref.tuid ≠ tuid := by
    rintro rfl
    exact hnew (List.mem_map_of_mem href)
  rw [reservedCores, reservedCores, Function.update_of_ne hne]

namespace Booked

/-- A queued task starts, if its cores are free. -/
theorem start {ref : TaskRef} (h : Booked tasks parked (ref :: queued) running m)
    (controlQ : ℕ) {cores : ℕ} (hcores : cores ≤ m.subnodeAvailableCores) :
    Booked tasks parked queued (ref :: running) (m.registerRunningTask ref.tuid controlQ cores) := by
  have hperm : List.Perm (queued ++ ref :: running) (ref :: queued ++ running) :=
    List.perm_middle
  have hnew : ref.tuid ∉ running.map TaskRef.tuid := by
    rw [← h.runs, h.not_running List.mem_cons_self]
    exact Bool.false_ne_true
  refine ⟨h.subnode, h.accepted, h.waits, h.waits_nodup, ?_, ?_, ?_, ?_⟩
  · intro other hother
    exact h.ready other (hperm.mem_iff.mp hother)
  · exact hperm.nodup_iff.mpr h.nodup
  · intro tuid
    rw [List.map_cons, List.mem_cons, ← h.runs]
    show (Function.update m.runningTaskState ref.tuid (some ⟨controlQ, cores⟩) tuid).isSome = true ↔ _
    by_cases htuid : tuid = ref.tuid
    · rw [htuid, Function.update_self]
      exact ⟨fun _ => Or.inl rfl, fun _ => rfl⟩
    · rw [Function.update_of_ne htuid]
      exact ⟨Or.inr, fun hor => hor.resolve_left htuid⟩
  · show m.subnodeAvailableCores - cores + (List.map (fun other => reservedCores
      (Function.update m.runningTaskState ref.tuid (some ⟨controlQ, cores⟩)) other.tuid)
        (ref :: running)).sum = m.physicalCoresPerNode
    rw [List.map_cons, List.sum_cons, sum_reservedCores_update hnew, reservedCores,
      Function.update_self]
    have hold := h.cores
    simp only []
    omega

/-- The cores of a task that is done are free again. -/
theorem free {ref : TaskRef} (h : Booked tasks parked queued (ref :: running) m) :
    Booked tasks parked queued running (m.releaseRunningTask ref.tuid) := by
  have hperm : List.Perm (queued ++ ref :: running) (ref :: (queued ++ running)) :=
    List.perm_middle
  have hnew : ref.tuid ∉ running.map TaskRef.tuid := by
    have hnodup := h.tuids_nodup
    rw [List.map_append] at hnodup
    exact (List.nodup_cons.mp hnodup.of_append_right).1
  have hsome := (h.runs ref.tuid).mpr List.mem_cons_self
  obtain ⟨started, hstarted⟩ := Option.isSome_iff_exists.mp hsome
  rw [releaseRunningTask, hstarted]
  refine ⟨h.subnode, h.accepted, h.waits, h.waits_nodup, ?_, ?_, ?_, ?_⟩
  · intro other hother
    exact h.ready other (hperm.mem_iff.mpr (List.mem_cons_of_mem _ hother))
  · exact (List.nodup_cons.mp (hperm.nodup_iff.mp h.nodup)).2
  · intro tuid
    show (Function.update m.runningTaskState ref.tuid none tuid).isSome = true ↔ _
    by_cases htuid : tuid = ref.tuid
    · rw [htuid, Function.update_self]
      exact ⟨fun hfalse => absurd hfalse Bool.false_ne_true, fun hmem => absurd hmem hnew⟩
    · rw [Function.update_of_ne htuid, h.runs, List.map_cons, List.mem_cons]
      exact ⟨fun hor => hor.resolve_left htuid, Or.inr⟩
  · show m.subnodeAvailableCores + started.reservedCores + (List.map (fun other => reservedCores
      (Function.update m.runningTaskState ref.tuid none) other.tuid) running).sum =
        m.physicalCoresPerNode
    have hold := h.cores
    rw [List.map_cons, List.sum_cons, reservedCores, hstarted] at hold
    rw [sum_reservedCores_update hnew]
    simp only [] at hold
    omega

/-- A task that is neither queued nor runs leaves its chunk. -/
theorem drop (h : Booked tasks parked queued running m) (ref : TaskRef)
    (hgone : ref.tuid ∉ (queued ++ running).map TaskRef.tuid) {work : Work (PyVal V)}
    (hlookup : m.workBacklog.lookup ref.compiledTuid = some work)
    (hleft : (dropReady work ref.tuid).tuids ≠ []) :
    Booked tasks parked queued running
      { m with workBacklog := m.workBacklog.insert ref.compiledTuid (dropReady work ref.tuid) } := by
  have hchunk := h.accepted _ _ hlookup
  apply h.replaceWork hlookup
  · apply hchunk.of_subset hleft
    · have hsub : List.Sublist (dropReady work ref.tuid).tuids work.tuids :=
        (List.filter_sublist.append_left _).map _
      exact hchunk.nodup.sublist hsub
    · intro taskCore hmem
      refine ⟨taskCore, ?_, rfl⟩
      rcases List.mem_append.mp hmem with hblocked | hready
      · exact List.mem_append_left _ hblocked
      · exact List.mem_append_right _ (List.mem_filter.mp hready).1
  · intro other hother _ hmem
    exact mem_dropReady hmem fun heq => hgone (heq ▸ List.mem_map_of_mem hother)

/-- A chunk of which nothing is queued or runs leaves the backlog. -/
theorem eraseWork (h : Booked tasks parked queued running m) (compiledTuid : CompiledTuid)
    (hnone : ∀ ref ∈ queued ++ running, ref.compiledTuid ≠ compiledTuid) :
    Booked tasks parked queued running
      { m with workBacklog := m.workBacklog.erase compiledTuid } where
  subnode := h.subnode
  accepted c work hlookup := by
    by_cases hc : c = compiledTuid
    · rw [hc, AList.lookup_erase] at hlookup
      cases hlookup
    · exact h.accepted c work ((AList.lookup_erase_ne hc).symm.trans hlookup)
  waits work hwork := by
    obtain ⟨hchunk, hlookup⟩ := h.waits work hwork
    refine ⟨hchunk, ?_⟩
    by_cases hc : work.compiledTuid = compiledTuid
    · rw [hc]
      exact AList.lookup_erase _ _
    · exact (AList.lookup_erase_ne hc).trans hlookup
  waits_nodup := h.waits_nodup
  ready ref href := by
    obtain ⟨work, hlookup, hmem⟩ := h.ready ref href
    exact ⟨work, (AList.lookup_erase_ne (hnone ref href)).trans hlookup, hmem⟩
  nodup := h.nodup
  runs := h.runs
  cores := h.cores

theorem queued_eq_nil (h : Booked tasks parked queued running m)
    (hempty : m.workBacklog.entries = []) : queued = [] := by
  apply List.eq_nil_iff_forall_not_mem.mpr
  intro ref href
  obtain ⟨work, hlookup, _⟩ := h.ready ref (List.mem_append_left _ href)
  rw [TableSums.lookup_eq_none_of_entries_nil hempty] at hlookup
  cases hlookup

end Booked

/-! ## The main loop -/

theorem booked_modifyReady (h : Booked tasks parked queued running m) (ref : TaskRef)
    {f : TaskCore (PyVal V) → TaskCore (PyVal V)}
    (hf : ∀ taskCore, (f taskCore).static = taskCore.static) :
    Booked tasks parked queued running (m.modifyReady ref f) := by
  rw [modifyReady]
  split
  next work hlookup =>
    apply h.assignWork hlookup
    rw [Work.static, Work.static]
    congr 1
    exact modifyTask_static _ _ fun taskCore _ _ => hf taskCore
  next => exact h

/-- A queued task whose cores are free is queued for launch. -/
theorem booked_setupSubnodeTask {ref : TaskRef}
    (h : Booked tasks parked (ref :: queued) running m) (taskCore : TaskCore (PyVal V))
    (hcores : subnodeCoresForTask taskCore ≤ m.subnodeAvailableCores) :
    Booked tasks parked queued (ref :: running) (m.setupSubnodeTask ref taskCore) := by
  have hqueue : (m.getQueueForTask taskCore).2.coreBooks = m.coreBooks := by
    rw [getQueueForTask, borrowCachedQueue]
    split
    · rfl
    · split
      · rfl
      · rfl
  have havailable : (m.getQueueForTask taskCore).2.subnodeAvailableCores = m.subnodeAvailableCores :=
    congrArg CoreBooks.subnodeAvailableCores hqueue
  rw [setupSubnodeTask, startTask]
  have hstart := (h.congr hqueue).start (m.getQueueForTask taskCore).1 (havailable ▸ hcores)
  refine (booked_modifyReady hstart ref ?_).congr rfl
  intro other
  rfl

theorem startTask_lists (m : Manager V) (ref : TaskRef) (taskCore : TaskCore (PyVal V))
    (hostnameList : Option (List Hostname)) (cores : ℕ) :
    (m.startTask ref taskCore hostnameList cores).heapRefs = m.heapRefs ∧
      (m.startTask ref taskCore hostnameList cores).poolLaunchArgsList =
        m.poolLaunchArgsList ++ [ref] := by
  obtain ⟨_, _, _, _, _, heq⟩ := m.startTask_eq ref taskCore hostnameList cores
  rw [heq]
  exact ⟨rfl, rfl⟩

/-- What draining the heap leaves alone. -/
def besides (m : Manager V) :
    List (Work (PyVal V)) × List (Work (PyVal V)) × List TaskComplete × List (Output V) :=
  (m.pendingWorkChunks, m.queuedWorkChunks, m.asyncQueue, m.outbox)

theorem drainStep_besides (m : Manager V) (item : (ℤ ×ₗ ℕ ×ₗ String) × TaskRef) :
    (m.drainStep item).besides = m.besides := by
  obtain ⟨_, _, _, _, _, _, _, heq⟩ := m.drainStep_eq item
  rw [heq]
  rfl

/-- The tasks of the heap are taken out, in order: a task whose cores are free is queued for
launch, and any other goes back. -/
theorem booked_drain (items : List ((ℤ ×ₗ ℕ ×ₗ String) × TaskRef)) {m : Manager V}
    (h : Booked tasks parked (items.map Prod.snd ++ m.heapRefs) (m.poolLaunchArgsList ++ running) m) :
    Booked tasks parked (items.foldl drainStep m).heapRefs
        ((items.foldl drainStep m).poolLaunchArgsList ++ running) (items.foldl drainStep m) ∧
      (items.foldl drainStep m).besides = m.besides := by
  induction items generalizing m with
  | nil => exact ⟨h, rfl⟩
  | cons item items ih =>
    obtain ⟨work, taskCore, _, _, _, hready⟩ :=
      readyTask_of_ready (h.ready item.2 (List.mem_append_left _ List.mem_cons_self))
    have hstep : Booked tasks parked (items.map Prod.snd ++ (m.drainStep item).heapRefs)
        ((m.drainStep item).poolLaunchArgsList ++ running) (m.drainStep item) := by
      rw [drainStep, hready]
      simp only []
      split
      next hcores =>
        have hsetup := booked_setupSubnodeTask h taskCore hcores
        obtain ⟨hheap, hlaunch⟩ : (m.setupSubnodeTask item.2 taskCore).heapRefs = m.heapRefs ∧
            (m.setupSubnodeTask item.2 taskCore).poolLaunchArgsList =
              m.poolLaunchArgsList ++ [item.2] := m.startTask_lists item.2 taskCore _ _
        rw [hheap, hlaunch]
        apply hsetup.reorder (List.Perm.refl _)
        rw [List.append_assoc]
        exact List.perm_middle
      next =>
        -- the task goes back to the heap
        have hback : List.Perm (items.map Prod.snd ++ (m.heapRefs ++ [item.2]))
            (item.2 :: (items.map Prod.snd ++ m.heapRefs)) := by
          rw [← List.append_assoc]
          exact List.perm_append_singleton _ _
        have hheap : heapRefs { m with subnodeReadyHeap := m.subnodeReadyHeap ++ [item] } =
            m.heapRefs ++ [item.2] := List.map_append
        rw [hheap]
        exact (h.reorder hback (List.Perm.refl _)).congr rfl
    obtain ⟨hbooked, hbesides⟩ := ih hstep
    exact ⟨hbooked, hbesides.trans (m.drainStep_besides item)⟩

/-- The tasks that the outputs hand to the workers. -/
def launchedRefs (outbox : List (Output V)) : List TaskRef :=
  outbox.filterMap fun
    | .launch taskCore => taskCore.compiledTuid.map fun compiledTuid => ⟨taskCore.tuid, compiledTuid⟩
    | _ => none

theorem launchedRefs_readyTasks {refs : List TaskRef}
    (haccepted : ∀ compiledTuid work, m.workBacklog.lookup compiledTuid = some work →
      ChunkOf tasks compiledTuid work) (hready : ∀ ref ∈ refs, m.Ready ref) :
    launchedRefs ((refs.filterMap m.readyTask).map .launch) = refs := by
  induction refs with
  | nil => rfl
  | cons ref refs ih =>
    obtain ⟨work, taskCore, hlookup, hmem, htuid, hfind⟩ :=
      readyTask_of_ready (hready ref List.mem_cons_self)
    have hcompiled := (haccepted _ _ hlookup).compiled taskCore (List.mem_append_right _ hmem)
    have hrest := ih fun other hother => hready other (List.mem_cons_of_mem _ hother)
    rw [List.filterMap_cons_some hfind, List.map_cons, launchedRefs, List.filterMap_cons_some
      (b := ref)]
    · exact congrArg _ hrest
    · show taskCore.compiledTuid.map _ = some ref
      rw [hcompiled, htuid]
      rfl

theorem booked_launchTasks (h : Booked tasks parked m.heapRefs running m)
    (hlaunch : m.poolLaunchArgsList = []) (houtbox : m.outbox = []) :
    Booked tasks parked m.launchTasks.heapRefs
        (launchedRefs m.launchTasks.outbox ++ running) m.launchTasks ∧
      m.launchTasks.poolLaunchArgsList = [] ∧
      (m.launchTasks.pendingWorkChunks, m.launchTasks.queuedWorkChunks, m.launchTasks.asyncQueue) =
        (m.pendingWorkChunks, m.queuedWorkChunks, m.asyncQueue) := by
  rw [launchTasks, h.subnode, if_neg Bool.false_ne_true]
  split
  next =>
    have hsorted : List.Perm ((m.noteWork.subnodeReadyHeap.insertionSort fun a b => a.1 ≤ b.1).map
        Prod.snd) m.heapRefs := (List.perm_insertionSort _ _).map Prod.snd
    have hstart : Booked tasks parked
        ((m.noteWork.subnodeReadyHeap.insertionSort fun a b => a.1 ≤ b.1).map Prod.snd ++ [])
        (m.poolLaunchArgsList ++ running) { m.noteWork with subnodeReadyHeap := [] } := by
      rw [List.append_nil, hlaunch]
      exact (h.reorder hsorted (List.Perm.refl _)).congr rfl
    obtain ⟨hdrained, hbesides⟩ :=
      booked_drain (m := { m.noteWork with subnodeReadyHeap := [] }) _ hstart
    -- every task of the launch list is ready, and goes to the workers
    have hrefs := launchedRefs_readyTasks hdrained.accepted fun ref href =>
      hdrained.ready ref (List.mem_append_right _ (List.mem_append_left _ href))
    rw [drainSubnodeReadyTasks, launchList_eq]
    refine ⟨?_, rfl, ?_⟩
    · have hout : (List.foldl drainStep { m.noteWork with subnodeReadyHeap := [] }
          (m.noteWork.subnodeReadyHeap.insertionSort fun a b => a.1 ≤ b.1)).outbox = [] :=
        (congrArg (fun besides => besides.2.2.2) hbesides).trans houtbox
      simp only [hout, List.nil_append, hrefs]
      exact hdrained.congr rfl
    · have hrest := congrArg (fun besides => (besides.1, besides.2.1, besides.2.2.1)) hbesides
      exact hrest
  next =>
    have hout : launchedRefs (V := V) m.noteWork.outbox = [] := by
      have hnote : m.noteWork.outbox = [] := houtbox
      rw [hnote]
      rfl
    refine ⟨?_, rfl, rfl⟩
    simp only [hout, List.nil_append]
    exact h.congr rfl

/-- The tasks whose completions have still to be processed. -/
def completedRefs (m : Manager V) : List TaskRef :=
  m.asyncQueue.map fun completion => ⟨completion.tuid, completion.compiledTuid⟩

theorem reportCompletion_coreBooks (m : Manager V) (clientId : ℕ) (taskCore : TaskCore (PyVal V))
    (completion : TaskComplete) :
    (m.reportCompletion clientId taskCore completion).coreBooks = m.coreBooks := by
  obtain ⟨_, _, _, _, _, heq⟩ := m.reportCompletion_eq clientId taskCore completion
  rw [heq]
  rfl

theorem maybeReapClientState_coreBooks (m : Manager V) (clientId : ℕ) :
    (m.maybeReapClientState clientId).coreBooks = m.coreBooks := by
  rw [maybeReapClientState, reapClientState]
  dsimp only
  split_ifs
  · rfl
  · rfl
  · rfl

/-- A task is finished: its cores are free, and its chunk leaves the backlog if it was the last
one. -/
theorem finishTask_coreBooks (m : Manager V) (work : Work (PyVal V)) (taskCore : TaskCore (PyVal V))
    (completion : TaskComplete) :
    (m.finishTask work taskCore completion).coreBooks =
      if work.readyTaskCores.isEmpty && work.blockedTaskCores.isEmpty then
        { (m.releaseRunningTask completion.tuid).coreBooks with
          workBacklog := (m.releaseRunningTask completion.tuid).workBacklog.erase
            completion.compiledTuid }
      else (m.releaseRunningTask completion.tuid).coreBooks := by
  rw [finishTask]
  split
  next =>
    simp only []
    split
    · rfl
    · rw [reportCompletion_coreBooks, maybeReapClientState_coreBooks]
      rfl
  next => rw [reportCompletion_coreBooks]

theorem releaseRunningTask_coreBooks (m : Manager V)
    (workBacklog : Table CompiledTuid (Work (PyVal V))) (asyncQueue : List TaskComplete)
    (tuid : Tuid) :
    ({ m with workBacklog := workBacklog, asyncQueue := asyncQueue }.releaseRunningTask
        tuid).coreBooks =
      { (m.releaseRunningTask tuid).coreBooks with workBacklog := workBacklog } := by
  unfold releaseRunningTask
  cases m.runningTaskState tuid with
  | none => rfl
  | some startedTask => rfl

theorem tuids_eq_nil_iff (work : Work (PyVal V)) :
    (work.readyTaskCores.isEmpty && work.blockedTaskCores.isEmpty) = true ↔ work.tuids = [] := by
  rw [Bool.and_eq_true, List.isEmpty_iff, List.isEmpty_iff, Work.tuids, List.map_eq_nil_iff,
    List.append_eq_nil_iff, and_comm]

/-- The first completion is processed. -/
theorem booked_handleNextResult {launched : List TaskRef}
    (h : Booked tasks parked m.heapRefs (launched ++ m.completedRefs) m) :
    Booked tasks parked (System.handleNextResult m).heapRefs
        (launched ++ (System.handleNextResult m).completedRefs) (System.handleNextResult m) ∧
      ((System.handleNextResult m).pendingWorkChunks, (System.handleNextResult m).queuedWorkChunks,
        (System.handleNextResult m).poolLaunchArgsList) =
          (m.pendingWorkChunks, m.queuedWorkChunks, m.poolLaunchArgsList) := by
  rw [System.handleNextResult]
  cases hqueue : m.asyncQueue with
  | nil => exact ⟨h, rfl⟩
  | cons completion rest =>
    have hperm : List.Perm (⟨completion.tuid, completion.compiledTuid⟩ :: (launched ++
        rest.map fun completion => ⟨completion.tuid, completion.compiledTuid⟩))
          (launched ++ m.completedRefs) := by
      rw [completedRefs, hqueue]
      exact List.perm_middle.symm
    have hbooked := h.reorder (List.Perm.refl _) hperm
    have href := hbooked.ready _ (List.mem_append_right _ List.mem_cons_self)
    have hnodup := hbooked.tuids_nodup
    rw [List.map_append, List.map_cons] at hnodup
    have hgone := (List.nodup_cons.mp (List.perm_middle.nodup_iff.mp hnodup)).1
    rw [← List.map_append] at hgone
    obtain ⟨work, taskCore, hlookup, _, _, hfind⟩ := readyTask_of_ready href
    rw [readyTask, hlookup] at hfind
    have hfree := hbooked.free
    have hbacklog : (m.releaseRunningTask completion.tuid).workBacklog = m.workBacklog := by
      obtain ⟨_, _, heq⟩ := m.releaseRunningTask_eq completion.tuid
      rw [heq]
    simp only [] at hlookup hfind
    simp only [handleResults, hlookup, hfind]
    have hscheduler : isScheduler { m with
        asyncQueue := rest
        workBacklog := m.workBacklog.insert completion.compiledTuid
          (dropReady work completion.tuid) } = false := h.subnode
    simp only [hscheduler, Bool.false_and, Bool.false_eq_true, if_false]
    have hframe := finishTask_frame
      { m with
        asyncQueue := rest
        workBacklog := m.workBacklog.insert completion.compiledTuid
          (dropReady work completion.tuid) } (dropReady work completion.tuid) taskCore completion
    have hbooks := finishTask_coreBooks
      { m with
        asyncQueue := rest
        workBacklog := m.workBacklog.insert completion.compiledTuid
          (dropReady work completion.tuid) } (dropReady work completion.tuid) taskCore completion
    have hrelease := m.releaseRunningTask_coreBooks (m.workBacklog.insert completion.compiledTuid
      (dropReady work completion.tuid)) rest completion.tuid
    have hreleased := congrArg CoreBooks.workBacklog hrelease
    constructor
    · have hlists : Booked tasks parked m.heapRefs (launched ++
          rest.map fun completion => ⟨completion.tuid, completion.compiledTuid⟩)
            (finishTask { m with
              asyncQueue := rest
              workBacklog := m.workBacklog.insert completion.compiledTuid
                (dropReady work completion.tuid) } (dropReady work completion.tuid) taskCore
              completion) := by
        by_cases hleft : (dropReady work completion.tuid).tuids = []
        · -- the chunk had no other task
          rw [if_pos ((tuids_eq_nil_iff _).mpr hleft), hrelease] at hbooks
          have herase := hfree.eraseWork completion.compiledTuid ?_
          · refine herase.congr (hbooks.trans ?_)
            simp only [coreBooks] at hreleased ⊢
            rw [hreleased, hbacklog, TableSums.erase_insert]
          · intro other hother hsame
            obtain ⟨work', hlookup', hmem⟩ := hfree.ready other hother
            rw [hbacklog, hsame, hlookup] at hlookup'
            obtain rfl := Option.some.inj hlookup'
            have hne : other.tuid ≠ completion.tuid := by
              intro heq
              have hmem := List.mem_map_of_mem (f := TaskRef.tuid) hother
              rw [heq] at hmem
              exact hgone hmem
            have hin : other.tuid ∈ (dropReady work completion.tuid).tuids := by
              rw [Work.tuids, List.map_append]
              exact List.mem_append_right _ (mem_dropReady hmem hne)
            rw [hleft] at hin
            exact List.not_mem_nil hin
        · rw [if_neg fun hall => hleft ((tuids_eq_nil_iff _).mp hall), hrelease] at hbooks
          refine (hfree.drop ⟨completion.tuid, completion.compiledTuid⟩ hgone
            (hbacklog ▸ hlookup) hleft).congr (hbooks.trans ?_)
          simp only [coreBooks, hbacklog]
      rw [heapRefs, completedRefs, hframe.subnodeReadyHeap rfl, hframe.asyncQueue rfl]
      exact hlists
    · rw [hframe.pendingWorkChunks rfl, hframe.queuedWorkChunks rfl, hframe.poolLaunchArgsList rfl]

/-- The part of the main loop that gives the node back. -/
theorem booked_releaseAllocation
    (h : Booked tasks (m.pendingWorkChunks ++ m.queuedWorkChunks) m.heapRefs running m) :
    Booked tasks (m.releaseAllocation.pendingWorkChunks ++ m.releaseAllocation.queuedWorkChunks)
        m.releaseAllocation.heapRefs running m.releaseAllocation ∧
      (m.releaseAllocation.poolLaunchArgsList, m.releaseAllocation.asyncQueue) =
        (m.poolLaunchArgsList, m.asyncQueue) := by
  rw [releaseAllocation]
  split
  next => exact ⟨h, rfl⟩
  next managerIdx _ =>
    split
    next hrelease =>
      simp only [Bool.and_eq_true, List.isEmpty_iff] at hrelease
      have hheap : m.heapRefs = [] := h.queued_eq_nil hrelease.2
      rw [hheap] at h
      rw [askAgain]
      split
      next => exact ⟨h.congr rfl, rfl⟩
      next =>
        obtain ⟨_, _, heq⟩ := sendSubnodeAllocRequest_eq
          { m.freeNode managerIdx with
            pendingWorkChunks := (m.freeNode managerIdx).queuedWorkChunks
            queuedWorkChunks := [] }
        rw [heq]
        have hsub : List.Subperm (m.queuedWorkChunks ++ [])
            (m.pendingWorkChunks ++ m.queuedWorkChunks) := by
          rw [List.append_nil]
          exact (List.sublist_append_right _ _).subperm
        exact ⟨(h.parked_subperm hsub).congr rfl, rfl⟩
    next => exact ⟨h, rfl⟩

/-! ## Messages -/

/-- A chunk is dropped, accepted or parked. -/
theorem booked_handleCompiledTask (results : Tuid → Option (PyVal V × Bool))
    {work : Work (PyVal V)} (held : List (Work (PyVal V)))
    (h : Booked tasks (work :: (held ++ (m.pendingWorkChunks ++ m.queuedWorkChunks))) m.heapRefs
      running m) :
    Booked tasks (held ++ ((m.handleCompiledTask results work).pendingWorkChunks ++
        (m.handleCompiledTask results work).queuedWorkChunks))
          (m.handleCompiledTask results work).heapRefs running (m.handleCompiledTask results work) ∧
      ((m.handleCompiledTask results work).poolLaunchArgsList,
        (m.handleCompiledTask results work).asyncQueue) = (m.poolLaunchArgsList, m.asyncQueue) := by
  have hdrop := h.parked_subperm (List.sublist_cons_self _ _).subperm
  rw [handleCompiledTask, h.subnode, if_neg Bool.false_ne_true]
  split
  next => exact ⟨hdrop, rfl⟩
  next =>
    split
    next => exact ⟨hdrop, rfl⟩
    next =>
      split
      next =>
        obtain ⟨hbooked, haside⟩ := booked_acceptWork results h
        have hpending := congrArg (fun aside => aside.1) haside
        have hqueued := congrArg (fun aside => aside.2.1) haside
        have hrest := congrArg (fun aside => aside.2.2) haside
        simp only [aside] at hpending hqueued hrest
        rw [hpending, hqueued]
        exact ⟨hbooked, hrest⟩
      next =>
        rw [park]
        split
        next =>
          have hperm : List.Perm (held ++ (m.pendingWorkChunks ++ (m.queuedWorkChunks ++ [work])))
              (work :: (held ++ (m.pendingWorkChunks ++ m.queuedWorkChunks))) := by
            rw [← List.append_assoc, ← List.append_assoc, ← List.append_assoc]
            exact List.perm_append_singleton _ _
          exact ⟨(h.parked_subperm hperm.subperm).congr rfl, rfl⟩
        next =>
          obtain ⟨_, _, heq⟩ := sendSubnodeAllocRequest_eq
            { m with pendingWorkChunks := m.pendingWorkChunks ++ [work] }
          rw [heq]
          have hperm : List.Perm (held ++ (m.pendingWorkChunks ++ [work] ++ m.queuedWorkChunks))
              (work :: (held ++ (m.pendingWorkChunks ++ m.queuedWorkChunks))) := by
            rw [List.append_assoc, List.singleton_append, ← List.append_assoc, ← List.append_assoc]
            exact List.perm_middle
          exact ⟨(h.parked_subperm hperm.subperm).congr rfl, rfl⟩

/-- The parked chunks are gone through. -/
theorem booked_processPending (results : Tuid → Option (PyVal V × Bool))
    (held : List (Work (PyVal V))) {m : Manager V}
    (h : Booked tasks (held ++ (m.pendingWorkChunks ++ m.queuedWorkChunks)) m.heapRefs running m) :
    Booked tasks ((m.processPending results held).pendingWorkChunks ++
        (m.processPending results held).queuedWorkChunks)
          (m.processPending results held).heapRefs running (m.processPending results held) ∧
      ((m.processPending results held).poolLaunchArgsList,
        (m.processPending results held).asyncQueue) = (m.poolLaunchArgsList, m.asyncQueue) := by
  induction held generalizing m with
  | nil => exact ⟨h, rfl⟩
  | cons work held ih =>
    rw [processPending]
    split
    next =>
      have hsub := List.sublist_append_right (work :: held)
        (m.pendingWorkChunks ++ m.queuedWorkChunks)
      exact ⟨h.parked_subperm hsub.subperm, rfl⟩
    next =>
      obtain ⟨hbooked, hrest⟩ := booked_handleCompiledTask results held h
      obtain ⟨hbooked', hrest'⟩ := ih hbooked
      exact ⟨hbooked', hrest'.trans hrest⟩

/-- A cancellation assigns to tasks of parked chunks or of the backlog. -/
theorem booked_cancelLocally (clientId : ℕ) (tuid : Tuid)
    (h : Booked tasks (m.pendingWorkChunks ++ m.queuedWorkChunks) m.heapRefs running m) :
    Booked tasks ((m.cancelLocally clientId tuid).pendingWorkChunks ++
        (m.cancelLocally clientId tuid).queuedWorkChunks)
          (m.cancelLocally clientId tuid).heapRefs running (m.cancelLocally clientId tuid) ∧
      ((m.cancelLocally clientId tuid).poolLaunchArgsList,
        (m.cancelLocally clientId tuid).asyncQueue) = (m.poolLaunchArgsList, m.asyncQueue) := by
  have hmap : ∀ works : List (Work (PyVal V)),
      (works.map (cancelInWork · tuid)).map Work.static = works.map Work.static := by
    intro works
    rw [List.map_map]
    exact List.map_congr_left fun work _ => cancelInWork_static work tuid
  rw [cancelLocally]
  split
  next => exact ⟨h.congr rfl, rfl⟩
  next =>
    split
    next =>
      refine ⟨(h.assignParked ?_).congr rfl, rfl⟩
      show (m.pendingWorkChunks.map (cancelInWork · tuid) ++ m.queuedWorkChunks).map _ = _
      rw [List.map_append, List.map_append, hmap]
    next =>
      split
      next =>
        refine ⟨(h.assignParked ?_).congr rfl, rfl⟩
        show (m.pendingWorkChunks ++ m.queuedWorkChunks.map (cancelInWork · tuid)).map _ = _
        rw [List.map_append, List.map_append, hmap]
      next =>
        split
        next entry hfind =>
          have hlookup : m.workBacklog.lookup entry.1 = some entry.2 :=
            AList.mem_lookup_iff.mpr (List.mem_of_find?_eq_some hfind)
          exact ⟨(h.assignWork hlookup (cancelInWork_static entry.2 tuid)).congr rfl, rfl⟩
        next =>
          split
          · exact ⟨h.congr rfl, rfl⟩
          · exact ⟨h.congr rfl, rfl⟩

/-- What touches none of the books keeps them. -/
theorem booked_of_frame {parts : List Part} {m' : Manager V} (hframe : Frame parts m m')
    (hparts : ([.workBacklog, .controlQueues, .readyHeap, .parkedChunks, .launchList, .asyncQueue] :
      List Part).all fun part => !parts.contains part)
    (h : Booked tasks (m.pendingWorkChunks ++ m.queuedWorkChunks) m.heapRefs running m) :
    Booked tasks (m'.pendingWorkChunks ++ m'.queuedWorkChunks) m'.heapRefs running m' ∧
      (m'.poolLaunchArgsList, m'.asyncQueue) = (m.poolLaunchArgsList, m.asyncQueue) := by
  have hpart : ∀ part ∈ ([.workBacklog, .controlQueues, .readyHeap, .parkedChunks, .launchList,
      .asyncQueue] : List Part), parts.contains part = false := by
    intro part hmem
    have hnot := List.all_eq_true.mp hparts part hmem
    rwa [Bool.not_eq_true'] at hnot
  have hidx : m'.idx = m.idx := congrArg Site.idx hframe.site
  have hcores : m'.physicalCoresPerNode = m.physicalCoresPerNode :=
    congrArg Site.physicalCoresPerNode hframe.site
  have hqueues := hpart .controlQueues (by decide)
  have hparked := hpart .parkedChunks (by decide)
  have hbooks : m'.coreBooks = m.coreBooks := by
    rw [coreBooks, coreBooks, hidx, hframe.workBacklog (hpart .workBacklog (by decide)),
      hframe.runningTaskState hqueues, hframe.subnodeAvailableCores hqueues, hcores]
  rw [hframe.pendingWorkChunks hparked, hframe.queuedWorkChunks hparked, heapRefs,
    hframe.subnodeReadyHeap (hpart .readyHeap (by decide)),
    hframe.poolLaunchArgsList (hpart .launchList (by decide)),
    hframe.asyncQueue (hpart .asyncQueue (by decide))]
  exact ⟨h.congr hbooks, rfl⟩

/-- The chunk that a message brings. -/
def arriving : Msg V → List (Work (PyVal V))
  | .work work => [work]
  | _ => []

theorem booked_handleRequest (results : Tuid → Option (PyVal V × Bool)) (msg : Msg V)
    (h : Booked tasks (arriving msg ++ (m.pendingWorkChunks ++ m.queuedWorkChunks)) m.heapRefs
      running m) :
    Booked tasks ((m.handleRequest results msg).pendingWorkChunks ++
        (m.handleRequest results msg).queuedWorkChunks)
          (m.handleRequest results msg).heapRefs running (m.handleRequest results msg) ∧
      ((m.handleRequest results msg).poolLaunchArgsList, (m.handleRequest results msg).asyncQueue) =
        (m.poolLaunchArgsList, m.asyncQueue) := by
  cases msg with
  | work =>
    rw [handleRequest, handleWork, h.subnode]
    exact booked_handleCompiledTask results [] h
  | depSat depSat =>
    obtain ⟨hbooked, haside⟩ := booked_handleDepSat results h depSat
    have hpending := congrArg (fun aside => aside.1) haside
    have hqueued := congrArg (fun aside => aside.2.1) haside
    have hrest := congrArg (fun aside => aside.2.2) haside
    simp only [aside] at hpending hqueued hrest
    rw [handleRequest, hpending, hqueued]
    exact ⟨hbooked, hrest⟩
  | depSatRequest request =>
    exact booked_of_frame (exec_frame results m (.request (.depSatRequest request))) rfl h
  | unregisterClient clientId cleanDetach =>
    exact booked_of_frame
      (exec_frame results m (.request (.unregisterClient clientId cleanDetach))) rfl h
  | destroyCalled => exact booked_of_frame (exec_frame results m (.request .destroyCalled)) rfl h
  | clearFenceState clientId =>
    exact booked_of_frame (exec_frame results m (.request (.clearFenceState clientId))) rfl h
  | cancelRequest clientId tuid managerIdx =>
    have hlocal : m.handleCancelRequest clientId tuid managerIdx =
        m.cancelLocally clientId tuid := by
      unfold handleCancelRequest
      rw [h.subnode]
    rw [handleRequest, hlocal]
    exact booked_cancelLocally clientId tuid h
  | subnodeAllocResponse =>
    rw [handleRequest, h.subnode, if_neg Bool.false_ne_true, handleSubnodeAllocResponse]
    refine booked_processPending results (m.pendingWorkChunks ++ m.queuedWorkChunks)
      (m := m.takeNode) ?_
    have hlists : m.pendingWorkChunks ++ m.queuedWorkChunks ++
        (m.takeNode.pendingWorkChunks ++ m.takeNode.queuedWorkChunks) =
          m.pendingWorkChunks ++ m.queuedWorkChunks := List.append_nil _
    rw [hlists]
    exact h.congr rfl
  -- the messages to the scheduler
  | fenceRequest | subnodeAllocRequest | subnodeFreeRequest =>
    rw [handleRequest, h.subnode, if_neg Bool.false_ne_true]
    exact ⟨h, rfl⟩

end Books

/-! ### The site of a manager -/

theorem site_of_does {results : Tuid → Option (PyVal V × Bool)} {m m' : Manager V}
    {agenda : List (Duty V)} (h : Does results m agenda m') : m'.site = m.site := by
  refine h.invariant (J := fun other _ => other.site = m.site) ?_ ?_ rfl
  · intro other duty _ _ hother _
    exact (exec_frame results other duty).site.trans hother
  · intro other duty _ hother _
    exact (exec_frame results other duty).site.trans hother

end Manager

/-! ## Runs of a subnode manager -/

/-- A subnode manager with its workers. -/
structure Subnode (V : Type) where
  manager : Manager V
  /-- The tasks that the workers have been given and have not completed. -/
  launched : List TaskRef
  /-- The compiled task of each task that has been sent to the manager. -/
  tasks : Tuid → Option CompiledTuid

/-- What happens at a subnode manager: a message arrives while the results dictionary is as
given, the parts of the main loop are run, or a worker completes a task. -/
inductive SubnodeAction (V : Type) : Type where
  | receive (results : Tuid → Option (PyVal V × Bool)) (msg : Msg V)
  | launch
  | complete (ref : TaskRef) (raised : Bool)
  | handleResult
  | release

namespace Subnode

variable {V : Type}

/-- The manager has done something; what it has sent is on its way. -/
def setManager (s : Subnode V) (m : Manager V) : Subnode V :=
  { s with manager := { m with outbox := [] } }

/-- The tasks of a chunk are sent to the manager. -/
def sendTasks (tasks : Tuid → Option CompiledTuid) (work : Work (PyVal V)) :
    Tuid → Option CompiledTuid :=
  fun tuid => if tuid ∈ work.tuids then some work.compiledTuid else tasks tuid

/-- One step.  Only the launch part of the main loop hands tasks to the workers. -/
def step (s : Subnode V) : SubnodeAction V → Subnode V
  | .receive results (.work work) =>
    { s with tasks := sendTasks s.tasks work }.setManager
      (s.manager.handleRequest results (.work work))
  | .receive results msg => s.setManager (s.manager.handleRequest results msg)
  | .launch =>
    { s with launched := Manager.launchedRefs s.manager.launchTasks.outbox ++ s.launched
      }.setManager s.manager.launchTasks
  | .complete ref raised =>
    if ref ∈ s.launched then
      { s with
        launched := s.launched.erase ref
        manager := { s.manager with
          asyncQueue := s.manager.asyncQueue ++ [⟨ref.tuid, ref.compiledTuid, raised⟩] } }
    else s
  | .handleResult => s.setManager (System.handleNextResult s.manager)
  | .release => s.setManager s.manager.releaseAllocation

/-- What the clients see to: the chunk is of a compiled task of which nothing has been sent to
the manager, and its tasks are in it once and have not been sent to the manager before. -/
structure NewChunk (tasks : Tuid → Option CompiledTuid) (work : Work (PyVal V)) : Prop where
  chunk : ∀ tuid, tasks tuid ≠ some work.compiledTuid
  nodup : work.tuids.Nodup
  tasks : ∀ tuid ∈ work.tuids, tasks tuid = none
  compiled : ∀ taskCore ∈ work.blockedTaskCores ++ work.readyTaskCores,
    taskCore.compiledTuid = some work.compiledTuid

/-- The chunks that arrive are new. -/
def ChunksNew (s : Subnode V) : SubnodeAction V → Prop
  | .receive _ (.work work) => NewChunk s.tasks work
  | _ => True

/-- The subnode manager `i` of a batch before it has received a message. -/
def start (config : Config) (i : ℕ) : Subnode V where
  manager := config.manager (.subnode i)
  launched := []
  tasks := fun _ => none

/-- What holds between the steps. -/
structure Kept (config : Config) (s : Subnode V) : Prop where
  booked : Manager.Booked s.tasks (s.manager.pendingWorkChunks ++ s.manager.queuedWorkChunks)
    s.manager.heapRefs (s.launched ++ s.manager.completedRefs) s.manager
  launch : s.manager.poolLaunchArgsList = []
  outbox : s.manager.outbox = []
  site : s.manager.physicalCoresPerNode = config.physicalCoresPerNode

/-! ### Every step keeps the books -/

variable {compiledTuid : CompiledTuid} {tasks : Tuid → Option CompiledTuid}
  {work : Work (PyVal V)}

theorem sendTasks_of_some (hnew : NewChunk tasks work) {tuid : Tuid}
    (h : tasks tuid = some compiledTuid) : sendTasks tasks work tuid = some compiledTuid := by
  rw [sendTasks, if_neg, h]
  intro hmem
  rw [hnew.tasks tuid hmem] at h
  cases h

theorem chunkOf_sendTasks {other : Work (PyVal V)} (hnew : NewChunk tasks work)
    (h : ChunkOf tasks compiledTuid other) : ChunkOf (sendTasks tasks work) compiledTuid other :=
  { h with owner := fun tuid hmem => sendTasks_of_some hnew (h.owner tuid hmem) }

/-- A chunk that the manager has is not of the compiled task of a new one. -/
theorem ne_of_chunkOf {other : Work (PyVal V)} (hnew : NewChunk tasks work)
    (h : ChunkOf tasks compiledTuid other) : compiledTuid ≠ work.compiledTuid := by
  obtain ⟨tuid, hmem⟩ := List.exists_mem_of_ne_nil _ h.ne_nil
  rintro rfl
  exact hnew.chunk tuid (h.owner tuid hmem)

theorem booked_sendTasks {parked : List (Work (PyVal V))} {queued running : List TaskRef}
    {m : Manager V} (h : Manager.Booked tasks parked queued running m) (hnew : NewChunk tasks work)
    (hne : work.tuids ≠ []) :
    Manager.Booked (sendTasks tasks work) (work :: parked) queued running m where
  subnode := h.subnode
  accepted c other hlookup := chunkOf_sendTasks hnew (h.accepted c other hlookup)
  waits other hother := by
    rcases List.mem_cons.mp hother with rfl | hother
    · refine ⟨⟨hne, hnew.nodup, fun tuid hmem => if_pos hmem, hnew.compiled⟩, ?_⟩
      by_contra hsome
      obtain ⟨old, hlookup⟩ := Option.ne_none_iff_exists'.mp hsome
      exact ne_of_chunkOf hnew (h.accepted _ _ hlookup) rfl
    · obtain ⟨hchunk, hnone⟩ := h.waits other hother
      exact ⟨chunkOf_sendTasks hnew hchunk, hnone⟩
  waits_nodup := by
    refine List.nodup_cons.mpr ⟨fun hmem => ?_, h.waits_nodup⟩
    obtain ⟨other, hother, heq⟩ := List.mem_map.mp hmem
    exact ne_of_chunkOf hnew (h.waits other hother).1 heq
  ready := h.ready
  nodup := h.nodup
  runs := h.runs
  cores := h.cores

theorem handleWork_of_empty (results : Tuid → Option (PyVal V × Bool)) {m : Manager V}
    (hm : m.isScheduler = false) (hempty : work.tuids = []) :
    m.handleRequest results (.work work) = m := by
  have hnil := (Manager.tuids_eq_nil_iff work).mpr hempty
  have hwork : m.handleRequest results (.work work) = m.handleCompiledTask results work := by
    rw [Manager.handleRequest, Manager.handleWork, hm]
  rw [hwork, Manager.handleCompiledTask, hm, if_neg Bool.false_ne_true, if_pos hnil]
  split
  · rfl
  · rfl

variable {config : Config} {s : Subnode V}

theorem kept_step (h : Kept config s) (action : SubnodeAction V) (hok : s.ChunksNew action) :
    Kept config (s.step action) := by
  have hsite : ∀ {results : Tuid → Option (PyVal V × Bool)} {m' : Manager V}
      {agenda : List (Duty V)}, Manager.Does results s.manager agenda m' →
      m'.physicalCoresPerNode = config.physicalCoresPerNode := by
    intro results m' agenda hdoes
    have hcores := congrArg Site.physicalCoresPerNode (Manager.site_of_does hdoes)
    exact hcores.trans h.site
  cases action with
  | receive results msg =>
    -- the tasks of a chunk have been sent with it
    have hsend : ∃ tasks, (s.step (.receive results msg)) =
          { s with tasks := tasks }.setManager (s.manager.handleRequest results msg) ∧
        Manager.Booked tasks
          ((s.manager.handleRequest results msg).pendingWorkChunks ++
            (s.manager.handleRequest results msg).queuedWorkChunks)
          (s.manager.handleRequest results msg).heapRefs (s.launched ++ s.manager.completedRefs)
          (s.manager.handleRequest results msg) ∧
        ((s.manager.handleRequest results msg).poolLaunchArgsList,
          (s.manager.handleRequest results msg).asyncQueue) =
            (s.manager.poolLaunchArgsList, s.manager.asyncQueue) := by
      cases msg with
      | work work =>
        by_cases hempty : work.tuids = []
        · refine ⟨sendTasks s.tasks work, rfl, ?_⟩
          have hsame : sendTasks s.tasks work = s.tasks := by
            funext tuid
            rw [sendTasks, hempty, if_neg List.not_mem_nil]
          rw [hsame, handleWork_of_empty results h.booked.subnode hempty]
          exact ⟨h.booked, rfl⟩
        · exact ⟨sendTasks s.tasks work, rfl,
            Manager.booked_handleRequest results (.work work)
              (booked_sendTasks h.booked hok hempty)⟩
      | _ => exact ⟨s.tasks, rfl, Manager.booked_handleRequest results _ h.booked⟩
    obtain ⟨tasks, heq, hbooked, hrest⟩ := hsend
    obtain ⟨hlaunch, hqueue⟩ := Prod.mk.inj hrest
    have hcores : (s.manager.handleRequest results msg).physicalCoresPerNode =
        config.physicalCoresPerNode := hsite (s.manager.does_handleRequest msg)
    rw [heq]
    refine ⟨?_, hlaunch.trans h.launch, rfl, hcores⟩
    have hdone : (s.manager.handleRequest results msg).completedRefs = s.manager.completedRefs :=
      congrArg (List.map _) hqueue
    rw [← hdone] at hbooked
    exact hbooked.congr rfl
  | launch =>
    obtain ⟨hbooked, hlaunch, hrest⟩ :=
      Manager.booked_launchTasks h.booked h.launch h.outbox
    obtain ⟨hpending, hrest⟩ := Prod.mk.inj hrest
    obtain ⟨hqueued, hqueue⟩ := Prod.mk.inj hrest
    have hcores := hsite (s.manager.does_launchTasks : Manager.Does (fun _ => none) _ _ _)
    refine ⟨?_, hlaunch, rfl, hcores⟩
    have hdone : s.manager.launchTasks.completedRefs = s.manager.completedRefs :=
      congrArg (List.map _) hqueue
    rw [← hdone, ← hpending, ← hqueued, ← List.append_assoc] at hbooked
    exact hbooked.congr rfl
  | complete ref raised =>
    rw [step]
    split
    next hmem =>
      refine ⟨?_, h.launch, h.outbox, h.site⟩
      have hdone : Manager.completedRefs { s.manager with
          asyncQueue := s.manager.asyncQueue ++ [⟨ref.tuid, ref.compiledTuid, raised⟩] } =
            s.manager.completedRefs ++ [ref] := List.map_append
      have hperm : List.Perm (s.launched.erase ref ++ (s.manager.completedRefs ++ [ref]))
          (s.launched ++ s.manager.completedRefs) := by
        rw [← List.append_assoc]
        exact (List.perm_append_singleton _ _).trans
          ((List.perm_cons_erase hmem).symm.append_right _)
      simp only [hdone]
      exact (h.booked.reorder (List.Perm.refl _) hperm).congr rfl
    next => exact h
  | handleResult =>
    obtain ⟨hbooked, hrest⟩ := Manager.booked_handleNextResult h.booked
    obtain ⟨hpending, hrest⟩ := Prod.mk.inj hrest
    obtain ⟨hqueued, hlaunch⟩ := Prod.mk.inj hrest
    have hcores := hsite
      (Manager.does_handleNextResult s.manager : Manager.Does (fun _ => none) _ _ _)
    refine ⟨?_, hlaunch.trans h.launch, rfl, hcores⟩
    rw [← hpending, ← hqueued] at hbooked
    exact hbooked.congr rfl
  | release =>
    obtain ⟨hbooked, hrest⟩ := Manager.booked_releaseAllocation h.booked
    obtain ⟨hlaunch, hqueue⟩ := Prod.mk.inj hrest
    have hcores := hsite (s.manager.does_releaseAllocation : Manager.Does (fun _ => none) _ _ _)
    refine ⟨?_, hlaunch.trans h.launch, rfl, hcores⟩
    have hdone : s.manager.releaseAllocation.completedRefs = s.manager.completedRefs :=
      congrArg (List.map _) hqueue
    rw [← hdone] at hbooked
    exact hbooked.congr rfl

theorem kept_start (config : Config) (i : ℕ) : Kept (V := V) config (start config i) where
  booked :=
    { subnode := rfl
      accepted := fun _ _ hlookup => by cases hlookup
      waits := fun _ hmem => absurd hmem List.not_mem_nil
      waits_nodup := List.nodup_nil
      ready := fun _ hmem => absurd hmem List.not_mem_nil
      nodup := List.nodup_nil
      runs := fun _ => ⟨fun h => absurd h Bool.false_ne_true, fun h => absurd h List.not_mem_nil⟩
      cores := rfl }
  launch := rfl
  outbox := rfl
  site := rfl

/-! ### The budget -/

/-- **The core budget.**  The free cores and the cores of the running tasks are the cores of the
node; what is in the heap is ready; and the heap is empty when the node is given back. -/
structure CoreBudget (config : Config) (m : Manager V) : Prop where
  budget : ∃ running : Finset Tuid,
    (∀ tuid, tuid ∈ running ↔ (m.runningTaskState tuid).isSome) ∧
      m.subnodeAvailableCores + ∑ tuid ∈ running, Manager.reservedCores m.runningTaskState tuid =
        config.physicalCoresPerNode
  heap : ∀ ref ∈ m.heapRefs, m.Ready ref
  release : m.subnodeHasAlloc = true → m.releaseAllocation.subnodeHasAlloc = false →
    m.subnodeReadyHeap = []

theorem Kept.coreBudget (h : Kept config s) : CoreBudget config s.manager where
  budget := by
    have hnodup := h.booked.tuids_nodup
    rw [List.map_append] at hnodup
    refine ⟨((s.launched ++ s.manager.completedRefs).map TaskRef.tuid).toFinset, ?_, ?_⟩
    · intro tuid
      rw [List.mem_toFinset]
      exact (h.booked.runs tuid).symm
    · rw [List.sum_toFinset _ hnodup.of_append_right, List.map_map]
      exact h.booked.cores.trans h.site
  heap ref href := h.booked.ready ref (List.mem_append_left _ href)
  release halloc hreleased := by
    rcases s.manager.releaseAllocation_frame.2 with hsame | hempty
    · rw [hsame, halloc] at hreleased
      cases hreleased
    · exact List.map_eq_nil_iff.mp (h.booked.queued_eq_nil hempty)

/-- **The core budget, in every state that a subnode manager gets to.** -/
theorem core_budget (config : Config) (i : ℕ) (actions : List (SubnodeAction V))
    (h : Runs.Legal step ChunksNew (start config i) actions) :
    CoreBudget config (actions.foldl step (start config i)).manager :=
  (h.invariant (fun _ action hs hok => kept_step hs action hok) (kept_start config i)).coreBudget

/-! #### Two functions on a node with one core -/

/-- A node with one core. -/
def oneCore : Config where
  hostnames := [0]
  nodup := by decide
  ne_nil := by decide
  physicalCoresPerNode := 1
  cores_pos := Nat.one_pos
  managedLifecycle := false
  clients := {0}

/-- A function without dependencies. -/
def freeFunction (seq : ℕ) : TaskCore (PyVal Unit) where
  tuid := ⟨0, seq⟩
  clientId := 0
  kind := .function
  argLists := []
  managerIdx := some (.subnode 0)
  compiledTuid := some ⟨0, 0⟩
  downstreamRoutes := []
  upstreamRoutes := []
  dependencies := []
  numDepSat := 0
  numDepTot := 0
  weight := 1
  heftTopoOrder := 0
  isCancelled := .none
  cancelSourceTuid := none
  cachedQueue := none
  hostnameList := none

/-- A chunk of two functions. -/
def twoFunctions : Work (PyVal Unit) :=
  Work.new [freeFunction 0, freeFunction 1] 0 ⟨0, 0⟩ (.subnode 0)

/-- The chunk waits for the node; the first function is launched and completes. -/
def firstFunction : List (SubnodeAction Unit) :=
  [.receive (fun _ => none) (.work twoFunctions), .receive (fun _ => none) .subnodeAllocResponse,
    .launch, .complete ⟨⟨0, 0⟩, ⟨0, 0⟩⟩ false, .handleResult, .release]

theorem core_budget_firstFunction :
    CoreBudget oneCore (firstFunction.foldl step (start oneCore 0)).manager := by
  apply core_budget oneCore 0 firstFunction
  have hnew : NewChunk (fun _ => none) twoFunctions := by
    constructor
    · intro tuid h
      cases h
    · decide
    · intro tuid _
      rfl
    · decide
  exact ⟨hnew, trivial, trivial, trivial, trivial, trivial, trivial⟩

end Subnode

end Batch
