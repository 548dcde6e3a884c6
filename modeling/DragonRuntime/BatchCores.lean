/-
# The core budget of a subnode manager

A subnode manager reserves cores when it drains its heap of ready tasks, and gives them back when
their completions are processed.  `Booked` says how its books hang together, for the chunks that
it has still to accept, the tasks that are queued and the tasks that run:

* the tasks of a chunk are its own, and are in it once;
* what is queued or runs is in a ready dictionary of the backlog;
* the free cores and the reserved ones are all the cores of the node.

Conventions:

* a subnode manager is looked at by itself: messages arrive in any order, and the results
  dictionary has anything at any time; what its clients see to is that each chunk is sent once
  and that each task is in one chunk;
* a worker completes a task that it was given, once, after any time.
-/
import DragonRuntime.BatchTouches

namespace Batch

variable {V : Type}

/-! ## Chunks -/

theorem tuid_of_static {taskCore old : TaskCore (PyVal V)} (h : taskCore.static = old.static) :
    taskCore.tuid = old.tuid := by
  have htuid := congrArg TaskCore.tuid h
  exact htuid

theorem compiledTuid_of_static {taskCore old : TaskCore (PyVal V)}
    (h : taskCore.static = old.static) : taskCore.compiledTuid = old.compiledTuid := by
  have hcompiled := congrArg TaskCore.compiledTuid h
  exact hcompiled

/-- The ids of the tasks of a chunk. -/
def Work.tuids (work : Work (PyVal V)) : List Tuid :=
  (work.blockedTaskCores ++ work.readyTaskCores).map TaskCore.tuid

/-- The tasks of a chunk are in it once, and belong to its compiled task. -/
structure ChunkOf (tasks : Tuid → Option CompiledTuid) (compiledTuid : CompiledTuid)
    (work : Work (PyVal V)) : Prop where
  ne_nil : work.tuids ≠ []
  nodup : work.tuids.Nodup
  owner : ∀ tuid ∈ work.tuids, tasks tuid = some compiledTuid
  compiled : ∀ taskCore ∈ work.blockedTaskCores ++ work.readyTaskCores,
    taskCore.compiledTuid = some compiledTuid

namespace ChunkOf

variable {tasks : Tuid → Option CompiledTuid} {compiledTuid : CompiledTuid}
  {work work' : Work (PyVal V)}

/-- A chunk in which tasks have been moved or taken away. -/
theorem of_subset (h : ChunkOf tasks compiledTuid work) (hne : work'.tuids ≠ [])
    (hnodup : work'.tuids.Nodup)
    (hsubset : ∀ taskCore ∈ work'.blockedTaskCores ++ work'.readyTaskCores,
      ∃ old ∈ work.blockedTaskCores ++ work.readyTaskCores, taskCore.static = old.static) :
    ChunkOf tasks compiledTuid work' where
  ne_nil := hne
  nodup := hnodup
  owner tuid hmem := by
    obtain ⟨taskCore, hcore, rfl⟩ := List.mem_map.mp hmem
    obtain ⟨old, hold, hstatic⟩ := hsubset taskCore hcore
    rw [tuid_of_static hstatic]
    exact h.owner _ (List.mem_map_of_mem hold)
  compiled taskCore hmem := by
    obtain ⟨old, hold, hstatic⟩ := hsubset taskCore hmem
    exact (compiledTuid_of_static hstatic).trans (h.compiled old hold)

/-- A chunk whose tasks have been assigned to. -/
theorem of_static (h : ChunkOf tasks compiledTuid work) (hstatic : work'.static = work.static) :
    ChunkOf tasks compiledTuid work' := by
  have hblocked : work'.blockedTaskCores.map TaskCore.static =
      work.blockedTaskCores.map TaskCore.static := congrArg Work.blockedTaskCores hstatic
  have hready : work'.readyTaskCores.map TaskCore.static =
      work.readyTaskCores.map TaskCore.static := congrArg Work.readyTaskCores hstatic
  have hcores : (work'.blockedTaskCores ++ work'.readyTaskCores).map TaskCore.static =
      (work.blockedTaskCores ++ work.readyTaskCores).map TaskCore.static := by
    rw [List.map_append, List.map_append, hblocked, hready]
  have htuids : work'.tuids = work.tuids := by
    have htuids := congrArg (List.map TaskCore.tuid) hcores
    rw [List.map_map, List.map_map] at htuids
    exact htuids
  apply h.of_subset
  · rw [htuids]
    exact h.ne_nil
  · rw [htuids]
    exact h.nodup
  · intro taskCore hmem
    have hmem := List.mem_map_of_mem (f := TaskCore.static) hmem
    rw [hcores] at hmem
    obtain ⟨old, hold, heq⟩ := List.mem_map.mp hmem
    exact ⟨old, hold, heq.symm⟩

theorem nodup_ready (h : ChunkOf tasks compiledTuid work) :
    (work.readyTaskCores.map TaskCore.tuid).Nodup := by
  have hnodup := h.nodup
  rw [Work.tuids, List.map_append] at hnodup
  exact hnodup.of_append_right

theorem nodup_blocked (h : ChunkOf tasks compiledTuid work) :
    (work.blockedTaskCores.map TaskCore.tuid).Nodup := by
  have hnodup := h.nodup
  rw [Work.tuids, List.map_append] at hnodup
  exact hnodup.of_append_left

theorem not_ready_of_blocked (h : ChunkOf tasks compiledTuid work) {tuid : Tuid}
    (hblocked : tuid ∈ work.blockedTaskCores.map TaskCore.tuid) :
    tuid ∉ work.readyTaskCores.map TaskCore.tuid := by
  have hnodup := h.nodup
  rw [Work.tuids, List.map_append] at hnodup
  exact (List.nodup_append.mp hnodup).2.2 |> fun hne hready => hne _ hblocked _ hready rfl

end ChunkOf

theorem ready_of_static {work work' : Work (PyVal V)} (hstatic : work'.static = work.static) :
    work'.readyTaskCores.map TaskCore.tuid = work.readyTaskCores.map TaskCore.tuid := by
  have hready : work'.readyTaskCores.map TaskCore.static =
      work.readyTaskCores.map TaskCore.static := congrArg Work.readyTaskCores hstatic
  have htuids := congrArg (List.map TaskCore.tuid) hready
  rw [List.map_map, List.map_map] at htuids
  exact htuids

namespace Manager

/-! ## The books -/

/-- What the core budget of a manager depends on. -/
structure CoreBooks (V : Type) where
  idx : ManagerIdx
  workBacklog : Table CompiledTuid (Work (PyVal V))
  runningTaskState : Tuid → Option StartedTaskInfo
  subnodeAvailableCores : ℕ
  physicalCoresPerNode : ℕ

/-- The core books of a manager. -/
def coreBooks (m : Manager V) : CoreBooks V :=
  ⟨m.idx, m.workBacklog, m.runningTaskState, m.subnodeAvailableCores, m.physicalCoresPerNode⟩

/-- The cores that are reserved for a task. -/
def reservedCores (runningTaskState : Tuid → Option StartedTaskInfo) (tuid : Tuid) : ℕ :=
  match runningTaskState tuid with
  | some startedTask => startedTask.reservedCores
  | none => 0

/-- The task is in a ready dictionary of the backlog. -/
def Ready (m : Manager V) (ref : TaskRef) : Prop :=
  ∃ work, m.workBacklog.lookup ref.compiledTuid = some work ∧
    ref.tuid ∈ work.readyTaskCores.map TaskCore.tuid

/-- The tasks of the ready heap. -/
def heapRefs (m : Manager V) : List TaskRef := m.subnodeReadyHeap.map Prod.snd

/-- The books of a subnode manager: `parked` chunks are not accepted yet, the tasks `queued` wait
for cores, and the tasks `running` have theirs. -/
structure Booked (tasks : Tuid → Option CompiledTuid) (parked : List (Work (PyVal V)))
    (queued running : List TaskRef) (m : Manager V) : Prop where
  subnode : m.isScheduler = false
  accepted : ∀ compiledTuid work, m.workBacklog.lookup compiledTuid = some work →
    ChunkOf tasks compiledTuid work
  waits : ∀ work ∈ parked, ChunkOf tasks work.compiledTuid work ∧
    m.workBacklog.lookup work.compiledTuid = none
  waits_nodup : (parked.map Work.compiledTuid).Nodup
  ready : ∀ ref ∈ queued ++ running, m.Ready ref
  nodup : (queued ++ running).Nodup
  runs : ∀ tuid, (m.runningTaskState tuid).isSome ↔ tuid ∈ running.map TaskRef.tuid
  cores : m.subnodeAvailableCores +
    (running.map fun ref => reservedCores m.runningTaskState ref.tuid).sum =
    m.physicalCoresPerNode

namespace Booked

variable {tasks : Tuid → Option CompiledTuid} {parked parked' : List (Work (PyVal V))}
  {queued queued' running running' : List TaskRef} {m m' : Manager V}

/-- A task that is queued or runs belongs to the chunk that it is referred to with. -/
theorem owner (h : Booked tasks parked queued running m) {ref : TaskRef}
    (href : ref ∈ queued ++ running) : tasks ref.tuid = some ref.compiledTuid := by
  obtain ⟨work, hlookup, hready⟩ := h.ready ref href
  apply (h.accepted _ _ hlookup).owner
  rw [Work.tuids, List.map_append]
  exact List.mem_append_right _ hready

/-- The ids of what is queued or runs are distinct. -/
theorem tuids_nodup (h : Booked tasks parked queued running m) :
    ((queued ++ running).map TaskRef.tuid).Nodup := by
  refine h.nodup.map_on fun ref href other hother htuid => ?_
  have howner := h.owner href
  rw [htuid, h.owner hother] at howner
  cases ref
  cases other
  cases Option.some.inj howner
  cases htuid
  rfl

/-- What a queued task does not do is run. -/
theorem not_running (h : Booked tasks parked queued running m) {ref : TaskRef}
    (href : ref ∈ queued) : m.runningTaskState ref.tuid = none := by
  have hnodup := h.tuids_nodup
  rw [List.map_append] at hnodup
  have hmem := List.mem_map_of_mem (f := TaskRef.tuid) href
  rw [← Option.not_isSome_iff_eq_none, h.runs]
  exact fun hrunning => (List.nodup_append.mp hnodup).2.2 _ hmem _ hrunning rfl

/-- Nothing that the books depend on has changed. -/
theorem congr (h : Booked tasks parked queued running m) (heq : m'.coreBooks = m.coreBooks) :
    Booked tasks parked queued running m' := by
  have hidx : m'.idx = m.idx := congrArg CoreBooks.idx heq
  have hbacklog : m'.workBacklog = m.workBacklog := congrArg CoreBooks.workBacklog heq
  have hrunning : m'.runningTaskState = m.runningTaskState := congrArg CoreBooks.runningTaskState heq
  have havailable : m'.subnodeAvailableCores = m.subnodeAvailableCores :=
    congrArg CoreBooks.subnodeAvailableCores heq
  have hcores : m'.physicalCoresPerNode = m.physicalCoresPerNode :=
    congrArg CoreBooks.physicalCoresPerNode heq
  refine ⟨?_, ?_, ?_, h.waits_nodup, ?_, h.nodup, ?_, ?_⟩
  · rw [isScheduler, hidx]
    exact h.subnode
  · rw [hbacklog]
    exact h.accepted
  · rw [hbacklog]
    exact h.waits
  · simp only [Ready, hbacklog]
    exact h.ready
  · rw [hrunning]
    exact h.runs
  · rw [hrunning, havailable, hcores]
    exact h.cores

/-- Chunks that are put elsewhere, or dropped. -/
theorem parked_subperm (h : Booked tasks parked queued running m)
    (hsub : List.Subperm parked' parked) : Booked tasks parked' queued running m :=
  { h with
    waits := fun work hwork => h.waits work (hsub.subset hwork)
    waits_nodup := by
      obtain ⟨l, hperm, hsub⟩ := hsub
      have hnodup := h.waits_nodup.sublist (hsub.map Work.compiledTuid)
      exact (hperm.map Work.compiledTuid).nodup_iff.mp hnodup }

theorem reorder (h : Booked tasks parked queued running m) (hqueued : List.Perm queued' queued)
    (hrunning : List.Perm running' running) : Booked tasks parked queued' running' m where
  subnode := h.subnode
  accepted := h.accepted
  waits := h.waits
  waits_nodup := h.waits_nodup
  ready ref href := h.ready ref ((hqueued.append hrunning).mem_iff.mp href)
  nodup := (hqueued.append hrunning).nodup_iff.mpr h.nodup
  runs tuid := (h.runs tuid).trans (hrunning.map TaskRef.tuid).mem_iff.symm
  cores := by
    rw [(hrunning.map fun ref => reservedCores m.runningTaskState ref.tuid).sum_eq]
    exact h.cores

theorem assignParked (h : Booked tasks parked queued running m)
    (hstatic : parked'.map Work.static = parked.map Work.static) :
    Booked tasks parked' queued running m :=
  { h with
    waits := by
      intro work hwork
      have hmem := List.mem_map_of_mem (f := Work.static) hwork
      rw [hstatic] at hmem
      obtain ⟨old, hold, heq⟩ := List.mem_map.mp hmem
      have hcompiled : work.compiledTuid = old.compiledTuid := by
        have hcongr := congrArg Work.compiledTuid heq.symm
        exact hcongr
      obtain ⟨hchunk, hnone⟩ := h.waits old hold
      rw [hcompiled]
      exact ⟨hchunk.of_static heq.symm, hnone⟩
    waits_nodup := by
      have hids := congrArg (List.map Work.compiledTuid) hstatic
      rw [List.map_map, List.map_map] at hids
      have hsame : parked'.map Work.compiledTuid = parked.map Work.compiledTuid := hids
      rw [hsame]
      exact h.waits_nodup }

/-- A chunk of the backlog is replaced by one in which what is queued or runs is ready. -/
theorem replaceWork (h : Booked tasks parked queued running m) {compiledTuid : CompiledTuid}
    {work work' : Work (PyVal V)} (hlookup : m.workBacklog.lookup compiledTuid = some work)
    (hchunk : ChunkOf tasks compiledTuid work')
    (hready : ∀ ref ∈ queued ++ running, ref.compiledTuid = compiledTuid →
      ref.tuid ∈ work.readyTaskCores.map TaskCore.tuid →
        ref.tuid ∈ work'.readyTaskCores.map TaskCore.tuid) :
    Booked tasks parked queued running
      { m with workBacklog := m.workBacklog.insert compiledTuid work' } where
  subnode := h.subnode
  accepted c other hother := by
    by_cases hc : c = compiledTuid
    · subst hc
      rw [AList.lookup_insert] at hother
      exact Option.some.inj hother ▸ hchunk
    · rw [AList.lookup_insert_ne hc] at hother
      exact h.accepted c other hother
  waits other hother := by
    obtain ⟨hother, hnone⟩ := h.waits other hother
    refine ⟨hother, ?_⟩
    have hne : other.compiledTuid ≠ compiledTuid := by
      intro heq
      rw [heq, hlookup] at hnone
      cases hnone
    exact (AList.lookup_insert_ne hne).trans hnone
  waits_nodup := h.waits_nodup
  ready ref href := by
    obtain ⟨other, hother, hmem⟩ := h.ready ref href
    by_cases hc : ref.compiledTuid = compiledTuid
    · rw [hc, hlookup] at hother
      obtain rfl := Option.some.inj hother
      exact ⟨work', hc ▸ AList.lookup_insert _, hready ref href hc hmem⟩
    · exact ⟨other, (AList.lookup_insert_ne hc).trans hother, hmem⟩
  nodup := h.nodup
  runs := h.runs
  cores := h.cores

theorem push (h : Booked tasks parked queued running m) {ref : TaskRef} (hready : m.Ready ref)
    (hnew : ref ∉ queued ++ running) : Booked tasks parked (ref :: queued) running m where
  subnode := h.subnode
  accepted := h.accepted
  waits := h.waits
  waits_nodup := h.waits_nodup
  ready other hother := by
    rcases List.mem_cons.mp hother with rfl | hother
    · exact hready
    · exact h.ready other hother
  nodup := List.nodup_cons.mpr ⟨hnew, h.nodup⟩
  runs := h.runs
  cores := h.cores

theorem assignWork (h : Booked tasks parked queued running m) {compiledTuid : CompiledTuid}
    {work work' : Work (PyVal V)} (hlookup : m.workBacklog.lookup compiledTuid = some work)
    (hstatic : work'.static = work.static) :
    Booked tasks parked queued running
      { m with workBacklog := m.workBacklog.insert compiledTuid work' } := by
  apply h.replaceWork hlookup ((h.accepted _ _ hlookup).of_static hstatic)
  rw [ready_of_static hstatic]
  exact fun _ _ _ hmem => hmem

end Booked

/-! ## Notifications and chunks -/

/-- What the handlers of notifications and chunks leave alone. -/
def aside (m : Manager V) :
    List (Work (PyVal V)) × List (Work (PyVal V)) × List TaskRef × List TaskComplete :=
  (m.pendingWorkChunks, m.queuedWorkChunks, m.poolLaunchArgsList, m.asyncQueue)

/-- The chunk with one of its blocked tasks moved to the ready ones. -/
def unblocked (work : Work (PyVal V)) (taskCore : TaskCore (PyVal V)) : Work (PyVal V) :=
  { work with
    readyTaskCores := work.readyTaskCores ++ [taskCore]
    blockedTaskCores := work.blockedTaskCores.filter fun other => other.tuid ≠ taskCore.tuid }

theorem chunkOf_unblocked {tasks : Tuid → Option CompiledTuid} {compiledTuid : CompiledTuid}
    {work : Work (PyVal V)} (h : ChunkOf tasks compiledTuid work)
    {taskCore old : TaskCore (PyVal V)} (hold : old ∈ work.blockedTaskCores)
    (hstatic : taskCore.static = old.static) :
    ChunkOf tasks compiledTuid (unblocked work taskCore) := by
  have htuid := tuid_of_static hstatic
  apply h.of_subset
  · rw [Work.tuids, unblocked, List.map_append, List.map_append]
    exact List.append_ne_nil_of_right_ne_nil _
      (List.append_ne_nil_of_right_ne_nil _ (List.cons_ne_nil _ _))
  · -- the task is neither among the blocked tasks that are left nor among the ready ones
    have hsub : List.Sublist
        ((work.blockedTaskCores.filter fun other => other.tuid ≠ taskCore.tuid).map TaskCore.tuid ++
          work.readyTaskCores.map TaskCore.tuid) work.tuids := by
      rw [Work.tuids, List.map_append]
      exact (List.filter_sublist.map _).append_right _
    rw [Work.tuids, unblocked, List.map_append, List.map_append, ← List.append_assoc,
      List.map_singleton]
    refine (h.nodup.sublist hsub).append (List.nodup_singleton _) ?_
    rw [List.disjoint_singleton, List.mem_append]
    rintro (hblocked | hready)
    · obtain ⟨other, hother, heq⟩ := List.mem_map.mp hblocked
      exact of_decide_eq_true (List.mem_filter.mp hother).2 heq
    · rw [htuid] at hready
      exact h.not_ready_of_blocked (List.mem_map_of_mem hold) hready
  · intro other hother
    rw [unblocked] at hother
    simp only [List.mem_append, List.mem_singleton] at hother
    rcases hother with hblocked | hready | rfl
    · exact ⟨other, List.mem_append_left _ (List.mem_filter.mp hblocked).1, rfl⟩
    · exact ⟨other, List.mem_append_right _ hready, rfl⟩
    · exact ⟨old, List.mem_append_left _ hold, hstatic⟩

section Handlers

variable {tasks : Tuid → Option CompiledTuid} {parked : List (Work (PyVal V))}
  {running : List TaskRef} {m : Manager V}

theorem booked_enqueue (h : Booked tasks parked m.heapRefs running m) {ref : TaskRef}
    (taskCore : TaskCore (PyVal V)) (hready : m.Ready ref) (hnew : ref ∉ m.heapRefs ++ running) :
    Booked tasks parked (m.enqueueReadyTask ref taskCore).heapRefs running
        (m.enqueueReadyTask ref taskCore) ∧
      (m.enqueueReadyTask ref taskCore).aside = m.aside := by
  rw [enqueueReadyTask_subnode h.subnode]
  exact ⟨(h.push hready hnew).congr rfl, rfl⟩

/-- A notification is counted. -/
theorem booked_handleDepSat (results : Tuid → Option (PyVal V × Bool))
    (h : Booked tasks parked m.heapRefs running m) (depSat : DepSat) :
    Booked tasks parked (handleDepSat results m depSat).1.heapRefs running
        (handleDepSat results m depSat).1 ∧
      (handleDepSat results m depSat).1.aside = m.aside := by
  unfold handleDepSat
  split
  next => exact ⟨h.congr rfl, rfl⟩
  next work hlookup =>
    split
    next => exact ⟨h.congr rfl, rfl⟩
    next taskCore hfind =>
      have hfound := (Option.filter_eq_some_iff.mp hfind).1
      have hblocked : taskCore ∈ work.blockedTaskCores := List.mem_of_find?_eq_some hfound
      have htuid : taskCore.tuid = depSat.tuid := by simpa using List.find?_some hfound
      have hstatic := satisfy_static results depSat taskCore
      have htuid' : (satisfy results depSat taskCore).tuid = depSat.tuid :=
        (tuid_of_static hstatic).trans htuid
      have hchunk := h.accepted _ _ hlookup
      simp only [enqueueRaises_subnode h.subnode]
      split
      next =>
        -- the task is ready now, and was not before
        have hunblocked := h.replaceWork hlookup (chunkOf_unblocked hchunk hblocked hstatic)
          fun ref _ _ hmem => List.map_append ▸ List.mem_append_left _ hmem
        refine booked_enqueue (m := m.unblock work depSat.compiledTuid
          (satisfy results depSat taskCore)) hunblocked _ ?_ ?_
        · refine ⟨unblocked work (satisfy results depSat taskCore), AList.lookup_insert _, ?_⟩
          rw [unblocked, List.map_append, List.map_singleton, htuid']
          exact List.mem_append_right _ (List.mem_singleton_self _)
        · intro hmem
          obtain ⟨other, hother, hready⟩ := h.ready _ hmem
          obtain rfl := Option.some.inj (hlookup.symm.trans hother)
          refine hchunk.not_ready_of_blocked (List.mem_map_of_mem hblocked) ?_
          rw [htuid]
          exact hready
      next =>
        refine ⟨h.assignWork hlookup ?_, rfl⟩
        rw [Work.static, Work.static]
        congr 1
        apply modifyTask_static
        intro other hother htuid₂
        rw [htuid'] at htuid₂
        have hsame := List.inj_on_of_nodup_map hchunk.nodup_blocked hother hblocked
          (htuid₂.trans htuid.symm)
        rw [hstatic, hsame]

theorem booked_replayDepSats (results : Tuid → Option (PyVal V × Bool)) (depSats : List DepSat)
    {m : Manager V} (h : Booked tasks parked m.heapRefs running m) :
    Booked tasks parked (replayDepSats results m depSats).1.heapRefs running
        (replayDepSats results m depSats).1 ∧
      (replayDepSats results m depSats).1.aside = m.aside := by
  induction depSats generalizing m with
  | nil => exact ⟨h, rfl⟩
  | cons depSat depSats ih =>
    obtain ⟨hbooked, haside⟩ := booked_handleDepSat results h depSat
    rw [replayDepSats]
    rcases hhandled : handleDepSat results m depSat with ⟨m₁, raises⟩
    rw [hhandled] at hbooked haside
    cases raises with
    | true => exact ⟨hbooked, haside⟩
    | false =>
      obtain ⟨hbooked', haside'⟩ := ih hbooked
      exact ⟨hbooked', haside'.trans haside⟩

theorem booked_enqueueReadyTasks (taskCores : List (TaskCore (PyVal V)))
    (compiledTuid : CompiledTuid) {m : Manager V} (h : Booked tasks parked m.heapRefs running m)
    (hready : ∀ taskCore ∈ taskCores, m.Ready ⟨taskCore.tuid, compiledTuid⟩)
    (hnew : ∀ taskCore ∈ taskCores, ⟨taskCore.tuid, compiledTuid⟩ ∉ m.heapRefs ++ running)
    (hnodup : (taskCores.map TaskCore.tuid).Nodup) :
    Booked tasks parked (m.enqueueReadyTasks taskCores compiledTuid).1.heapRefs running
        (m.enqueueReadyTasks taskCores compiledTuid).1 ∧
      (m.enqueueReadyTasks taskCores compiledTuid).1.aside = m.aside := by
  induction taskCores generalizing m with
  | nil => exact ⟨h, rfl⟩
  | cons taskCore taskCores ih =>
    rw [enqueueReadyTasks, enqueueRaises_subnode h.subnode]
    obtain ⟨hbooked, haside⟩ := booked_enqueue h taskCore (hready _ List.mem_cons_self)
      (hnew _ List.mem_cons_self)
    obtain ⟨hfirst, hrest⟩ := List.nodup_cons.mp hnodup
    rw [enqueueReadyTask_subnode h.subnode] at hbooked haside ⊢
    obtain ⟨hbooked', haside'⟩ := ih hbooked
      (fun other hother => hready other (List.mem_cons_of_mem _ hother))
      (fun other hother hmem => by
        rcases List.mem_cons.mp hmem with heq | hmem
        · have htuid : other.tuid = taskCore.tuid := congrArg TaskRef.tuid heq
          exact hfirst (htuid ▸ List.mem_map_of_mem hother)
        · exact hnew other (List.mem_cons_of_mem _ hother) hmem) hrest
    exact ⟨hbooked', haside'.trans haside⟩

/-- A chunk goes into the backlog. -/
theorem booked_countWork {work : Work (PyVal V)}
    (h : Booked tasks (work :: parked) m.heapRefs running m) :
    Booked tasks parked (m.countWork work).heapRefs running (m.countWork work) := by
  obtain ⟨hchunk, hnone⟩ := h.waits work List.mem_cons_self
  obtain ⟨hfirst, hrest⟩ := List.nodup_cons.mp h.waits_nodup
  refine ⟨h.subnode, ?_, ?_, hrest, ?_, h.nodup, h.runs, h.cores⟩
  · intro compiledTuid other hother
    by_cases hc : compiledTuid = work.compiledTuid
    · subst hc
      rw [countWork, AList.lookup_insert] at hother
      exact Option.some.inj hother ▸ hchunk
    · exact h.accepted _ _ ((AList.lookup_insert_ne hc).symm.trans hother)
  · intro other hother
    obtain ⟨hchunk', hnone'⟩ := h.waits other (List.mem_cons_of_mem _ hother)
    refine ⟨hchunk', (AList.lookup_insert_ne fun heq => hfirst ?_).trans hnone'⟩
    rw [← heq]
    exact List.mem_map_of_mem hother
  · intro ref href
    obtain ⟨other, hother, hmem⟩ := h.ready ref href
    refine ⟨other, (AList.lookup_insert_ne fun heq => ?_).trans hother, hmem⟩
    rw [heq, hnone] at hother
    cases hother

/-- A chunk is accepted: its ready tasks are queued, and the notifications that are there for it
counted. -/
theorem booked_acceptWork (results : Tuid → Option (PyVal V × Bool)) {work : Work (PyVal V)}
    (h : Booked tasks (work :: parked) m.heapRefs running m) :
    Booked tasks parked (m.acceptWork results work).heapRefs running (m.acceptWork results work) ∧
      (m.acceptWork results work).aside = m.aside := by
  obtain ⟨hchunk, hnone⟩ := h.waits work List.mem_cons_self
  have hcount := booked_countWork h
  have hlookup : (m.countWork work).workBacklog.lookup work.compiledTuid = some work :=
    AList.lookup_insert _
  obtain ⟨hbooked, haside⟩ := booked_enqueueReadyTasks work.readyTaskCores work.compiledTuid hcount
    (fun taskCore hmem => ⟨work, hlookup, List.mem_map_of_mem hmem⟩)
    (fun taskCore _ hmem => by
      -- what is queued or runs is of a chunk that was there before
      obtain ⟨other, hother, _⟩ := h.ready _ hmem
      rw [hnone] at hother
      cases hother) hchunk.nodup_ready
  rw [acceptWork]
  rcases hqueued : (m.countWork work).enqueueReadyTasks work.readyTaskCores work.compiledTuid
    with ⟨m₁, raises⟩
  rw [hqueued] at hbooked haside
  cases raises with
  | true => exact ⟨hbooked, haside⟩
  | false =>
    obtain ⟨hbooked', haside'⟩ := booked_replayDepSats results
      ((m₁.unexpectedDepSat.lookup work.compiledTuid).getD [])
      (m := { m₁ with outbox := m₁.outbox ++ m₁.depSatRequests work }) (hbooked.congr rfl)
    rcases hcases : replayDepSats results { m₁ with outbox := m₁.outbox ++ m₁.depSatRequests work }
      ((m₁.unexpectedDepSat.lookup work.compiledTuid).getD []) with ⟨m₂, raises⟩
    rw [hcases] at hbooked' haside'
    simp only [hcases]
    cases raises with
    | true => exact ⟨hbooked', haside'.trans haside⟩
    | false => exact ⟨hbooked'.congr rfl, haside'.trans haside⟩

end Handlers

end Manager

end Batch
