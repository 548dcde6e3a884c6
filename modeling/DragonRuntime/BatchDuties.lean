/-
# The handlers of a manager, piece by piece

A handler of a manager is a sequence of *duties*: a piece of its work changes the manager and
may leave further duties, which come before the rest of the agenda; an exception ends the
agenda.  Loops over tasks, chunks, notifications and clients become duties one by one.

Every step of a manager does the duties of its agenda (`does_handleRequest`, `does_launchTasks`,
...), so what every duty preserves, every step of a manager preserves (`Does.invariant`).
-/
import DragonRuntime.BatchSystem

namespace Batch

/-- A piece of the work of a manager. -/
inductive Duty (V : Type) : Type where
  | request (msg : Msg V)
  | chunk (work : Work (PyVal V))
  | parkedChunk (work : Work (PyVal V))
  | enqueue (ref : TaskRef) (taskCore : TaskCore (PyVal V))
  | depSatRequests (work : Work (PyVal V))
  | replay (compiledTuid : CompiledTuid)
  /-- the notifications that were stashed for a chunk are deleted -/
  | forget (compiledTuid : CompiledTuid)
  | depSat (depSat : DepSat)
  | fence (clientId : ℕ)
  | reap (clientId : ℕ)
  | release (clientId count : ℕ)
  | allocCompletions
  | allocCompletion (entry : ℕ × List Hostname)
  | launchTasks
  | drain (item : (ℤ ×ₗ ℕ ×ₗ String) × TaskRef)
  | launch
  | releaseAllocation
  | results
  | mnjComplete (tuid : Tuid)
  | finish (work : Work (PyVal V)) (taskCore : TaskCore (PyVal V)) (completion : TaskComplete)

namespace Manager

variable {V : Type}

/-- The duties that an accepted chunk leaves. -/
def acceptDuties (work : Work (PyVal V)) : List (Duty V) :=
  work.readyTaskCores.map
      (fun taskCore => Duty.enqueue ⟨taskCore.tuid, work.compiledTuid⟩ taskCore) ++
    [Duty.depSatRequests work, Duty.replay work.compiledTuid]

/-- A message begins to be handled. -/
def execRequest (results : Tuid → Option (PyVal V × Bool)) (m : Manager V) :
    Msg V → Manager V × List (Duty V)
  | .work work =>
    match m.isScheduler, work.managerIdx with
    | true, .subnode managerIdx => (m.routeWork work managerIdx, [])
    | _, _ => (m, [.chunk work])
  | .depSat depSat => (m, [.depSat depSat])
  | .fenceRequest clientId =>
    if m.isScheduler then
      ({ m with schedulerFenceRequests := insert clientId m.schedulerFenceRequests },
        [.fence clientId])
    else (m, [])
  | .subnodeAllocResponse =>
    if m.isScheduler then (m, [])
    else (m.takeNode, (m.pendingWorkChunks ++ m.queuedWorkChunks).map .parkedChunk)
  | .subnodeFreeRequest managerIdx clientWorkCounts =>
    if m.isScheduler then
      (m.freeSubnode managerIdx,
        clientWorkCounts.entries.map fun entry => .release entry.1 entry.2)
    else (m, [])
  | msg => (m.handleRequest results msg, [])

/-- A chunk is dropped, parked or accepted. -/
def execChunk (m : Manager V) (work : Work (PyVal V)) : Manager V × List (Duty V) :=
  if work.clientId ∉ m.retQ then (m, [])
  else if m.isScheduler then (m.countWork work, acceptDuties work)
  else if work.readyTaskCores.isEmpty && work.blockedTaskCores.isEmpty then (m, [])
  else if m.subnodeHasAlloc then (m.countWork work, acceptDuties work)
  else (m.park work, [])

/-- A notification is stashed or counted; queueing the task may raise. -/
def execDepSat (results : Tuid → Option (PyVal V × Bool)) (m : Manager V) (depSat : DepSat) :
    Manager V × Option (List (Duty V)) :=
  match m.workBacklog.lookup depSat.compiledTuid with
  | none => (m.stashDepSat depSat, some [])
  | some work =>
    match notified results work depSat with
    | none => (m.stashDepSat depSat, some [])
    | some taskCore =>
      let taskCore := satisfy results depSat taskCore
      let ref : TaskRef := ⟨depSat.tuid, depSat.compiledTuid⟩
      if taskCore.numDepSat = taskCore.numDepTot then
        if m.enqueueRaises taskCore then
          ((m.updateBlocked work depSat.compiledTuid taskCore).enqueueReadyTask ref taskCore, none)
        else (m.unblock work depSat.compiledTuid taskCore, some [.enqueue ref taskCore])
      else (m.updateBlocked work depSat.compiledTuid taskCore, some [])

/-- The launch part of the main loop begins. -/
def execLaunchTasks (m : Manager V) : Manager V × List (Duty V) :=
  if m.isScheduler then (m.noteWork, [.launch])
  else if m.subnodeHasAlloc then
    ({ m.noteWork with subnodeReadyHeap := [] },
      (m.subnodeReadyHeap.insertionSort fun a b => a.1 ≤ b.1).map .drain ++ [.launch])
  else ({ m.noteWork with poolLaunchArgsList := [] }, [])

/-- The first completion is taken from the queue, and its task from the backlog. -/
def execResults (m : Manager V) : Manager V × List (Duty V) :=
  match m.asyncQueue with
  | [] => (m, [])
  | completion :: rest =>
    let m := { m with asyncQueue := rest }
    match m.workBacklog.lookup completion.compiledTuid with
    | none => (m, [])
    | some work =>
      match work.readyTaskCores.find? fun taskCore => taskCore.tuid = completion.tuid with
      | none => (m, [])
      | some taskCore =>
        ({ m with
            workBacklog := m.workBacklog.insert completion.compiledTuid
              (dropReady work completion.tuid) },
          (if m.isScheduler && isMultiNodeJob taskCore m.physicalCoresPerNode then
            [.mnjComplete completion.tuid] else []) ++
          [.finish (dropReady work completion.tuid) taskCore completion])

/-- The nodes of a multi-node job come back, and its client is told. -/
def execMnjComplete (m : Manager V) (tuid : Tuid) : Manager V × List (Duty V) :=
  match m.mnjClientIds.lookup tuid with
  | some clientId =>
    ({ m.freeMnj tuid with
        mnjClientIds := m.mnjClientIds.erase tuid
        mnjPendingCounts := decrease m.mnjPendingCounts clientId 1 1 },
      [.fence clientId, .reap clientId])
  | none => (m.freeMnj tuid, [])

/-- A duty is done: the manager after it, and the duties that it leaves; `none` if it raises. -/
def exec (results : Tuid → Option (PyVal V × Bool)) (m : Manager V) :
    Duty V → Manager V × Option (List (Duty V))
  | .request msg => ((m.execRequest results msg).1, some (m.execRequest results msg).2)
  | .chunk work => ((m.execChunk work).1, some (m.execChunk work).2)
  | .parkedChunk work =>
    (m, if work.clientId ∉ m.retQ then none else some [.chunk work])
  | .enqueue ref taskCore =>
    (m.enqueueReadyTask ref taskCore, if m.enqueueRaises taskCore then none else some [])
  | .depSatRequests work => ({ m with outbox := m.outbox ++ m.depSatRequests work }, some [])
  | .replay compiledTuid =>
    (m, some (((m.unexpectedDepSat.lookup compiledTuid).getD []).map .depSat ++
      [.forget compiledTuid]))
  | .forget compiledTuid =>
    ({ m with unexpectedDepSat := m.unexpectedDepSat.erase compiledTuid }, some [])
  | .depSat depSat => m.execDepSat results depSat
  | .fence clientId => (m.trySatisfySchedulerFence clientId, some [])
  | .reap clientId => (m.maybeReapClientState clientId, some [])
  | .release clientId count =>
    ({ m with subnodeOutstanding := decrease m.subnodeOutstanding clientId count 0 },
      some [.fence clientId, .reap clientId])
  | .allocCompletions =>
    ({ m with nodes := { m.nodes with newlySatisfiedAllocs := [] } },
      some (m.nodes.newlySatisfiedAllocs.map .allocCompletion))
  | .allocCompletion entry => (m.processAllocCompletion entry, some [])
  | .launchTasks => (m.execLaunchTasks.1, some m.execLaunchTasks.2)
  | .drain item => (m.drainStep item, some [])
  | .launch => (m.launchList, some [])
  | .releaseAllocation => (m.releaseAllocation, some [])
  | .results => (m.execResults.1, some m.execResults.2)
  | .mnjComplete tuid => ((m.execMnjComplete tuid).1, some (m.execMnjComplete tuid).2)
  | .finish work taskCore completion => (m.finishTask work taskCore completion, some [])

/-- The manager does the duties of an agenda. -/
inductive Does (results : Tuid → Option (PyVal V × Bool)) :
    Manager V → List (Duty V) → Manager V → Prop where
  | done (m : Manager V) : Does results m [] m
  | next {m m₁ m' : Manager V} {duty : Duty V} {duties agenda : List (Duty V)}
      (hexec : m.exec results duty = (m₁, some duties))
      (hrest : Does results m₁ (duties ++ agenda) m') : Does results m (duty :: agenda) m'
  | raised {m m₁ : Manager V} {duty : Duty V} (agenda : List (Duty V))
      (hexec : m.exec results duty = (m₁, none)) : Does results m (duty :: agenda) m₁

variable {results : Tuid → Option (PyVal V × Bool)}

variable {m m' : Manager V}

/-- **Invariant rule.**  What every duty preserves, an agenda preserves. -/
theorem Does.invariant {J : Manager V → List (Duty V) → Prop}
    (hnext : ∀ m duty agenda duties, J m (duty :: agenda) →
      (m.exec results duty).2 = some duties → J (m.exec results duty).1 (duties ++ agenda))
    (hraised : ∀ m duty agenda, J m (duty :: agenda) → (m.exec results duty).2 = none →
      J (m.exec results duty).1 []) {agenda : List (Duty V)} (hdoes : Does results m agenda m')
    (hJ : J m agenda) : J m' [] := by
  induction hdoes with
  | done => exact hJ
  | next hexec _ ih =>
    apply ih
    have h := hnext _ _ _ _ hJ (congrArg Prod.snd hexec)
    rwa [congrArg Prod.fst hexec] at h
  | raised _ hexec =>
    have h := hraised _ _ _ hJ (congrArg Prod.snd hexec)
    rwa [congrArg Prod.fst hexec] at h

/-- A duty that leaves nothing. -/
theorem Does.last {duty : Duty V} {agenda : List (Duty V)}
    (hexec : (m.exec results duty).2 = some [])
    (hrest : Does results (m.exec results duty).1 agenda m') : Does results m (duty :: agenda) m' :=
  Does.next (Prod.ext rfl hexec) hrest

/-! ## Work chunks -/

theorem does_enqueueReadyTasks (taskCores : List (TaskCore (PyVal V))) (compiledTuid : CompiledTuid)
    (m : Manager V) (agenda : List (Duty V))
    (hrest : if (m.enqueueReadyTasks taskCores compiledTuid).2 then
      m' = (m.enqueueReadyTasks taskCores compiledTuid).1
      else Does results (m.enqueueReadyTasks taskCores compiledTuid).1 agenda m') :
    Does results m (taskCores.map (fun taskCore =>
      .enqueue ⟨taskCore.tuid, compiledTuid⟩ taskCore) ++ agenda) m' := by
  induction taskCores generalizing m with
  | nil => exact hrest
  | cons taskCore rest ih =>
    rw [enqueueReadyTasks] at hrest
    by_cases hraises : m.enqueueRaises taskCore = true
    · rw [if_pos hraises] at hrest
      rw [if_pos rfl] at hrest
      subst hrest
      refine Does.raised _ ?_
      simp only [exec, hraises, if_true]
    · rw [if_neg hraises] at hrest
      have hexec : m.exec results (.enqueue ⟨taskCore.tuid, compiledTuid⟩ taskCore) =
          (m.enqueueReadyTask ⟨taskCore.tuid, compiledTuid⟩ taskCore, some []) := by
        simp only [exec, if_neg hraises]
      exact Does.next hexec (ih _ hrest)

theorem does_depSat (m : Manager V) (depSat : DepSat) (agenda : List (Duty V))
    (hrest : if (handleDepSat results m depSat).2 then m' = (handleDepSat results m depSat).1
      else Does results (handleDepSat results m depSat).1 agenda m') :
    Does results m (.depSat depSat :: agenda) m' := by
  have hexec : m.exec results (.depSat depSat) = m.execDepSat results depSat := rfl
  unfold handleDepSat at hrest
  unfold execDepSat at hexec
  rcases hwork : m.workBacklog.lookup depSat.compiledTuid with _ | work
  · simp only [hwork] at hrest hexec
    exact Does.next hexec hrest
  · rcases hfind : notified results work depSat with _ | taskCore
    · simp only [hwork, hfind] at hrest hexec
      exact Does.next hexec hrest
    · simp only [hwork, hfind] at hrest hexec
      by_cases hsat : (satisfy results depSat taskCore).numDepSat =
          (satisfy results depSat taskCore).numDepTot
      · simp only [if_pos hsat] at hrest hexec
        by_cases hraises : m.enqueueRaises (satisfy results depSat taskCore) = true
        · simp only [if_pos hraises] at hrest hexec
          subst hrest
          exact Does.raised _ hexec
        · simp only [if_neg hraises] at hrest hexec
          refine Does.next hexec (Does.last ?_ hrest)
          have hsame : ¬ (m.unblock work depSat.compiledTuid
              (satisfy results depSat taskCore)).enqueueRaises (satisfy results depSat taskCore) =
                true := hraises
          simp only [exec, if_neg hsame]
      · simp only [if_neg hsat] at hrest hexec
        exact Does.next hexec hrest

theorem does_replay (depSats : List DepSat) (m : Manager V) (agenda : List (Duty V))
    (hrest : if (replayDepSats results m depSats).2 then m' = (replayDepSats results m depSats).1
      else Does results (replayDepSats results m depSats).1 agenda m') :
    Does results m (depSats.map .depSat ++ agenda) m' := by
  induction depSats generalizing m with
  | nil => exact hrest
  | cons depSat rest ih =>
    rw [List.map_cons, List.cons_append]
    apply does_depSat
    rw [replayDepSats] at hrest
    rcases hhandled : handleDepSat results m depSat with ⟨m₁, raises⟩
    rw [hhandled] at hrest
    cases raises with
    | true => exact hrest
    | false => exact ih m₁ hrest

/-! A subnode manager queues its tasks in its heap, which does not raise. -/

theorem enqueueRaises_subnode (hm : m.isScheduler = false) (taskCore : TaskCore (PyVal V)) :
    m.enqueueRaises taskCore = false := by
  rw [enqueueRaises, hm, Bool.false_and]

theorem enqueueReadyTask_subnode (hm : m.isScheduler = false) (ref : TaskRef)
    (taskCore : TaskCore (PyVal V)) :
    m.enqueueReadyTask ref taskCore =
      { m with subnodeReadyHeap := (taskHeftPriorityKey taskCore, ref) :: m.subnodeReadyHeap } := by
  rw [enqueueReadyTask, hm]
  rfl

theorem enqueueReadyTasks_subnode (taskCores : List (TaskCore (PyVal V)))
    (compiledTuid : CompiledTuid) (hm : m.isScheduler = false) :
    (m.enqueueReadyTasks taskCores compiledTuid).2 = false ∧
      (m.enqueueReadyTasks taskCores compiledTuid).1.isScheduler = false := by
  induction taskCores generalizing m with
  | nil => exact ⟨rfl, hm⟩
  | cons taskCore rest ih =>
    rw [enqueueReadyTasks, enqueueRaises_subnode hm]
    apply ih
    rw [enqueueReadyTask_subnode hm]
    exact hm

theorem handleDepSat_subnode (results : Tuid → Option (PyVal V × Bool)) (hm : m.isScheduler = false)
    (depSat : DepSat) :
    (handleDepSat results m depSat).2 = false ∧
      (handleDepSat results m depSat).1.isScheduler = false := by
  unfold handleDepSat
  split
  · exact ⟨rfl, hm⟩
  next work _ =>
    split
    · exact ⟨rfl, hm⟩
    next taskCore _ =>
      simp only [enqueueRaises_subnode hm]
      split
      · refine ⟨rfl, ?_⟩
        have hunblock : (m.unblock work depSat.compiledTuid
          (satisfy results depSat taskCore)).isScheduler = false := hm
        change (enqueueReadyTask _ _ _).isScheduler = false
        rw [enqueueReadyTask_subnode hunblock]
        exact hm
      · exact ⟨rfl, hm⟩

theorem replayDepSats_subnode (results : Tuid → Option (PyVal V × Bool)) (depSats : List DepSat)
    (hm : m.isScheduler = false) :
    (replayDepSats results m depSats).2 = false ∧
      (replayDepSats results m depSats).1.isScheduler = false := by
  induction depSats generalizing m with
  | nil => exact ⟨rfl, hm⟩
  | cons depSat rest ih =>
    rw [replayDepSats]
    have hhandled := handleDepSat_subnode results hm depSat
    rcases h : handleDepSat results m depSat with ⟨m₁, raises⟩
    rw [h] at hhandled
    obtain ⟨rfl, hm₁⟩ := hhandled
    exact ih hm₁

theorem Does.eq_of_nil (h : Does results m [] m') : m' = m := by
  cases h
  rfl

/-- An accepted chunk.  On the scheduler an exception may end the handler. -/
theorem does_acceptWork (m : Manager V) (work : Work (PyVal V)) (agenda : List (Duty V))
    (hagenda : m.isScheduler = false ∨ agenda = [])
    (hrest : Does results (m.acceptWork results work) agenda m') :
    Does results (m.countWork work) (acceptDuties work ++ agenda) m' := by
  rw [acceptDuties, List.append_assoc]
  apply does_enqueueReadyTasks
  rw [acceptWork] at hrest
  rcases hqueued : (m.countWork work).enqueueReadyTasks work.readyTaskCores work.compiledTuid
    with ⟨m₁, raises⟩
  rw [hqueued] at hrest
  cases raises with
  | true =>
    rw [if_pos rfl]
    rcases hagenda with hm | rfl
    · have hcount : (m.countWork work).isScheduler = false := hm
      have hraises := (enqueueReadyTasks_subnode work.readyTaskCores work.compiledTuid hcount).1
      rw [hqueued] at hraises
      cases hraises
    · exact hrest.eq_of_nil
  | false =>
    rw [if_neg Bool.false_ne_true]
    refine Does.last rfl (Does.next rfl ?_)
    rw [List.append_assoc]
    rcases hreplayed : replayDepSats results { m₁ with outbox := m₁.outbox ++ m₁.depSatRequests work }
      ((m₁.unexpectedDepSat.lookup work.compiledTuid).getD []) with ⟨m₂, raises⟩
    simp only [hreplayed] at hrest
    refine does_replay ((m₁.unexpectedDepSat.lookup work.compiledTuid).getD [])
      { m₁ with outbox := m₁.outbox ++ m₁.depSatRequests work }
      ([.forget work.compiledTuid] ++ agenda) ?_
    rw [hreplayed]
    cases raises with
    | true =>
      rw [if_pos rfl]
      rcases hagenda with hm | rfl
      · have hcount : (m.countWork work).isScheduler = false := hm
        have hm₁ := (enqueueReadyTasks_subnode work.readyTaskCores work.compiledTuid hcount).2
        rw [hqueued] at hm₁
        have hno := (replayDepSats_subnode results
          (m := { m₁ with outbox := m₁.outbox ++ m₁.depSatRequests work })
          ((m₁.unexpectedDepSat.lookup work.compiledTuid).getD []) hm₁).1
        rw [hreplayed] at hno
        exact absurd hno.symm Bool.false_ne_true
      · exact hrest.eq_of_nil
    | false =>
      rw [if_neg Bool.false_ne_true]
      exact Does.last rfl hrest

theorem does_chunk (m : Manager V) (work : Work (PyVal V)) (agenda : List (Duty V))
    (hagenda : m.isScheduler = false ∨ agenda = [])
    (hrest : Does results (m.handleCompiledTask results work) agenda m') :
    Does results m (.chunk work :: agenda) m' := by
  have hexec : m.exec results (.chunk work) = ((m.execChunk work).1, some (m.execChunk work).2) := rfl
  refine Does.next hexec ?_
  rw [handleCompiledTask] at hrest
  unfold execChunk
  split
  next hclient =>
    rw [if_pos hclient] at hrest
    exact hrest
  next hclient =>
    rw [if_neg hclient] at hrest
    split
    next hm =>
      rw [if_pos hm] at hrest
      exact does_acceptWork m work agenda hagenda hrest
    next hm =>
      rw [if_neg hm] at hrest
      split
      next hempty =>
        rw [if_pos hempty] at hrest
        exact hrest
      next hempty =>
        rw [if_neg hempty] at hrest
        split
        next halloc =>
          rw [if_pos halloc] at hrest
          exact does_acceptWork m work agenda hagenda hrest
        next halloc =>
          rw [if_neg halloc] at hrest
          exact hrest

theorem acceptWork_subnode (hm : m.isScheduler = false) (work : Work (PyVal V)) :
    (m.acceptWork results work).isScheduler = false := by
  have hcount : (m.countWork work).isScheduler = false := hm
  have hqueued := (enqueueReadyTasks_subnode work.readyTaskCores work.compiledTuid hcount).2
  rw [acceptWork]
  rcases h : (m.countWork work).enqueueReadyTasks work.readyTaskCores work.compiledTuid
    with ⟨m₁, raises⟩
  rw [h] at hqueued
  cases raises with
  | true => exact hqueued
  | false =>
    have hreplayed := (replayDepSats_subnode results
      (m := { m₁ with outbox := m₁.outbox ++ m₁.depSatRequests work })
      ((m₁.unexpectedDepSat.lookup work.compiledTuid).getD []) hqueued).2
    rcases hcases : replayDepSats results { m₁ with outbox := m₁.outbox ++ m₁.depSatRequests work }
      ((m₁.unexpectedDepSat.lookup work.compiledTuid).getD []) with ⟨m₂, raises⟩
    rw [hcases] at hreplayed
    simp only [hcases]
    cases raises with
    | true => exact hreplayed
    | false => exact hreplayed

theorem handleCompiledTask_subnode (hm : m.isScheduler = false) (work : Work (PyVal V)) :
    (m.handleCompiledTask results work).isScheduler = false := by
  rw [handleCompiledTask]
  split
  · exact hm
  · split
    · exact acceptWork_subnode hm work
    · split
      · exact hm
      · split
        · exact acceptWork_subnode hm work
        · rw [park]
          split
          · exact hm
          · rw [sendSubnodeAllocRequest]
            split
            · exact hm
            · split
              · exact hm
              · exact hm

/-- The parked chunks are duties of their own. -/
theorem does_processPending (pending : List (Work (PyVal V))) (hm : m.isScheduler = false) :
    Does results m (pending.map .parkedChunk) (m.processPending results pending) := by
  induction pending generalizing m with
  | nil => exact Does.done m
  | cons work pending ih =>
    rw [processPending, List.map_cons]
    by_cases hclient : work.clientId ∉ m.retQ
    · rw [if_pos hclient]
      refine Does.raised _ ?_
      rw [exec, if_pos hclient]
    · rw [if_neg hclient]
      have hexec : m.exec results (.parkedChunk work) = (m, some [.chunk work]) := by
        rw [exec, if_neg hclient]
      exact Does.next hexec (does_chunk m work _ (Or.inl hm) (ih (handleCompiledTask_subnode hm work)))

/-! ## Messages -/

/-- So are the clients whose work is released. -/
theorem does_release (counts : List ((_ : ℕ) × ℕ)) (m : Manager V) :
    Does results m (counts.map fun entry => .release entry.1 entry.2)
      (counts.foldl releaseClientWork m) := by
  induction counts generalizing m with
  | nil => exact Does.done m
  | cons entry counts ih =>
    rw [List.map_cons, List.foldl_cons]
    refine Does.next rfl ?_
    refine Does.last rfl ?_
    refine Does.last rfl ?_
    exact ih _

theorem does_handleRequest (m : Manager V) (msg : Msg V) :
    Does results m [.request msg] (m.handleRequest results msg) := by
  refine Does.next rfl ?_
  rw [List.append_nil]
  cases msg with
  | work work =>
    change Does results _ _ (m.handleWork results work)
    rw [handleWork]
    simp only [execRequest]
    cases hm : m.isScheduler with
    | false => exact does_chunk m work [] (Or.inr rfl) (Does.done _)
    | true =>
      cases work.managerIdx with
      | subnode => exact Does.done _
      | scheduler => exact does_chunk m work [] (Or.inr rfl) (Does.done _)
  | depSat =>
    apply does_depSat
    split
    · rfl
    · exact Does.done _
  | depSatRequest => exact Does.done _
  | unregisterClient => exact Does.done _
  | destroyCalled => exact Does.done _
  | fenceRequest =>
    simp only [execRequest, handleRequest]
    split
    · exact Does.last rfl (Does.done _)
    · exact Does.done _
  | cancelRequest => exact Does.done _
  | subnodeAllocRequest => exact Does.done _
  | subnodeAllocResponse =>
    simp only [execRequest, handleRequest]
    split
    · exact Does.done _
    next hm =>
      have hnode : m.takeNode.isScheduler = false := Bool.not_eq_true _ ▸ hm
      exact does_processPending _ hnode
  | subnodeFreeRequest =>
    simp only [execRequest, handleRequest]
    split
    · exact does_release _ _
    · exact Does.done _
  | clearFenceState => exact Does.done _

/-! ## The main loop -/

theorem does_drain (items : List ((ℤ ×ₗ ℕ ×ₗ String) × TaskRef)) (m : Manager V)
    (agenda : List (Duty V)) (hrest : Does results (items.foldl drainStep m) agenda m') :
    Does results m (items.map .drain ++ agenda) m' := by
  induction items generalizing m with
  | nil => exact hrest
  | cons item items ih => exact Does.last rfl (ih _ hrest)

theorem does_launchTasks (m : Manager V) : Does results m [.launchTasks] m.launchTasks := by
  refine Does.next rfl ?_
  rw [List.append_nil, launchTasks]
  unfold execLaunchTasks
  split
  · exact Does.last rfl (Does.done _)
  · split
    · apply does_drain
      exact Does.last rfl (Does.done _)
    · exact Does.done _

theorem does_releaseAllocation (m : Manager V) :
    Does results m [.releaseAllocation] m.releaseAllocation := Does.last rfl (Does.done _)

theorem does_mnjComplete (m : Manager V) (tuid : Tuid) (agenda : List (Duty V))
    (hrest : Does results (m.handleMnjComplete tuid) agenda m') :
    Does results m (.mnjComplete tuid :: agenda) m' := by
  refine Does.next rfl ?_
  rw [handleMnjComplete] at hrest
  have hclient : (m.freeMnj tuid).mnjClientIds = m.mnjClientIds := rfl
  unfold execMnjComplete
  simp only [hclient] at hrest
  split
  next clientId hlookup =>
    simp only [hlookup] at hrest
    exact Does.last rfl (Does.last rfl hrest)
  next hlookup =>
    simp only [hlookup] at hrest
    exact hrest

/-- A result that is taken from the results queue is one duty, or some more. -/
theorem does_handleNextResult (m : Manager V) :
    Does results m [.results] (System.handleNextResult m) := by
  refine Does.next rfl ?_
  rw [List.append_nil]
  rcases hqueue : m.asyncQueue with _ | ⟨completion, rest⟩
  · simp only [System.handleNextResult, execResults, hqueue]
    exact Does.done _
  · simp only [System.handleNextResult, execResults, hqueue, handleResults]
    rcases hwork : m.workBacklog.lookup completion.compiledTuid with _ | work
    · exact Does.done _
    · rcases hfind : work.readyTaskCores.find? fun taskCore =>
        taskCore.tuid = completion.tuid with _ | taskCore
      · simp only [hfind]
        exact Does.done _
      · simp only [hfind]
        -- a completed multi-node job gives back its nodes first
        split_ifs with hmnj hmnj' hmnj'
        · exact does_mnjComplete _ _ _ (Does.last rfl (Does.done _))
        · exact absurd hmnj hmnj'
        · exact absurd hmnj' hmnj
        · exact Does.last rfl (Does.done _)

end Manager

end Batch
