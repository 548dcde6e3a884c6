/-
# Queues and tasks of the TCP server (`src/dragon/transport/tcp/server.py`, `task.py`)

The dispatcher of the server puts a request on the queue of its key, and makes a task for the key
when there is none.  A task that gets no request for some time deletes its queue and itself from the
two dictionaries and ends.

Conventions:

* queues and tasks are objects with an identity; the dictionaries have references to them;
* a step is what runs without giving way: up to the next `await`;
* the timeout that ends the waiting for a request, and the turn of the task in which it sees that,
  are two steps, and anything may come between them; it may end any waiting, and that it does not
  end one which finds a request at once is asked of the event loop;
* a handler returns or raises an `Exception`; then an error response is written, and when that
  raises too, `run_forever` calls `process` again.

Safety is for every run.  Progress is for the runs without an end of an event loop that gives the
task of a key with requests its turns, so for handlers that end.
-/
import DragonRuntime.TcpServer

namespace TcpTransport

/-- Where a task of `process` stands. -/
inductive TaskState (α σ η : Type*) : Type _ where
  /-- at the beginning of `process` -/
  | created
  /-- waiting for a request of a queue; `found` says whether there was one at the beginning -/
  | getting (queue : ℕ) (found : Bool)
  /-- the waiting was ended by the timeout -/
  | expired (queue : ℕ)
  | handling (req : Request σ η) (addr : α)
  | done

structure KeyTask (α σ η : Type*) where
  key : σ × RequestTag η
  state : TaskState α σ η

inductive HandlerOutcome : Type where
  | returned
  /-- whether the error response was written -/
  | raised (written : Bool)

structure Dispatcher (α σ η : Type*) where
  /-- `_requests` -/
  requests : σ × RequestTag η → Option ℕ
  /-- `_process_tasks` -/
  process_tasks : σ × RequestTag η → Option ℕ
  queues : ℕ → List (Request σ η × α)
  nextQueue : ℕ
  tasks : ℕ → Option (KeyTask α σ η)
  nextTask : ℕ
  /-- what the transport delivered -/
  delivered : List (Request σ η × α)
  /-- the requests whose handling has ended -/
  handled : List (Request σ η × α)

inductive DispatchAction (α σ η : Type*) : Type _ where
  /-- `run` reads a request -/
  | read (req : Request σ η) (addr : α)
  | start (task : ℕ)
  /-- a task takes a request from the queue that it waits for -/
  | get (task : ℕ)
  | expire (task : ℕ)
  /-- a task sees that its waiting was ended -/
  | timeout (task : ℕ)
  | finish (task : ℕ) (outcome : HandlerOutcome)

namespace Dispatcher

variable {α σ η : Type*} [DecidableEq σ] [DecidableEq η]

def init : Dispatcher α σ η where
  requests := fun _ => none
  process_tasks := fun _ => none
  queues := fun _ => []
  nextQueue := 0
  tasks := fun _ => none
  nextTask := 0
  delivered := []
  handled := []

def setTask (s : Dispatcher α σ η) (task : ℕ) (key : σ × RequestTag η)
    (state : TaskState α σ η) : Dispatcher α σ η :=
  { s with tasks := Function.update s.tasks task (some ⟨key, state⟩) }

def setQueue (s : Dispatcher α σ η) (queue : ℕ) (items : List (Request σ η × α)) :
    Dispatcher α σ η :=
  { s with queues := Function.update s.queues queue items }

/-- `self._requests[key]`, which makes a queue when there is none -/
def requestQueue (s : Dispatcher α σ η) (key : σ × RequestTag η) : ℕ × Dispatcher α σ η :=
  match s.requests key with
  | some queue => (queue, s)
  | none =>
    (s.nextQueue,
      { s with
        requests := Function.update s.requests key (some s.nextQueue)
        queues := Function.update s.queues s.nextQueue []
        nextQueue := s.nextQueue + 1 })

/-- `create_task(self.process(key))` -/
def createTask (s : Dispatcher α σ η) (key : σ × RequestTag η) : Dispatcher α σ η :=
  { s with
    process_tasks := Function.update s.process_tasks key (some s.nextTask)
    tasks := Function.update s.tasks s.nextTask (some ⟨key, .created⟩)
    nextTask := s.nextTask + 1 }

def isDone (s : Dispatcher α σ η) (task : ℕ) : Bool :=
  match s.tasks task with
  | some ⟨_, .done⟩ => true
  | _ => false

/-- `_ensure_process_task` -/
def ensureProcessTask (s : Dispatcher α σ η) (key : σ × RequestTag η) : Dispatcher α σ η :=
  match s.process_tasks key with
  | some task => if s.isDone task then s.createTask key else s
  | none => s.createTask key

/-- The body of the loop of `run`. -/
def read (s : Dispatcher α σ η) (req : Request σ η) (addr : α) : Dispatcher α σ η :=
  let found := { s with delivered := s.delivered ++ [(req, addr)] }.requestQueue req.key
  (found.2.setQueue found.1 (found.2.queues found.1 ++ [(req, addr)])).ensureProcessTask req.key

/-- The head of the loop of `process`. -/
def await (s : Dispatcher α σ η) (task : ℕ) (key : σ × RequestTag η) : Dispatcher α σ η :=
  (s.requestQueue key).2.setTask task key (.getting (s.requestQueue key).1
    (decide ((s.requestQueue key).2.queues (s.requestQueue key).1 ≠ [])))

/-- The `except` of `process` for the timeout. -/
def timedOut (s : Dispatcher α σ η) (task : ℕ) (key : σ × RequestTag η) : Dispatcher α σ η :=
  let found := s.requestQueue key
  if found.2.queues found.1 = [] then
    let deleted := { found.2 with requests := Function.update found.2.requests key none }
    match deleted.process_tasks key with
    -- a `KeyError`: `run_forever` calls `process` again
    | none => deleted.setTask task key .created
    | some _ =>
      { deleted with process_tasks := Function.update deleted.process_tasks key none }.setTask
        task key .done
  else found.2.await task key

def exec (s : Dispatcher α σ η) : DispatchAction α σ η → Dispatcher α σ η
  | .read req addr => s.read req addr
  | .start task =>
    match s.tasks task with
    | some ⟨key, .created⟩ => s.await task key
    | _ => s
  | .get task =>
    match s.tasks task with
    | some ⟨key, .getting queue _⟩ =>
      match s.queues queue with
      | [] => s
      | (req, addr) :: rest => (s.setQueue queue rest).setTask task key (.handling req addr)
    | _ => s
  | .expire task =>
    match s.tasks task with
    | some ⟨key, .getting queue _⟩ => s.setTask task key (.expired queue)
    | _ => s
  | .timeout task =>
    match s.tasks task with
    | some ⟨key, .expired _⟩ => s.timedOut task key
    | _ => s
  | .finish task outcome =>
    match s.tasks task with
    | some ⟨key, .handling req addr⟩ =>
      match outcome with
      | .raised false =>
        { s with handled := s.handled ++ [(req, addr)] }.setTask task key .created
      | _ => { s with handled := s.handled ++ [(req, addr)] }.await task key
    | _ => s

/-! ## The order of a key -/

/-- A task handles the request. -/
def Handles (s : Dispatcher α σ η) (task : ℕ) (key : σ × RequestTag η)
    (item : Request σ η × α) : Prop :=
  s.tasks task = some ⟨key, .handling item.1 item.2⟩

/-- The queue of a key in the dictionary. -/
def queued (s : Dispatcher α σ η) (key : σ × RequestTag η) : List (Request σ η × α) :=
  match s.requests key with
  | some queue => s.queues queue
  | none => []

/-- The requests of a key. -/
def ofKey (key : σ × RequestTag η) (items : List (Request σ η × α)) : List (Request σ η × α) :=
  items.filter fun item => item.1.key = key

/-- A delivered request of the key has not been handled yet. -/
def Unhandled (s : Dispatcher α σ η) (key : σ × RequestTag η) : Prop :=
  ofKey key s.handled ≠ ofKey key s.delivered

/-- The action moves the task of the key on. -/
inductive Turn (s : Dispatcher α σ η) (key : σ × RequestTag η) : DispatchAction α σ η → Prop where
  | start {task : ℕ} (h : s.tasks task = some ⟨key, .created⟩) : Turn s key (.start task)
  | get {task queue : ℕ} {found : Bool} (h : s.tasks task = some ⟨key, .getting queue found⟩)
      (hitems : s.queues queue ≠ []) : Turn s key (.get task)
  | timeout {task queue : ℕ} (h : s.tasks task = some ⟨key, .expired queue⟩) :
      Turn s key (.timeout task)
  | finish {task : ℕ} {item : Request σ η × α} (h : s.Handles task key item)
      (outcome : HandlerOutcome) : Turn s key (.finish task outcome)

/-- Of each key at most one request is being handled, the delivered requests are the handled ones,
this one and the queue, and while a request is unhandled the task of its key can move on. -/
structure InOrder (s : Dispatcher α σ η) : Prop where
  single : ∀ key task task' item item', s.Handles task key item → s.Handles task' key item' →
    task = task'
  order : ∀ key, ∃ inHand : List (Request σ η × α), inHand.length ≤ 1 ∧
    (∀ item, item ∈ inHand ↔ ∃ task, s.Handles task key item) ∧
    ofKey key s.delivered = ofKey key s.handled ++ inHand ++ s.queued key
  turn : ∀ key, s.Unhandled key → ∃ action, s.Turn key action

/-- The states of a run without an end. -/
abbrev states (s : Dispatcher α σ η) (later : ℕ → DispatchAction α σ η) : ℕ → Dispatcher α σ η :=
  Runs.states Dispatcher.exec s later

/-- The event loop is fair to a key: while a request of it is unhandled its task moves on again and
again (so that its handlers end), and a waiting that finds a request is not ended by the timeout. -/
structure Fair (s : Dispatcher α σ η) (later : ℕ → DispatchAction α σ η)
    (key : σ × RequestTag η) : Prop where
  turn : ∀ n, (s.states later n).Unhandled key →
    ∃ m, n ≤ m ∧ (s.states later m).Turn key (later m)
  found : ∀ n task queue, (s.states later n).tasks task = some ⟨key, .getting queue true⟩ →
    later n ≠ .expire task

end Dispatcher

/-! ## What holds between two steps -/

/-- The request that a task has in hand. -/
def TaskState.items {α σ η : Type*} : TaskState α σ η → List (Request σ η × α)
  | .handling req addr => [(req, addr)]
  | _ => []

/-- How many turns a task takes at most before it takes a request from a queue with requests. -/
def TaskState.turns {α σ η : Type*} : TaskState α σ η → ℕ
  | .created | .expired _ | .getting _ false => 1
  | .handling _ _ => 2
  | .getting _ true | .done => 0

/-- A task that is not done is bound to the queue of its key. -/
def TaskState.On {α σ η : Type*} (queue : ℕ) : TaskState α σ η → Prop
  | .getting queue' _ | .expired queue' => queue' = queue
  | .done => False
  | _ => True

namespace Dispatcher

variable {α σ η : Type*} [DecidableEq σ] [DecidableEq η]

/-- The task and the queue of a key come and go together. -/
inductive KeyState (s : Dispatcher α σ η) (key : σ × RequestTag η) :
    List (Request σ η × α) → Prop where
  | absent (htask : s.process_tasks key = none) (hqueue : s.requests key = none) :
      KeyState s key []
  | present {task queue : ℕ} {state : TaskState α σ η} (htask : s.process_tasks key = some task)
      (hqueue : s.requests key = some queue) (hstate : s.tasks task = some ⟨key, state⟩)
      (hon : state.On queue) : KeyState s key state.items

structure Kept (s : Dispatcher α σ η) : Prop where
  keys : ∀ key, ∃ inHand, s.KeyState key inHand ∧
    ofKey key s.delivered = ofKey key s.handled ++ inHand ++ s.queued key
  owner : ∀ task key state, s.tasks task = some ⟨key, state⟩ → state ≠ .done →
    s.process_tasks key = some task
  task_none : ∀ task, s.nextTask ≤ task → s.tasks task = none
  queue_lt : ∀ key queue, s.requests key = some queue → queue < s.nextQueue
  queue_inj : ∀ key key' queue, s.requests key = some queue → s.requests key' = some queue →
    key = key'

theorem kept_init : (init : Dispatcher α σ η).Kept where
  keys := fun _ => ⟨[], .absent rfl rfl, rfl⟩
  owner := nofun
  task_none := fun _ _ => rfl
  queue_lt := nofun
  queue_inj := nofun

variable {s : Dispatcher α σ η} {key : σ × RequestTag η} {state : TaskState α σ η} {queue : ℕ}
  {addr : α} {req : Request σ η}

theorem Kept.inOrder (hs : s.Kept) : s.InOrder where
  single := by
    intro key task task' item item' h h'
    have htask := hs.owner task key _ h nofun
    have htask' := hs.owner task' key _ h' nofun
    exact Option.some.inj (htask.symm.trans htask')
  order := by
    intro key
    obtain ⟨inHand, hstate, horder⟩ := hs.keys key
    refine ⟨inHand, ?_, ?_, horder⟩
    · cases hstate with
      | absent => exact Nat.zero_le _
      | @present task queue state _ _ _ _ =>
        cases state with
        | handling => exact le_rfl
        | created | getting queue | expired queue | done => exact Nat.zero_le _
    · intro item
      constructor
      · intro hmem
        cases hstate with
        | absent => exact absurd hmem List.not_mem_nil
        | @present task queue state _ _ hstate _ =>
          cases state with
          | handling =>
            obtain rfl := List.mem_singleton.mp hmem
            exact ⟨task, hstate⟩
          | created | getting queue | expired queue | done => exact absurd hmem List.not_mem_nil
      · rintro ⟨task, hhandles⟩
        have htask := hs.owner task key _ hhandles nofun
        cases hstate with
        | absent htask' => exact absurd (htask.symm.trans htask') nofun
        | present htask' _ hstate =>
          obtain rfl := Option.some.inj (htask.symm.trans htask')
          obtain ⟨-, rfl⟩ := KeyTask.mk.inj (Option.some.inj (hhandles.symm.trans hstate))
          exact List.mem_singleton_self _
  turn := by
    intro key hunhandled
    obtain ⟨inHand, hstate, horder⟩ := hs.keys key
    unfold queued at horder
    cases hstate with
    | absent _ hqueue =>
      rw [hqueue, List.append_nil, List.append_nil] at horder
      exact absurd horder.symm hunhandled
    | @present task queue state _ hqueue hstate hon =>
      cases state with
      | created => exact ⟨_, .start hstate⟩
      | getting queue' =>
        obtain rfl : queue' = queue := hon
        refine ⟨_, .get hstate fun hempty => hunhandled ?_⟩
        simp only [hqueue, hempty, TaskState.items, List.append_nil] at horder
        exact horder.symm
      | expired queue' => exact ⟨_, .timeout hstate⟩
      | handling req addr =>
        have hhandles : s.Handles task key (req, addr) := hstate
        exact ⟨_, .finish hhandles .returned⟩
      | done => exact hon.elim

/-- What a task that is not done tells of its key. -/
theorem Kept.task (hs : s.Kept) {task : ℕ} (hstate : s.tasks task = some ⟨key, state⟩)
    (hne : state ≠ .done) :
    ∃ queue, s.process_tasks key = some task ∧ s.requests key = some queue ∧ state.On queue ∧
      ofKey key s.delivered = ofKey key s.handled ++ state.items ++ s.queues queue := by
  have howner := hs.owner task key state hstate hne
  obtain ⟨inHand, hkey, horder⟩ := hs.keys key
  cases hkey with
  | absent htask => exact absurd (howner.symm.trans htask) nofun
  | present htask hqueue hstate' hon =>
    obtain rfl := Option.some.inj (howner.symm.trans htask)
    obtain ⟨-, rfl⟩ := KeyTask.mk.inj (Option.some.inj (hstate.symm.trans hstate'))
    refine ⟨_, howner, hqueue, hon, ?_⟩
    unfold queued at horder
    rw [hqueue] at horder
    exact horder

/-- A step that concerns one key, with its task and its queue, leaves what holds of the others. -/
theorem Kept.of_key {s' : Dispatcher α σ η} (hs : s.Kept) {task : ℕ}
    (hprocess : ∀ other, other ≠ key → s'.process_tasks other = s.process_tasks other)
    (hrequests : ∀ other, other ≠ key → s'.requests other = s.requests other)
    (htasks : s'.tasks = Function.update s.tasks task (some ⟨key, state⟩))
    (hqueues : ∀ other, other ≠ queue → s'.queues other = s.queues other)
    (hnextTask : s.nextTask ≤ s'.nextTask) (hnextQueue : s.nextQueue ≤ s'.nextQueue)
    (hlog : ∀ other, other ≠ key →
      ofKey other s'.delivered = ofKey other s.delivered ∧
        ofKey other s'.handled = ofKey other s.handled)
    (htask : ∀ other state, s.tasks task = some ⟨other, state⟩ → other = key)
    (hqueue : ∀ other, s.requests other = some queue → other = key)
    (hcurrent : ∀ other, s.process_tasks key = some other → other = task)
    (htask_lt : task < s'.nextTask) (hqueue_lt : queue < s'.nextQueue)
    (howner : state ≠ .done → s'.process_tasks key = some task)
    (hfound : ∀ other, s'.requests key = some other → other = queue)
    (hkey : ∃ inHand, s'.KeyState key inHand ∧
      ofKey key s'.delivered = ofKey key s'.handled ++ inHand ++ s'.queued key) :
    s'.Kept where
  keys := by
    intro other
    by_cases hne : other = key
    · subst hne
      exact hkey
    · obtain ⟨inHand, hstate, horder⟩ := hs.keys other
      have hqueued : s'.queued other = s.queued other := by
        unfold queued
        rw [hrequests other hne]
        cases hother : s.requests other with
        | none => rfl
        | some queue' =>
          refine hqueues queue' ?_
          rintro rfl
          exact hne (hqueue other hother)
      refine ⟨inHand, ?_, ?_⟩
      · cases hstate with
        | absent htask hqueue =>
          exact .absent ((hprocess other hne).trans htask) ((hrequests other hne).trans hqueue)
        | present htask' hqueue' hstate hon =>
          refine .present ((hprocess other hne).trans htask') ((hrequests other hne).trans hqueue')
            ?_ hon
          rw [htasks, Function.update_of_ne]
          · exact hstate
          · rintro rfl
            exact hne (htask other _ hstate)
      · rw [(hlog other hne).1, (hlog other hne).2, hqueued]
        exact horder
  owner := by
    intro task' key' state' hstate hne
    rw [htasks] at hstate
    by_cases htask' : task' = task
    · subst htask'
      rw [Function.update_self] at hstate
      obtain ⟨rfl, rfl⟩ := KeyTask.mk.inj (Option.some.inj hstate)
      exact howner hne
    · rw [Function.update_of_ne htask'] at hstate
      have howner' := hs.owner task' key' state' hstate hne
      by_cases hkey' : key' = key
      · subst hkey'
        exact absurd (hcurrent task' howner') htask'
      · rw [hprocess key' hkey']
        exact howner'
  task_none := by
    intro task' hle
    rw [htasks, Function.update_of_ne (htask_lt.trans_le hle).ne']
    exact hs.task_none task' (hnextTask.trans hle)
  queue_lt := by
    intro key' queue' hfound'
    by_cases hkey' : key' = key
    · subst hkey'
      rw [hfound queue' hfound']
      exact hqueue_lt
    · rw [hrequests key' hkey'] at hfound'
      exact (hs.queue_lt key' queue' hfound').trans_le hnextQueue
  queue_inj := by
    intro key₁ key₂ queue' h₁ h₂
    by_cases hne₁ : key₁ = key
    · by_cases hne₂ : key₂ = key
      · exact hne₁.trans hne₂.symm
      · rw [hrequests key₂ hne₂] at h₂
        subst hne₁
        rw [hfound queue' h₁] at h₂
        exact absurd (hqueue key₂ h₂) hne₂
    · rw [hrequests key₁ hne₁] at h₁
      by_cases hne₂ : key₂ = key
      · subst hne₂
        rw [hfound queue' h₂] at h₁
        exact absurd (hqueue key₁ h₁) hne₁
      · rw [hrequests key₂ hne₂] at h₂
        exact hs.queue_inj key₁ key₂ queue' h₁ h₂

/-- The task of a key moves on, and its queue and the records change with it. -/
theorem Kept.move (hs : s.Kept) {task : ℕ} {state' : TaskState α σ η}
    (hstate : s.tasks task = some ⟨key, state⟩) (htask : s.process_tasks key = some task)
    (hqueue : s.requests key = some queue) (hon : state'.On queue)
    (items delivered handled : List (Request σ η × α)) (hlog : ∀ other, other ≠ key →
      ofKey other delivered = ofKey other s.delivered ∧
        ofKey other handled = ofKey other s.handled)
    (horder : ofKey key delivered = ofKey key handled ++ state'.items ++ items) :
    ({ s with
      queues := Function.update s.queues queue items
      tasks := Function.update s.tasks task (some ⟨key, state'⟩)
      delivered := delivered
      handled := handled } : Dispatcher α σ η).Kept := by
  have htask_lt : task < s.nextTask := by
    by_contra hle
    rw [hs.task_none task (Nat.not_lt.mp hle)] at hstate
    exact absurd hstate nofun
  refine hs.of_key (fun _ _ => rfl) (fun _ _ => rfl) rfl
    (fun other hne => Function.update_of_ne hne _ _) le_rfl le_rfl hlog ?_ ?_ ?_ htask_lt
    (hs.queue_lt key queue hqueue) (fun _ => htask) ?_ ⟨state'.items, ?_, ?_⟩
  · intro other state hother
    exact (KeyTask.mk.inj (Option.some.inj (hother.symm.trans hstate))).1
  · intro other hother
    exact hs.queue_inj other key queue hother hqueue
  · intro other hother
    exact Option.some.inj (hother.symm.trans htask)
  · intro other hother
    exact Option.some.inj (hother.symm.trans hqueue)
  · exact .present htask hqueue (Function.update_self ..) hon
  · unfold queued
    simp only [hqueue, Function.update_self]
    exact horder

/-! ## The steps -/

theorem ofKey_append_of_ne {items : List (Request σ η × α)} {other : σ × RequestTag η}
    (hne : other ≠ req.key) :
    ofKey other (items ++ [(req, addr)]) = ofKey other items := by
  rw [ofKey, List.filter_append, List.filter_singleton]
  simp [ofKey, hne.symm]

theorem ofKey_append_self (items : List (Request σ η × α)) (req : Request σ η) (addr : α) :
    ofKey req.key (items ++ [(req, addr)]) = ofKey req.key items ++ [(req, addr)] := by
  rw [ofKey, List.filter_append, List.filter_singleton]
  simp [ofKey]

theorem requestQueue_of_some (hqueue : s.requests key = some queue) :
    s.requestQueue key = (queue, s) := by
  unfold requestQueue
  rw [hqueue]

theorem await_of_some (hqueue : s.requests key = some queue) (task : ℕ) :
    s.await task key =
      s.setTask task key (.getting queue (decide (s.queues queue ≠ []))) := by
  unfold await
  rw [requestQueue_of_some hqueue]

/-- A task that only moves on, with the request that it has in hand if there is one. -/
theorem Kept.setTask (hs : s.Kept) {task : ℕ} {state' : TaskState α σ η}
    (hstate : s.tasks task = some ⟨key, state⟩) (hne : state ≠ .done)
    (hqueue : s.requests key = some queue) (hon : state'.On queue)
    (hitems : state'.items = state.items) : (s.setTask task key state').Kept := by
  obtain ⟨queue', htask, hqueue', -, horder⟩ := hs.task hstate hne
  obtain rfl := Option.some.inj (hqueue.symm.trans hqueue')
  have hmoved := hs.move hstate htask hqueue hon (s.queues queue) s.delivered s.handled
    (fun _ _ => ⟨rfl, rfl⟩)
    (by rw [hitems]; exact horder)
  rw [Function.update_eq_self] at hmoved
  exact hmoved

theorem Kept.start (hs : s.Kept) {task : ℕ} (hstate : s.tasks task = some ⟨key, .created⟩) :
    (s.await task key).Kept := by
  obtain ⟨queue, -, hqueue, -, -⟩ := hs.task hstate nofun
  rw [await_of_some hqueue]
  exact hs.setTask hstate nofun hqueue rfl rfl

theorem Kept.get (hs : s.Kept) {task : ℕ} {found : Bool} {rest : List (Request σ η × α)}
    (hstate : s.tasks task = some ⟨key, .getting queue found⟩)
    (hitems : s.queues queue = (req, addr) :: rest) :
    ((s.setQueue queue rest).setTask task key (.handling req addr)).Kept := by
  obtain ⟨queue', htask, hqueue, hon, horder⟩ := hs.task hstate nofun
  obtain rfl : queue = queue' := hon
  have hmoving : (TaskState.handling req addr).On queue := trivial
  refine hs.move hstate htask hqueue hmoving rest s.delivered s.handled (fun _ _ => ⟨rfl, rfl⟩) ?_
  rw [horder, hitems]
  show _ ++ [] ++ (req, addr) :: rest = _ ++ [(req, addr)] ++ rest
  simp

theorem Kept.expire (hs : s.Kept) {task : ℕ} {found : Bool}
    (hstate : s.tasks task = some ⟨key, .getting queue found⟩) :
    (s.setTask task key (.expired queue)).Kept := by
  obtain ⟨queue', -, hqueue, hon, -⟩ := hs.task hstate nofun
  obtain rfl : queue = queue' := hon
  exact hs.setTask hstate nofun hqueue rfl rfl

/-- The request in hand is among the delivered ones of the key. -/
theorem Kept.handling_key (hs : s.Kept) {task : ℕ}
    (hstate : s.tasks task = some ⟨key, .handling req addr⟩) : req.key = key := by
  obtain ⟨queue, -, -, -, horder⟩ := hs.task hstate nofun
  have hmem : (req, addr) ∈ ofKey key s.delivered := by
    rw [horder]
    exact List.mem_append_left _ (List.mem_append_right _ (List.mem_singleton_self _))
  exact of_decide_eq_true (List.mem_filter.mp hmem).2

/-- The end of a handler: the request is handled, and the task goes to its queue or begins anew. -/
theorem Kept.finish (hs : s.Kept) {task : ℕ}
    (hstate : s.tasks task = some ⟨key, .handling req addr⟩) :
    ({ s with handled := s.handled ++ [(req, addr)] }.setTask task key .created).Kept ∧
      ({ s with handled := s.handled ++ [(req, addr)] }.await task key).Kept := by
  obtain ⟨queue, htask, hqueue, -, horder⟩ := hs.task hstate nofun
  have hkey := hs.handling_key hstate
  subst hkey
  have hmoved : ∀ state' : TaskState α σ η, state'.On queue → state'.items = [] →
      ({ s with handled := s.handled ++ [(req, addr)] }.setTask task req.key state').Kept := by
    intro state' hon hnone
    have hmoved := hs.move hstate htask hqueue hon (s.queues queue) s.delivered
      (s.handled ++ [(req, addr)])
      (fun other hne => ⟨rfl, ofKey_append_of_ne hne⟩) (by
        rw [ofKey_append_self, hnone, List.append_nil]
        exact horder)
    rw [Function.update_eq_self] at hmoved
    exact hmoved
  refine ⟨hmoved .created trivial rfl, ?_⟩
  rw [await_of_some (s := { s with handled := s.handled ++ [(req, addr)] }) hqueue]
  exact hmoved (.getting queue _) rfl rfl

/-- After the timeout: the task goes on when there is a request, and else deletes itself and its
queue in one turn. -/
theorem Kept.timedOut (hs : s.Kept) {task : ℕ} (hstate : s.tasks task = some ⟨key, .expired queue⟩) :
    (s.timedOut task key).Kept := by
  obtain ⟨queue', htask, hqueue, hon, horder⟩ := hs.task hstate nofun
  obtain rfl : queue = queue' := hon
  unfold Dispatcher.timedOut
  rw [requestQueue_of_some hqueue]
  dsimp only
  by_cases hempty : s.queues queue = []
  · rw [if_pos hempty, htask]
    dsimp only
    have htask_lt : task < s.nextTask := by
      by_contra hle
      rw [hs.task_none task (Nat.not_lt.mp hle)] at hstate
      exact absurd hstate nofun
    refine hs.of_key (fun other hne => Function.update_of_ne hne _ _)
      (fun other hne => Function.update_of_ne hne _ _) rfl (fun _ _ => rfl) le_rfl le_rfl
      (fun _ _ => ⟨rfl, rfl⟩) ?_ ?_ ?_ htask_lt (hs.queue_lt key queue hqueue) ?_ ?_ ?_
    · intro other state hother
      exact (KeyTask.mk.inj (Option.some.inj (hother.symm.trans hstate))).1
    · intro other hother
      exact hs.queue_inj other key queue hother hqueue
    · intro other hother
      exact Option.some.inj (hother.symm.trans htask)
    · exact fun hne => absurd rfl hne
    · intro other hother
      have hnone : Function.update s.requests key none key = some other := hother
      rw [Function.update_self] at hnone
      exact absurd hnone nofun
    · refine ⟨[], .absent (Function.update_self ..) (Function.update_self ..), ?_⟩
      unfold queued
      simp only [Dispatcher.setTask, Function.update_self]
      rw [horder, hempty]
      rfl
  · rw [if_neg hempty, await_of_some hqueue]
    exact hs.setTask hstate nofun hqueue rfl rfl

theorem ensureProcessTask_of_live (s : Dispatcher α σ η) {task : ℕ}
    (htask : s.process_tasks key = some task) (hdone : s.isDone task = false) :
    s.ensureProcessTask key = s := by
  unfold ensureProcessTask
  rw [htask]
  simp only [hdone]
  rfl

/-- A delivered request goes to the queue of its key, which has a task then. -/
theorem Kept.read (hs : s.Kept) (req : Request σ η) (addr : α) : (s.read req addr).Kept := by
  obtain ⟨inHand, hkey, horder⟩ := hs.keys req.key
  unfold Dispatcher.read
  cases hkey with
  | @present task queue state htask hqueue hstate hon =>
    have hdone : s.isDone task = false := by
      unfold isDone
      rw [hstate]
      cases state with
      | done => exact hon.elim
      | created | getting queue | expired queue | handling req addr => rfl
    rw [requestQueue_of_some (s := { s with delivered := s.delivered ++ [(req, addr)] }) hqueue]
    have hlive := ensureProcessTask_of_live
      { s with
        queues := Function.update s.queues queue (s.queues queue ++ [(req, addr)])
        delivered := s.delivered ++ [(req, addr)] } htask hdone
    show (ensureProcessTask { s with
      queues := Function.update s.queues queue (s.queues queue ++ [(req, addr)])
      delivered := s.delivered ++ [(req, addr)] } req.key).Kept
    rw [hlive]
    unfold queued at horder
    simp only [hqueue] at horder
    have hmoved := hs.move hstate htask hqueue hon (s.queues queue ++ [(req, addr)])
      (s.delivered ++ [(req, addr)]) s.handled
      (fun other hne => ⟨ofKey_append_of_ne hne, rfl⟩) (by
        rw [ofKey_append_self, horder, List.append_assoc])
    rw [← hstate, Function.update_eq_self] at hmoved
    exact hmoved
  | absent htask hqueue =>
    have hnew : requestQueue { s with delivered := s.delivered ++ [(req, addr)] } req.key =
        (s.nextQueue,
          { s with
            delivered := s.delivered ++ [(req, addr)]
            requests := Function.update s.requests req.key (some s.nextQueue)
            queues := Function.update s.queues s.nextQueue []
            nextQueue := s.nextQueue + 1 }) := by
      unfold requestQueue
      rw [hqueue]
    rw [hnew]
    unfold ensureProcessTask
    simp only [setQueue, htask, createTask, Function.update_self, Function.update_idem,
      List.nil_append]
    refine hs.of_key (fun other hne => Function.update_of_ne hne _ _)
      (fun other hne => Function.update_of_ne hne _ _) rfl
      (fun other hne => Function.update_of_ne hne _ _) (Nat.le_succ _) (Nat.le_succ _)
      (fun other hne => ⟨ofKey_append_of_ne hne, rfl⟩) ?_ ?_ ?_ (Nat.lt_succ_self _)
      (Nat.lt_succ_self _) ?_ ?_ ?_
    · intro other state hother
      rw [hs.task_none s.nextTask le_rfl] at hother
      exact absurd hother nofun
    · intro other hother
      exact absurd (hs.queue_lt other _ hother) (Nat.lt_irrefl _)
    · intro other hother
      exact absurd (htask.symm.trans hother) nofun
    · exact fun _ => Function.update_self ..
    · intro other hother
      have hsome : Function.update s.requests req.key (some s.nextQueue) req.key = some other :=
        hother
      rw [Function.update_self] at hsome
      exact (Option.some.inj hsome).symm
    · refine ⟨(TaskState.created : TaskState α σ η).items, .present (Function.update_self ..)
        (Function.update_self ..) (Function.update_self ..) trivial, ?_⟩
      unfold queued at horder ⊢
      simp only [hqueue] at horder
      simp only [Function.update_self]
      rw [ofKey_append_self, horder, List.append_nil]
      rfl

theorem Kept.exec (hs : s.Kept) (action : DispatchAction α σ η) : (s.exec action).Kept := by
  cases action with
  | read req addr => exact hs.read req addr
  | start =>
    simp only [Dispatcher.exec]
    split
    next key hstate => exact hs.start hstate
    next => exact hs
  | get =>
    simp only [Dispatcher.exec]
    split
    next key queue found hstate =>
      split
      next => exact hs
      next req addr rest hitems => exact hs.get hstate hitems
    next => exact hs
  | expire =>
    simp only [Dispatcher.exec]
    split
    next key queue found hstate => exact hs.expire hstate
    next => exact hs
  | timeout =>
    simp only [Dispatcher.exec]
    split
    next key queue hstate => exact hs.timedOut hstate
    next => exact hs
  | finish =>
    simp only [Dispatcher.exec]
    split
    next key req addr hstate =>
      split
      next => exact (hs.finish hstate).1
      next => exact (hs.finish hstate).2
    next => exact hs

/-! ## Progress -/

/-- An upper bound for the turns that the task of a key takes until `n` requests of the key are
handled. -/
def rank (s : Dispatcher α σ η) (key : σ × RequestTag η) (n : ℕ) : ℕ :=
  match (s.process_tasks key).bind s.tasks with
  | some task =>
    3 * (n - ((ofKey key s.handled).length + task.state.items.length)) +
      task.state.turns
  | none => 0

theorem rank_eq {task : ℕ} (htask : s.process_tasks key = some task)
    (hstate : s.tasks task = some ⟨key, state⟩) (n : ℕ) :
    s.rank key n = 3 * (n - ((ofKey key s.handled).length +
      state.items.length)) + state.turns := by
  unfold rank
  rw [htask, Option.bind_some, hstate]

theorem requestQueue_fields (s : Dispatcher α σ η) (key : σ × RequestTag η) :
    (s.requestQueue key).2.delivered = s.delivered ∧ (s.requestQueue key).2.handled = s.handled ∧
      (s.requestQueue key).2.tasks = s.tasks ∧
      (s.requestQueue key).2.process_tasks = s.process_tasks ∧
      (s.requestQueue key).2.nextTask = s.nextTask := by
  unfold requestQueue
  split <;> exact ⟨rfl, rfl, rfl, rfl, rfl⟩

theorem ensureProcessTask_fields (s : Dispatcher α σ η) (key : σ × RequestTag η) :
    (s.ensureProcessTask key).delivered = s.delivered ∧
      (s.ensureProcessTask key).handled = s.handled := by
  unfold ensureProcessTask
  split
  · split <;> exact ⟨rfl, rfl⟩
  · exact ⟨rfl, rfl⟩

/-- What is delivered stays so. -/
theorem delivered_prefix_exec (s : Dispatcher α σ η) (action : DispatchAction α σ η) :
    s.delivered <+: (s.exec action).delivered := by
  have hawait : ∀ (s : Dispatcher α σ η) task key, (s.await task key).delivered = s.delivered :=
    fun s task key => (s.requestQueue_fields key).1
  have hsame : ∀ {s' : Dispatcher α σ η}, s'.delivered = s.delivered →
      s.delivered <+: s'.delivered := fun h => h ▸ List.prefix_rfl
  cases action with
  | read req addr =>
    refine ⟨[(req, addr)], ?_⟩
    simp only [Dispatcher.exec, Dispatcher.read, (ensureProcessTask_fields _ _).1, setQueue,
      (requestQueue_fields _ _).1]
  | start =>
    simp only [Dispatcher.exec]
    split
    · exact hsame (hawait ..)
    · exact List.prefix_rfl
  | get =>
    simp only [Dispatcher.exec]
    split
    · split <;> exact List.prefix_rfl
    · exact List.prefix_rfl
  | expire =>
    simp only [Dispatcher.exec]
    split <;> exact List.prefix_rfl
  | timeout =>
    simp only [Dispatcher.exec, Dispatcher.timedOut]
    split
    · split
      · split <;> exact hsame (s.requestQueue_fields _).1
      · exact hsame ((hawait ..).trans (s.requestQueue_fields _).1)
    · exact List.prefix_rfl
  | finish =>
    simp only [Dispatcher.exec]
    split
    · split
      · exact List.prefix_rfl
      · exact hsame (hawait ..)
    · exact List.prefix_rfl

section Ranks

variable {s s' : Dispatcher α σ η} {key other : σ × RequestTag η} {task t queue n : ℕ}
  {state state' : TaskState α σ η}

/-- What happens to the task of another key does not matter. -/
theorem Kept.rank_other (hs : s.Kept) (ht : s.tasks t = some ⟨other, state⟩) (hne : other ≠ key)
    (hprocess : s'.process_tasks key = s.process_tasks key)
    (htasks : ∀ task, task ≠ t → s'.tasks task = s.tasks task)
    (hhandled : ofKey key s'.handled = ofKey key s.handled) : s'.rank key n ≤ s.rank key n := by
  obtain ⟨inHand, hkey, -⟩ := hs.keys key
  unfold rank
  rw [hprocess]
  cases hkey with
  | absent htask =>
    rw [htask]
    exact le_rfl
  | @present task _ _ htask _ hstate _ =>
    have htask' : task ≠ t := by
      rintro rfl
      exact hne (KeyTask.mk.inj (Option.some.inj (ht.symm.trans hstate))).1
    rw [htask, Option.bind_some, Option.bind_some, htasks task htask', hhandled]

/-- A task moves on and stays the task of its key. -/
theorem rank_setTask (htask : s.process_tasks key = some task) (state' : TaskState α σ η) :
    (s.setTask task key state').rank key n =
      3 * (n - ((ofKey key s.handled).length + state'.items.length)) +
        state'.turns :=
  rank_eq (s := s.setTask task key state') htask (Function.update_self ..) n

/-- The task of a key with an unhandled request. -/
theorem Kept.present (hs : s.Kept)
    (hlt : (ofKey key s.handled).length < (ofKey key s.delivered).length) :
    ∃ task queue state, s.process_tasks key = some task ∧ s.requests key = some queue ∧
      s.tasks task = some ⟨key, state⟩ ∧ state.On queue ∧
      (ofKey key s.delivered).length = (ofKey key s.handled).length + state.items.length +
          (s.queues queue).length := by
  obtain ⟨inHand, hkey, horder⟩ := hs.keys key
  have hlength := congrArg List.length horder
  unfold queued at hlength
  cases hkey with
  | absent _ hqueue =>
    simp only [hqueue, List.append_nil] at hlength
    omega
  | @present task queue state htask hqueue hstate hon =>
    simp only [hqueue, List.length_append] at hlength
    exact ⟨task, queue, state, htask, hqueue, hstate, hon, hlength⟩

/-- The turns of the task of a key, one for each state. -/
theorem Kept.rank_turn (hs : s.Kept)
    (hle : n ≤ (ofKey key s.delivered).length)
    (hlt : (ofKey key s.handled).length < n)
    {action : DispatchAction α σ η} (hturn : s.Turn key action) :
    (s.exec action).rank key n < s.rank key n := by
  obtain ⟨task', queue', state, htask, hqueue, hstate, hon, hlength⟩ := hs.present (hlt.trans_le hle)
  have hown : ∀ {task : ℕ} {state' : TaskState α σ η}, s.tasks task = some ⟨key, state'⟩ →
      state' ≠ .done → task' = task ∧ state = state' := by
    intro task state' h hne
    obtain rfl := Option.some.inj (htask.symm.trans (hs.owner task key state' h hne))
    exact ⟨rfl, (KeyTask.mk.inj (Option.some.inj (hstate.symm.trans h))).2⟩
  rw [rank_eq htask hstate]
  cases hturn with
  | start h =>
    obtain ⟨rfl, rfl⟩ := hown h nofun
    have hitems : s.queues queue' ≠ [] := by
      rintro hempty
      simp only [TaskState.items, hempty, List.length_nil] at hlength
      omega
    simp only [Dispatcher.exec, h, await_of_some hqueue, rank_setTask htask, hitems, ne_eq,
      not_false_eq_true, decide_true, TaskState.items, TaskState.turns]
    omega
  | @get task queue found h hitems =>
    obtain ⟨rfl, rfl⟩ := hown h nofun
    obtain ⟨⟨req, addr⟩, rest, hrest⟩ := List.exists_cons_of_ne_nil hitems
    have hexec : s.exec (.get task') =
        (s.setQueue queue rest).setTask task' key (.handling req addr) := by
      simp only [Dispatcher.exec, h, hrest]
    have htask' : (s.setQueue queue rest).process_tasks key = some task' := htask
    rw [hexec, rank_setTask htask']
    simp only [setQueue, TaskState.items, TaskState.turns, List.length_singleton, List.length_nil]
    omega
  | @timeout task queue h =>
    obtain ⟨rfl, rfl⟩ := hown h nofun
    have hitems : s.queues queue' ≠ [] := by
      rintro hempty
      simp only [TaskState.items, hempty, List.length_nil] at hlength
      omega
    have hexec : s.exec (.timeout task') = s.setTask task' key (.getting queue' true) := by
      simp only [Dispatcher.exec, h]
      unfold Dispatcher.timedOut
      rw [requestQueue_of_some hqueue]
      dsimp only
      rw [if_neg hitems, await_of_some hqueue, decide_eq_true hitems]
    rw [hexec, rank_setTask htask]
    simp only [TaskState.items, TaskState.turns]
    omega
  | @finish task item h outcome =>
    have h : s.tasks task = some ⟨key, .handling item.1 item.2⟩ := h
    obtain ⟨rfl, rfl⟩ := hown h nofun
    have hkey : item.1.key = key := hs.handling_key h
    have htask' : ({ s with handled := s.handled ++ [item] } :
        Dispatcher α σ η).process_tasks key = some task' := htask
    have hqueue'' : ({ s with handled := s.handled ++ [item] } :
        Dispatcher α σ η).requests key = some queue' := hqueue
    have hhandled : (ofKey key (s.handled ++ [item])).length =
        (ofKey key s.handled).length + 1 := by
      subst hkey
      rw [ofKey_append_self, List.length_append, List.length_singleton]
    have hfound : ∀ found, (TaskState.getting queue' found : TaskState α σ η).turns ≤ 1 := by
      intro found
      cases found with
      | true => exact Nat.zero_le _
      | false => exact le_rfl
    have hagain : ({ s with handled := s.handled ++ [item] }.await task' key).rank key n <
        s.rank key n := by
      have hnext := hfound (decide (s.queues queue' ≠ []))
      rw [rank_eq htask hstate, await_of_some hqueue'', rank_setTask htask', hhandled]
      simp only [TaskState.items, TaskState.turns, List.length_singleton, List.length_nil] at hnext ⊢
      omega
    rw [← rank_eq htask hstate]
    cases outcome with
    | returned =>
      simp only [Dispatcher.exec, h]
      exact hagain
    | raised written =>
      cases written with
      | true =>
        simp only [Dispatcher.exec, h]
        exact hagain
      | false =>
        have hexec : s.exec (.finish task' (.raised false)) =
            { s with handled := s.handled ++ [item] }.setTask task' key .created := by
          simp only [Dispatcher.exec, h]
        rw [rank_eq htask hstate, hexec, rank_setTask htask', hhandled]
        simp only [TaskState.items, TaskState.turns, List.length_singleton, List.length_nil]
        omega

/-- A task that is not done stays the task of its key. -/
theorem ensureProcessTask_keeps (htask : s.process_tasks key = some task)
    (hstate : s.tasks task = some ⟨key, state⟩) (hne : state ≠ .done) (htask_ne : task ≠ s.nextTask)
    (other : σ × RequestTag η) :
    (s.ensureProcessTask other).process_tasks key = some task ∧
      (s.ensureProcessTask other).tasks task = some ⟨key, state⟩ := by
  by_cases hother : other = key
  · subst hother
    have hdone : s.isDone task = false := by
      unfold isDone
      rw [hstate]
      cases state with
      | done => exact absurd rfl hne
      | created | getting queue | expired queue | handling req addr => rfl
    rw [ensureProcessTask_of_live s htask hdone]
    exact ⟨htask, hstate⟩
  · have hcreated : (s.createTask other).process_tasks key = some task ∧
        (s.createTask other).tasks task = some ⟨key, state⟩ :=
      ⟨(Function.update_of_ne (fun h => hother h.symm) _ _).trans htask,
        (Function.update_of_ne htask_ne _ _).trans hstate⟩
    unfold ensureProcessTask
    split
    · split
      · exact hcreated
      · exact ⟨htask, hstate⟩
    · exact hcreated

/-- No step raises the bound. -/
theorem Kept.rank_exec (hs : s.Kept)
    (hle : n ≤ (ofKey key s.delivered).length)
    (hlt : (ofKey key s.handled).length < n)
    {action : DispatchAction α σ η}
    (hfound : ∀ task queue, s.tasks task = some ⟨key, .getting queue true⟩ → action ≠ .expire task) :
    (s.exec action).rank key n ≤ s.rank key n := by
  by_cases hturn : s.Turn key action
  · exact (hs.rank_turn hle hlt hturn).le
  cases action with
  | read req addr =>
    obtain ⟨task, queue, state, htask, hqueue, hstate, hon, -⟩ := hs.present (hlt.trans_le hle)
    have hne : state ≠ .done := by
      rintro rfl
      exact hon
    have htask_ne : task ≠ s.nextTask := by
      rintro rfl
      rw [hs.task_none s.nextTask le_rfl] at hstate
      exact absurd hstate nofun
    have hfields := requestQueue_fields { s with delivered := s.delivered ++ [(req, addr)] } req.key
    have hkeeps : (s.read req addr).process_tasks key = some task ∧
        (s.read req addr).tasks task = some ⟨key, state⟩ := by
      refine ensureProcessTask_keeps ?_ ?_ hne (fun h => htask_ne (h.trans ?_)) req.key
      · exact (congrFun hfields.2.2.2.1 key).trans htask
      · exact (congrFun hfields.2.2.1 task).trans hstate
      · exact hfields.2.2.2.2
    have hhandled : (s.read req addr).handled = s.handled :=
      (ensureProcessTask_fields ..).2.trans hfields.2.1
    show (s.read req addr).rank key n ≤ s.rank key n
    rw [rank_eq htask hstate, rank_eq hkeeps.1 hkeeps.2, hhandled]
  | start t =>
    simp only [Dispatcher.exec]
    split
    next other hstate =>
      have hne : other ≠ key := by
        rintro rfl
        exact hturn (.start hstate)
      refine hs.rank_other hstate hne ?_ ?_ ?_
      · exact congrFun (s.requestQueue_fields other).2.2.2.1 key
      · intro task htask
        refine (Function.update_of_ne htask _ _).trans ?_
        rw [(s.requestQueue_fields other).2.2.1]
      · exact congrArg _ (s.requestQueue_fields other).2.1
    next => exact le_rfl
  | get t =>
    simp only [Dispatcher.exec]
    split
    next other queue found hstate =>
      split
      next => exact le_rfl
      next req addr rest hitems =>
        have hne : other ≠ key := by
          rintro rfl
          exact hturn (.get hstate (hitems ▸ List.cons_ne_nil _ _))
        exact hs.rank_other hstate hne rfl (fun _ htask => Function.update_of_ne htask _ _) rfl
    next => exact le_rfl
  | expire t =>
    simp only [Dispatcher.exec]
    split
    next other queue found hstate =>
      by_cases hne : other = key
      · subst hne
        cases found with
        | true => exact absurd rfl (hfound t queue hstate)
        | false =>
          have htask := hs.owner t other _ hstate nofun
          rw [rank_setTask htask, rank_eq htask hstate]
          exact le_rfl
      · exact hs.rank_other hstate hne rfl (fun _ htask => Function.update_of_ne htask _ _) rfl
    next => exact le_rfl
  | timeout t =>
    simp only [Dispatcher.exec]
    split
    next other queue hstate =>
      have hne : other ≠ key := by
        rintro rfl
        exact hturn (.timeout hstate)
      obtain ⟨queue', htask, hqueue, -, -⟩ := hs.task hstate nofun
      unfold Dispatcher.timedOut
      rw [requestQueue_of_some hqueue]
      dsimp only
      split
      · rw [htask]
        exact hs.rank_other hstate hne (Function.update_of_ne hne.symm _ _)
          (fun _ htask => Function.update_of_ne htask _ _) rfl
      · rw [await_of_some hqueue]
        exact hs.rank_other hstate hne rfl (fun _ htask => Function.update_of_ne htask _ _) rfl
    next => exact le_rfl
  | finish t outcome =>
    simp only [Dispatcher.exec]
    split
    next other req addr hstate =>
      have hne : other ≠ key := by
        rintro rfl
        have hhandles : s.Handles t other (req, addr) := hstate
        exact hturn (.finish hhandles outcome)
      obtain ⟨queue', htask, hqueue, -, -⟩ := hs.task hstate nofun
      have hkey := hs.handling_key hstate
      have hfilter : ofKey key (s.handled ++ [(req, addr)]) = ofKey key s.handled :=
        ofKey_append_of_ne fun h => hne (hkey.symm.trans h.symm)
      split
      · exact hs.rank_other hstate hne rfl (fun _ htask => Function.update_of_ne htask _ _)
          hfilter
      · rw [await_of_some (s := { s with handled := s.handled ++ [(req, addr)] }) hqueue]
        exact hs.rank_other hstate hne rfl (fun _ htask => Function.update_of_ne htask _ _)
          hfilter
    next => exact le_rfl

/-- **Progress.**  A fair event loop handles what was delivered. -/
theorem Kept.progress (hs : s.Kept) {later : ℕ → DispatchAction α σ η} (hfair : s.Fair later key) :
    ∃ n, ofKey key s.delivered <+: ofKey key (s.states later n).handled := by
  have hkept : ∀ n, (s.states later n).Kept ∧ s.delivered <+: (s.states later n).delivered :=
    Runs.states_invariant (I := fun s' => s'.Kept ∧ s.delivered <+: s'.delivered)
      (fun s' action h => ⟨h.1.exec action, h.2.trans (delivered_prefix_exec s' action)⟩)
      ⟨hs, List.prefix_rfl⟩ later
  obtain ⟨total, htotal⟩ : ∃ total,
      total = (ofKey key s.delivered).length := ⟨_, rfl⟩
  have hle : ∀ n,
      total ≤ (ofKey key (s.states later n).delivered).length :=
    fun n => htotal.trans_le ((hkept n).2.filter _).length_le
  obtain ⟨n, hgoal⟩ : ∃ n,
      total ≤ (ofKey key (s.states later n).handled).length := by
    refine @Runs.exists_states_of_rank _ _ s Dispatcher.exec later
      (fun s' => total ≤ (ofKey key s'.handled).length)
      (fun s' => s'.rank key total) ?_ ?_
    · intro n hgoal
      exact (hkept n).1.rank_exec (hle n) (Nat.not_le.mp hgoal) (hfair.found n)
    · intro n hgoal
      have hunhandled : (s.states later n).Unhandled key := by
        intro heq
        have hlength := congrArg List.length heq
        exact hgoal ((hle n).trans hlength.ge)
      obtain ⟨m, hm, hturn⟩ := hfair.turn n hunhandled
      exact ⟨m, hm, fun hgoal => (hkept m).1.rank_turn (hle m) (Nat.not_le.mp hgoal) hturn⟩
  obtain ⟨inHand, -, -, horder⟩ := (hkept n).1.inOrder.order key
  have hhandled : ofKey key (s.states later n).handled <+:
      ofKey key (s.states later n).delivered := by
    rw [horder, List.append_assoc]
    exact List.prefix_append _ _
  exact ⟨n, List.prefix_of_prefix_length_le ((hkept n).2.filter _) hhandled (htotal ▸ hgoal)⟩

end Ranks

/-- **Order of a key.**  In every run the requests of a key are handled one at a time and in the
order in which they were delivered, each once, the task of a key with an unhandled request can move
on, and an event loop that is fair to the key handles all that was delivered. -/
theorem inOrder_of_run (actions : List (DispatchAction α σ η)) :
    (actions.foldl exec (init : Dispatcher α σ η)).InOrder ∧
      ∀ key later, (actions.foldl exec (init : Dispatcher α σ η)).Fair later key →
        ∃ n, ofKey key (actions.foldl exec (init : Dispatcher α σ η)).delivered <+:
          ofKey key ((actions.foldl exec (init : Dispatcher α σ η)).states later n).handled := by
  have hkept : (actions.foldl exec (init : Dispatcher α σ η)).Kept :=
    List.foldlRecOn actions exec kept_init fun s hs action _ => hs.exec action
  exact ⟨hkept.inOrder, fun _ _ hfair => hkept.progress hfair⟩

end Dispatcher

end TcpTransport
