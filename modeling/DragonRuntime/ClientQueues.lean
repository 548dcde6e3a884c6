/-
# The queues of a client (`src/dragon/workflows/batch/batch.py`)

A client has a worker thread between its callers and the managers.  What the callers submit goes
through a request queue, from which the worker takes a batch of tasks at a time; the completions
come back through a return queue, from which the worker moves them to a bounded completion queue
and, while that one is full, to an overflow buffer.

Conventions:

* a request queue comes with what other threads are going to put into it, one list for each of the
  coming reads: the items that arrive before the read, or while it waits.  A read finds the queue
  empty, and one that waits times out, when nothing is there and nothing arrives;
* the worker's way through `_drain_client_return_queue` is cut at each access to a queue or to the
  buffer, and the callers of `poll` and the managers act at any of these points;
* what `poll` has returned and what the worker has received are kept in the state as histories.
-/
import DragonRuntime.Runs

/-! ## Batches of submissions -/

/-- A queue, and the items that arrive with each of the coming reads. -/
structure LocalQueue (α : Type*) where
  items : List α
  arrivals : List (List α)
  deriving DecidableEq

namespace LocalQueue

variable {α : Type*}

/-- All that is in the queue or is going to be put into it, in the order of the queue. -/
def stream (q : LocalQueue α) : List α :=
  q.items ++ q.arrivals.flatten

/-- The items that arrive with the next read have arrived. -/
def arrive (q : LocalQueue α) : LocalQueue α :=
  match q.arrivals with
  | [] => q
  | new :: arrivals => ⟨q.items ++ new, arrivals⟩

/-- A read of the queue: `none` is `queue.Empty`. -/
def get (q : LocalQueue α) : Option α × LocalQueue α :=
  match q.arrive.items with
  | [] => (none, q.arrive)
  | item :: items => (some item, ⟨items, q.arrive.arrivals⟩)

theorem stream_arrive (q : LocalQueue α) : q.arrive.stream = q.stream := by
  obtain ⟨items, arrivals⟩ := q
  cases arrivals with
  | nil => rfl
  | cons new arrivals =>
    show items ++ new ++ arrivals.flatten = items ++ (new :: arrivals).flatten
    rw [List.flatten_cons, List.append_assoc]

/-- A read takes the first item, or leaves everything. -/
theorem stream_get (q : LocalQueue α) : q.stream = q.get.1.toList ++ q.get.2.stream := by
  rw [← stream_arrive, get]
  cases h : q.arrive.items with
  | nil => rfl
  | cons item items =>
    show q.arrive.items ++ _ = item :: (items ++ _)
    rw [h]
    rfl

end LocalQueue

/-- What a client submits, as the worker sees it: the type of an item decides what is done. -/
inductive ClientItem (α ρ : Type*) where
  | task (t : α)
  /-- a stop, flush, fence or cancel request, or anything else -/
  | request (r : ρ)
  deriving DecidableEq

/-- `isinstance(item, Task)` -/
def ClientItem.isTask {α ρ : Type*} : ClientItem α ρ → Bool
  | .task _ => true
  | .request _ => false

def client_task_batch_linger_sec : ℚ := 5 / 1000

def client_task_batch_maxsize : ℕ := 256

namespace ClientTaskBatch

variable {α : Type*}

/-- The loops that read without waiting: the batch, the item that does not belong into it, and what
is left of the queue. -/
def drainNow (item_type : α → Bool) (max_batch_size : ℕ) (batch : List α) (q : LocalQueue α) :
    List α × Option α × LocalQueue α :=
  if batch.length < max_batch_size then
    match q.get with
    | (none, q) => (batch, none, q)
    | (some item, q) =>
      if item_type item then drainNow item_type max_batch_size (batch ++ [item]) q
      else (batch, some item, q)
  else (batch, none, q)
termination_by max_batch_size - batch.length
decreasing_by
  rw [List.length_append, List.length_singleton]
  omega

/-- How a loop goes on from a batch and a queue: it takes a first part of what the queue gets, in
order, and all of it is in the batch and the deferred item. -/
structure Drains (item_type : α → Bool) (max_batch_size : ℕ) (batch : List α) (q : LocalQueue α)
    (r : List α × Option α × LocalQueue α) : Prop where
  /-- the items that are taken come first in the queue, and none of them is lost -/
  lossless : ∃ taken, q.stream = taken ++ r.2.2.stream ∧ r.1 ++ r.2.1.toList = batch ++ taken
  /-- what is added to the batch is of the type -/
  typed : ∃ added, r.1 = batch ++ added ∧ ∀ item ∈ added, item_type item = true
  deferred : ∀ item ∈ r.2.1, item_type item = false
  bounded : batch.length ≤ max_batch_size → r.1.length ≤ max_batch_size

namespace Drains

variable {item_type : α → Bool} {max_batch_size : ℕ} {batch : List α} {q : LocalQueue α}
  {r : List α × Option α × LocalQueue α}

theorem refl : Drains item_type max_batch_size batch q (batch, none, q) where
  lossless := ⟨[], rfl, rfl⟩
  typed := ⟨[], (List.append_nil _).symm, fun _ h => absurd h List.not_mem_nil⟩
  deferred := fun _ h => absurd h (Option.not_mem_none _)
  bounded := fun h => h

theorem of_none {q' : LocalQueue α} (hget : q.get = (none, q'))
    (h : Drains item_type max_batch_size batch q' r) :
    Drains item_type max_batch_size batch q r := by
  have hstream := q.stream_get
  rw [hget] at hstream
  obtain ⟨taken, htaken, hbatch⟩ := h.lossless
  exact ⟨⟨taken, hstream.trans htaken, hbatch⟩, h.typed, h.deferred, h.bounded⟩

theorem of_other {q' : LocalQueue α} {item : α} (hget : q.get = (some item, q'))
    (hitem : ¬ item_type item = true) :
    Drains item_type max_batch_size batch q (batch, some item, q') := by
  have hstream := q.stream_get
  rw [hget] at hstream
  refine ⟨⟨[item], hstream, rfl⟩, ⟨[], (List.append_nil _).symm, ?_⟩, ?_, fun h => h⟩
  · exact fun _ h => absurd h List.not_mem_nil
  · rintro _ ⟨⟩
    exact Bool.eq_false_iff.2 hitem

/-- An item of the type is added, and the loop goes on from there. -/
theorem of_item {q' : LocalQueue α} {item : α} (hget : q.get = (some item, q'))
    (hitem : item_type item = true) (hroom : batch.length < max_batch_size)
    (h : Drains item_type max_batch_size (batch ++ [item]) q' r) :
    Drains item_type max_batch_size batch q r := by
  have hstream := q.stream_get
  rw [hget] at hstream
  obtain ⟨taken, htaken, hbatch⟩ := h.lossless
  obtain ⟨added, hadded, htyped⟩ := h.typed
  refine ⟨⟨item :: taken, ?_, ?_⟩, ⟨item :: added, ?_, ?_⟩, h.deferred, fun _ => h.bounded ?_⟩
  · rw [hstream, htaken]
    rfl
  · rw [hbatch, List.append_assoc, List.singleton_append]
  · rw [hadded, List.append_assoc, List.singleton_append]
  · intro x hx
    rcases List.mem_cons.1 hx with rfl | hx
    · exact hitem
    · exact htyped x hx
  · rw [List.length_append, List.length_singleton]
    exact hroom

/-- A loop that ends without a deferred item is followed by another one. -/
theorem trans {batch' : List α} {q' : LocalQueue α}
    (h : Drains item_type max_batch_size batch q (batch', none, q'))
    (h' : Drains item_type max_batch_size batch' q' r) :
    Drains item_type max_batch_size batch q r := by
  obtain ⟨taken, htaken, hbatch⟩ := h.lossless
  obtain ⟨taken', htaken', hbatch'⟩ := h'.lossless
  obtain ⟨added, hadded, htyped⟩ := h.typed
  obtain ⟨added', hadded', htyped'⟩ := h'.typed
  have hbatch'' : batch' = batch ++ taken := (List.append_nil _).symm.trans hbatch
  refine ⟨⟨taken ++ taken', ?_, ?_⟩, ⟨added ++ added', ?_, ?_⟩, h'.deferred,
    fun hle => h'.bounded (h.bounded hle)⟩
  · rw [htaken, List.append_assoc]
    exact congrArg (taken ++ ·) htaken'
  · rw [hbatch', hbatch'', List.append_assoc]
  · rw [hadded', show batch' = batch ++ added from hadded, List.append_assoc]
  · exact fun x hx => (List.mem_append.1 hx).elim (htyped x) (htyped' x)

end Drains

theorem drainNow_drains (item_type : α → Bool) (max_batch_size : ℕ) (batch : List α)
    (q : LocalQueue α) :
    Drains item_type max_batch_size batch q (drainNow item_type max_batch_size batch q) := by
  induction batch, q using drainNow.induct item_type max_batch_size with
  | case1 _ _ hroom _ hget =>
    rw [drainNow, if_pos hroom, hget]
    exact .of_none hget .refl
  | case2 _ _ hroom _ _ hget hitem ih =>
    rw [drainNow, if_pos hroom, hget]
    simp only [if_pos hitem]
    exact .of_item hget hitem hroom ih
  | case3 _ _ hroom _ _ hget hitem =>
    rw [drainNow, if_pos hroom, hget]
    simp only [if_neg hitem]
    exact .of_other hget hitem
  | case4 _ _ hroom =>
    rw [drainNow, if_neg hroom]
    exact .refl

/-- A loop never takes anything out of the batch. -/
theorem length_le_drainNow (item_type : α → Bool) (max_batch_size : ℕ) (batch : List α)
    (q : LocalQueue α) : batch.length ≤ (drainNow item_type max_batch_size batch q).1.length := by
  obtain ⟨added, hadded, -⟩ := (drainNow_drains item_type max_batch_size batch q).typed
  rw [hadded, List.length_append]
  exact Nat.le_add_right _ _

/-- The loop that waits for further submissions, and reads what is there after each of them. -/
def lingerLoop (item_type : α → Bool) (max_batch_size : ℕ) (batch : List α) (q : LocalQueue α) :
    List α × Option α × LocalQueue α :=
  if batch.length < max_batch_size then
    match q.get with
    | (none, q) => (batch, none, q)
    | (some item, q) =>
      if item_type item then
        let drained := drainNow item_type max_batch_size (batch ++ [item]) q
        match drained.2.1 with
        | some _ => drained
        | none => lingerLoop item_type max_batch_size drained.1 drained.2.2
      else (batch, some item, q)
  else (batch, none, q)
termination_by max_batch_size - batch.length
decreasing_by
  have hlength : (batch ++ [item]).length ≤ drained.1.length := length_le_drainNow _ _ _ _
  rw [List.length_append, List.length_singleton] at hlength
  exact Nat.sub_lt_sub_left ‹_› hlength

theorem lingerLoop_drains (item_type : α → Bool) (max_batch_size : ℕ) (batch : List α)
    (q : LocalQueue α) :
    Drains item_type max_batch_size batch q (lingerLoop item_type max_batch_size batch q) := by
  induction batch, q using lingerLoop.induct item_type max_batch_size with
  | case1 _ _ hroom _ hget =>
    rw [lingerLoop, if_pos hroom, hget]
    exact .of_none hget .refl
  | case2 _ _ hroom _ _ hget hitem drained _ hdrained =>
    rw [lingerLoop, if_pos hroom, hget]
    simp only [if_pos hitem, drained, hdrained]
    exact .of_item hget hitem hroom (drainNow_drains _ _ _ _)
  | case3 batch q hroom item q' hget hitem drained hdrained ih =>
    have hdrains : Drains item_type max_batch_size (batch ++ [item]) q' drained :=
      drainNow_drains _ _ _ _
    have hnone : drained = (drained.1, none, drained.2.2) := by
      rw [← hdrained]
    rw [lingerLoop, if_pos hroom, hget]
    simp only [if_pos hitem]
    rw [show (drainNow item_type max_batch_size (batch ++ [item]) q').2.1 = none from hdrained]
    exact .of_item hget hitem hroom ((hnone ▸ hdrains).trans ih)
  | case4 _ _ hroom _ _ hget hitem =>
    rw [lingerLoop, if_pos hroom, hget]
    simp only [if_neg hitem]
    exact .of_other hget hitem
  | case5 _ _ hroom =>
    rw [lingerLoop, if_neg hroom]
    exact .refl

/-- `_drain_client_task_batch`: the batch, the deferred item, and what is left of the queue. -/
def drain_client_task_batch (first_item : α) (request_q : LocalQueue α) (item_type : α → Bool)
    (linger_sec : ℚ) (max_batch_size : ℕ) : List α × Option α × LocalQueue α :=
  match drainNow item_type max_batch_size [first_item] request_q with
  | (batch, some deferred_item, q) => (batch, some deferred_item, q)
  | (batch, none, q) =>
    if max_batch_size ≤ batch.length ∨ linger_sec ≤ 0 then (batch, none, q)
    else lingerLoop item_type max_batch_size batch q

theorem drain_client_task_batch_drains (first_item : α) (request_q : LocalQueue α)
    (item_type : α → Bool) (linger_sec : ℚ) (max_batch_size : ℕ) :
    Drains item_type max_batch_size [first_item] request_q
      (drain_client_task_batch first_item request_q item_type linger_sec max_batch_size) := by
  have hnow := drainNow_drains item_type max_batch_size [first_item] request_q
  rw [drain_client_task_batch]
  split
  case h_1 batch deferred_item q h => exact h ▸ hnow
  case h_2 batch q h =>
      rw [h] at hnow
      split
      · exact hnow
      · exact hnow.trans (lingerLoop_drains item_type max_batch_size batch q)

/-- The call of the worker for a task that it has taken from the queue. -/
def clientTaskBatch {ρ : Type*} (t : α) (request_q : LocalQueue (ClientItem α ρ)) :
    List (ClientItem α ρ) × Option (ClientItem α ρ) × LocalQueue (ClientItem α ρ) :=
  drain_client_task_batch (.task t) request_q ClientItem.isTask client_task_batch_linger_sec
    client_task_batch_maxsize

/-- What comes of an item that is taken from a queue: a batch of at most `max_batch_size` items of
the type and at most one other item, which are the first items of the queue in order. -/
structure Lossless (item_type : α → Bool) (max_batch_size : ℕ) (first_item : α)
    (request_q : LocalQueue α) (r : List α × Option α × LocalQueue α) : Prop where
  order : first_item :: request_q.stream = r.1 ++ r.2.1.toList ++ r.2.2.stream
  typed : item_type first_item = true → ∀ item ∈ r.1, item_type item = true
  deferred : ∀ item ∈ r.2.1, item_type item = false
  bounded : 1 ≤ max_batch_size → r.1.length ≤ max_batch_size

theorem Drains.lossless_batch {item_type : α → Bool} {max_batch_size : ℕ} {first_item : α}
    {q : LocalQueue α} {r : List α × Option α × LocalQueue α}
    (h : Drains item_type max_batch_size [first_item] q r) :
    Lossless item_type max_batch_size first_item q r := by
  obtain ⟨taken, htaken, hbatch⟩ := h.lossless
  obtain ⟨added, hadded, htyped⟩ := h.typed
  refine ⟨?_, ?_, h.deferred, h.bounded⟩
  · rw [hbatch, htaken, List.append_assoc]
    rfl
  · intro hfirst item hitem
    rw [hadded] at hitem
    rcases List.mem_cons.1 hitem with rfl | hitem
    · exact hfirst
    · exact htyped item hitem

end ClientTaskBatch

/-! ## Completions -/

/-- What the managers put into the return queue of a client. -/
inductive ReturnItem (τ : Type*) where
  | completedTuids (tuids : List τ)
  | managerException
  | unexpected
  deriving DecidableEq

/-- The task uids an item brings. -/
def ReturnItem.tuids {τ : Type*} : ReturnItem τ → List τ
  | .completedTuids tuids => tuids
  | .managerException => []
  | .unexpected => []

/-- Where the worker is in `_drain_client_return_queue`. -/
inductive DrainPhase (τ : Type*) where
  /-- in no drain -/
  | idle
  /-- at the test of the loop of `_flush_completion_overflow` -/
  | flush
  /-- the head of the buffer is put into the completion queue, and `popleft` is next -/
  | popleft
  /-- before `get_nowait` -/
  | get
  /-- in the loop over the uids of an item, with the ones that are still to be published -/
  | enqueue (tuids : List τ)
  /-- `put_nowait` has raised `queue.Full` for a uid, which is to be buffered -/
  | full (tuid : τ) (tuids : List τ)
  /-- the worker has ended with an exception -/
  | raised
  deriving DecidableEq

/-- The way of the completions to a client. -/
structure ClientReturns (τ : Type*) where
  maxsize : ℤ
  ret_q : List (ReturnItem τ)
  cq : List τ
  completion_overflow : List τ
  phase : DrainPhase τ
  /-- the uids of the items that were taken from the return queue -/
  received : List τ
  polled : List τ
  deriving DecidableEq

/-- What the managers, the callers of `poll` and the worker do. -/
inductive ReturnAction (τ : Type*) where
  | put (item : ReturnItem τ)
  /-- the `get` of a `poll`: one that finds the worker's exception raises before it -/
  | poll
  /-- the worker calls `_drain_client_return_queue` -/
  | drain
  /-- the worker makes its next step -/
  | advance
  deriving DecidableEq

namespace ClientReturns

variable {τ : Type*}

def init (maxsize : ℤ) : ClientReturns τ where
  maxsize := maxsize
  ret_q := []
  cq := []
  completion_overflow := []
  phase := .idle
  received := []
  polled := []

/-- `put_nowait` does not raise `queue.Full`: a queue whose size is not positive has no bound. -/
def HasRoom (s : ClientReturns τ) : Prop := s.maxsize ≤ 0 ∨ (s.cq.length : ℤ) < s.maxsize

instance (s : ClientReturns τ) : Decidable s.HasRoom := inferInstanceAs (Decidable (_ ∨ _))

/-- `poll` -/
def poll (s : ClientReturns τ) : ClientReturns τ :=
  match s.cq with
  | [] => s
  | tuid :: cq => { s with cq := cq, polled := s.polled ++ [tuid] }

/-- `_flush_completion_overflow`, up to `popleft` -/
def flush_completion_overflow (s : ClientReturns τ) : ClientReturns τ :=
  match s.completion_overflow with
  | [] => { s with phase := .get }
  | tuid :: _ =>
    if s.HasRoom then { s with cq := s.cq ++ [tuid], phase := .popleft }
    else { s with phase := .get }

/-- `_enqueue_completion`, up to a `queue.Full` -/
def enqueue_completion (s : ClientReturns τ) (tuid : τ) (tuids : List τ) : ClientReturns τ :=
  match s.completion_overflow with
  | _ :: _ =>
    { s with completion_overflow := s.completion_overflow ++ [tuid], phase := .enqueue tuids }
  | [] =>
    if s.HasRoom then { s with cq := s.cq ++ [tuid], phase := .enqueue tuids }
    else { s with phase := .full tuid tuids }

/-- The worker takes an item from the return queue, or its drain ends. -/
def takeReturned (s : ClientReturns τ) : ClientReturns τ :=
  match s.ret_q with
  | [] => { s with phase := .idle }
  | item :: ret_q =>
    { s with
      ret_q := ret_q
      received := s.received ++ item.tuids
      phase := match item with
        | .completedTuids tuids => .enqueue tuids
        | .managerException => .raised
        | .unexpected => .raised }

/-- The next step of the worker in a drain. -/
def advance (s : ClientReturns τ) : ClientReturns τ :=
  match s.phase with
  | .idle => s
  | .flush => s.flush_completion_overflow
  | .popleft => { s with completion_overflow := s.completion_overflow.tail, phase := .flush }
  | .get => s.takeReturned
  | .enqueue [] => { s with phase := .get }
  | .enqueue (tuid :: tuids) => s.enqueue_completion tuid tuids
  | .full tuid tuids =>
    { s with completion_overflow := s.completion_overflow ++ [tuid], phase := .enqueue tuids }
  | .raised => s

def exec (s : ClientReturns τ) : ReturnAction τ → ClientReturns τ
  | .put item => { s with ret_q := s.ret_q ++ [item] }
  | .poll => s.poll
  | .drain => if s.phase matches .idle then { s with phase := .flush } else s
  | .advance => s.advance

/-- What is in the overflow buffer only: between `put_nowait` and `popleft` its head is in the
completion queue already. -/
def buffered (s : ClientReturns τ) : List τ :=
  match s.phase with
  | .popleft => s.completion_overflow.tail
  | _ => s.completion_overflow

/-- The uids of the item in hand that are not published. -/
def inHand (s : ClientReturns τ) : List τ :=
  match s.phase with
  | .enqueue tuids => tuids
  | .full tuid tuids => tuid :: tuids
  | _ => []

/-- The completions that a step adds to the return queue. -/
def completions : ReturnAction τ → List τ
  | .put item => item.tuids
  | _ => []

/-- The completions that have come, in order. -/
def completed (actions : List (ReturnAction τ)) : List τ :=
  actions.flatMap completions

/-- No uid is lost, doubled or overtaken on its way. -/
def Kept (s : ClientReturns τ) : Prop :=
  s.polled ++ s.cq ++ s.buffered ++ s.inHand = s.received

namespace Kept

variable {s : ClientReturns τ}

theorem poll (h : s.Kept) : s.poll.Kept := by
  rw [Kept] at h
  rw [ClientReturns.poll]
  cases hcq : s.cq with
  | nil => exact h
  | cons tuid cq =>
    show s.polled ++ [tuid] ++ cq ++ s.buffered ++ s.inHand = s.received
    rw [← h, hcq, List.append_assoc s.polled, List.singleton_append]

/-- The loop over the buffer puts its head behind the completion queue. -/
theorem flush_completion_overflow (h : s.Kept) (hphase : s.phase = .flush) :
    s.flush_completion_overflow.Kept := by
  rw [Kept, buffered, inHand, hphase] at h
  rw [ClientReturns.flush_completion_overflow]
  cases hover : s.completion_overflow with
  | nil =>
    rw [hover] at h
    exact h
  | cons tuid rest =>
    rw [hover] at h
    by_cases hroom : s.HasRoom
    · simp only [if_pos hroom]
      -- the head is in the queue and still in the buffer
      show s.polled ++ (s.cq ++ [tuid]) ++ rest ++ [] = s.received
      rw [← h]
      simp only [List.append_assoc, List.singleton_append]
    · simp only [if_neg hroom]
      exact h

/-- A uid in hand goes behind everything that was published before. -/
theorem enqueue_completion (h : s.Kept) {tuid : τ} {tuids : List τ}
    (hphase : s.phase = .enqueue (tuid :: tuids)) : (s.enqueue_completion tuid tuids).Kept := by
  rw [Kept, buffered, inHand, hphase] at h
  rw [ClientReturns.enqueue_completion]
  cases hover : s.completion_overflow with
  | cons head rest =>
    show s.polled ++ s.cq ++ (head :: rest ++ [tuid]) ++ tuids = s.received
    rw [← h, hover]
    simp only [List.append_assoc, List.singleton_append]
  | nil =>
    rw [hover] at h
    by_cases hroom : s.HasRoom
    · simp only [if_pos hroom]
      show s.polled ++ (s.cq ++ [tuid]) ++ [] ++ tuids = s.received
      rw [← h]
      simp only [List.append_assoc, List.singleton_append, List.nil_append]
    · simp only [if_neg hroom]
      exact h

/-- The uids of the next item are received, and in hand. -/
theorem takeReturned (h : s.Kept) (hphase : s.phase = .get) : s.takeReturned.Kept := by
  rw [Kept, buffered, inHand, hphase, List.append_nil] at h
  rw [ClientReturns.takeReturned]
  cases s.ret_q with
  | nil => exact (List.append_nil _).trans h
  | cons item ret_q =>
    cases item with
    | completedTuids tuids => exact congrArg (· ++ tuids) h
    | managerException => exact congrArg (· ++ []) h
    | unexpected => exact congrArg (· ++ []) h

theorem advance (h : s.Kept) : s.advance.Kept := by
  have horder := h
  rw [ClientReturns.advance]
  cases hphase : s.phase with
  | idle => exact h
  | flush => exact h.flush_completion_overflow hphase
  | popleft =>
    rw [Kept, buffered, inHand, hphase] at horder
    exact horder
  | get => exact h.takeReturned hphase
  | enqueue tuids =>
    cases tuids with
    | nil =>
      rw [Kept, buffered, inHand, hphase] at horder
      exact horder
    | cons tuid tuids => exact h.enqueue_completion hphase
  | full tuid tuids =>
    rw [Kept, buffered, inHand, hphase] at horder
    show s.polled ++ s.cq ++ (s.completion_overflow ++ [tuid]) ++ tuids = s.received
    rw [← horder]
    simp only [List.append_assoc, List.singleton_append]
  | raised => exact h

theorem exec (h : s.Kept) (a : ReturnAction τ) : (s.exec a).Kept := by
  cases a with
  | put => exact h
  | poll => exact h.poll
  | drain =>
    have horder := h
    rw [ClientReturns.exec]
    cases hphase : s.phase with
    | idle =>
      rw [Kept, buffered, inHand, hphase] at horder
      exact horder
    | _ => exact h
  | advance => exact h.advance

end Kept

/-! ### What is received -/

/-- The uids that are received or still in the return queue. -/
def returned (s : ClientReturns τ) : List τ := s.received ++ s.ret_q.flatMap ReturnItem.tuids

theorem returned_takeReturned (s : ClientReturns τ) : s.takeReturned.returned = s.returned := by
  rw [takeReturned, returned, returned]
  cases s.ret_q with
  | nil => rfl
  | cons item ret_q =>
    show s.received ++ item.tuids ++ ret_q.flatMap ReturnItem.tuids
      = s.received ++ (item :: ret_q).flatMap ReturnItem.tuids
    rw [List.flatMap_cons, List.append_assoc]

/-- The other steps of the worker leave the return queue alone. -/
theorem returned_advance (s : ClientReturns τ) : s.advance.returned = s.returned := by
  rw [advance]
  cases s.phase with
  | get => exact s.returned_takeReturned
  | flush =>
    rw [flush_completion_overflow]
    cases s.completion_overflow with
    | nil => rfl
    | cons tuid rest =>
      by_cases hroom : s.HasRoom
      · simp only [if_pos hroom]
        rfl
      · simp only [if_neg hroom]
        rfl
  | enqueue tuids =>
    cases tuids with
    | nil => rfl
    | cons tuid tuids =>
      show (s.enqueue_completion tuid tuids).returned = s.returned
      rw [enqueue_completion]
      cases s.completion_overflow with
      | cons head rest => rfl
      | nil =>
        by_cases hroom : s.HasRoom
        · simp only [if_pos hroom]
          rfl
        · simp only [if_neg hroom]
          rfl
  | _ => rfl

theorem returned_exec (s : ClientReturns τ) (a : ReturnAction τ) :
    (s.exec a).returned = s.returned ++ completed [a] := by
  cases a with
  | put item =>
    show s.received ++ (s.ret_q ++ [item]).flatMap ReturnItem.tuids
      = s.received ++ s.ret_q.flatMap ReturnItem.tuids ++ completed [.put item]
    rw [List.flatMap_append, List.append_assoc]
    rfl
  | poll =>
    refine Eq.trans ?_ (List.append_nil _).symm
    rw [exec, poll]
    cases s.cq <;> rfl
  | drain =>
    refine Eq.trans ?_ (List.append_nil _).symm
    rw [exec]
    cases s.phase <;> rfl
  | advance => exact s.returned_advance.trans (List.append_nil _).symm

theorem kept_run (s : ClientReturns τ) (hs : s.Kept) (actions : List (ReturnAction τ)) :
    (actions.foldl exec s).Kept ∧
      (actions.foldl exec s).returned = s.returned ++ completed actions := by
  induction actions generalizing s with
  | nil => exact ⟨hs, (List.append_nil _).symm⟩
  | cons a actions ih =>
    obtain ⟨hkept, hreturned⟩ := ih (s.exec a) (hs.exec a)
    refine ⟨hkept, hreturned.trans ?_⟩
    rw [returned_exec, List.append_assoc, completed, completed, ← List.flatMap_append]
    rfl

/-- The worker is at no uid: what it has received is published or buffered. -/
def Settled (s : ClientReturns τ) : Prop := s.phase ≠ .popleft ∧ s.inHand = []

theorem Kept.settled {s : ClientReturns τ} (h : s.Kept) (hsettled : s.Settled) :
    s.polled ++ s.cq ++ s.completion_overflow = s.received := by
  have hbuffered : s.buffered = s.completion_overflow := by
    rw [buffered]
    cases hphase : s.phase with
    | popleft => exact absurd hphase hsettled.1
    | _ => rfl
  rw [Kept, hbuffered, hsettled.2, List.append_nil] at h
  exact h

end ClientReturns

open ClientTaskBatch ClientReturns in
/-- **The queues of a client.**  A batch is a first part of the request queue, in order and bounded,
whatever arrives while it is drained; and the completions go through the bounded queue and the
buffer in the order in which they come, whatever the bound. -/
theorem client_queues_lossless {α ρ τ : Type*} :
    (∀ (item_type : α → Bool) (linger_sec : ℚ) (max_batch_size : ℕ) (first_item : α)
      (request_q : LocalQueue α), Lossless item_type max_batch_size first_item request_q
        (drain_client_task_batch first_item request_q item_type linger_sec max_batch_size)) ∧
    (∀ (t : α) (request_q : LocalQueue (ClientItem α ρ)),
      Lossless ClientItem.isTask client_task_batch_maxsize (.task t) request_q
        (clientTaskBatch t request_q)) ∧
    ∀ (maxsize : ℤ) (actions : List (ReturnAction τ)),
      let s := actions.foldl exec (init maxsize)
      s.polled ++ s.cq ++ s.buffered ++ s.inHand = s.received ∧
      s.received ++ s.ret_q.flatMap ReturnItem.tuids = completed actions ∧
      (s.Settled → s.polled ++ s.cq ++ s.completion_overflow = s.received) := by
  refine ⟨?_, ?_, ?_⟩
  · intro item_type linger_sec max_batch_size first_item request_q
    exact (drain_client_task_batch_drains first_item request_q item_type linger_sec
      max_batch_size).lossless_batch
  · intro t request_q
    exact (drain_client_task_batch_drains (.task t) request_q ClientItem.isTask
      client_task_batch_linger_sec client_task_batch_maxsize).lossless_batch
  · intro maxsize actions
    have hinit : (init maxsize : ClientReturns τ).Kept := rfl
    obtain ⟨hkept, hreturned⟩ := kept_run (init maxsize) hinit actions
    exact ⟨hkept, hreturned, hkept.settled⟩

/-- A queue for one uid: the second completion is buffered until the first one is polled. -/
example : (([.put (.completedTuids [1, 2]), .drain, .advance, .advance, .advance, .advance, .advance,
      .poll] : List (ReturnAction ℕ)).foldl ClientReturns.exec (ClientReturns.init 1))
    = ⟨1, [], [], [2], .enqueue [], [1, 2], [1]⟩ := by decide
