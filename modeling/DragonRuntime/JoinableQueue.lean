/-
# The joinable queue (`src/dragon/native/queue.py`)

A joinable queue counts its unfinished tasks in a semaphore channel.  `put` sends the item and
counts the task afterwards (`DRAGON_SEMAPHORE_V`); `task_done` is `DRAGON_SEMAPHORE_P`, which waits
while the count is zero, and `join` is `DRAGON_SEMAPHORE_Z`, which returns when the count is zero or
when it is woken.  The wake-ups are sent after the locks of the channel were released, and are steps
of their own.

Conventions:

* an item stands for the call of `put` that sends it, and `task_done` is called for an item that
  the caller has got;
* the semaphore is local and not bounded, a wake-up of all releases every join that waits at that
  moment, and a wake-up of one releases a `task_done` that waits, if there is one;
* `good` is not in the source: it has the joins during whose call there was a moment at which
  every item whose put had completed was done.
-/
import DragonRuntime.Runs

/-- The queue, with the calls in progress: `ι` are the items, `κ` the calls of `join`. -/
structure JoinableQueue (ι κ : Type*) where
  /-- the queue sends an item in one message, and has no stream channels -/
  buffered : Bool
  content : List ι
  /-- the value of the task semaphore -/
  sem : ℕ
  /-- items whose put was called -/
  called : Finset ι
  /-- items that were sent and not counted yet -/
  sent : Finset ι
  /-- items that were counted -/
  counted : Finset ι
  /-- items whose put has returned -/
  completed : Finset ι
  /-- items whose put has raised -/
  raised : Finset ι
  /-- items that a consumer has got -/
  taken : Finset ι
  /-- items whose `task_done` waits for the count -/
  waiting : Finset ι
  /-- items whose `task_done` has returned -/
  finished : Finset ι
  /-- wake-ups of all joins that are still to be sent -/
  triggers : ℕ
  /-- joins that wait -/
  joining : Finset κ
  /-- joins that are about to return -/
  released : Finset κ
  /-- joins that have returned -/
  returned : Finset κ
  good : Finset κ

namespace JoinableQueue

/-- Where `put` raises in its first part. -/
inductive SendFault : Type where
  /-- before its send handle is open -/
  | unopened
  /-- with the handle open, which is closed on the way out; `written` says whether the pickler had
  written something to it -/
  | closed (written : Bool)
  /-- with the handle open, and its close raises as well; `deposited` says whether the main channel
  has got a message for the item by then -/
  | closeRaises (deposited : Bool)
  deriving DecidableEq

/-- The main channel has got a message.  The close of a buffered handle sends what was written;
the close of one with a stream channel sends the stream channel, and down that the end of the
stream, also when nothing was written. -/
def SendFault.deposits (buffered : Bool) : SendFault → Bool
  | .unopened => false
  | .closed written => written || !buffered
  | .closeRaises deposited => deposited

/-- The steps of the calls. -/
inductive Step (ι κ : Type*) : Type _ where
  /-- the send of `put` -/
  | send (i : ι)
  /-- `put` raises in its first part -/
  | sendRaises (i : ι) (fault : SendFault)
  /-- `new_task`: `DRAGON_SEMAPHORE_V` -/
  | newTask (i : ι)
  /-- `new_task` raises -/
  | newTaskRaises (i : ι)
  /-- the wake-up of one that follows from `DRAGON_SEMAPHORE_V`, and the return of `put` -/
  | signal (i : ι) (woken : ι)
  | get
  /-- a `get` that raises after it has received an item, which cannot be unpickled -/
  | getRaises
  /-- `task_done`: `DRAGON_SEMAPHORE_P`, at its start or after a wake-up -/
  | taskDone (i : ι)
  | taskDoneTimeout (i : ι)
  /-- the wake-up of all that follows from a `DRAGON_SEMAPHORE_P` that reached zero -/
  | trigger
  /-- `join`: `DRAGON_SEMAPHORE_Z` -/
  | join (j : κ)
  | joinTimeout (j : κ)
  | joinReturns (j : κ)

variable {ι κ : Type*} [DecidableEq ι] [DecidableEq κ]

/-- A queue that was just made. -/
def init (buffered : Bool) : JoinableQueue ι κ :=
  ⟨buffered, [], 0, ∅, ∅, ∅, ∅, ∅, ∅, ∅, ∅, 0, ∅, ∅, ∅, ∅⟩

/-- `DRAGON_SEMAPHORE_P` for an item: the count goes down, or the call waits. -/
def semaphoreP (s : JoinableQueue ι κ) (i : ι) : JoinableQueue ι κ :=
  if s.sem = 0 then { s with taken := s.taken.erase i, waiting := insert i s.waiting }
  else
    { s with
      sem := s.sem - 1
      taken := s.taken.erase i
      finished := insert i s.finished
      triggers := if s.sem - 1 = 0 then s.triggers + 1 else s.triggers }

/-- `DRAGON_SEMAPHORE_Z`: the call returns if the count is zero, and waits otherwise. -/
def semaphoreZ (s : JoinableQueue ι κ) (j : κ) : JoinableQueue ι κ :=
  if 0 < s.sem then { s with joining := insert j s.joining }
  else { s with released := insert j s.released }

/-- The step of a call; one that cannot be made changes nothing. -/
def act (s : JoinableQueue ι κ) : Step ι κ → JoinableQueue ι κ
  | .send i =>
    if i ∈ s.called then s
    else
      { s with
        content := s.content ++ [i], called := insert i s.called, sent := insert i s.sent }
  | .sendRaises i fault =>
    if i ∈ s.called then s
    else
      { s with
        content := if fault.deposits s.buffered then s.content ++ [i] else s.content
        called := insert i s.called
        raised := insert i s.raised }
  | .newTask i =>
    if i ∈ s.sent then
      { s with sem := s.sem + 1, sent := s.sent.erase i, counted := insert i s.counted }
    else s
  | .newTaskRaises i =>
    if i ∈ s.sent then { s with sent := s.sent.erase i, raised := insert i s.raised } else s
  | .signal i woken =>
    if i ∈ s.counted ∧ i ∉ s.completed then
      if woken ∈ s.waiting then
        { s with
          completed := insert i s.completed
          waiting := s.waiting.erase woken
          taken := insert woken s.taken }
      else { s with completed := insert i s.completed }
    else s
  | .get =>
    match s.content with
    | [] => s
    | i :: content => { s with content := content, taken := insert i s.taken }
  | .getRaises => { s with content := s.content.tail }
  | .taskDone i => if i ∈ s.taken then s.semaphoreP i else s
  | .taskDoneTimeout i =>
    if i ∈ s.waiting then
      { s with waiting := s.waiting.erase i, taken := insert i s.taken }
    else s
  | .trigger =>
    if 0 < s.triggers then
      { s with
        triggers := s.triggers - 1, joining := ∅, released := s.released ∪ s.joining }
    else s
  | .join j => if j ∈ s.joining ∪ s.released ∪ s.returned then s else s.semaphoreZ j
  | .joinTimeout j => { s with joining := s.joining.erase j }
  | .joinReturns j =>
    if j ∈ s.released then
      { s with released := s.released.erase j, returned := insert j s.returned }
    else s

/-- Every item whose put has completed is done. -/
def AllDone (s : JoinableQueue ι κ) : Prop := s.completed ⊆ s.finished

instance (s : JoinableQueue ι κ) : Decidable s.AllDone :=
  inferInstanceAs (Decidable (s.completed ⊆ s.finished))

/-- The joins in progress take notice of a moment at which all is done. -/
def observe (s : JoinableQueue ι κ) : JoinableQueue ι κ :=
  if s.AllDone then { s with good := s.good ∪ (s.joining ∪ s.released) } else s

/-- The queue after a step. -/
def exec (s : JoinableQueue ι κ) (step : Step ι κ) : JoinableQueue ι κ := (s.act step).observe

/-- **What a joinable queue promises**: a `task_done` for an item that was got and is counted
finds the count positive and no `task_done` waits; a join that returned had its moment; and of an
item whose put raised there is nothing in the queue nor in the count. -/
structure Joinable (s : JoinableQueue ι κ) : Prop where
  waiting : s.waiting = ∅
  taskDone : ∀ i ∈ s.taken, i ∉ s.sent → 0 < s.sem
  join : s.returned ⊆ s.good
  put : ∀ i ∈ s.raised, i ∉ s.content ∧ i ∉ s.taken ∧ i ∉ s.finished ∧ i ∉ s.counted

/-- The steps that do no harm: `task_done` is called for items that were counted, a join starts
to wait only when no wake-up of joins is still to be sent, and a put raises only before its send
handle is open, or where the close of the handle deposits nothing. -/
def Harmless (s : JoinableQueue ι κ) : Step ι κ → Prop
  | .taskDone i => i ∉ s.sent
  | .join _ => s.sem = 0 ∨ s.triggers = 0
  | .sendRaises _ fault => fault.deposits s.buffered = false
  | .newTaskRaises i => i ∉ s.sent
  | _ => True

/-- The count is that of the items that were counted and are not done. -/
structure Counts (s : JoinableQueue ι κ) : Prop where
  called : s.sent ∪ s.counted ⊆ s.called
  sent : Disjoint s.sent s.counted
  completed : s.completed ⊆ s.counted
  finished : s.finished ⊆ s.counted
  count : s.sem + s.finished.card = s.counted.card
  nodup : s.content.Nodup
  origin : ∀ i, i ∈ s.content ∨ i ∈ s.taken → i ∈ s.sent ∨ i ∈ s.counted
  content_taken : ∀ i ∈ s.content, i ∉ s.taken
  unfinished : ∀ i, i ∈ s.content ∨ i ∈ s.taken → i ∉ s.finished
  waiting : s.waiting = ∅
  raised : ∀ i ∈ s.raised, i ∈ s.called ∧ i ∉ s.sent ∧ i ∉ s.counted

/-- A join that is released or has returned has had its moment, and so has one that waits for a
wake-up that is still to be sent. -/
structure Awaits (s : JoinableQueue ι κ) : Prop where
  released : s.released ⊆ s.good
  returned : s.returned ⊆ s.good
  joining : 0 < s.triggers → s.joining ⊆ s.good

/-! ## The count -/

omit [DecidableEq κ] in
theorem Counts.init (buffered : Bool) : (init buffered : JoinableQueue ι κ).Counts := by
  constructor <;> simp [JoinableQueue.init]

variable {i : ι} {s : JoinableQueue ι κ}

omit [DecidableEq κ] in
/-- An item that is in the queue or with a consumer has not been done, so that it is in the count
once it was counted. -/
theorem Counts.sem_pos (h : s.Counts) (hi : i ∈ s.counted) (hfinished : i ∉ s.finished) :
    0 < s.sem := by
  have hlt : s.finished.card < s.counted.card :=
    Finset.card_lt_card ⟨h.finished, fun hsub => hfinished (hsub hi)⟩
  have hcount := h.count
  omega

omit [DecidableEq κ] in
theorem Counts.allDone (h : s.Counts) (hsem : s.sem = 0) : s.AllDone := by
  have hcount := h.count
  have heq : s.finished = s.counted := Finset.eq_of_subset_of_card_le h.finished (by omega)
  rw [AllDone, heq]
  exact h.completed

theorem Counts.send (h : s.Counts) (i : ι) : (s.act (.send i)).Counts := by
  rw [act]
  split
  · exact h
  next hi =>
    have hsent : i ∉ s.sent := fun hmem => hi (h.called (Finset.mem_union_left _ hmem))
    have hcounted : i ∉ s.counted := fun hmem => hi (h.called (Finset.mem_union_right _ hmem))
    have hout : ¬ (i ∈ s.content ∨ i ∈ s.taken) := fun hmem => (h.origin i hmem).elim hsent hcounted
    rw [not_or] at hout
    constructor
    · intro x hx
      have := @h.called x
      simp only [Finset.mem_union, Finset.mem_insert] at hx this ⊢
      tauto
    · rw [Finset.disjoint_insert_left]
      exact ⟨hcounted, h.sent⟩
    · exact h.completed
    · exact h.finished
    · exact h.count
    · rw [List.nodup_append]
      refine ⟨h.nodup, List.nodup_singleton i, ?_⟩
      intro x hx y hy
      rw [List.mem_singleton] at hy
      rintro rfl
      exact hout.1 (hy ▸ hx)
    · intro x hx
      have := h.origin x
      simp only [List.mem_append, List.mem_singleton, Finset.mem_insert] at hx ⊢
      tauto
    · intro x hx
      rcases List.mem_append.mp hx with hx | hx
      · exact h.content_taken x hx
      · rw [List.mem_singleton.mp hx]
        exact hout.2
    · intro x hx
      have hold := h.unfinished x
      have hnew : i ∉ s.finished := fun hmem => hcounted (h.finished hmem)
      simp only [List.mem_append, List.mem_singleton] at hx
      rcases hx with (hx | rfl) | hx
      · exact hold (.inl hx)
      · exact hnew
      · exact hold (.inr hx)
    · exact h.waiting
    · intro x hx
      have hold := h.raised x hx
      have hne : x ≠ i := fun heq => hi (heq ▸ hold.1)
      simp only [Finset.mem_insert, not_or]
      exact ⟨.inr hold.1, ⟨hne, hold.2.1⟩, hold.2.2⟩

theorem Counts.sendRaises (h : s.Counts) (i : ι) {fault : SendFault}
    (hfault : fault.deposits s.buffered = false) : (s.act (.sendRaises i fault)).Counts := by
  rw [act, hfault]
  split
  · exact h
  next hi =>
    have hsent : i ∉ s.sent := fun hmem => hi (h.called (Finset.mem_union_left _ hmem))
    have hcounted : i ∉ s.counted := fun hmem => hi (h.called (Finset.mem_union_right _ hmem))
    refine ⟨h.called.trans (Finset.subset_insert _ _), h.sent, h.completed, h.finished, h.count,
      h.nodup, h.origin, h.content_taken, h.unfinished, h.waiting, ?_⟩
    intro x hx
    rcases Finset.mem_insert.mp hx with rfl | hx
    · exact ⟨Finset.mem_insert_self _ _, hsent, hcounted⟩
    · obtain ⟨hcalled, hrest⟩ := h.raised x hx
      exact ⟨Finset.mem_insert_of_mem hcalled, hrest⟩

theorem Counts.newTask (h : s.Counts) (i : ι) : (s.act (.newTask i)).Counts := by
  rw [act]
  split
  next hi =>
    have hcounted : i ∉ s.counted := Finset.disjoint_left.mp h.sent hi
    constructor
    · intro x hx
      have hold := @h.called x
      simp only [Finset.mem_union, Finset.mem_erase, Finset.mem_insert] at hx hold
      rcases hx with hx | rfl | hx
      · exact hold (.inl hx.2)
      · exact hold (.inl hi)
      · exact hold (.inr hx)
    · rw [Finset.disjoint_insert_right]
      exact ⟨Finset.notMem_erase i _, h.sent.mono_left (Finset.erase_subset _ _)⟩
    · exact h.completed.trans (Finset.subset_insert _ _)
    · exact h.finished.trans (Finset.subset_insert _ _)
    · have hcount := h.count
      change s.sem + 1 + s.finished.card = (insert i s.counted).card
      rw [Finset.card_insert_of_notMem hcounted]
      omega
    · exact h.nodup
    · intro x hx
      have hold := h.origin x hx
      simp only [Finset.mem_erase, Finset.mem_insert]
      tauto
    · exact h.content_taken
    · exact h.unfinished
    · exact h.waiting
    · intro x hx
      obtain ⟨hcalled, hsent, hold⟩ := h.raised x hx
      have hne : x ≠ i := fun heq => hsent (heq ▸ hi)
      simp only [Finset.mem_erase, Finset.mem_insert, not_or]
      exact ⟨hcalled, fun hmem => hsent hmem.2, hne, hold⟩
  · exact h

theorem Counts.signal (h : s.Counts) (i woken : ι) : (s.act (.signal i woken)).Counts := by
  have hwoken : woken ∉ s.waiting := by
    rw [h.waiting]
    exact Finset.notMem_empty woken
  rw [act]
  split
  next hi =>
    exact ⟨h.called, h.sent, Finset.insert_subset hi.1 h.completed, h.finished, h.count, h.nodup,
      h.origin, h.content_taken, h.unfinished, h.waiting, h.raised⟩
  · exact h

theorem Counts.get (h : s.Counts) : (s.act .get).Counts := by
  rw [act]
  split
  · exact h
  next i content hcontent =>
    have hnodup := h.nodup
    rw [hcontent, List.nodup_cons] at hnodup
    -- the item was in the queue, and is with the consumer
    have hmoved : ∀ x, x ∈ content ∨ x ∈ insert i s.taken → x ∈ s.content ∨ x ∈ s.taken := by
      intro x hx
      rw [hcontent]
      simp only [Finset.mem_insert, List.mem_cons] at hx ⊢
      tauto
    refine ⟨h.called, h.sent, h.completed, h.finished, h.count, hnodup.2,
      fun x hx => h.origin x (hmoved x hx), ?_, fun x hx => h.unfinished x (hmoved x hx),
      h.waiting, h.raised⟩
    intro x hx
    have hold := h.content_taken x (hcontent ▸ List.mem_cons_of_mem i hx)
    rw [Finset.mem_insert, not_or]
    exact ⟨fun heq => hnodup.1 (heq ▸ hx), hold⟩

/-- The item that cannot be unpickled is lost, and stays in the count. -/
theorem Counts.getRaises (h : s.Counts) : (s.act .getRaises).Counts := by
  have hsub := List.tail_subset s.content
  refine ⟨h.called, h.sent, h.completed, h.finished, h.count,
    h.nodup.sublist (List.tail_sublist _), fun x hx => h.origin x (hx.imp_left (@hsub x)),
    fun x hx => h.content_taken x (hsub hx), fun x hx => h.unfinished x (hx.imp_left (@hsub x)),
    h.waiting, h.raised⟩

theorem Counts.taskDone (h : s.Counts) (hsent : i ∉ s.sent) : (s.act (.taskDone i)).Counts := by
  rw [act]
  split
  next hi =>
    have hcounted : i ∈ s.counted := (h.origin i (.inr hi)).resolve_left hsent
    have hfinished : i ∉ s.finished := h.unfinished i (.inr hi)
    have hsem := h.sem_pos hcounted hfinished
    have hout : i ∉ s.content := fun hmem => h.content_taken i hmem hi
    rw [semaphoreP, if_neg hsem.ne']
    refine ⟨h.called, h.sent, h.completed, Finset.insert_subset hcounted h.finished, ?_, h.nodup,
      ?_, ?_, ?_, h.waiting, h.raised⟩
    · have hcount := h.count
      change s.sem - 1 + (insert i s.finished).card = s.counted.card
      rw [Finset.card_insert_of_notMem hfinished]
      omega
    · intro x hx
      exact h.origin x (hx.imp_right Finset.mem_of_mem_erase)
    · intro x hx hmem
      exact h.content_taken x hx (Finset.mem_of_mem_erase hmem)
    · intro x hx hmem
      have hne : x ≠ i := by
        rintro rfl
        rcases hx with hx | hx
        · exact hout hx
        · exact Finset.notMem_erase _ _ hx
      exact h.unfinished x (hx.imp_right Finset.mem_of_mem_erase)
        (Finset.mem_of_mem_insert_of_ne hmem hne)
  · exact h

omit [DecidableEq κ] in
theorem Counts.setJoins (h : s.Counts) (triggers : ℕ) (joining released returned good : Finset κ) :
    { s with
      triggers := triggers
      joining := joining
      released := released
      returned := returned
      good := good }.Counts :=
  ⟨h.called, h.sent, h.completed, h.finished, h.count, h.nodup, h.origin, h.content_taken,
    h.unfinished, h.waiting, h.raised⟩

theorem Counts.observe (h : s.Counts) : s.observe.Counts := by
  rw [JoinableQueue.observe]
  split
  · exact h.setJoins _ _ _ _ _
  · exact h

/-- **Step** of the count. -/
theorem Counts.act (h : s.Counts) {step : Step ι κ} (hstep : s.Harmless step) :
    (s.act step).Counts := by
  cases step with
  | send i => exact h.send i
  | sendRaises i => exact h.sendRaises i hstep
  | newTask i => exact h.newTask i
  | newTaskRaises =>
    rw [JoinableQueue.act, if_neg hstep]
    exact h
  | signal i woken => exact h.signal i woken
  | get => exact h.get
  | getRaises => exact h.getRaises
  | taskDone => exact h.taskDone hstep
  | taskDoneTimeout i =>
    have hi : i ∉ s.waiting := by
      rw [h.waiting]
      exact Finset.notMem_empty i
    rw [JoinableQueue.act, if_neg hi]
    exact h
  | trigger =>
    rw [JoinableQueue.act]
    split
    · exact h.setJoins _ _ _ _ _
    · exact h
  | join =>
    rw [JoinableQueue.act]
    split
    · exact h
    · rw [semaphoreZ]
      split
      · exact h.setJoins _ _ _ _ _
      · exact h.setJoins _ _ _ _ _
  | joinTimeout => exact h.setJoins _ _ _ _ _
  | joinReturns =>
    rw [JoinableQueue.act]
    split
    · exact h.setJoins _ _ _ _ _
    · exact h

/-! ## The joins -/

omit [DecidableEq ι] [DecidableEq κ] in
theorem Awaits.init (buffered : Bool) : (init buffered : JoinableQueue ι κ).Awaits := by
  constructor <;> simp [JoinableQueue.init]

/-- At a moment at which all is done, every join in progress has its moment. -/
theorem awaits_observe (hreturned : s.returned ⊆ s.good) (h : ¬ s.AllDone → s.Awaits) :
    s.observe.Awaits := by
  rw [observe]
  split
  · refine ⟨?_, hreturned.trans Finset.subset_union_left, fun _ => ?_⟩
    · exact Finset.subset_union_right.trans Finset.subset_union_right
    · exact Finset.subset_union_left.trans Finset.subset_union_right
  next hnot => exact h hnot

theorem Awaits.taskDone (h : s.Awaits) (hcounts : s.Counts) (hsent : i ∉ s.sent) :
    (s.exec (.taskDone i)).Awaits := by
  have hcounts' : (s.act (.taskDone i)).Counts := hcounts.act hsent
  rw [exec]
  rw [JoinableQueue.act] at hcounts' ⊢
  split at hcounts'
  next hi =>
    rw [if_pos hi, semaphoreP] at *
    split at hcounts'
    next hsem =>
      rw [if_pos hsem]
      exact awaits_observe h.returned (fun _ => ⟨h.released, h.returned, h.joining⟩)
    next hsem =>
      rw [if_neg hsem]
      refine awaits_observe h.returned ?_
      intro hnot
      -- the count has not reached zero, or else all would be done
      have hsem' : s.sem - 1 ≠ 0 := fun hzero => hnot (hcounts'.allDone hzero)
      refine ⟨h.released, h.returned, ?_⟩
      intro htriggers
      apply h.joining
      change 0 < if s.sem - 1 = 0 then s.triggers + 1 else s.triggers at htriggers
      rwa [if_neg hsem'] at htriggers
  next hi =>
    rw [if_neg hi]
    exact awaits_observe h.returned (fun _ => h)

theorem Awaits.trigger (h : s.Awaits) : (s.exec .trigger).Awaits := by
  rw [exec, JoinableQueue.act]
  split
  next htriggers =>
    refine awaits_observe h.returned (fun _ => ⟨?_, h.returned, fun _ => Finset.empty_subset _⟩)
    exact Finset.union_subset h.released (h.joining htriggers)
  · exact awaits_observe h.returned (fun _ => h)

theorem Awaits.join (h : s.Awaits) (hcounts : s.Counts) {j : κ} (hstep : s.sem = 0 ∨ s.triggers = 0) :
    (s.exec (.join j)).Awaits := by
  rw [exec, JoinableQueue.act]
  split
  · exact awaits_observe h.returned (fun _ => h)
  · rw [semaphoreZ]
    split
    next hsem =>
      have htriggers := hstep.resolve_left hsem.ne'
      refine awaits_observe h.returned (fun _ => ⟨h.released, h.returned, fun hpos => ?_⟩)
      exact absurd htriggers hpos.ne'
    next hsem =>
      refine awaits_observe h.returned ?_
      intro hnot
      exact absurd (hcounts.allDone (Nat.eq_zero_of_not_pos hsem)) hnot

theorem Awaits.joinReturns (h : s.Awaits) (j : κ) : (s.exec (.joinReturns j)).Awaits := by
  rw [exec, JoinableQueue.act]
  split
  next hj =>
    have hreturned : insert j s.returned ⊆ s.good :=
      Finset.insert_subset (h.released hj) h.returned
    exact awaits_observe hreturned
      (fun _ => ⟨(Finset.erase_subset _ _).trans h.released, hreturned, h.joining⟩)
  · exact awaits_observe h.returned (fun _ => h)

/-- The other steps leave the joins and the wake-ups as they are. -/
theorem Awaits.of_joins_eq {s' : JoinableQueue ι κ} (h : s.Awaits)
    (htriggers : s'.triggers = s.triggers) (hjoining : s'.joining ⊆ s.joining)
    (hreleased : s'.released = s.released) (hreturned : s'.returned = s.returned)
    (hgood : s'.good = s.good) : s'.observe.Awaits := by
  have hreturned' : s'.returned ⊆ s'.good := by
    rw [hreturned, hgood]
    exact h.returned
  refine awaits_observe hreturned' (fun _ => ⟨?_, hreturned', ?_⟩)
  · rw [hreleased, hgood]
    exact h.released
  · rw [htriggers, hgood]
    exact fun hpos => hjoining.trans (h.joining hpos)

/-- **Step** of the joins. -/
theorem Awaits.exec (h : s.Awaits) (hcounts : s.Counts) {step : Step ι κ} (hstep : s.Harmless step) :
    (s.exec step).Awaits := by
  have hrefl := Finset.Subset.refl s.joining
  cases step with
  | send | sendRaises | newTask | newTaskRaises | get | taskDoneTimeout =>
    rw [JoinableQueue.exec, JoinableQueue.act]
    split
    · exact h.of_joins_eq rfl hrefl rfl rfl rfl
    · exact h.of_joins_eq rfl hrefl rfl rfl rfl
  | signal =>
    rw [JoinableQueue.exec, JoinableQueue.act]
    split
    · split
      · exact h.of_joins_eq rfl hrefl rfl rfl rfl
      · exact h.of_joins_eq rfl hrefl rfl rfl rfl
    · exact h.of_joins_eq rfl hrefl rfl rfl rfl
  | getRaises => exact h.of_joins_eq rfl hrefl rfl rfl rfl
  | taskDone => exact h.taskDone hcounts hstep
  | trigger => exact h.trigger
  | join => exact h.join hcounts hstep
  | joinTimeout => exact h.of_joins_eq rfl (Finset.erase_subset _ _) rfl rfl rfl
  | joinReturns j => exact h.joinReturns j

/-! ## Runs -/

omit [DecidableEq κ] in
theorem Counts.joinable (h : s.Counts) (hawaits : s.Awaits) : s.Joinable := by
  refine ⟨h.waiting, ?_, hawaits.returned, ?_⟩
  · intro i hi hsent
    exact h.sem_pos ((h.origin i (.inr hi)).resolve_left hsent) (h.unfinished i (.inr hi))
  · intro i hi
    obtain ⟨_, hsent, hcounted⟩ := h.raised i hi
    have hout : ¬ (i ∈ s.content ∨ i ∈ s.taken) :=
      fun hmem => (h.origin i hmem).elim hsent hcounted
    rw [not_or] at hout
    exact ⟨hout.1, hout.2, fun hmem => hcounted (h.finished hmem), hcounted⟩

end JoinableQueue
