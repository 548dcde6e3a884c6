/-
# Semaphores (`src/lib/channels.c`, `src/dragon/native/semaphore.py`)

A semaphore is a channel whose first message block holds a counter.  `dragon_channel_poll` takes the
locks of the channel, looks at the counter, and waits on the BCast of `POLLIN` (`SEMAPHORE_P`) or
counts up and then, without the locks, triggers one waiter (`SEMAPHORE_V`).

Conventions:

* what is done under the locks is one step, and so are a trigger and the end of a wait;
* a wait has registered before it gives the locks back, a trigger wakes a registered waiter where
  there is one, and a waiter that was woken looks at the counter again;
* the trigger of `POLLEMPTY` wakes no one here, since `Semaphore` has no call that waits for it;
* a negative timeout is refused before the channel is polled and is left out.
-/
import DragonRuntime.BCastAgreement

namespace Semaphore

/-- The counter is a `dragonULInt`. -/
def ulintModulus : ℕ := 2 ^ 64

inductive Timeout : Type where
  | none
  | zero
  | positive
  deriving DecidableEq

/-- Where a process is. -/
inductive Phase : Type where
  | out
  /-- in `SEMAPHORE_P`, before the locks -/
  | locking (timeout : Timeout)
  /-- registered with the BCast -/
  | waiting (timeout : Timeout)
  /-- released from the wait, before the locks -/
  | woken (timeout : Timeout)
  /-- has decremented to zero, before the trigger of `POLLEMPTY` -/
  | emptied
  /-- in `release(n)`, with `k` increments done, before the locks of the next -/
  | incrementing (n k : ℕ)
  /-- in `release(n)`, after the `k`-th increment, before its trigger -/
  | triggering (n k : ℕ)
  /-- `release(n)` has raised after `k` increments -/
  | raised (n k : ℕ)
  deriving DecidableEq

/-- No call is under way. -/
def Phase.idle : Phase → Bool
  | .out | .raised _ _ => true
  | _ => false

def Phase.isWaiting : Phase → Bool
  | .waiting _ => true
  | _ => false

/-- A trigger of `POLLIN` is still to come, or a waiter that one has woken has still to look. -/
def Phase.wakes : Phase → Bool
  | .woken _ | .triggering _ _ => true
  | _ => false

/-- The semaphore and the processes that use it, with the increments and the decrements so far. -/
structure State (P : Type*) where
  value : ℕ
  phase : P → Phase
  vSteps : ℕ
  acquires : ℕ

/-- The steps of the processes; `trigger p q` wakes `q`. -/
inductive Move (P : Type*) where
  | acquire (p : P) (timeout : Timeout)
  | release (p : P) (n : ℕ)
  | semaphoreP (p : P)
  | timedOut (p : P)
  | pollEmpty (p : P)
  | semaphoreV (p : P)
  | trigger (p : P) (q : Option P)

namespace State

variable {P : Type*} [DecidableEq P]

def go (s : State P) (p : P) (phase : Phase) : State P :=
  { s with phase := Function.update s.phase p phase }

/-- After the next increment of `release(n)`. -/
def nextPhase (n k : ℕ) : Phase := if k < n then .incrementing n k else .out

/-- What `SEMAPHORE_P` does under the locks. -/
def lockedP (s : State P) (p : P) (timeout : Timeout) : State P :=
  if s.value = 0 then
    -- a wait with a zero timeout only gives the locks back
    if timeout = .zero then s.go p .out else s.go p (.waiting timeout)
  else
    { s with value := s.value - 1, acquires := s.acquires + 1 }.go p
      (if s.value - 1 = 0 then .emptied else .out)

/-- What `SEMAPHORE_V` does under the locks. -/
def lockedV (bounded : Bool) (initialSemValue : ℕ) (s : State P) (p : P) (n k : ℕ) : State P :=
  if bounded ∧ s.value = initialSemValue then s.go p (.raised n k)
  else
    { s with value := (s.value + 1) % ulintModulus, vSteps := s.vSteps + 1 }.go p
      (.triggering n (k + 1))

/-- A step; one that is not possible changes nothing. -/
def step [Fintype P] (bounded : Bool) (initialSemValue : ℕ) (s : State P) : Move P → State P
  | .acquire p timeout => if (s.phase p).idle then s.go p (.locking timeout) else s
  | .release p n => if (s.phase p).idle then s.go p (nextPhase n 0) else s
  | .semaphoreP p =>
    match s.phase p with
    | .locking timeout | .woken timeout => s.lockedP p timeout
    | _ => s
  | .timedOut p => if s.phase p = .waiting .positive then s.go p .out else s
  | .pollEmpty p => if s.phase p = .emptied then s.go p .out else s
  | .semaphoreV p =>
    match s.phase p with
    | .incrementing n k => lockedV bounded initialSemValue s p n k
    | _ => s
  | .trigger p q =>
    match s.phase p, q with
    | .triggering n k, none =>
      if ∃ q, (s.phase q).isWaiting then s else s.go p (nextPhase n k)
    | .triggering n k, some q =>
      match s.phase q with
      | .waiting timeout => (s.go q (.woken timeout)).go p (nextPhase n k)
      | _ => s
    | _, _ => s

/-- A new semaphore. -/
def init (initialSemValue : ℕ) : State P := ⟨initialSemValue, fun _ => .out, 0, 0⟩

/-- The number of triggers still to come and of woken processes that have still to look. -/
def wakeups [Fintype P] (s : State P) : ℕ := (Finset.univ.filter fun p => (s.phase p).wakes).card

end State

/-- What holds of a semaphore. -/
structure Promise {P : Type*} [Fintype P] [DecidableEq P] (bounded : Bool) (initialSemValue : ℕ)
    (s : State P) : Prop where
  balance : s.value + s.acquires ≡ initialSemValue + s.vSteps [MOD ulintModulus]
  exact : initialSemValue + s.vSteps < ulintModulus →
    s.value + s.acquires = initialSemValue + s.vSteps
  bound : bounded = true → s.value ≤ initialSemValue
  waiting : ∀ p timeout, s.phase p = .waiting timeout → s.value ≤ s.wakeups
  raised : ∀ p n k, s.phase p = .raised n k → bounded = true ∧ k < n

/-- What holds of a step: a decrement takes from a positive counter, and an increment that raises
leaves the counter at the bound. -/
structure StepPromise {P : Type*} (bounded : Bool) (initialSemValue : ℕ) (s s' : State P) : Prop where
  acquire : s'.acquires ≠ s.acquires → 0 < s.value ∧ s'.value + 1 = s.value
  raise : ∀ p n k n' k', s.phase p = .incrementing n k → s'.phase p = .raised n' k' →
    bounded = true ∧ s.value = initialSemValue ∧ s'.value = s.value ∧ s'.vSteps = s.vSteps

/-- What the steps keep. -/
structure Inv {P : Type*} [Fintype P] [DecidableEq P] (bounded : Bool) (initialSemValue : ℕ)
    (s : State P) : Prop extends Promise bounded initialSemValue s where
  incrementing : ∀ p n k, s.phase p = .incrementing n k → k < n

section Steps

variable {P : Type*} [Fintype P] [DecidableEq P] {bounded : Bool} {initialSemValue : ℕ}
  {s s' : State P} {p : P} {phase : Phase}

/-- The wake-ups that one process is good for. -/
def Phase.wakeups (phase : Phase) : ℕ := if phase.wakes then 1 else 0

theorem Phase.wakeups_le_one (phase : Phase) : phase.wakeups ≤ 1 := by
  unfold Phase.wakeups
  split_ifs <;> simp

omit [DecidableEq P] in
theorem State.wakeups_eq_sum (s : State P) : s.wakeups = ∑ q, (s.phase q).wakeups := by
  unfold State.wakeups
  rw [Finset.card_filter]
  rfl

theorem State.wakeups_update (hphase : s'.phase = Function.update s.phase p phase) :
    s'.wakeups + (s.phase p).wakeups = s.wakeups + phase.wakeups := by
  have hself : (s'.phase p).wakeups = phase.wakeups := by rw [hphase, Function.update_self]
  rw [State.wakeups_eq_sum, State.wakeups_eq_sum, ← hself]
  have hoff : ∀ q, q ≠ p → (s'.phase q).wakeups = (s.phase q).wakeups := by
    intro q hq
    rw [hphase, Function.update_of_ne hq]
  exact sum_add_eq_of_eq_off p hoff

theorem nextPhase_wakeups (n k : ℕ) : (State.nextPhase n k).wakeups = 0 := by
  unfold State.nextPhase
  split_ifs <;> rfl

theorem nextPhase_ne_waiting (n k : ℕ) (timeout : Timeout) :
    State.nextPhase n k ≠ .waiting timeout := by
  unfold State.nextPhase
  split_ifs <;> simp

theorem nextPhase_ne_raised (n k n' k' : ℕ) : State.nextPhase n k ≠ .raised n' k' := by
  unfold State.nextPhase
  split_ifs <;> simp

theorem lt_of_nextPhase {n k n' k' : ℕ} (h : State.nextPhase n k = .incrementing n' k') :
    k' < n' := by
  unfold State.nextPhase at h
  split_ifs at h with hk
  cases h
  exact hk

namespace Inv

/-- A step of one process: what is to be shown of it. -/
theorem update (h : Inv bounded initialSemValue s)
    (hphase : s'.phase = Function.update s.phase p phase)
    (hbalance : s'.value + s'.acquires ≡ initialSemValue + s'.vSteps [MOD ulintModulus])
    (hexact : initialSemValue + s'.vSteps < ulintModulus →
      s'.value + s'.acquires = initialSemValue + s'.vSteps)
    (hbound : bounded = true → s'.value ≤ initialSemValue)
    (hself : ∀ timeout, phase = .waiting timeout → s'.value = 0)
    (hothers : (∃ q timeout, s.phase q = .waiting timeout) → s'.value ≤ s'.wakeups)
    (hraised : ∀ n k, phase = .raised n k → bounded = true ∧ k < n)
    (hincrementing : ∀ n k, phase = .incrementing n k → k < n) :
    Inv bounded initialSemValue s' := by
  constructor
  · constructor
    · exact hbalance
    · exact hexact
    · exact hbound
    · intro q timeout hq
      rw [hphase] at hq
      by_cases hqp : q = p
      · subst hqp
        rw [Function.update_self] at hq
        rw [hself timeout hq]
        exact Nat.zero_le _
      · rw [Function.update_of_ne hqp] at hq
        exact hothers ⟨q, timeout, hq⟩
    · intro q n k hq
      rw [hphase] at hq
      by_cases hqp : q = p
      · subst hqp
        rw [Function.update_self] at hq
        exact hraised n k hq
      · rw [Function.update_of_ne hqp] at hq
        exact h.raised q n k hq
  · intro q n k hq
    rw [hphase] at hq
    by_cases hqp : q = p
    · subst hqp
      rw [Function.update_self] at hq
      exact hincrementing n k hq
    · rw [Function.update_of_ne hqp] at hq
      exact h.incrementing q n k hq

/-- A process moves on, and the counter stays as it is. -/
theorem go (h : Inv bounded initialSemValue s) (p : P) (phase : Phase)
    (hself : ∀ timeout, phase = .waiting timeout → s.value = 0)
    (hothers : (∃ q timeout, s.phase q = .waiting timeout) → s.value ≤ (s.go p phase).wakeups)
    (hraised : ∀ n k, phase = .raised n k → bounded = true ∧ k < n)
    (hincrementing : ∀ n k, phase = .incrementing n k → k < n) :
    Inv bounded initialSemValue (s.go p phase) :=
  h.update rfl h.balance h.exact h.bound hself hothers hraised hincrementing

/-- A process that is good for no wake-up moves on. -/
theorem go_of_wakeups (h : Inv bounded initialSemValue s) (p : P) (phase : Phase)
    (hwakeups : phase.wakeups = (s.phase p).wakeups)
    (hself : ∀ timeout, phase = .waiting timeout → s.value = 0)
    (hraised : ∀ n k, phase = .raised n k → bounded = true ∧ k < n)
    (hincrementing : ∀ n k, phase = .incrementing n k → k < n) :
    Inv bounded initialSemValue (s.go p phase) := by
  refine h.go p phase hself ?_ hraised hincrementing
  rintro ⟨q, timeout, hq⟩
  have hle := h.waiting q timeout hq
  have hcount : (s.go p phase).wakeups + (s.phase p).wakeups = s.wakeups + phase.wakeups :=
    State.wakeups_update rfl
  omega

theorem lockedP (h : Inv bounded initialSemValue s) (p : P) (timeout : Timeout) :
    Inv bounded initialSemValue (s.lockedP p timeout) := by
  unfold State.lockedP
  by_cases hzero : s.value = 0
  · rw [if_pos hzero]
    have hothers : ∀ phase, (∃ q timeout, s.phase q = .waiting timeout) →
        s.value ≤ (s.go p phase).wakeups := by
      intro phase _
      omega
    split_ifs with htimeout
    · exact h.go p _ (fun _ hcon => by cases hcon) (hothers _) (fun _ _ hcon => by cases hcon)
        (fun _ _ hcon => by cases hcon)
    · exact h.go p _ (fun _ _ => hzero) (hothers _) (fun _ _ hcon => by cases hcon)
        (fun _ _ hcon => by cases hcon)
  · rw [if_neg hzero]
    have hdecr : s.value - 1 + (s.acquires + 1) = s.value + s.acquires := by omega
    have hphase : ∀ phase, (State.go { s with value := s.value - 1, acquires := s.acquires + 1 } p
        phase).phase = Function.update s.phase p phase := fun phase => rfl
    refine h.update (hphase _) ?_ ?_ ?_ ?_ ?_ ?_ ?_
    · exact hdecr ▸ h.balance
    · exact fun hlt => hdecr.trans (h.exact hlt)
    · intro hb
      exact (Nat.sub_le _ _).trans (h.bound hb)
    · intro t hcon
      split_ifs at hcon
    · -- the unit may be the one that this process was woken for
      rintro ⟨q, t, hq⟩
      have hle := h.waiting q t hq
      have hcount := State.wakeups_update
        (hphase (if s.value - 1 = 0 then .emptied else .out))
      have hone := (s.phase p).wakeups_le_one
      change s.value - 1 ≤ _
      omega
    · intro n k hcon
      split_ifs at hcon
    · intro n k hcon
      split_ifs at hcon

theorem lockedV (h : Inv bounded initialSemValue s) {n k : ℕ}
    (hp : s.phase p = .incrementing n k) :
    Inv bounded initialSemValue (State.lockedV bounded initialSemValue s p n k) := by
  have hk := h.incrementing p n k hp
  unfold State.lockedV
  split_ifs with hfull
  · refine h.go_of_wakeups p _ ?_ (fun _ hcon => by cases hcon) ?_ (fun _ _ hcon => by cases hcon)
    · rw [hp]
      rfl
    · intro n' k' heq
      cases heq
      exact ⟨hfull.1, hk⟩
  · have hphase : ∀ phase, (State.go { s with
        value := (s.value + 1) % ulintModulus, vSteps := s.vSteps + 1 } p phase).phase =
          Function.update s.phase p phase := fun phase => rfl
    have hmod : (s.value + 1) % ulintModulus ≤ s.value + 1 := Nat.mod_le _ _
    refine h.update (hphase _) ?_ ?_ ?_ ?_ ?_ ?_ ?_
    · calc (s.value + 1) % ulintModulus + s.acquires
          ≡ s.value + 1 + s.acquires [MOD ulintModulus] := (Nat.mod_modEq _ _).add_right _
        _ = s.value + s.acquires + 1 := by omega
        _ ≡ initialSemValue + s.vSteps + 1 [MOD ulintModulus] := h.balance.add_right 1
    · intro hlt
      change initialSemValue + (s.vSteps + 1) < ulintModulus at hlt
      have hexact := h.exact (by omega)
      change (s.value + 1) % ulintModulus + s.acquires = initialSemValue + (s.vSteps + 1)
      rw [Nat.mod_eq_of_lt (by omega)]
      omega
    · intro hb
      have hle := h.bound hb
      have hne : s.value ≠ initialSemValue := fun heq => hfull ⟨hb, heq⟩
      change (s.value + 1) % ulintModulus ≤ initialSemValue
      omega
    · exact fun _ hcon => by cases hcon
    · rintro ⟨q, t, hq⟩
      have hle := h.waiting q t hq
      have hcount := State.wakeups_update (hphase (.triggering n (k + 1)))
      have hbefore : (s.phase p).wakeups = 0 := by
        rw [hp]
        rfl
      have hafter : (Phase.triggering n (k + 1)).wakeups = 1 := rfl
      change (s.value + 1) % ulintModulus ≤ _
      omega
    · exact fun _ _ hcon => by cases hcon
    · exact fun _ _ hcon => by cases hcon

theorem trigger_some (h : Inv bounded initialSemValue s) {n k : ℕ}
    (hp : s.phase p = .triggering n k) {q : P} {timeout : Timeout}
    (hq : s.phase q = .waiting timeout) :
    Inv bounded initialSemValue ((s.go q (.woken timeout)).go p (State.nextPhase n k)) := by
  have hne : p ≠ q := by
    rintro rfl
    rw [hp] at hq
    cases hq
  have hle := h.waiting q timeout hq
  have hcount : (s.go q (.woken timeout)).wakeups + (s.phase q).wakeups =
      s.wakeups + (Phase.woken timeout).wakeups := State.wakeups_update rfl
  have hbefore : (s.phase q).wakeups = 0 := by
    rw [hq]
    rfl
  have hafter : (Phase.woken timeout).wakeups = 1 := rfl
  have hmid : Inv bounded initialSemValue (s.go q (.woken timeout)) := by
    refine h.go q _ (fun _ hcon => by cases hcon) ?_ (fun _ _ hcon => by cases hcon)
      (fun _ _ hcon => by cases hcon)
    rintro -
    omega
  have hp' : (s.go q (.woken timeout)).phase p = .triggering n k := by
    rw [← hp]
    exact Function.update_of_ne hne _ _
  refine hmid.go p _ (fun t hcon => absurd hcon (nextPhase_ne_waiting n k t)) ?_
    (fun n' k' hcon => absurd hcon (nextPhase_ne_raised n k n' k')) fun n' k' => lt_of_nextPhase
  rintro -
  have hcount' : ((s.go q (.woken timeout)).go p (State.nextPhase n k)).wakeups +
      ((s.go q (.woken timeout)).phase p).wakeups =
        (s.go q (.woken timeout)).wakeups + (State.nextPhase n k).wakeups :=
    State.wakeups_update rfl
  have htriggering : ((s.go q (.woken timeout)).phase p).wakeups = 1 := by
    rw [hp']
    rfl
  rw [nextPhase_wakeups] at hcount'
  change s.value ≤ _
  omega

/-- **Every step keeps the invariant.** -/
theorem step (h : Inv bounded initialSemValue s) (move : Move P) :
    Inv bounded initialSemValue (s.step bounded initialSemValue move) := by
  have hidle : ∀ {phase : Phase}, phase.idle → phase.wakeups = 0 := by
    rintro (_ | _ | _ | _ | _ | _ | _ | _) hphase
    · rfl
    · cases hphase
    · cases hphase
    · cases hphase
    · cases hphase
    · cases hphase
    · cases hphase
    · rfl
  cases move with
  | acquire p =>
    unfold State.step
    dsimp only
    split_ifs with hp
    · exact h.go_of_wakeups p _ (hidle hp).symm (fun _ hcon => by cases hcon)
        (fun _ _ hcon => by cases hcon) (fun _ _ hcon => by cases hcon)
    · exact h
  | release p n =>
    unfold State.step
    dsimp only
    split_ifs with hp
    · exact h.go_of_wakeups p _ ((nextPhase_wakeups n 0).trans (hidle hp).symm)
        (fun t hcon => absurd hcon (nextPhase_ne_waiting n 0 t))
        (fun n' k' hcon => absurd hcon (nextPhase_ne_raised n 0 n' k')) fun _ _ => lt_of_nextPhase
    · exact h
  | semaphoreP p =>
    unfold State.step
    dsimp only
    split
    · exact h.lockedP p _
    · exact h.lockedP p _
    · exact h
  | timedOut p | pollEmpty p =>
    unfold State.step
    dsimp only
    split_ifs with hp
    · refine h.go_of_wakeups p _ ?_ (fun _ hcon => by cases hcon)
        (fun _ _ hcon => by cases hcon) (fun _ _ hcon => by cases hcon)
      rw [hp]
      rfl
    · exact h
  | semaphoreV p =>
    unfold State.step
    dsimp only
    split
    · rename_i n k hp
      exact h.lockedV hp
    · exact h
  | trigger p q =>
    unfold State.step
    dsimp only
    split
    · rename_i n k hp
      split_ifs with hnone
      · exact h
      · refine h.go p _ (fun t hcon => absurd hcon (nextPhase_ne_waiting n k t)) ?_
          (fun n' k' hcon => absurd hcon (nextPhase_ne_raised n k n' k')) fun _ _ => lt_of_nextPhase
        rintro ⟨q, timeout, hq⟩
        exact absurd ⟨q, by rw [hq]; rfl⟩ hnone
    · rename_i n k q hp
      split
      · rename_i timeout hq
        exact h.trigger_some hp hq
      · exact h
    · exact h

end Inv

/-! ### What the steps promise -/

namespace StepPromise

omit [Fintype P] [DecidableEq P] in
theorem refl (s : State P) : StepPromise bounded initialSemValue s s := by
  constructor
  · exact fun hne => absurd rfl hne
  · intro p n k n' k' hp hp'
    rw [hp] at hp'
    cases hp'

section

omit [Fintype P]

/-- A process that has not raised moves on, and decrements at most a positive counter. -/
theorem of_phase (hphase : s'.phase = Function.update s.phase p phase)
    (hraised : ∀ n k, phase ≠ .raised n k)
    (hacquires : s'.acquires ≠ s.acquires → 0 < s.value ∧ s'.value + 1 = s.value) :
    StepPromise bounded initialSemValue s s' := by
  constructor
  · exact hacquires
  · intro q n k n' k' hq hq'
    rw [hphase] at hq'
    by_cases hqp : q = p
    · subst hqp
      rw [Function.update_self] at hq'
      exact absurd hq' (hraised n' k')
    · rw [Function.update_of_ne hqp, hq] at hq'
      cases hq'

theorem go (s : State P) (p : P) {phase : Phase} (hraised : ∀ n k, phase ≠ .raised n k) :
    StepPromise bounded initialSemValue s (s.go p phase) :=
  of_phase rfl hraised fun hne => absurd rfl hne

theorem lockedP (s : State P) (p : P) (timeout : Timeout) :
    StepPromise bounded initialSemValue s (s.lockedP p timeout) := by
  unfold State.lockedP
  by_cases hzero : s.value = 0
  · rw [if_pos hzero]
    split_ifs
    · exact go s p (by simp)
    · exact go s p (by simp)
  · rw [if_neg hzero]
    have hphase : ∀ phase, (State.go
        { s with value := s.value - 1, acquires := s.acquires + 1 } p phase).phase =
          Function.update s.phase p phase := fun phase => rfl
    refine of_phase (hphase _) ?_ fun _ => ?_
    · intro n k hcon
      split_ifs at hcon
    · have hpos : 0 < s.value := Nat.pos_of_ne_zero hzero
      exact ⟨hpos, Nat.sub_add_cancel hpos⟩

theorem lockedV (s : State P) (p : P) (n k : ℕ) :
    StepPromise bounded initialSemValue s (State.lockedV bounded initialSemValue s p n k) := by
  unfold State.lockedV
  split_ifs with hfull
  · constructor
    · exact fun hne => absurd rfl hne
    · exact fun _ _ _ _ _ _ _ => ⟨hfull.1, hfull.2, rfl, rfl⟩
  · have hphase : ∀ phase, (State.go { s with
        value := (s.value + 1) % ulintModulus, vSteps := s.vSteps + 1 } p phase).phase =
          Function.update s.phase p phase := fun phase => rfl
    exact of_phase (hphase _) (by simp) fun hne => absurd rfl hne

theorem trigger_some (s : State P) (p : P) {n k : ℕ} {q : P} {timeout : Timeout}
    (hq : s.phase q = .waiting timeout) :
    StepPromise bounded initialSemValue s
      ((s.go q (.woken timeout)).go p (State.nextPhase n k)) := by
  constructor
  · exact fun hne => absurd rfl hne
  · intro r m j m' j' hr hr'
    have hrq : r ≠ q := by
      rintro rfl
      rw [hq] at hr
      cases hr
    have hmid : (s.go q (.woken timeout)).phase r = .incrementing m j :=
      (Function.update_of_ne hrq _ _).trans hr
    exact (go (s.go q (.woken timeout)) p (nextPhase_ne_raised n k)).raise r m j m' j' hmid hr'

end

theorem step (s : State P) (move : Move P) :
    StepPromise bounded initialSemValue s (s.step bounded initialSemValue move) := by
  cases move with
  | acquire p =>
    unfold State.step
    dsimp only
    split_ifs with hp
    · exact go s p (by simp)
    · exact refl s
  | release p n =>
    unfold State.step
    dsimp only
    split_ifs with hp
    · exact go s p (nextPhase_ne_raised n 0)
    · exact refl s
  | semaphoreP p =>
    unfold State.step
    dsimp only
    split
    · exact lockedP s p _
    · exact lockedP s p _
    · exact refl s
  | timedOut p | pollEmpty p =>
    unfold State.step
    dsimp only
    split_ifs with hp
    · exact go s p (by simp)
    · exact refl s
  | semaphoreV p =>
    unfold State.step
    dsimp only
    split
    · exact lockedV s p _ _
    · exact refl s
  | trigger p q =>
    unfold State.step
    dsimp only
    split
    · rename_i n k hp
      split_ifs with hnone
      · exact refl s
      · exact go s p (nextPhase_ne_raised n k)
    · rename_i n k q hp
      split
      · rename_i timeout hq
        exact trigger_some s p hq
      · exact refl s
    · exact refl s

end StepPromise

theorem inv_init (bounded : Bool) (initialSemValue : ℕ) :
    Inv bounded initialSemValue (State.init initialSemValue : State P) := by
  constructor
  · constructor
    · exact Nat.ModEq.refl _
    · exact fun _ => rfl
    · exact fun _ => le_rfl
    · exact fun p timeout hp => by cases hp
    · exact fun p n k hp => by cases hp
  · exact fun p n k hp => by cases hp

theorem inv_run {s : State P} (h : Inv bounded initialSemValue s) (moves : List (Move P)) :
    Inv bounded initialSemValue (moves.foldl (State.step bounded initialSemValue) s) := by
  induction moves generalizing s with
  | nil => exact h
  | cons move moves ih => exact ih (h.step move)

/-- **Semaphores.**  After any steps of any number of processes, the counter is what the increments
and the decrements make of its initial value, a bounded one is at most that value, and while a
process waits the counter is covered by triggers still to come and by processes that were woken.  A
`release(n)` that raises has done fewer than `n` increments, and finds the counter at the bound. -/
theorem promise_of_run (bounded : Bool) (initialSemValue : ℕ) (moves : List (Move P))
    (move : Move P) :
    Promise bounded initialSemValue
        (moves.foldl (State.step bounded initialSemValue) (.init initialSemValue)) ∧
      StepPromise bounded initialSemValue
        (moves.foldl (State.step bounded initialSemValue) (.init initialSemValue))
        (State.step bounded initialSemValue
          (moves.foldl (State.step bounded initialSemValue) (.init initialSemValue)) move) :=
  ⟨(inv_run (inv_init bounded initialSemValue) moves).toPromise, .step _ move⟩

end Steps

/-- The bounded semaphore of two, of which one unit was taken. -/
def oneTaken : State (Fin 1) :=
  [Move.acquire 0 .none, .semaphoreP 0].foldl (State.step true 2) (.init 2)

local instance neZeroThree : NeZero 3 := ⟨by decide⟩

/-- Two processes wait for a semaphore of zero, and the only unit wakes one of them. -/
def oneWoken : State (Fin 3) :=
  [Move.acquire 0 .none, .semaphoreP 0, .acquire 1 .none, .semaphoreP 1, .release 2 1,
    .semaphoreV 2, .trigger 2 (some 0)].foldl (State.step false 0) (.init 0)

/-- A `release(2)` raises and leaves the counter higher than before; a process waits while the
counter is positive and no trigger is to come; and an increment of `-1` as a `dragonULInt` is 0. -/
theorem release_raises_incremented :
    (oneTaken.value = 1 ∧
      ([Move.release 0 2, .semaphoreV 0, .trigger 0 none, .semaphoreV 0].foldl
        (State.step true 2) oneTaken).phase 0 = .raised 2 1 ∧
      ([Move.release 0 2, .semaphoreV 0, .trigger 0 none, .semaphoreV 0].foldl
        (State.step true 2) oneTaken).value = 2) ∧
    (oneWoken.value = 1 ∧ oneWoken.phase 1 = .waiting .none ∧
      ∀ p n k, oneWoken.phase p ≠ .triggering n k) ∧
    (([Move.release 0 1, .semaphoreV 0].foldl (State.step false (ulintModulus - 1))
        (.init (ulintModulus - 1)) : State (Fin 3)).value = 0 ∧
      ([Move.release 0 1, .semaphoreV 0].foldl (State.step false (ulintModulus - 1))
        (.init (ulintModulus - 1)) : State (Fin 3)).vSteps = 1) := by
  refine ⟨by decide, ⟨by decide, by decide, fun p n k => ?_⟩, by decide +kernel, by decide +kernel⟩
  fin_cases p
  · exact fun hcon => by cases hcon
  · exact fun hcon => by cases hcon
  · exact fun hcon => by cases hcon

end Semaphore
