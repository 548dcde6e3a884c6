/-
# Agreement of waits and triggers on a BCast

What holds along the runs of a BCast in which no step goes wrong (`Careful`).  The processes are
counted by what they are doing: those that were released and are still counted in `num_waiting`
(*active*), those that still have to count themselves in `num_triggered`, and those that wait and
were not released (*pending*).  The invariant ties these numbers to the counters of the BCast, for
each stage of the trigger that has the lock.

A step of a waiter leaves the numbers or lets them go down, unless it takes a ticket; a step of the
trigger changes them only where it marks a slot.
-/
import DragonRuntime.BCastWait

/-- Two sums that differ in one summand. -/
theorem sum_add_eq_of_eq_off {ι : Type*} [Fintype ι] [DecidableEq ι] {f g : ι → ℕ} (i : ι)
    (h : ∀ j, j ≠ i → f j = g j) : ∑ j, f j + g i = ∑ j, g j + f i := by
  have hrest : ∑ j ∈ Finset.univ.erase i, f j = ∑ j ∈ Finset.univ.erase i, g j :=
    Finset.sum_congr rfl fun j hj => h j (Finset.ne_of_mem_erase hj)
  have hf := Finset.add_sum_erase Finset.univ f (Finset.mem_univ i)
  have hg := Finset.add_sum_erase Finset.univ g (Finset.mem_univ i)
  omega

namespace BCastPhase

variable {sz : ℕ} {β : Type*}

/-- The slot of a spin waiter. -/
def spinIdx : BCastPhase sz β → Option (Fin sz)
  | .waiting _ (.spinning idx _) => some idx
  | _ => none

/-- The slot that a released spin waiter is about to clear. -/
def clearIdx : BCastPhase sz β → Option (Fin sz)
  | .released _ _ (.clearing idx) => some idx
  | _ => none

/-- Counted in `num_waiting`. -/
def registered : BCastPhase sz β → ℕ
  | .waiting _ _ | .released _ _ _ | .expired _ .withdrawing => 1
  | _ => 0

/-- Released, and still counted in `num_waiting`. -/
def active (spinList : Fin sz → SpinSlot) : BCastPhase sz β → ℕ
  | .waiting _ (.spinning idx _) => if spinList idx = .triggered then 1 else 0
  | .released _ _ _ => 1
  | _ => 0

/-- Still to be counted in `num_triggered`, and not in `num_waiting` any more. -/
def uncounted : BCastPhase sz β → ℕ
  | .counting _ _ _ => 1
  | _ => 0

/-- Waiting, and not released. -/
def pending (spinList : Fin sz → SpinSlot) : BCastPhase sz β → ℕ
  | .waiting _ (.spinning idx _) => if spinList idx = .triggered then 0 else 1
  | .waiting _ _ => 1
  | _ => 0

variable {phase : BCastPhase sz β}

/-- Only the slot of a spin waiter matters. -/
theorem active_congr {σ σ' : Fin sz → SpinSlot}
    (h : ∀ idx, phase.spinIdx = some idx → σ' idx = σ idx) : phase.active σ' = phase.active σ := by
  match phase, h with
  | .waiting _ (.spinning idx _), h =>
    show (if σ' idx = .triggered then 1 else 0) = if σ idx = .triggered then 1 else 0
    rw [h idx rfl]
  | .waiting _ .turning, _ | .waiting _ .dozing, _ | .waiting _ .switching, _ => rfl
  | .released _ _ _, _ | .out, _ | .pausing _ _, _ | .entering _ _, _ | .counting _ _ _, _ => rfl
  | .returned _ _ _, _ | .expired _ _, _ | .locking _, _ | .triggering, _ => rfl

theorem pending_congr {σ σ' : Fin sz → SpinSlot}
    (h : ∀ idx, phase.spinIdx = some idx → σ' idx = σ idx) :
    phase.pending σ' = phase.pending σ := by
  match phase, h with
  | .waiting _ (.spinning idx _), h =>
    show (if σ' idx = .triggered then 0 else 1) = if σ idx = .triggered then 0 else 1
    rw [h idx rfl]
  | .waiting _ .turning, _ | .waiting _ .dozing, _ | .waiting _ .switching, _ => rfl
  | .released _ _ _, _ | .out, _ | .pausing _ _, _ | .entering _ _, _ | .counting _ _ _, _ => rfl
  | .returned _ _ _, _ | .expired _ _, _ | .locking _, _ | .triggering, _ => rfl

theorem active_add_pending_le (σ : Fin sz → SpinSlot) (phase : BCastPhase sz β) :
    phase.active σ + phase.pending σ ≤ phase.registered := by
  match phase with
  | .waiting _ (.spinning idx _) =>
    show (if σ idx = .triggered then 1 else 0) + (if σ idx = .triggered then 0 else 1) ≤ 1
    split
    · exact le_rfl
    · exact le_rfl
  | .waiting _ .turning | .waiting _ .dozing | .waiting _ .switching => exact le_rfl
  | .released _ _ _ => exact le_rfl
  | .out | .pausing _ _ | .entering _ _ | .counting _ _ _ => exact Nat.zero_le _
  | .returned _ _ _ | .expired _ _ | .locking _ | .triggering => exact Nat.zero_le _

/-- In no count. -/
def idle : BCastPhase sz β → Bool
  | .waiting _ _ | .released _ _ _ | .counting _ _ _ | .expired _ .withdrawing => false
  | _ => true

theorem of_idle (h : phase.idle) (σ : Fin sz → SpinSlot) :
    phase.spinIdx = none ∧ phase.clearIdx = none ∧ phase.registered = 0 ∧ phase.active σ = 0 ∧
      phase.uncounted = 0 ∧ phase.pending σ = 0 := by
  match phase, h with
  | .out, _ | .pausing _ _, _ | .entering _ _, _ => exact ⟨rfl, rfl, rfl, rfl, rfl, rfl⟩
  | .returned _ _ _, _ | .locking _, _ | .triggering, _ => exact ⟨rfl, rfl, rfl, rfl, rfl, rfl⟩
  | .expired _ .uncounting, _ | .expired _ .clearing, _ => exact ⟨rfl, rfl, rfl, rfl, rfl, rfl⟩

end BCastPhase

/-- The stages after the payload was written. -/
def TriggerStage.written : TriggerStage → Bool
  | .checking | .loading | .writing _ => false
  | _ => true

/-- The numbers that the stages of a trigger are about. -/
structure Tally where
  active : ℕ
  uncounted : ℕ
  pending : ℕ
  triggered : ℕ
  released : ℕ
  allowable : ℤ

namespace Tally

/-- The number of waiters to release fits what was asked for. -/
def Tied (request : TriggerRequest) (n : ℕ) (t : Tally) : Prop :=
  (request = .all → t.pending + t.released ≤ n) ∧ ∀ m, request = .some m → n = m

/-- Nobody is on the way out with the payload, and nobody can take a ticket. -/
def Calm (t : Tally) : Prop := t.active = 0 ∧ t.allowable ≤ 0

/-- Everybody who counts in `num_triggered`, or will do so, was released by this trigger. -/
def Owed (t : Tally) : Prop := t.triggered + t.active + t.uncounted ≤ t.released

/-- What holds at a stage of a trigger. -/
def At (request : TriggerRequest) (t : Tally) : TriggerStage → Prop
  | .checking | .loading => t.Calm ∧ t.released = 0
  | .writing w | .resetting w => t.Calm ∧ t.released = 0 ∧ t.pending ≤ w
  | .starting w => t.Calm ∧ t.released = 0 ∧ t.pending ≤ w ∧ t.Owed
  | .sizing n => t.allowable ≤ 0 ∧ t.released = 0 ∧ t.Owed ∧ t.Tied request n
  | .scanning n k _ _ => t.allowable ≤ 0 ∧ t.released = k ∧ k ≤ n ∧ t.Owed ∧ t.Tied request n
  | .allowing n m => t.allowable ≤ 0 ∧ t.released + m = n ∧ t.Owed ∧ t.Tied request n
  | .counting n | .remaining n | .looping n =>
    t.released + t.allowable.toNat ≤ n ∧ t.Owed ∧ t.Tied request n
  | .completing n =>
    t.active = 0 ∧ t.released + t.allowable.toNat ≤ n ∧ (t.pending = 0 ∨ t.released = n) ∧
      t.Tied request n
  | .ending n | .unlocking n true =>
    t.Calm ∧ t.released ≤ n ∧ (t.pending = 0 ∨ t.released = n) ∧ t.Tied request n
  | .unlocking n false => t.Calm ∧ t.released ≤ n ∧ t.Tied request n

/-- The step of a waiter that takes no ticket. -/
structure Below (t' t : Tally) : Prop where
  active : t'.active ≤ t.active
  owed : t'.triggered + t'.active + t'.uncounted ≤ t.triggered + t.active + t.uncounted
  pending : t'.pending ≤ t.pending
  released : t'.released = t.released
  allowable : t'.allowable ≤ t.allowable

/-- The step of a waiter that takes a ticket. -/
structure Ticket (t' t : Tally) : Prop where
  active : t'.active = t.active + 1
  uncounted : t'.uncounted = t.uncounted
  pending : t'.pending + 1 = t.pending
  triggered : t'.triggered = t.triggered
  released : t'.released = t.released + 1
  allowable : t'.allowable = t.allowable - 1
  allowed : 0 < t.allowable

variable {request : TriggerRequest} {t t' : Tally}

variable {n : ℕ} {stage : TriggerStage}

theorem Below.tied (h : t'.Below t) (ht : t.Tied request n) : t'.Tied request n := by
  refine ⟨fun hall => ?_, ht.2⟩
  have hle := ht.1 hall
  have hpending := h.pending
  have hreleased := h.released
  omega

theorem Ticket.tied (h : t'.Ticket t) (ht : t.Tied request n) : t'.Tied request n := by
  refine ⟨fun hall => ?_, ht.2⟩
  have hle := ht.1 hall
  have hpending := h.pending
  have hreleased := h.released
  omega

theorem Below.calm (h : t'.Below t) (ht : t.Calm) : t'.Calm :=
  ⟨Nat.le_zero.mp (ht.1 ▸ h.active), h.allowable.trans ht.2⟩

theorem Below.owed' (h : t'.Below t) (ht : t.Owed) : t'.Owed := by
  have howed := h.owed
  have hreleased := h.released
  unfold Owed at ht ⊢
  omega

/-- Somebody is on the way out only after the payload was written. -/
theorem At.written_of_active (ht : t.At request stage) (hactive : 0 < t.active) :
    stage.written = true := by
  match stage, ht with
  | .checking, ht | .loading, ht => exact absurd ht.1.1 hactive.ne'
  | .writing w, ht => exact absurd ht.1.1 hactive.ne'
  | .resetting _, _ | .starting _, _ | .sizing _, _ | .scanning _ _ _ _, _ => rfl
  | .allowing _ _, _ | .counting _, _ | .remaining _, _ | .looping _, _ => rfl
  | .completing _, _ | .ending _, _ | .unlocking _ _, _ => rfl

/-- A step of a waiter that takes no ticket keeps what holds at a stage. -/
theorem At.below (h : t'.Below t) (ht : t.At request stage) : t'.At request stage := by
  have hreleased := h.released
  have hpending := h.pending
  have hallowable := h.allowable
  have hactive := h.active
  match stage, ht with
  | .checking, ht | .loading, ht => exact ⟨h.calm ht.1, hreleased.trans ht.2⟩
  | .writing w, ht | .resetting w, ht =>
    exact ⟨h.calm ht.1, hreleased.trans ht.2.1, hpending.trans ht.2.2⟩
  | .starting w, ht =>
    exact ⟨h.calm ht.1, hreleased.trans ht.2.1, hpending.trans ht.2.2.1, h.owed' ht.2.2.2⟩
  | .sizing n, ht =>
    exact ⟨hallowable.trans ht.1, hreleased.trans ht.2.1, h.owed' ht.2.2.1, h.tied ht.2.2.2⟩
  | .scanning n k _ _, ht =>
    exact ⟨hallowable.trans ht.1, hreleased.trans ht.2.1, ht.2.2.1, h.owed' ht.2.2.2.1,
      h.tied ht.2.2.2.2⟩
  | .allowing n m, ht =>
    exact ⟨hallowable.trans ht.1, by rw [hreleased]; exact ht.2.1, h.owed' ht.2.2.1,
      h.tied ht.2.2.2⟩
  | .counting n, ht | .remaining n, ht | .looping n, ht =>
    refine ⟨?_, h.owed' ht.2.1, h.tied ht.2.2⟩
    have hle := ht.1
    omega
  | .completing n, ht =>
    obtain ⟨hzero, hle, hdone, htied⟩ := ht
    exact ⟨by omega, by omega, by omega, h.tied htied⟩
  | .ending n, ht | .unlocking n true, ht =>
    obtain ⟨hcalm, hle, hdone, htied⟩ := ht
    exact ⟨h.calm hcalm, by omega, by omega, h.tied htied⟩
  | .unlocking n false, ht =>
    exact ⟨h.calm ht.1, hreleased.trans_le ht.2.1, h.tied ht.2.2⟩

/-- No more waiters are released than were asked for. -/
theorem At.released_le (ht : t.At (.some n) stage) : t.released ≤ n := by
  match stage, ht with
  | .checking, ht | .loading, ht => exact ht.2.le.trans (Nat.zero_le n)
  | .writing w, ht | .resetting w, ht | .starting w, ht => exact ht.2.1.le.trans (Nat.zero_le n)
  | .sizing m, ht => exact ht.2.1.le.trans (Nat.zero_le n)
  | .scanning m k _ _, ht =>
    have heq := ht.2.2.2.2.2 n rfl
    exact heq ▸ ht.2.1.le.trans ht.2.2.1
  | .allowing m k, ht =>
    have heq := ht.2.2.2.2 n rfl
    have hsum := ht.2.1
    omega
  | .counting m, ht | .remaining m, ht | .looping m, ht =>
    have heq := ht.2.2.2 n rfl
    have hsum := ht.1
    omega
  | .completing m, ht =>
    have heq := ht.2.2.2.2 n rfl
    have hsum := ht.2.1
    omega
  | .ending m, ht | .unlocking m true, ht =>
    have heq := ht.2.2.2.2 n rfl
    exact heq ▸ ht.2.1
  | .unlocking m false, ht =>
    have heq := ht.2.2.2 n rfl
    exact heq ▸ ht.2.1

/-- A ticket is taken only while the trigger waits for its waiters. -/
theorem At.ticket (h : t'.Ticket t) (ht : t.At request stage) : t'.At request stage := by
  have hreleased := h.released
  have hpending := h.pending
  have hallowable := h.allowable
  have hactive := h.active
  have hallowed := h.allowed
  have huncounted := h.uncounted
  have htriggered := h.triggered
  match stage, ht with
  | .checking, ht | .loading, ht => exact absurd ht.1.2 (not_le.mpr hallowed)
  | .writing w, ht | .resetting w, ht => exact absurd ht.1.2 (not_le.mpr hallowed)
  | .starting w, ht => exact absurd ht.1.2 (not_le.mpr hallowed)
  | .sizing n, ht => exact absurd ht.1 (not_le.mpr hallowed)
  | .scanning n k _ _, ht => exact absurd ht.1 (not_le.mpr hallowed)
  | .allowing n m, ht => exact absurd ht.1 (not_le.mpr hallowed)
  | .counting n, ht | .remaining n, ht | .looping n, ht =>
    obtain ⟨hle, howed, htied⟩ := ht
    unfold Owed at howed
    refine ⟨by omega, ?_, h.tied htied⟩
    unfold Owed
    omega
  | .completing n, ht =>
    obtain ⟨-, hle, hdone, -⟩ := ht
    omega
  | .ending n, ht | .unlocking n true, ht => exact absurd ht.1.2 (not_le.mpr hallowed)
  | .unlocking n false, ht => exact absurd ht.1.2 (not_le.mpr hallowed)

end Tally

/-- What a wait returns fits the payload. -/
def WaitResult.Matches {β : Type*} (payload : List β) : WaitResult β → Prop
  | .success payload' => payload' = payload
  | .invalidArgument => True

namespace BCast

variable {P β : Type*} {sz : ℕ} [DecidableEq P]

/-! ## The invariant -/

/-- A slot that is not free belongs to one spin waiter. -/
structure Slots (s : BCast P β sz) : Prop where
  taken : ∀ p idx, (s.phase p).spinIdx = some idx → s.spinList idx ≠ .free
  spinner : ∀ idx, s.spinList idx = .waiting → ∃ p, (s.phase p).spinIdx = some idx
  unique : ∀ p q idx, (s.phase p).spinIdx = some idx → (s.phase q).spinIdx = some idx → p = q
  leaver : ∀ p q idx, (s.phase p).clearIdx = some idx → (s.phase q).spinIdx ≠ some idx
  marked : ∀ p idx, (s.phase p).spinIdx = some idx → s.spinList idx = .triggered →
    s.triggeredBy idx = s.serial

/-- A process that was released knows by which trigger. -/
def CauseOk (s : BCast P β sz) : BCastPhase sz β → Prop
  | .waiting reg _ => reg.time ≤ s.serial ∧ (s.lock ≠ .free → reg.time < s.serial)
  | .released reg cause l => cause = some s.serial ∧ reg.time < s.serial ∧
      ∀ result, l = .departing result → result.Matches (s.payloadOf s.serial)
  | .counting reg cause result | .returned reg cause result =>
    ∃ t, cause = some t ∧ reg.time < t ∧ t ≤ s.serial ∧ result.Matches (s.payloadOf t)
  | _ => True

/-- The triggers so far. -/
structure History (s : BCast P β sz) : Prop where
  bounds : ∀ t n, s.requestOf t = .some n → s.releasedOf t ≤ n
  fresh : ∀ t, s.serial < t → s.releasedOf t = 0
  past : ∀ t ∈ s.succeeded, t ≤ s.serial
  releases : ∀ t ∈ s.succeeded, (∃ n, s.requestOf t = .some n ∧ s.releasedOf t = n) ∨
    ∀ p time, s.Pending p time → t ≤ time

section Totals

variable [Fintype P]

def numRegistered (s : BCast P β sz) : ℕ := ∑ p, (s.phase p).registered

def numActive (s : BCast P β sz) : ℕ := ∑ p, (s.phase p).active s.spinList

def numUncounted (s : BCast P β sz) : ℕ := ∑ p, (s.phase p).uncounted

def numPending (s : BCast P β sz) : ℕ := ∑ p, (s.phase p).pending s.spinList

def tally (s : BCast P β sz) : Tally :=
  ⟨s.numActive, s.numUncounted, s.numPending, s.numTriggered, s.releasedOf s.serial,
    s.allowableCount⟩

/-- What holds for the trigger that has the lock. -/
def LockOk (s : BCast P β sz) : Prop :=
  match s.lock with
  | .free | .lost => s.tally.Calm
  | .held _ call stage => s.requestOf s.serial = call.request ∧
      s.payloadOf s.serial = call.payload ∧ s.tally.At call.request stage ∧
      (stage.written → s.payload = call.payload)

/-- The invariant. -/
structure Kept (s : BCast P β sz) : Prop where
  num : s.numWaiting = s.numRegistered
  slots : s.Slots
  causes : ∀ p, s.CauseOk (s.phase p)
  history : s.History
  allowed : 0 < s.allowableCount → s.allowedBy = s.serial
  lock : s.LockOk

end Totals

/-- The steps that do not go wrong.  A waiter does not take a ticket at the least value of the
allowance; a spin waiter that has timed out does not clear a slot that another one has taken; no
trigger resets `num_triggered` before everybody that was released before has counted itself; and no
trigger times out while somebody it has released is on the way out or its allowance is not used
up. -/
def Careful [Fintype P] (s : BCast P β sz) (step : P × Action β) : Prop :=
  match step.2, s.phase step.1, s.lock with
  | .advance, .waiting _ .turning, _ => s.allowableCount ≠ intMin
  | .advance, .expired idx .clearing, _ => s.spinList idx = .free
  | .advance, .triggering, .held _ _ (.resetting _) => s.numUncounted = 0
  | .expire, .triggering, .held _ _ (.looping _) => s.numActive = 0 ∧ s.allowableCount ≤ 0
  | _, _, _ => True

omit [DecidableEq P] in
theorem slots_init (payloadAreaSz : ℕ) : (init payloadAreaSz : BCast P β sz).Slots where
  taken _ _ hspin := nomatch hspin
  spinner _ hslot := nomatch hslot
  unique _ _ _ hspin := nomatch hspin
  leaver _ _ _ hclear := nomatch hclear
  marked _ _ hspin := nomatch hspin

omit [DecidableEq P] in
theorem history_init (payloadAreaSz : ℕ) : (init payloadAreaSz : BCast P β sz).History where
  bounds _ _ _ := Nat.zero_le _
  fresh _ _ := rfl
  past _ ht := absurd ht (Finset.notMem_empty _)
  releases _ ht := absurd ht (Finset.notMem_empty _)

omit [DecidableEq P] in
theorem kept_init [Fintype P] (payloadAreaSz : ℕ) :
    (init payloadAreaSz : BCast P β sz).Kept where
  num := (Finset.sum_eq_zero fun _ _ => rfl).symm
  slots := slots_init payloadAreaSz
  causes _ := trivial
  history := history_init payloadAreaSz
  allowed h := absurd h (lt_irrefl 0)
  lock := ⟨Finset.sum_eq_zero fun _ _ => rfl, le_rfl⟩

/-! ## A move of one process -/

/-- One process goes to another phase, and no slot of another spin waiter is touched. -/
structure Moves (s s' : BCast P β sz) (p : P) (phase : BCastPhase sz β) : Prop where
  phase : s'.phase = Function.update s.phase p phase
  slots : ∀ q, q ≠ p → ∀ idx, (s.phase q).spinIdx = some idx → s'.spinList idx = s.spinList idx

variable {s s' : BCast P β sz} {p : P} {phase : BCastPhase sz β}

theorem Moves.phase_self (h : s.Moves s' p phase) : s'.phase p = phase := by
  rw [h.phase, Function.update_self]

theorem Moves.phase_of_ne (h : s.Moves s' p phase) {q : P} (hq : q ≠ p) :
    s'.phase q = s.phase q := by
  rw [h.phase, Function.update_of_ne hq]

theorem Moves.pending_iff_of_ne (h : s.Moves s' p phase) {q : P} (hq : q ≠ p) (time : ℕ) :
    s'.Pending q time ↔ s.Pending q time := by
  unfold Pending
  rw [h.phase_of_ne hq]
  refine exists_congr fun reg => exists_congr fun w => and_congr_right fun hwait =>
    and_congr_right fun _ => ?_
  refine forall_congr' fun idx => forall_congr' fun adaptive => forall_congr' fun hspin => ?_
  rw [h.slots q hq idx (by rw [hwait, hspin]; rfl)]

/-- The slots after a process has left the spin list, or was not in it. -/
theorem Slots.move (h : s.Slots) (hmove : s.Moves s' p phase) (hspin : phase.spinIdx = none)
    (hclear : ∀ idx, phase.clearIdx = some idx → (s.phase p).spinIdx = some idx)
    (hwaiting : ∀ idx, s'.spinList idx = .waiting →
      s.spinList idx = .waiting ∧ (s.phase p).spinIdx ≠ some idx)
    (hserial : s'.serial = s.serial) (hby : s'.triggeredBy = s.triggeredBy) : s'.Slots := by
  have hother : ∀ q idx, (s'.phase q).spinIdx = some idx →
      q ≠ p ∧ (s.phase q).spinIdx = some idx := by
    intro q idx hq
    by_cases heq : q = p
    · subst heq
      rw [hmove.phase_self, hspin] at hq
      exact nomatch hq
    · rw [hmove.phase_of_ne heq] at hq
      exact ⟨heq, hq⟩
  refine ⟨?_, ?_, ?_, ?_, ?_⟩
  · intro q idx hq
    obtain ⟨hne, hq⟩ := hother q idx hq
    rw [hmove.slots q hne idx hq]
    exact h.taken q idx hq
  · intro idx hslot
    obtain ⟨hslot, hself⟩ := hwaiting idx hslot
    obtain ⟨q, hq⟩ := h.spinner idx hslot
    have hne : q ≠ p := by
      rintro rfl
      exact hself hq
    exact ⟨q, by rw [hmove.phase_of_ne hne]; exact hq⟩
  · intro q q' idx hq hq'
    exact h.unique q q' idx (hother q idx hq).2 (hother q' idx hq').2
  · intro q q' idx hq hq'
    obtain ⟨hne', hq'⟩ := hother q' idx hq'
    by_cases heq : q = p
    · subst heq
      rw [hmove.phase_self] at hq
      exact hne' (h.unique q' q idx hq' (hclear idx hq))
    · rw [hmove.phase_of_ne heq] at hq
      exact h.leaver q q' idx hq hq'
  · intro q idx hq hslot
    obtain ⟨hne, hq⟩ := hother q idx hq
    rw [hmove.slots q hne idx hq] at hslot
    rw [hserial, hby]
    exact h.marked q idx hq hslot

/-- The triggers after a move that releases nobody. -/
theorem History.move (h : s.History) (hmove : s.Moves s' p phase)
    (hpending : ∀ time, s'.Pending p time → s.Pending p time ∨ time = s.serial)
    (hserial : s'.serial = s.serial) (hrequest : s'.requestOf = s.requestOf)
    (hreleased : s'.releasedOf = s.releasedOf) (hsucceeded : s'.succeeded = s.succeeded) :
    s'.History := by
  refine ⟨?_, ?_, ?_, ?_⟩
  · rw [hrequest, hreleased]
    exact h.bounds
  · rw [hserial, hreleased]
    exact h.fresh
  · rw [hserial, hsucceeded]
    exact h.past
  · intro t ht
    rw [hsucceeded] at ht
    rw [hrequest, hreleased]
    refine (h.releases t ht).imp_right fun hnone q time hq => ?_
    by_cases heq : q = p
    · subst heq
      rcases hpending time hq with hq | rfl
      · exact hnone q time hq
      · exact h.past t ht
    · exact hnone q time ((hmove.pending_iff_of_ne heq time).mp hq)

/-- What is known about the phases after a move. -/
theorem causes_of_move (h : ∀ q, s.CauseOk (s.phase q)) (hmove : s.Moves s' p phase)
    (hphase : s'.CauseOk phase) (hok : ∀ phase, s.CauseOk phase → s'.CauseOk phase) (q : P) :
    s'.CauseOk (s'.phase q) := by
  by_cases heq : q = p
  · subst heq
    rw [hmove.phase_self]
    exact hphase
  · rw [hmove.phase_of_ne heq]
    exact hok _ (h q)

section Totals

variable [Fintype P]

theorem Moves.numRegistered (h : s.Moves s' p phase) :
    s'.numRegistered + (s.phase p).registered = s.numRegistered + phase.registered := by
  have hsum := sum_add_eq_of_eq_off (f := fun q => (s'.phase q).registered)
    (g := fun q => (s.phase q).registered) p fun q hq => by simp only [h.phase_of_ne hq]
  simp only [h.phase_self] at hsum
  exact hsum

theorem Moves.numUncounted (h : s.Moves s' p phase) :
    s'.numUncounted + (s.phase p).uncounted = s.numUncounted + phase.uncounted := by
  have hsum := sum_add_eq_of_eq_off (f := fun q => (s'.phase q).uncounted)
    (g := fun q => (s.phase q).uncounted) p fun q hq => by simp only [h.phase_of_ne hq]
  simp only [h.phase_self] at hsum
  exact hsum

theorem Moves.numActive (h : s.Moves s' p phase) :
    s'.numActive + (s.phase p).active s.spinList = s.numActive + phase.active s'.spinList := by
  have hsum := sum_add_eq_of_eq_off (f := fun q => (s'.phase q).active s'.spinList)
    (g := fun q => (s.phase q).active s.spinList) p fun q hq => by
      simp only [h.phase_of_ne hq]
      exact BCastPhase.active_congr (h.slots q hq)
  simp only [h.phase_self] at hsum
  exact hsum

theorem Moves.numPending (h : s.Moves s' p phase) :
    s'.numPending + (s.phase p).pending s.spinList = s.numPending + phase.pending s'.spinList := by
  have hsum := sum_add_eq_of_eq_off (f := fun q => (s'.phase q).pending s'.spinList)
    (g := fun q => (s.phase q).pending s.spinList) p fun q hq => by
      simp only [h.phase_of_ne hq]
      exact BCastPhase.pending_congr (h.slots q hq)
  simp only [h.phase_self] at hsum
  exact hsum

/-- What a step of a waiter leaves as it is. -/
structure Frame (s s' : BCast P β sz) : Prop where
  lock : s'.lock = s.lock
  serial : s'.serial = s.serial
  requestOf : s'.requestOf = s.requestOf
  payloadOf : s'.payloadOf = s.payloadOf
  payload : s'.payload = s.payload
  succeeded : s'.succeeded = s.succeeded
  triggeredBy : s'.triggeredBy = s.triggeredBy
  allowedBy : s'.allowedBy = s.allowedBy

omit [DecidableEq P] [Fintype P] in
theorem Frame.causeOk (h : s.Frame s') {phase : BCastPhase sz β} (hphase : s.CauseOk phase) :
    s'.CauseOk phase := by
  match phase, hphase with
  | .waiting reg w, hphase =>
    unfold CauseOk
    rw [h.serial, h.lock]
    exact hphase
  | .released reg cause l, hphase =>
    unfold CauseOk
    rw [h.serial, h.payloadOf]
    exact hphase
  | .counting reg cause result, hphase | .returned reg cause result, hphase =>
    unfold CauseOk
    rw [h.serial, h.payloadOf]
    exact hphase
  | .out, _ | .pausing _ _, _ | .entering _ _, _ | .expired _ _, _ => trivial
  | .locking _, _ | .triggering, _ => trivial

omit [DecidableEq P] in
theorem Frame.lockOk (h : s.Frame s') (hok : s.LockOk)
    (hcalm : s.tally.Calm → s'.tally.Calm)
    (hat : ∀ request stage, s.tally.At request stage → s'.tally.At request stage) :
    s'.LockOk := by
  unfold LockOk at hok ⊢
  rw [h.lock, h.serial, h.requestOf, h.payloadOf, h.payload]
  match s.lock, hok with
  | .free, hok | .lost, hok => exact hcalm hok
  | .held _ call stage, hok => exact ⟨hok.1, hok.2.1, hat _ _ hok.2.2.1, hok.2.2.2⟩

/-- A step of a waiter that takes no ticket and does not enter the spin list. -/
theorem Kept.quiet (h : s.Kept) (hmove : s.Moves s' p phase) (hframe : s.Frame s')
    (hreleased : s'.releasedOf = s.releasedOf) (hallowable : s'.allowableCount ≤ s.allowableCount)
    (hspin : phase.spinIdx = none)
    (hclear : ∀ idx, phase.clearIdx = some idx → (s.phase p).spinIdx = some idx)
    (hwaiting : ∀ idx, s'.spinList idx = .waiting →
      s.spinList idx = .waiting ∧ (s.phase p).spinIdx ≠ some idx)
    (hnum : s'.numWaiting + (s.phase p).registered = s.numWaiting + phase.registered)
    (hactive : phase.active s'.spinList ≤ (s.phase p).active s.spinList)
    (howed : s'.numTriggered + phase.active s'.spinList + phase.uncounted
      ≤ s.numTriggered + (s.phase p).active s.spinList + (s.phase p).uncounted)
    (hcount : phase.pending s'.spinList ≤ (s.phase p).pending s.spinList)
    (hcause : s.CauseOk phase)
    (hpending : ∀ time, s'.Pending p time → s.Pending p time) : s'.Kept := by
  have hbelow : s'.tally.Below s.tally := by
    have h₁ := hmove.numActive
    have h₂ := hmove.numUncounted
    have h₃ := hmove.numPending
    refine ⟨?_, ?_, ?_, ?_, hallowable⟩
    · show s'.numActive ≤ s.numActive
      omega
    · show s'.numTriggered + s'.numActive + s'.numUncounted
        ≤ s.numTriggered + s.numActive + s.numUncounted
      omega
    · show s'.numPending ≤ s.numPending
      omega
    · show s'.releasedOf s'.serial = s.releasedOf s.serial
      rw [hreleased, hframe.serial]
  refine ⟨?_, ?_, ?_, ?_, ?_, ?_⟩
  · have hregistered := hmove.numRegistered
    have hbefore := h.num
    omega
  · exact h.slots.move hmove hspin hclear hwaiting hframe.serial hframe.triggeredBy
  · exact causes_of_move h.causes hmove (hframe.causeOk hcause) fun _ hok => hframe.causeOk hok
  · exact h.history.move hmove (fun time hp => .inl (hpending time hp)) hframe.serial
      hframe.requestOf hreleased hframe.succeeded
  · intro hpos
    rw [hframe.allowedBy, hframe.serial]
    exact h.allowed (hpos.trans_le hallowable)
  · exact hframe.lockOk h.lock hbelow.calm fun request stage hat => hat.below hbelow

omit [DecidableEq P] in
/-- `spin_list_count` and the flag `triggering` have no part in the invariant. -/
theorem Kept.setUnseen (h : s.Kept) (spinListCount : ℕ) (triggering : Bool) :
    { s with spinListCount := spinListCount, triggering := triggering }.Kept := by
  obtain ⟨hnum, hslots, hcauses, hhistory, hallowed, hlock⟩ := h
  refine ⟨hnum, ?_, ?_, ?_, hallowed, hlock⟩
  · exact ⟨hslots.taken, hslots.spinner, hslots.unique, hslots.leaver, hslots.marked⟩
  · intro p
    exact Frame.causeOk ⟨rfl, rfl, rfl, rfl, rfl, rfl, rfl, rfl⟩ (hcauses p)
  · exact ⟨hhistory.bounds, hhistory.fresh, hhistory.past, hhistory.releases⟩

/-! ## The steps of the waiters -/

/-- A step of a waiter that has no slot before it and after it, and takes no ticket. -/
theorem Kept.step (h : s.Kept) (p : P) (phase : BCastPhase sz β)
    (hphase : s'.phase = Function.update s.phase p phase)
    (hslots : s'.spinList = s.spinList) (hframe : s.Frame s')
    (hreleased : s'.releasedOf = s.releasedOf) (hallowable : s'.allowableCount ≤ s.allowableCount)
    (hbefore : (s.phase p).spinIdx = none) (hspin : phase.spinIdx = none)
    (hclear : phase.clearIdx = none)
    (hnum : s'.numWaiting + (s.phase p).registered = s.numWaiting + phase.registered)
    (hactive : phase.active s.spinList ≤ (s.phase p).active s.spinList)
    (howed : s'.numTriggered + phase.active s.spinList + phase.uncounted
      ≤ s.numTriggered + (s.phase p).active s.spinList + (s.phase p).uncounted)
    (hcount : phase.pending s.spinList ≤ (s.phase p).pending s.spinList)
    (hcause : s.CauseOk phase)
    (hpending : ∀ time, s'.Pending p time → s.Pending p time) : s'.Kept := by
  refine h.quiet ⟨hphase, fun q hq idx _ => by rw [hslots]⟩ hframe hreleased hallowable hspin ?_ ?_
    hnum ?_ ?_ ?_ hcause hpending
  · intro idx hidx
    rw [hclear] at hidx
    exact nomatch hidx
  · intro idx hslot
    rw [hslots] at hslot
    refine ⟨hslot, ?_⟩
    rw [hbefore]
    exact nofun
  · rw [hslots]
    exact hactive
  · rw [hslots]
    exact howed
  · rw [hslots]
    exact hcount

omit [DecidableEq P] [Fintype P] in
theorem not_pending_of_phase (hphase : s.phase p = phase) (hne : ∀ reg w, phase ≠ .waiting reg w)
    (time : ℕ) : ¬ s.Pending p time := by
  rintro ⟨reg, w, hwait, -⟩
  exact hne reg w (hphase.symm.trans hwait)

theorem Kept.setPhase_idle (h : s.Kept) (hbefore : (s.phase p).idle) (hafter : phase.idle)
    (hcause : s.CauseOk phase) : (s.setPhase p phase).Kept := by
  obtain ⟨hspin, hclear, hregistered, hactive, huncounted, hpending⟩ :=
    BCastPhase.of_idle hafter s.spinList
  obtain ⟨hspin', -, hregistered', hactive', huncounted', hpending'⟩ :=
    BCastPhase.of_idle hbefore s.spinList
  refine h.step p phase rfl rfl ⟨rfl, rfl, rfl, rfl, rfl, rfl, rfl, rfl⟩ rfl
    le_rfl hspin' hspin hclear ?_ ?_ ?_ ?_ hcause ?_
  · rw [hregistered, hregistered']
    rfl
  · rw [hactive]
    exact Nat.zero_le _
  · rw [hactive, hactive', huncounted, huncounted']
    exact le_rfl
  · rw [hpending]
    exact Nat.zero_le _
  · intro time hpend
    refine absurd hpend (not_pending_of_phase (Function.update_self ..) ?_ time)
    rintro reg w rfl
    exact nomatch hafter

omit [DecidableEq P] in
/-- Somebody is on the way out, or can take a ticket, only while a trigger has the lock. -/
theorem LockOk.held_of_not_calm (h : s.LockOk) (hnot : ¬ s.tally.Calm) :
    ∃ q call stage, s.lock = .held q call stage ∧ s.requestOf s.serial = call.request ∧
      s.payloadOf s.serial = call.payload ∧ s.tally.At call.request stage ∧
      (stage.written → s.payload = call.payload) := by
  unfold LockOk at h
  match hlock : s.lock, h with
  | .free, h | .lost, h => exact absurd h hnot
  | .held q call stage, h => exact ⟨q, call, stage, rfl, h⟩

theorem fetchDecr_of_ne {count : ℤ} (h : count ≠ intMin) : fetchDecr count = count - 1 := if_neg h

variable {reg : Registration} {w : Waiting sz} {adaptive : Bool} {idx : Fin sz} {cause : Option ℕ}
  {call : TriggerCall β} {stage : TriggerStage} {n : ℕ}

theorem Kept.ticket (h : s.Kept) (hphase : s.phase p = .waiting reg .turning)
    (hpos : 0 < s.allowableCount) : (s.turn p reg).Kept := by
  have hdecr : fetchDecr s.allowableCount = s.allowableCount - 1 := by
    refine fetchDecr_of_ne ?_
    intro heq
    rw [heq] at hpos
    exact absurd hpos (by decide)
  have hby := h.allowed hpos
  obtain ⟨s', hs'⟩ : ∃ s', s.turn p reg = s' := ⟨_, rfl⟩
  rw [hs']
  unfold turn at hs'
  rw [if_pos hpos, hdecr] at hs'
  have hmove : s.Moves s' p (.released reg (some s.serial) .reading) := by
    subst hs'
    rw [← hby]
    exact ⟨rfl, fun q hq idx _ => rfl⟩
  have hframe : s.Frame s' := by
    subst hs'
    exact ⟨rfl, rfl, rfl, rfl, rfl, rfl, rfl, rfl⟩
  have hticket : s'.tally.Ticket s.tally := by
    have h₁ := hmove.numActive
    have h₂ := hmove.numUncounted
    have h₃ := hmove.numPending
    rw [hphase] at h₁ h₂ h₃
    have hreleased : s'.releasedOf s'.serial = s.releasedOf s.serial + 1 := by
      subst hs'
      show Function.update s.releasedOf s.allowedBy (s.releasedOf s.allowedBy + 1) s.serial = _
      rw [hby, Function.update_self]
    have hcount : s'.allowableCount = s.allowableCount - 1 := by
      subst hs'
      rfl
    have htriggered : s'.numTriggered = s.numTriggered := by
      subst hs'
      rfl
    exact ⟨h₁, h₂, h₃, htriggered, hreleased, hcount, hpos⟩
  have hnotCalm : ¬ s.tally.Calm := fun hcalm => absurd hcalm.2 (not_le.mpr hpos)
  obtain ⟨q, call, stage, hlock, hrequest, -, hat, -⟩ := h.lock.held_of_not_calm hnotCalm
  have hbounds : ∀ n, s.requestOf s.serial = .some n → s.releasedOf s.serial + 1 ≤ n := by
    intro n hn
    rw [hrequest] at hn
    have hat' := hat.ticket hticket
    rw [hn] at hat'
    have hle := hat'.released_le
    rw [hticket.released] at hle
    exact hle
  have hreleasedOf : s'.releasedOf
      = Function.update s.releasedOf s.serial (s.releasedOf s.serial + 1) := by
    rw [← hby]
    subst hs'
    rfl
  refine ⟨?_, ?_, ?_, ⟨?_, ?_, ?_, ?_⟩, ?_, ?_⟩
  · have hregistered := hmove.numRegistered
    rw [hphase] at hregistered
    have hnum : s'.numWaiting = s.numWaiting := by
      subst hs'
      rfl
    exact hnum.trans (h.num.trans (Nat.add_right_cancel hregistered).symm)
  · refine h.slots.move hmove rfl (fun idx hidx => nomatch hidx) ?_ hframe.serial
      hframe.triggeredBy
    intro idx hslot
    have hlist : s'.spinList = s.spinList := by
      subst hs'
      rfl
    rw [hlist] at hslot
    refine ⟨hslot, ?_⟩
    rw [hphase]
    exact nofun
  · refine causes_of_move h.causes hmove ?_ fun _ hok => hframe.causeOk hok
    have htime := h.causes p
    rw [hphase] at htime
    have hne : s.lock ≠ .free := by
      rw [hlock]
      exact nofun
    refine hframe.causeOk ⟨rfl, htime.2 hne, fun result hresult => nomatch hresult⟩
  · intro t n hn
    rw [hframe.requestOf] at hn
    rw [hreleasedOf]
    by_cases ht : t = s.serial
    · subst ht
      rw [Function.update_self]
      exact hbounds n hn
    · rw [Function.update_of_ne ht]
      exact h.history.bounds t n hn
  · intro t ht
    rw [hframe.serial] at ht
    rw [hreleasedOf, Function.update_of_ne ht.ne']
    exact h.history.fresh t ht
  · rw [hframe.succeeded, hframe.serial]
    exact h.history.past
  · intro t ht
    rw [hframe.succeeded] at ht
    rw [hframe.requestOf, hreleasedOf]
    refine (h.history.releases t ht).imp ?_ ?_
    · rintro ⟨n, hn, hreleased⟩
      refine ⟨n, hn, ?_⟩
      rw [Function.update_of_ne, hreleased]
      -- a trigger with a waiter to release is not done
      rintro rfl
      have hlt := hbounds n hn
      omega
    · intro hnone q time hq
      by_cases heq : q = p
      · subst heq
        exact absurd hq (not_pending_of_phase hmove.phase_self nofun time)
      · exact hnone q time ((hmove.pending_iff_of_ne heq time).mp hq)
  · intro _
    rw [hframe.allowedBy, hframe.serial]
    exact hby
  · exact hframe.lockOk h.lock (fun hcalm => absurd hcalm hnotCalm)
      fun request stage hat => hat.ticket hticket

omit [DecidableEq P] [Fintype P] in
/-- A waiter that goes on waiting was pending before. -/
theorem pending_of_reg {w' : Waiting sz} (hafter : s'.phase p = .waiting reg w')
    (hbefore : s.phase p = .waiting reg w)
    (hw : ∀ idx adaptive, w = .spinning idx adaptive → s.spinList idx ≠ .triggered) (time : ℕ)
    (h : s'.Pending p time) : s.Pending p time := by
  obtain ⟨reg', w'', hphase, htime, -⟩ := h
  rw [hafter] at hphase
  cases hphase
  exact ⟨reg, w, hbefore, htime, hw⟩

omit [DecidableEq P] in
theorem Kept.numWaiting_pos (h : s.Kept) (hp : (s.phase p).registered = 1) :
    s.numWaiting - 1 + 1 = s.numWaiting := by
  have hle : (s.phase p).registered ≤ s.numRegistered :=
    Finset.single_le_sum (f := fun q => (s.phase q).registered) (fun _ _ => Nat.zero_le _)
      (Finset.mem_univ p)
  have hnum := h.num
  omega

omit [DecidableEq P] in
theorem le_numActive (s : BCast P β sz) (p : P) :
    (s.phase p).active s.spinList ≤ s.numActive :=
  Finset.single_le_sum (f := fun q => (s.phase q).active s.spinList) (fun _ _ => Nat.zero_le _)
    (Finset.mem_univ p)

omit [DecidableEq P] in
/-- A process on the way out was released by the trigger that has the lock. -/
theorem Kept.held_of_active (h : s.Kept) (hp : (s.phase p).active s.spinList = 1) :
    s.lock ≠ .free ∧ s.payload = s.payloadOf s.serial := by
  have hpos : 0 < s.tally.active := by
    have hle := le_numActive s p
    rw [hp] at hle
    exact hle
  have hnotCalm : ¬ s.tally.Calm := fun hcalm => absurd hcalm.1 hpos.ne'
  obtain ⟨q, call, stage, hlock, -, hpayload, hat, hwritten⟩ := h.lock.held_of_not_calm hnotCalm
  refine ⟨?_, ?_⟩
  · rw [hlock]
    exact nofun
  · rw [hpayload]
    exact hwritten (hat.written_of_active hpos)

/-- A turn without a ticket. -/
theorem Kept.doze (h : s.Kept) (hphase : s.phase p = .waiting reg .turning)
    (hle : s.allowableCount ≤ 0) (hcareful : s.allowableCount ≠ intMin) : (s.turn p reg).Kept := by
  have hcause := h.causes p
  rw [hphase] at hcause
  unfold turn
  rw [if_neg (not_lt.mpr hle), fetchDecr_of_ne hcareful]
  refine h.step p (.waiting reg .dozing) rfl rfl
    ⟨rfl, rfl, rfl, rfl, rfl, rfl, rfl, rfl⟩ rfl ?_ ?_ rfl rfl ?_ ?_ ?_ ?_ hcause ?_
  · exact sub_le_self _ zero_le_one
  · rw [hphase]
    rfl
  · rw [hphase]
    rfl
  · exact Nat.zero_le _
  · rw [hphase]
    exact le_rfl
  · rw [hphase]
    exact le_rfl
  · exact pending_of_reg (Function.update_self ..) hphase nofun

/-- An idle waiter, or an adaptive one that has given up its slot, takes the next turn. -/
theorem Kept.setTurning (h : s.Kept) (hphase : s.phase p = .waiting reg w)
    (hw : w = .dozing ∨ w = .switching) : (s.setPhase p (.waiting reg .turning)).Kept := by
  have hcause := h.causes p
  rw [hphase] at hcause
  have hspin : ∀ idx adaptive, w ≠ .spinning idx adaptive := by
    rcases hw with rfl | rfl
    · exact nofun
    · exact nofun
  have hweights : (s.phase p).spinIdx = none ∧ (s.phase p).registered = 1 ∧
      (s.phase p).active s.spinList = 0 ∧ (s.phase p).uncounted = 0 ∧
      (s.phase p).pending s.spinList = 1 := by
    rw [hphase]
    rcases hw with rfl | rfl
    · exact ⟨rfl, rfl, rfl, rfl, rfl⟩
    · exact ⟨rfl, rfl, rfl, rfl, rfl⟩
  obtain ⟨hidx, hregistered, hactive, huncounted, hcount⟩ := hweights
  refine h.step p (.waiting reg .turning) rfl rfl
    ⟨rfl, rfl, rfl, rfl, rfl, rfl, rfl, rfl⟩ rfl le_rfl hidx rfl rfl ?_ ?_ ?_ ?_ hcause ?_
  · rw [hregistered]
    rfl
  · exact Nat.zero_le _
  · rw [hactive, huncounted]
    exact le_rfl
  · rw [hcount]
    exact le_rfl
  · exact pending_of_reg (Function.update_self ..) hphase
      fun idx adaptive heq => absurd heq (hspin idx adaptive)

/-! ### The spin list -/

omit [DecidableEq P] in
/-- A spin waiter finds its slot marked. -/
theorem Kept.slotCause (h : s.Kept) (hphase : s.phase p = .waiting reg (.spinning idx adaptive))
    (hslot : s.spinList idx = .triggered) (phase : BCastPhase sz β)
    (heq : phase = .released reg (s.slotCause idx) (.clearing idx)) : s.CauseOk phase := by
  have hspin : (s.phase p).spinIdx = some idx := by
    rw [hphase]
    rfl
  have hactive : (s.phase p).active s.spinList = 1 := by
    rw [hphase]
    exact if_pos hslot
  have htime := h.causes p
  rw [hphase] at htime
  rw [heq]
  refine ⟨?_, htime.2 (h.held_of_active hactive).1, fun result hresult => nomatch hresult⟩
  unfold BCast.slotCause
  rw [if_pos hslot, h.slots.marked p idx hspin hslot]

theorem Kept.endSpin (h : s.Kept) (hphase : s.phase p = .waiting reg (.spinning idx adaptive))
    (hslot : s.spinList idx = .triggered) (hfree : s' = s.endSpin p reg idx ∨
      s' = (s.endSpin p reg idx).setSlot idx .free) : s'.Kept := by
  have hspin : (s.phase p).spinIdx = some idx := by
    rw [hphase]
    rfl
  have hmove : s.Moves s' p (.released reg (s.slotCause idx) (.clearing idx)) := by
    rcases hfree with rfl | rfl
    · exact ⟨rfl, fun q hq idx' _ => rfl⟩
    · refine ⟨rfl, fun q hq idx' hq' => ?_⟩
      refine Function.update_of_ne ?_ _ _
      rintro rfl
      exact hq (h.slots.unique q p idx' hq' hspin)
  have hframe : s.Frame s' := by
    rcases hfree with rfl | rfl
    · exact ⟨rfl, rfl, rfl, rfl, rfl, rfl, rfl, rfl⟩
    · exact ⟨rfl, rfl, rfl, rfl, rfl, rfl, rfl, rfl⟩
  have hsame : s'.releasedOf = s.releasedOf ∧ s'.allowableCount = s.allowableCount ∧
      s'.numWaiting = s.numWaiting ∧ s'.numTriggered = s.numTriggered := by
    rcases hfree with rfl | rfl
    · exact ⟨rfl, rfl, rfl, rfl⟩
    · exact ⟨rfl, rfl, rfl, rfl⟩
  obtain ⟨hreleased, hallowable, hnum, htriggered⟩ := hsame
  refine h.quiet hmove hframe hreleased hallowable.le rfl ?_ ?_ ?_ ?_ ?_ ?_
    (h.slotCause hphase hslot _ rfl) ?_
  · intro idx' hidx
    rw [hspin]
    exact hidx
  · intro idx' hslot'
    have hold : idx' ≠ idx ∧ s.spinList idx' = .waiting := by
      rcases hfree with rfl | rfl
      · refine ⟨?_, hslot'⟩
        rintro rfl
        exact absurd (hslot.symm.trans hslot') nofun
      · change Function.update s.spinList idx .free idx' = .waiting at hslot'
        by_cases heq : idx' = idx
        · rw [heq, Function.update_self] at hslot'
          exact nomatch hslot'
        · rw [Function.update_of_ne heq] at hslot'
          exact ⟨heq, hslot'⟩
    refine ⟨hold.2, ?_⟩
    rw [hspin]
    exact fun heq => hold.1 (Option.some.inj heq).symm
  · rw [hphase, hnum]
    rfl
  · rw [hphase]
    show 1 ≤ if s.spinList idx = .triggered then 1 else 0
    rw [if_pos hslot]
  · rw [hphase, htriggered]
    show s.numTriggered + 1 + 0 ≤ s.numTriggered + (if s.spinList idx = .triggered then 1 else 0) + 0
    rw [if_pos hslot]
  · exact Nat.zero_le _
  · intro time hpend
    exact absurd hpend (not_pending_of_phase hmove.phase_self nofun time)

/-- A spin waiter that was not released gives up its slot, because it times out or goes on as an
idle waiter. -/
theorem Kept.freeSlot (h : s.Kept) (hphase : s.phase p = .waiting reg (.spinning idx adaptive))
    (hslot : s.spinList idx ≠ .triggered)
    (hafter : phase = .expired idx .withdrawing ∨ phase = .waiting reg .switching) :
    ((s.setPhase p phase).setSlot idx .free).Kept := by
  have hspin : (s.phase p).spinIdx = some idx := by
    rw [hphase]
    rfl
  have hmove : s.Moves ((s.setPhase p phase).setSlot idx .free) p phase := by
    refine ⟨rfl, fun q hq idx' hq' => ?_⟩
    refine Function.update_of_ne ?_ _ _
    rintro rfl
    exact hq (h.slots.unique q p idx' hq' hspin)
  have hcause := h.causes p
  rw [hphase] at hcause
  have hweights : ∀ σ, phase.spinIdx = none ∧ phase.clearIdx = none ∧ phase.registered = 1 ∧
      phase.active σ = 0 ∧ phase.uncounted = 0 ∧ phase.pending σ ≤ 1 ∧ s.CauseOk phase := by
    intro σ
    rcases hafter with rfl | rfl
    · exact ⟨rfl, rfl, rfl, rfl, rfl, Nat.zero_le _, trivial⟩
    · exact ⟨rfl, rfl, rfl, rfl, rfl, le_rfl, hcause⟩
  obtain ⟨hidx, hclear, hregistered, hactive, huncounted, hcount, hok⟩ :=
    hweights (Function.update s.spinList idx .free)
  refine h.quiet hmove ⟨rfl, rfl, rfl, rfl, rfl, rfl, rfl, rfl⟩ rfl le_rfl hidx ?_ ?_ ?_ ?_ ?_ ?_
    hok ?_
  · intro idx' hidx'
    rw [hclear] at hidx'
    exact nomatch hidx'
  · intro idx' hslot'
    change Function.update s.spinList idx .free idx' = .waiting at hslot'
    by_cases heq : idx' = idx
    · rw [heq, Function.update_self] at hslot'
      exact nomatch hslot'
    · rw [Function.update_of_ne heq] at hslot'
      refine ⟨hslot', ?_⟩
      rw [hspin]
      exact fun heq' => heq (Option.some.inj heq').symm
  · rw [hphase, hregistered]
    rfl
  · exact hactive.le.trans (Nat.zero_le _)
  · show s.numTriggered + phase.active (Function.update s.spinList idx .free) + _ ≤ _
    rw [hactive, huncounted, Nat.add_assoc s.numTriggered (BCastPhase.active _ _)]
    exact Nat.le_add_right _ _
  · refine hcount.trans ?_
    rw [hphase]
    show 1 ≤ if s.spinList idx = .triggered then 0 else 1
    rw [if_neg hslot]
  · intro time hpend
    rcases hafter with rfl | rfl
    · exact absurd hpend (not_pending_of_phase hmove.phase_self nofun time)
    · refine pending_of_reg hmove.phase_self hphase ?_ time hpend
      rintro idx' adaptive' heq
      cases heq
      exact hslot

/-! ### On the way out -/

theorem Kept.clear (h : s.Kept) (hphase : s.phase p = .released reg cause (.clearing idx)) :
    ((s.setSlot idx .free).setPhase p (.released reg cause .uncounting)).Kept := by
  have hclear : (s.phase p).clearIdx = some idx := by
    rw [hphase]
    rfl
  have hspin : (s.phase p).spinIdx = none := by
    rw [hphase]
    rfl
  have hmove : s.Moves ((s.setSlot idx .free).setPhase p (.released reg cause .uncounting)) p
      (.released reg cause .uncounting) := by
    refine ⟨rfl, fun q _ idx' hq' => ?_⟩
    refine Function.update_of_ne ?_ _ _
    rintro rfl
    exact h.slots.leaver p q idx' hclear hq'
  have hcause := h.causes p
  rw [hphase] at hcause
  refine h.quiet hmove ⟨rfl, rfl, rfl, rfl, rfl, rfl, rfl, rfl⟩ rfl le_rfl rfl
    (fun idx' hidx => nomatch hidx) ?_ ?_ ?_ ?_ ?_ ?_ ?_
  · intro idx' hslot
    change Function.update s.spinList idx .free idx' = .waiting at hslot
    rw [hspin]
    by_cases heq : idx' = idx
    · rw [heq, Function.update_self] at hslot
      exact nomatch hslot
    · rw [Function.update_of_ne heq] at hslot
      exact ⟨hslot, nofun⟩
  · rw [hphase]
    rfl
  · rw [hphase]
    exact le_rfl
  · rw [hphase]
    exact le_rfl
  · exact Nat.zero_le _
  · exact ⟨hcause.1, hcause.2.1, fun result hresult => nomatch hresult⟩
  · intro time hpend
    exact absurd hpend (not_pending_of_phase hmove.phase_self nofun time)

/-- A step on the way out that leaves the counters as they are. -/
theorem Kept.setLeaving (h : s.Kept) {l l' : Leaving sz β}
    (hphase : s.phase p = .released reg cause l) (hl' : ∀ idx, l' ≠ .clearing idx)
    (hresult : ∀ result, l' = .departing result → result.Matches s.payload) :
    (s.setPhase p (.released reg cause l')).Kept := by
  have hcause := h.causes p
  rw [hphase] at hcause
  have hactive : (s.phase p).active s.spinList = 1 := by
    rw [hphase]
    rfl
  have hclear : (BCastPhase.released reg cause l' : BCastPhase sz β).clearIdx = none := by
    match l', hl' with
    | .clearing idx, hl' => exact absurd rfl (hl' idx)
    | .uncounting, _ | .reading, _ | .departing _, _ => rfl
  refine h.step p (.released reg cause l') rfl rfl
    ⟨rfl, rfl, rfl, rfl, rfl, rfl, rfl, rfl⟩ rfl le_rfl ?_ rfl hclear ?_ ?_ ?_ ?_ ?_ ?_
  · rw [hphase]
    rfl
  · rw [hphase]
    rfl
  · rw [hphase]
    exact le_rfl
  · rw [hphase]
    exact le_rfl
  · exact Nat.zero_le _
  · refine ⟨hcause.1, hcause.2.1, fun result heq => ?_⟩
    rw [← (h.held_of_active hactive).2]
    exact hresult result heq
  · intro time hpend
    have hself : Function.update s.phase p (.released reg cause l') p = .released reg cause l' :=
      Function.update_self ..
    refine absurd hpend (not_pending_of_phase hself ?_ time)
    exact nofun

omit [DecidableEq P] [Fintype P] in
theorem readPayload_matches (s : BCast P β sz) (reg : Registration) :
    (s.readPayload reg).Matches s.payload := by
  unfold readPayload
  split
  · trivial
  · rfl

/-- A waiter that is on the way out is not counted in `num_waiting` any more. -/
theorem Kept.depart (h : s.Kept) {result : WaitResult β}
    (hphase : s.phase p = .released reg cause (.departing result)) :
    ({ s with numWaiting := s.numWaiting - 1 }.setPhase p (.counting reg cause result)).Kept := by
  have hcause := h.causes p
  rw [hphase] at hcause
  have hnum := h.numWaiting_pos (p := p) (by rw [hphase]; rfl)
  refine h.step p (.counting reg cause result) rfl rfl
    ⟨rfl, rfl, rfl, rfl, rfl, rfl, rfl, rfl⟩ rfl le_rfl ?_ rfl rfl ?_ ?_ ?_ ?_ ?_ ?_
  · rw [hphase]
    rfl
  · rw [hphase]
    exact hnum
  · exact Nat.zero_le _
  · rw [hphase]
    exact le_rfl
  · exact Nat.zero_le _
  · exact ⟨s.serial, hcause.1, hcause.2.1, le_rfl, hcause.2.2 result rfl⟩
  · intro time hpend
    have hself : Function.update s.phase p (.counting reg cause result) p = .counting reg cause result :=
      Function.update_self ..
    refine absurd hpend (not_pending_of_phase hself ?_ time)
    exact nofun

theorem Kept.countTriggered (h : s.Kept) {result : WaitResult β}
    (hphase : s.phase p = .counting reg cause result) :
    ({ s with numTriggered := s.numTriggered + 1 }.setPhase p
      (.returned reg cause result)).Kept := by
  have hcause := h.causes p
  rw [hphase] at hcause
  refine h.step p (.returned reg cause result) rfl rfl
    ⟨rfl, rfl, rfl, rfl, rfl, rfl, rfl, rfl⟩ rfl le_rfl ?_ rfl rfl ?_ ?_ ?_ ?_ hcause ?_
  · rw [hphase]
    rfl
  · rw [hphase]
    rfl
  · exact Nat.zero_le _
  · rw [hphase]
    exact le_rfl
  · exact Nat.zero_le _
  · intro time hpend
    have hself : Function.update s.phase p (.returned reg cause result) p = .returned reg cause result :=
      Function.update_self ..
    refine absurd hpend (not_pending_of_phase hself ?_ time)
    exact nofun

/-- A waiter that has timed out is not counted in `num_waiting` any more. -/
theorem Kept.withdraw (h : s.Kept) (hbefore : (s.phase p).registered = 1)
    (hspin : (s.phase p).spinIdx = none) (hafter : phase.idle) (hcause : s.CauseOk phase) :
    ({ s with numWaiting := s.numWaiting - 1 }.setPhase p phase).Kept := by
  obtain ⟨hidx, hclear, hregistered, hactive, huncounted, hpending⟩ :=
    BCastPhase.of_idle hafter s.spinList
  refine h.step p phase rfl rfl ⟨rfl, rfl, rfl, rfl, rfl, rfl, rfl, rfl⟩ rfl
    le_rfl hspin hidx hclear ?_ ?_ ?_ ?_ hcause ?_
  · rw [hbefore, hregistered]
    exact h.numWaiting_pos hbefore
  · rw [hactive]
    exact Nat.zero_le _
  · rw [hactive, huncounted]
    show s.numTriggered ≤ _
    rw [Nat.add_assoc]
    exact Nat.le_add_right _ _
  · rw [hpending]
    exact Nat.zero_le _
  · intro time hpend
    refine absurd hpend (not_pending_of_phase (Function.update_self ..) ?_ time)
    rintro reg w rfl
    exact nomatch hafter

/-! ### The registration -/

omit [DecidableEq P] in
theorem Moves.lockOk_free (hok : s.LockOk) (hlock : s.lock = .free) (hlock' : s'.lock = .free)
    (hactive : s'.numActive ≤ s.numActive) (hallowable : s'.allowableCount = s.allowableCount) :
    s'.LockOk := by
  unfold LockOk at hok ⊢
  rw [hlock] at hok
  rw [hlock']
  exact ⟨Nat.le_zero.mp (hactive.trans hok.1.le), hallowable.le.trans hok.2⟩

theorem Kept.registerIdle (h : s.Kept) (hbefore : (s.phase p).idle) (hlock : s.lock = .free)
    (wantsPayload : Bool) : (s.registerIdle p wantsPayload).Kept := by
  obtain ⟨hspin, -, hregistered, hactive, -, -⟩ := BCastPhase.of_idle hbefore s.spinList
  have hmove : s.Moves (s.registerIdle p wantsPayload) p
      (.waiting ⟨s.serial, wantsPayload⟩ .turning) := ⟨rfl, fun q hq idx _ => rfl⟩
  refine ⟨?_, ?_, ?_, ?_, h.allowed, ?_⟩
  · have hnum := hmove.numRegistered
    rw [hregistered] at hnum
    show s.numWaiting + 1 = _
    rw [h.num]
    exact hnum.symm
  · refine h.slots.move hmove rfl (fun idx hidx => nomatch hidx) ?_ rfl rfl
    intro idx hslot
    rw [hspin]
    exact ⟨hslot, nofun⟩
  · refine causes_of_move h.causes hmove ?_
      fun _ hok => Frame.causeOk ⟨rfl, rfl, rfl, rfl, rfl, rfl, rfl, rfl⟩ hok
    exact ⟨le_rfl, fun hne => absurd hlock hne⟩
  · refine h.history.move hmove ?_ rfl rfl rfl rfl
    rintro time ⟨reg, w, hphase, htime, -⟩
    rw [hmove.phase_self] at hphase
    cases hphase
    exact .inr htime.symm
  · refine Moves.lockOk_free h.lock hlock hlock ?_ rfl
    have hsum := hmove.numActive
    rw [hactive] at hsum
    exact hsum.le

omit [DecidableEq P] [Fintype P] in
theorem freeSlot_spec (h : s.freeSlot = some idx) : s.spinList idx = .free := by
  unfold BCast.freeSlot at h
  have hfound := List.find?_some h
  exact of_decide_eq_true hfound

theorem Kept.registerSpin (h : s.Kept) (hbefore : (s.phase p).idle) (hlock : s.lock = .free)
    (adaptive wantsPayload : Bool) : (s.registerSpin p adaptive wantsPayload).Kept := by
  unfold BCast.registerSpin
  split
  · exact h.setPhase_idle hbefore rfl trivial
  · rename_i idx hfind
    have hfree := freeSlot_spec hfind
    obtain ⟨hspin, hclear, hregistered, hactive, -, -⟩ := BCastPhase.of_idle hbefore s.spinList
    generalize hs' : ({ s with
        spinListCount := s.spinListCount + 1
        numWaiting := s.numWaiting + 1 }.setSlot idx .waiting).setPhase p
      (.waiting ⟨s.serial, wantsPayload⟩ (.spinning idx adaptive)) = s'
    have hnone : ∀ q, (s.phase q).spinIdx ≠ some idx := fun q hq => h.slots.taken q idx hq hfree
    have hlist : s'.spinList = Function.update s.spinList idx .waiting := by
      subst hs'
      rfl
    have hmove : s.Moves s' p
        (.waiting ⟨s.serial, wantsPayload⟩ (.spinning idx adaptive)) := by
      refine ⟨by subst hs'; rfl, fun q _ idx' hq' => ?_⟩
      rw [hlist]
      refine Function.update_of_ne ?_ _ _
      rintro rfl
      exact hnone q hq'
    have hframe : s.Frame s' := by
      subst hs'
      exact ⟨rfl, rfl, rfl, rfl, rfl, rfl, rfl, rfl⟩
    -- nobody is on the way out while the lock is free
    have hcalm : s.numActive = 0 ∧ s.allowableCount ≤ 0 := by
      have hok := h.lock
      unfold LockOk at hok
      rw [hlock] at hok
      exact hok
    have hnotLeaving : ∀ q idx, (s.phase q).clearIdx ≠ some idx := by
      intro q idx' hq
      have hone : (s.phase q).active s.spinList = 1 := by
        match s.phase q, hq with
        | .released _ _ (.clearing _), _ => rfl
      have hle := le_numActive s q
      omega
    have hself : ∀ q idx', (s'.phase q).spinIdx = some idx' →
        (q = p ∧ idx' = idx) ∨ (q ≠ p ∧ idx' ≠ idx ∧ (s.phase q).spinIdx = some idx') := by
      intro q idx' hq
      by_cases heq : q = p
      · subst heq
        rw [hmove.phase_self] at hq
        exact .inl ⟨rfl, (Option.some.inj hq).symm⟩
      · rw [hmove.phase_of_ne heq] at hq
        refine .inr ⟨heq, ?_, hq⟩
        rintro rfl
        exact hnone q hq
    refine ⟨?_, ⟨?_, ?_, ?_, ?_, ?_⟩, ?_, ?_, ?_, ?_⟩
    · have hnum := hmove.numRegistered
      rw [hregistered] at hnum
      have hwaiting : s'.numWaiting = s.numWaiting + 1 := by
        subst hs'
        rfl
      rw [hwaiting, h.num]
      exact hnum.symm
    · intro q idx' hq
      rw [hlist]
      rcases hself q idx' hq with ⟨-, rfl⟩ | ⟨-, hne, hq⟩
      · rw [Function.update_self]
        exact nofun
      · rw [Function.update_of_ne hne]
        exact h.slots.taken q idx' hq
    · intro idx' hslot
      rw [hlist] at hslot
      by_cases heq : idx' = idx
      · subst heq
        refine ⟨p, ?_⟩
        rw [hmove.phase_self]
        rfl
      · rw [Function.update_of_ne heq] at hslot
        obtain ⟨q, hq⟩ := h.slots.spinner idx' hslot
        refine ⟨q, ?_⟩
        rw [hmove.phase_of_ne]
        · exact hq
        · rintro rfl
          rw [hspin] at hq
          exact nomatch hq
    · intro q q' idx' hq hq'
      rcases hself q idx' hq with ⟨rfl, heq⟩ | ⟨-, hne, hq⟩
      · rcases hself q' idx' hq' with ⟨rfl, -⟩ | ⟨-, hne, -⟩
        · rfl
        · exact absurd heq hne
      · rcases hself q' idx' hq' with ⟨-, heq⟩ | ⟨-, -, hq'⟩
        · exact absurd heq hne
        · exact h.slots.unique q q' idx' hq hq'
    · intro q q' idx' hq
      by_cases heq : q = p
      · subst heq
        rw [hmove.phase_self] at hq
        exact nomatch hq
      · rw [hmove.phase_of_ne heq] at hq
        exact absurd hq (hnotLeaving q idx')
    · intro q idx' hq hslot
      rw [hlist] at hslot
      rcases hself q idx' hq with ⟨-, rfl⟩ | ⟨-, hne, hq⟩
      · rw [Function.update_self] at hslot
        exact nomatch hslot
      · rw [Function.update_of_ne hne] at hslot
        rw [hframe.triggeredBy, hframe.serial]
        exact h.slots.marked q idx' hq hslot
    · refine causes_of_move h.causes hmove ?_ fun _ hok => hframe.causeOk hok
      refine hframe.causeOk ⟨le_rfl, fun hne => absurd hlock hne⟩
    · have hreleased : s'.releasedOf = s.releasedOf := by
        subst hs'
        rfl
      refine h.history.move hmove ?_ hframe.serial hframe.requestOf hreleased hframe.succeeded
      rintro time ⟨reg, w, hphase, htime, -⟩
      rw [hmove.phase_self] at hphase
      cases hphase
      exact .inr htime.symm
    · have hallowable : s'.allowableCount = s.allowableCount := by
        subst hs'
        rfl
      rw [hallowable, hframe.allowedBy, hframe.serial]
      exact h.allowed
    · have hallowable : s'.allowableCount = s.allowableCount := by
        subst hs'
        rfl
      refine Moves.lockOk_free h.lock hlock (hframe.lock.trans hlock) ?_ hallowable
      have hsum := hmove.numActive
      rw [hactive, hlist] at hsum
      have hzero : (BCastPhase.waiting ⟨s.serial, wantsPayload⟩ (.spinning idx adaptive) :
          BCastPhase sz β).active (Function.update s.spinList idx .waiting) = 0 := by
        refine if_neg ?_
        rw [Function.update_self]
        exact nofun
      rw [hzero] at hsum
      exact hsum.le

/-! ## The steps of the trigger -/

omit [DecidableEq P] in
theorem numActive_add_numPending_le (s : BCast P β sz) :
    s.numActive + s.numPending ≤ s.numRegistered := by
  unfold numActive numPending numRegistered
  rw [← Finset.sum_add_distrib]
  exact Finset.sum_le_sum fun p _ => BCastPhase.active_add_pending_le s.spinList (s.phase p)

/-- A trigger takes the lock. -/
theorem Kept.acquire (h : s.Kept) (hphase : s.phase p = .locking call) :
    (s.acquire p call).Kept := by
  unfold BCast.acquire
  split
  · rename_i hlock
    have hcalm : s.numActive = 0 ∧ s.allowableCount ≤ 0 := by
      have hok := h.lock
      unfold LockOk at hok
      rw [hlock] at hok
      exact hok
    have hinactive : ∀ q, (s.phase q).active s.spinList = 0 := by
      intro q
      have hle := le_numActive s q
      omega
    have hidle : (s.phase p).idle = true := by
      rw [hphase]
      rfl
    generalize hs' : ({ s with
        lock := .held p call .checking
        serial := s.serial + 1
        requestOf := Function.update s.requestOf (s.serial + 1) call.request
        payloadOf := Function.update s.payloadOf (s.serial + 1) call.payload
        phase := Function.update s.phase p .triggering } : BCast P β sz) = s'
    have hmove : s.Moves s' p .triggering := by
      subst hs'
      exact ⟨rfl, fun q hq idx _ => rfl⟩
    have hserial : s'.serial = s.serial + 1 := by
      subst hs'
      rfl
    have hpayloadOf : ∀ t, t ≤ s.serial → s'.payloadOf t = s.payloadOf t := by
      intro t ht
      subst hs'
      exact Function.update_of_ne (Nat.lt_succ_of_le ht).ne _ _
    have hreleasedOf : s'.releasedOf = s.releasedOf := by
      subst hs'
      rfl
    have hrequestOf : s'.requestOf
        = Function.update s.requestOf (s.serial + 1) call.request := by
      subst hs'
      rfl
    have hspinList : s'.spinList = s.spinList := by
      subst hs'
      rfl
    have hspin : ∀ q, (s'.phase q).spinIdx = (s.phase q).spinIdx := by
      intro q
      by_cases heq : q = p
      · subst heq
        rw [hmove.phase_self, hphase]
        rfl
      · rw [hmove.phase_of_ne heq]
    have hclear : ∀ q, (s'.phase q).clearIdx = (s.phase q).clearIdx := by
      intro q
      by_cases heq : q = p
      · subst heq
        rw [hmove.phase_self, hphase]
        rfl
      · rw [hmove.phase_of_ne heq]
    obtain ⟨-, -, hregistered, hactive, -, hpending⟩ := BCastPhase.of_idle hidle s.spinList
    refine ⟨?_, ⟨?_, ?_, ?_, ?_, ?_⟩, ?_, ⟨?_, ?_, ?_, ?_⟩, ?_, ?_⟩
    · have hnum := hmove.numRegistered
      rw [hregistered] at hnum
      have hwaiting : s'.numWaiting = s.numWaiting := by
        subst hs'
        rfl
      rw [hwaiting, h.num]
      exact hnum.symm
    · intro q idx hq
      rw [hspin] at hq
      rw [hspinList]
      exact h.slots.taken q idx hq
    · intro idx hslot
      rw [hspinList] at hslot
      obtain ⟨q, hq⟩ := h.slots.spinner idx hslot
      exact ⟨q, (hspin q).trans hq⟩
    · intro q q' idx hq hq'
      rw [hspin] at hq hq'
      exact h.slots.unique q q' idx hq hq'
    · intro q q' idx hq
      rw [hclear] at hq
      rw [hspin]
      exact h.slots.leaver q q' idx hq
    · -- no slot is marked while the lock is free
      intro q idx hq hslot
      rw [hspin] at hq
      rw [hspinList] at hslot
      have hzero := hinactive q
      match s.phase q, hq, hzero with
      | .waiting _ (.spinning idx' _), hq, hzero =>
        cases hq
        change (if s.spinList idx = .triggered then 1 else 0) = 0 at hzero
        rw [if_pos hslot] at hzero
        exact nomatch hzero
    · intro q
      by_cases heq : q = p
      · subst heq
        rw [hmove.phase_self]
        trivial
      · rw [hmove.phase_of_ne heq]
        have hcause := h.causes q
        have hzero := hinactive q
        match s.phase q, hcause, hzero with
        | .waiting reg w, hcause, _ =>
          unfold CauseOk
          rw [hserial]
          exact ⟨Nat.le_succ_of_le hcause.1, fun _ => Nat.lt_succ_of_le hcause.1⟩
        | .released reg cause l, _, hzero => exact nomatch hzero
        | .counting reg cause result, hcause, _ | .returned reg cause result, hcause, _ =>
          obtain ⟨t, hcause, htime, hle, hmatches⟩ := hcause
          refine ⟨t, hcause, htime, ?_, ?_⟩
          · rw [hserial]
            exact Nat.le_succ_of_le hle
          · rw [hpayloadOf t hle]
            exact hmatches
        | .out, _, _ | .pausing _ _, _, _ | .entering _ _, _, _ | .expired _ _, _, _ => trivial
        | .locking _, _, _ | .triggering, _, _ => trivial
    · intro t n hn
      rw [hrequestOf] at hn
      rw [hreleasedOf]
      by_cases ht : t = s.serial + 1
      · rw [ht, h.history.fresh _ (Nat.lt_succ_self _)]
        exact Nat.zero_le n
      · rw [Function.update_of_ne ht] at hn
        exact h.history.bounds t n hn
    · intro t ht
      rw [hserial] at ht
      rw [hreleasedOf]
      exact h.history.fresh t (Nat.lt_of_succ_lt ht)
    · intro t ht
      have hsucceeded : s'.succeeded = s.succeeded := by
        subst hs'
        rfl
      rw [hsucceeded] at ht
      rw [hserial]
      exact (h.history.past t ht).trans (Nat.le_succ _)
    · intro t ht
      have hsucceeded : s'.succeeded = s.succeeded := by
        subst hs'
        rfl
      rw [hsucceeded] at ht
      have hle := h.history.past t ht
      rw [hrequestOf, hreleasedOf, Function.update_of_ne (Nat.lt_succ_of_le hle).ne]
      refine (h.history.releases t ht).imp_right fun hnone q time hq => ?_
      by_cases heq : q = p
      · subst heq
        exact absurd hq (not_pending_of_phase hmove.phase_self nofun time)
      · exact hnone q time ((hmove.pending_iff_of_ne heq time).mp hq)
    · intro hpos
      have hallowable : s'.allowableCount = s.allowableCount := by
        subst hs'
        rfl
      rw [hallowable] at hpos
      exact absurd hcalm.2 (not_le.mpr hpos)
    · have hsum := hmove.numActive
      rw [hactive] at hsum
      have hzero : s'.numActive = 0 := hsum.trans hcalm.1
      have hfresh := h.history.fresh _ (Nat.lt_succ_self s.serial)
      subst hs'
      exact ⟨Function.update_self .., Function.update_self .., ⟨⟨hzero, hcalm.2⟩, hfresh⟩, nofun⟩
  · exact h

omit [DecidableEq P] in
/-- The trigger goes to another stage, or gives up the lock. -/
theorem Kept.restage (h : s.Kept) (hheld : s.lock ≠ .free) (hphase : s'.phase = s.phase)
    (hspinList : s'.spinList = s.spinList) (hnum : s'.numWaiting = s.numWaiting)
    (hserial : s'.serial = s.serial) (hrequestOf : s'.requestOf = s.requestOf)
    (hpayloadOf : s'.payloadOf = s.payloadOf) (hreleasedOf : s'.releasedOf = s.releasedOf)
    (hsucceeded : s'.succeeded = s.succeeded) (htriggeredBy : s'.triggeredBy = s.triggeredBy)
    (hallowed : 0 < s'.allowableCount → s'.allowedBy = s'.serial) (hok : s'.LockOk) :
    s'.Kept := by
  refine ⟨?_, ⟨?_, ?_, ?_, ?_, ?_⟩, ?_, ⟨?_, ?_, ?_, ?_⟩, hallowed, hok⟩
  · unfold numRegistered
    rw [hnum, hphase]
    exact h.num
  · rw [hphase, hspinList]
    exact h.slots.taken
  · rw [hphase, hspinList]
    exact h.slots.spinner
  · rw [hphase]
    exact h.slots.unique
  · rw [hphase]
    exact h.slots.leaver
  · rw [hphase, hspinList, htriggeredBy, hserial]
    exact h.slots.marked
  · intro q
    rw [hphase]
    have hcause := h.causes q
    match s.phase q, hcause with
    | .waiting reg w, hcause =>
      unfold CauseOk
      rw [hserial]
      exact ⟨hcause.1, fun _ => hcause.2 hheld⟩
    | .released reg cause l, hcause =>
      unfold CauseOk
      rw [hserial, hpayloadOf]
      exact hcause
    | .counting reg cause result, hcause | .returned reg cause result, hcause =>
      unfold CauseOk
      rw [hserial, hpayloadOf]
      exact hcause
    | .out, _ | .pausing _ _, _ | .entering _ _, _ | .expired _ _, _ => trivial
    | .locking _, _ | .triggering, _ => trivial
  · rw [hrequestOf, hreleasedOf]
    exact h.history.bounds
  · rw [hserial, hreleasedOf]
    exact h.history.fresh
  · rw [hserial, hsucceeded]
    exact h.history.past
  · unfold Pending
    rw [hsucceeded, hrequestOf, hreleasedOf, hphase, hspinList]
    exact h.history.releases

/-- The trigger has the lock at a stage. -/
structure Holds (s : BCast P β sz) (p : P) (call : TriggerCall β) (stage : TriggerStage) : Prop where
  kept : s.Kept
  lock : s.lock = .held p call stage
  phase : s.phase p = .triggering

omit [DecidableEq P] in
theorem Holds.ne_free (h : s.Holds p call stage) : s.lock ≠ .free := by
  rw [h.lock]
  exact nofun

omit [DecidableEq P] in
theorem Holds.lockOk (h : s.Holds p call stage) :
    s.requestOf s.serial = call.request ∧ s.payloadOf s.serial = call.payload ∧
      s.tally.At call.request stage ∧ (stage.written → s.payload = call.payload) := by
  have hok := h.kept.lock
  unfold LockOk at hok
  rw [h.lock] at hok
  exact hok

omit [DecidableEq P] in
/-- The trigger goes on to a stage with nothing but its local variables changed. -/
theorem Holds.setStage {stage' : TriggerStage} (h : s.Holds p call stage)
    (hat : s.tally.At call.request stage') (hwritten : stage'.written → s.payload = call.payload) :
    (s.setStage p call stage').Kept := by
  obtain ⟨hrequest, hpayload, -, -⟩ := h.lockOk
  exact h.kept.restage h.ne_free rfl rfl rfl rfl rfl rfl rfl rfl rfl h.kept.allowed
    ⟨hrequest, hpayload, hat, hwritten⟩

/-- The trigger gives up the lock, or loses it. -/
theorem Holds.leave (h : s.Holds p call stage) (hcalm : s.tally.Calm) {lock : BCastLock P β}
    (hlock : lock = .free ∨ lock = .lost) : ({ s with lock := lock }.setPhase p .out).Kept := by
  have hok : ({ s with lock := lock } : BCast P β sz).LockOk := by
    rcases hlock with rfl | rfl
    · exact hcalm
    · exact hcalm
  have hkept : ({ s with lock := lock } : BCast P β sz).Kept :=
    h.kept.restage h.ne_free rfl rfl rfl rfl rfl rfl rfl rfl rfl h.kept.allowed hok
  refine hkept.setPhase_idle ?_ rfl trivial
  show (s.phase p).idle
  rw [h.phase]
  rfl

/-- A slot is marked: its waiter is released. -/
theorem Holds.mark {k cur : ℕ} (idx : Fin sz) (h : s.Holds p call (.scanning n k cur idx))
    (hlt : k < n) (hslot : s.spinList idx = .waiting) :
    (({ s with
        triggeredBy := Function.update s.triggeredBy idx s.serial
        releasedOf := Function.update s.releasedOf s.serial (s.releasedOf s.serial + 1) }.setSlot
      idx .triggered).setStage p call (.scanning n (k + 1) cur (idx + 1))).Kept := by
  obtain ⟨hrequest, hpayload, ⟨hallowable, hreleased, hle, howed, htied⟩, hwritten⟩ := h.lockOk
  obtain ⟨q, hq⟩ := h.kept.slots.spinner idx hslot
  generalize hs' : ({ s with
      triggeredBy := Function.update s.triggeredBy idx s.serial
      releasedOf := Function.update s.releasedOf s.serial (s.releasedOf s.serial + 1) }.setSlot
    idx .triggered).setStage p call (.scanning n (k + 1) cur (idx + 1)) = s'
  have hphase : s'.phase = s.phase := by
    subst hs'
    rfl
  have hspinList : s'.spinList = Function.update s.spinList idx .triggered := by
    subst hs'
    rfl
  have htriggeredBy : s'.triggeredBy = Function.update s.triggeredBy idx s.serial := by
    subst hs'
    rfl
  have hreleasedOf : s'.releasedOf
      = Function.update s.releasedOf s.serial (s.releasedOf s.serial + 1) := by
    subst hs'
    rfl
  have hmove : s.Moves s' q (s.phase q) := by
    refine ⟨by rw [hphase, Function.update_eq_self], fun q' hne idx' hq' => ?_⟩
    rw [hspinList]
    refine Function.update_of_ne ?_ _ _
    rintro rfl
    exact hne (h.kept.slots.unique q' q idx' hq' hq)
  have hweights : (s.phase q).active s.spinList = 0 ∧ (s.phase q).active s'.spinList = 1 ∧
      (s.phase q).pending s.spinList = 1 ∧ (s.phase q).pending s'.spinList = 0 := by
    match s.phase q, hq with
    | .waiting _ (.spinning idx' _), hq =>
      cases hq
      have hnot : s.spinList idx ≠ .triggered := by
        rw [hslot]
        exact nofun
      have hmarked : s'.spinList idx = .triggered := by
        rw [hspinList, Function.update_self]
      exact ⟨if_neg hnot, if_pos hmarked, if_neg hnot, if_pos hmarked⟩
  obtain ⟨hactive, hactive', hpending, hpending'⟩ := hweights
  have hnumActive : s'.numActive = s.numActive + 1 := by
    have hsum := hmove.numActive
    rw [hactive, hactive'] at hsum
    exact hsum
  have hnumUncounted : s'.numUncounted = s.numUncounted :=
    Nat.add_right_cancel hmove.numUncounted
  have hnumPending : s'.numPending + 1 = s.numPending := by
    have hsum := hmove.numPending
    rw [hpending, hpending'] at hsum
    exact hsum
  change s.releasedOf s.serial = k at hreleased
  refine ⟨?_, ⟨?_, ?_, ?_, ?_, ?_⟩, ?_, ⟨?_, ?_, ?_, ?_⟩, ?_, ?_⟩
  · have hnum : s'.numWaiting = s.numWaiting := by
      subst hs'
      rfl
    unfold numRegistered
    rw [hnum, hphase]
    exact h.kept.num
  · intro q' idx' hq'
    rw [hphase] at hq'
    rw [hspinList]
    by_cases heq : idx' = idx
    · rw [heq, Function.update_self]
      exact nofun
    · rw [Function.update_of_ne heq]
      exact h.kept.slots.taken q' idx' hq'
  · intro idx' hslot'
    rw [hspinList] at hslot'
    by_cases heq : idx' = idx
    · rw [heq, Function.update_self] at hslot'
      exact nomatch hslot'
    · rw [Function.update_of_ne heq] at hslot'
      rw [hphase]
      exact h.kept.slots.spinner idx' hslot'
  · rw [hphase]
    exact h.kept.slots.unique
  · rw [hphase]
    exact h.kept.slots.leaver
  · intro q' idx' hq' hslot'
    have hserial : s'.serial = s.serial := by
      subst hs'
      rfl
    rw [hphase] at hq'
    rw [hspinList] at hslot'
    rw [htriggeredBy, hserial]
    by_cases heq : idx' = idx
    · rw [heq, Function.update_self]
    · rw [Function.update_of_ne heq] at hslot' ⊢
      exact h.kept.slots.marked q' idx' hq' hslot'
  · intro q'
    have hcause := h.kept.causes q'
    rw [hphase]
    subst hs'
    match s.phase q', hcause with
    | .waiting reg w, hcause => exact ⟨hcause.1, fun _ => hcause.2 h.ne_free⟩
    | .released reg cause l, hcause => exact hcause
    | .counting reg cause result, hcause | .returned reg cause result, hcause => exact hcause
    | .out, _ | .pausing _ _, _ | .entering _ _, _ | .expired _ _, _ => trivial
    | .locking _, _ | .triggering, _ => trivial
  · intro t m hm
    have hrequestOf : s'.requestOf = s.requestOf := by
      subst hs'
      rfl
    rw [hrequestOf] at hm
    rw [hreleasedOf]
    by_cases ht : t = s.serial
    · rw [ht, Function.update_self]
      rw [ht, hrequest] at hm
      have heq := htied.2 m hm
      omega
    · rw [Function.update_of_ne ht]
      exact h.kept.history.bounds t m hm
  · intro t ht
    have hserial : s'.serial = s.serial := by
      subst hs'
      rfl
    rw [hserial] at ht
    rw [hreleasedOf, Function.update_of_ne ht.ne']
    exact h.kept.history.fresh t ht
  · subst hs'
    exact h.kept.history.past
  · intro t ht
    have hbefore : s.requestOf = s'.requestOf ∧ s.succeeded = s'.succeeded := by
      subst hs'
      exact ⟨rfl, rfl⟩
    rw [← hbefore.2] at ht
    rw [← hbefore.1, hreleasedOf]
    refine (h.kept.history.releases t ht).imp ?_ ?_
    · rintro ⟨m, hm, hdone⟩
      refine ⟨m, hm, ?_⟩
      rw [Function.update_of_ne, hdone]
      -- a trigger that still marks slots is not done
      rintro rfl
      rw [hrequest] at hm
      have heq := htied.2 m hm
      omega
    · rintro hnone q' time ⟨reg, w, hwait, htime, hspin⟩
      refine hnone q' time ⟨reg, w, ?_, htime, fun idx' adaptive heq => ?_⟩
      · rw [hphase] at hwait
        exact hwait
      · intro hold
        refine hspin idx' adaptive heq ?_
        rw [hspinList]
        by_cases hidx : idx' = idx
        · rw [hidx, Function.update_self]
        · rw [Function.update_of_ne hidx]
          exact hold
  · subst hs'
    exact h.kept.allowed
  · have htally : s'.tally.At call.request (.scanning n (k + 1) cur (idx + 1)) := by
      have hreleased' : s'.releasedOf s'.serial = k + 1 := by
        subst hs'
        show Function.update s.releasedOf s.serial (s.releasedOf s.serial + 1) s.serial = _
        rw [Function.update_self, hreleased]
      have htriggered : s'.numTriggered = s.numTriggered := by
        subst hs'
        rfl
      refine ⟨?_, hreleased', hlt, ?_, ?_, htied.2⟩
      · subst hs'
        exact hallowable
      · show s'.numTriggered + s'.numActive + s'.numUncounted ≤ s'.releasedOf s'.serial
        have howed' : s.numTriggered + s.numActive + s.numUncounted ≤ s.releasedOf s.serial := howed
        rw [htriggered, hnumActive, hnumUncounted, hreleased']
        omega
      · intro hall
        have hsum : s.numPending + s.releasedOf s.serial ≤ n := htied.1 hall
        show s'.numPending + s'.releasedOf s'.serial ≤ n
        rw [hreleased']
        omega
    have hpayload' : s.payload = call.payload := hwritten rfl
    subst hs'
    exact ⟨hrequest, hpayload, htally, fun _ => hpayload'⟩

theorem Holds.scan {k cur idx : ℕ} (h : s.Holds p call (.scanning n k cur idx)) :
    (s.scan p call n k cur idx).Kept := by
  obtain ⟨-, -, ⟨hallowable, hreleased, hle, howed, htied⟩, hwritten⟩ := h.lockOk
  unfold BCast.scan
  split
  · rename_i hguard
    split
    · rename_i hslot
      exact Holds.mark ⟨idx, hguard.2.1⟩ h hguard.2.2 hslot
    · exact h.setStage ⟨hallowable, hreleased, hle, howed, htied⟩ hwritten
  · refine h.setStage ⟨hallowable, ?_, howed, htied⟩ hwritten
    rw [hreleased]
    exact Nat.add_sub_cancel' hle

omit [DecidableEq P] in
/-- A trigger that has released as many waiters as it was asked for, or all, is done. -/
theorem Kept.succeed (h : s.Kept) (htied : s.tally.Tied (s.requestOf s.serial) n)
    (hdone : s.numPending = 0 ∨ s.releasedOf s.serial = n) :
    { s with succeeded := insert s.serial s.succeeded }.Kept := by
  obtain ⟨hnum, hslots, hcauses, hhistory, hallowed, hlock⟩ := h
  refine ⟨hnum, ?_, ?_, ⟨hhistory.bounds, hhistory.fresh, ?_, ?_⟩, hallowed, hlock⟩
  · exact ⟨hslots.taken, hslots.spinner, hslots.unique, hslots.leaver, hslots.marked⟩
  · intro q
    have hcause := hcauses q
    match s.phase q, hcause with
    | .waiting reg w, hcause | .released reg cause l, hcause => exact hcause
    | .counting reg cause result, hcause | .returned reg cause result, hcause => exact hcause
    | .out, _ | .pausing _ _, _ | .entering _ _, _ | .expired _ _, _ => trivial
    | .locking _, _ | .triggering, _ => trivial
  · intro t ht
    rcases Finset.mem_insert.mp ht with rfl | ht
    · exact le_rfl
    · exact hhistory.past t ht
  · intro t ht
    rcases Finset.mem_insert.mp ht with rfl | ht
    · have hnone : s.numPending = 0 → ∀ q time, s.Pending q time → s.serial ≤ time := by
        rintro hzero q time ⟨reg, w, hwait, -, hspin⟩
        have hone : (s.phase q).pending s.spinList = 1 := by
          rw [hwait]
          match w, hspin with
          | .turning, _ | .dozing, _ | .switching, _ => rfl
          | .spinning idx adaptive, hspin => exact if_neg (hspin idx adaptive rfl)
        have hle : (s.phase q).pending s.spinList ≤ s.numPending :=
          Finset.single_le_sum (f := fun q => (s.phase q).pending s.spinList)
            (fun _ _ => Nat.zero_le _) (Finset.mem_univ q)
        omega
      cases hrequest : s.requestOf s.serial with
      | all =>
        have hle : s.numPending + s.releasedOf s.serial ≤ n := htied.1 hrequest
        exact .inr (hnone (by omega))
      | some m =>
        rcases hdone with hzero | hdone
        · exact .inr (hnone hzero)
        · exact .inl ⟨m, rfl, hdone.trans (htied.2 m hrequest)⟩
    · exact hhistory.releases t ht

theorem Holds.advance (h : s.Holds p call stage)
    (hcareful : ∀ w, stage = .resetting w → s.numUncounted = 0) :
    (s.advanceTrigger p call stage).Kept := by
  obtain ⟨hrequest, hpayload, hat, hwritten⟩ := h.lockOk
  have hrestage : ∀ {s' : BCast P β sz}, s'.phase = s.phase → s'.spinList = s.spinList →
      s'.numWaiting = s.numWaiting → s'.serial = s.serial → s'.requestOf = s.requestOf →
      s'.payloadOf = s.payloadOf → s'.releasedOf = s.releasedOf → s'.succeeded = s.succeeded →
      s'.triggeredBy = s.triggeredBy → (0 < s'.allowableCount → s'.allowedBy = s'.serial) →
      s'.LockOk → s'.Kept := h.kept.restage h.ne_free
  have hwaiting := h.kept.num
  have hcounts := numActive_add_numPending_le s
  cases stage with
  | checking =>
    show (if _ then _ else _ : BCast P β sz).Kept
    split
    · exact h.leave hat.1 (.inl rfl)
    · exact h.setStage hat nofun
  | loading =>
    show (if _ then _ else _ : BCast P β sz).Kept
    split
    · exact h.leave hat.1 (.inl rfl)
    · refine h.setStage ⟨hat.1, hat.2, ?_⟩ nofun
      show s.numPending ≤ s.numWaiting
      omega
  | writing =>
    exact hrestage rfl rfl rfl rfl rfl rfl rfl rfl rfl h.kept.allowed
      ⟨hrequest, hpayload, hat, fun _ => rfl⟩
  | resetting w =>
    refine hrestage rfl rfl rfl rfl rfl rfl rfl rfl rfl h.kept.allowed
      ⟨hrequest, hpayload, ⟨hat.1, hat.2.1, hat.2.2, ?_⟩, fun _ => hwritten rfl⟩
    show 0 + s.numActive + s.numUncounted ≤ s.releasedOf s.serial
    have hactive : s.numActive = 0 := hat.1.1
    rw [hactive, hcareful w rfl]
    exact Nat.zero_le _
  | starting w =>
    obtain ⟨hcalm, hreleased, hpending, howed⟩ := hat
    show (if _ then _ else _ : BCast P β sz).Kept
    split
    · exact h.leave hcalm (.inr rfl)
    · have htied : s.tally.Tied call.request (call.request.count w) := by
        refine ⟨fun hall => ?_, fun m hm => ?_⟩
        · rw [hall, hreleased]
          exact hpending
        · rw [hm]
          rfl
      exact hrestage rfl rfl rfl rfl rfl rfl rfl rfl rfl h.kept.allowed
        ⟨hrequest, hpayload, ⟨hcalm.2, hreleased, howed, htied⟩, fun _ => hwritten rfl⟩
  | sizing n =>
    obtain ⟨hallowable, hreleased, howed, htied⟩ := hat
    exact h.setStage ⟨hallowable, hreleased, Nat.zero_le n, howed, htied⟩ hwritten
  | scanning => exact h.scan
  | allowing n m =>
    obtain ⟨-, hsum, howed, htied⟩ := hat
    refine hrestage rfl rfl rfl rfl rfl rfl rfl rfl rfl (fun _ => rfl)
      ⟨hrequest, hpayload, ⟨?_, howed, htied⟩, fun _ => hwritten rfl⟩
    show s.releasedOf s.serial + ((m : ℤ)).toNat ≤ n
    rw [Int.toNat_natCast]
    exact hsum.le
  | counting n =>
    obtain ⟨hle, howed, htied⟩ := hat
    show (if _ then _ else _ : BCast P β sz).Kept
    split
    · exact h.setStage ⟨hle, howed, htied⟩ hwritten
    · -- as many have counted themselves as were released, so nobody is on the way out
      rename_i henough
      unfold Tally.Owed at howed
      have htriggered : n ≤ s.tally.triggered := not_lt.mp henough
      exact h.setStage ⟨by omega, hle, .inr (by omega), htied⟩ hwritten
  | remaining n =>
    obtain ⟨hle, howed, htied⟩ := hat
    show (if _ then _ else _ : BCast P β sz).Kept
    split
    · exact h.setStage ⟨hle, howed, htied⟩ hwritten
    · -- nobody is left
      rename_i hnone
      have hactive : s.numActive = 0 := by omega
      have hpending : s.numPending = 0 := by omega
      exact h.setStage ⟨hactive, hle, .inl hpending, htied⟩ hwritten
  | looping => exact h.setStage hat hwritten
  | completing =>
    obtain ⟨hactive, hle, hdone, htied⟩ := hat
    refine hrestage rfl rfl rfl rfl rfl rfl rfl rfl rfl (fun hpos => absurd hpos (lt_irrefl 0))
      ⟨hrequest, hpayload, ⟨⟨hactive, le_rfl⟩, ?_, hdone, htied⟩, fun _ => hwritten rfl⟩
    exact (Nat.le_add_right _ _).trans hle
  | ending =>
    exact hrestage rfl rfl rfl rfl rfl rfl rfl rfl rfl h.kept.allowed
      ⟨hrequest, hpayload, hat, fun _ => hwritten rfl⟩
  | unlocking n success =>
    cases success with
    | true =>
      obtain ⟨hcalm, -, hdone, htied⟩ := hat
      rw [← hrequest] at htied
      have hdone' : Holds { s with succeeded := insert s.serial s.succeeded } p call
          (.unlocking n true) := ⟨h.kept.succeed htied hdone, h.lock, h.phase⟩
      exact hdone'.leave hcalm (.inl rfl)
    | false => exact h.leave hat.1 (.inl rfl)

omit [DecidableEq P] in
theorem Holds.expire (h : s.Holds p call stage)
    (hcareful : ∀ n, stage = .looping n → s.numActive = 0 ∧ s.allowableCount ≤ 0) :
    (s.expireTrigger p call stage).Kept := by
  obtain ⟨hrequest, hpayload, hat, hwritten⟩ := h.lockOk
  unfold expireTrigger
  split
  · rename_i n
    obtain ⟨hle, -, htied⟩ := hat
    exact h.kept.restage h.ne_free rfl rfl rfl rfl rfl rfl rfl rfl rfl h.kept.allowed
      ⟨hrequest, hpayload, ⟨hcareful n rfl, (Nat.le_add_right _ _).trans hle, htied⟩,
        fun _ => hwritten rfl⟩
  · exact h.kept

/-! ## The runs -/

theorem Kept.start (h : s.Kept) (hidle : phase.idle) (hcause : s.CauseOk phase) :
    (s.start p phase).Kept := by
  unfold BCast.start
  split
  · rename_i hphase
    exact h.setPhase_idle (by rw [hphase]; rfl) hidle hcause
  · rename_i hphase
    exact h.setPhase_idle (by rw [hphase]; rfl) hidle hcause
  · exact h

theorem Kept.register (h : s.Kept) (hbefore : (s.phase p).idle) (hlock : s.lock = .free)
    (mode : WaitMode) (wantsPayload : Bool) : (s.register p mode wantsPayload).Kept := by
  cases mode with
  | idle => exact h.registerIdle hbefore hlock wantsPayload
  | spin => exact h.registerSpin hbefore hlock false wantsPayload
  | adaptive => exact h.registerSpin hbefore hlock true wantsPayload

theorem Kept.advanceWaiting (h : s.Kept) (hphase : s.phase p = .waiting reg w)
    (hcareful : w = .turning → s.allowableCount ≠ intMin) : (s.advanceWaiting p reg w).Kept := by
  cases w with
  | turning =>
    by_cases hpos : 0 < s.allowableCount
    · exact h.ticket hphase hpos
    · exact h.doze hphase (not_lt.mp hpos) (hcareful rfl)
  | dozing => exact h.setTurning hphase (.inl rfl)
  | switching =>
    exact (h.setUnseen (s.spinListCount - 1) s.triggering).setTurning hphase (.inr rfl)
  | spinning idx adaptive =>
    show (if _ then _ else _ : BCast P β sz).Kept
    split
    · exact h
    · rename_i hnot
      have hspin : (s.phase p).spinIdx = some idx := by
        rw [hphase]
        rfl
      have htaken := h.slots.taken p idx hspin
      have hslot : s.spinList idx = .triggered := by
        cases hval : s.spinList idx with
        | free => exact absurd hval htaken
        | waiting => exact absurd hval hnot
        | triggered => rfl
      exact h.endSpin hphase hslot (.inl rfl)

theorem Kept.advanceReleased (h : s.Kept) {l : Leaving sz β}
    (hphase : s.phase p = .released reg cause l) : (s.advanceReleased p reg cause l).Kept := by
  cases l with
  | clearing => exact h.clear hphase
  | uncounting =>
    exact (h.setUnseen (s.spinListCount - 1) s.triggering).setLeaving hphase nofun nofun
  | reading =>
    refine h.setLeaving hphase nofun ?_
    rintro result heq
    cases heq
    exact s.readPayload_matches reg
  | departing => exact h.depart hphase

theorem Kept.advanceExpired (h : s.Kept) {e : Expiring} (hphase : s.phase p = .expired idx e)
    (hcareful : e = .clearing → s.spinList idx = .free) : (s.advanceExpired p idx e).Kept := by
  cases e with
  | withdrawing =>
    exact h.withdraw (by rw [hphase]; rfl) (by rw [hphase]; rfl) rfl trivial
  | uncounting =>
    refine (h.setUnseen (s.spinListCount - 1) s.triggering).setPhase_idle ?_ rfl trivial
    show (s.phase p).idle
    rw [hphase]
    rfl
  | clearing =>
    have hsame : s.setSlot idx .free = s := by
      unfold setSlot
      rw [← hcareful rfl, Function.update_eq_self]
    show ((s.setSlot idx .free).setPhase p .out).Kept
    rw [hsame]
    exact h.setPhase_idle (by rw [hphase]; rfl) rfl trivial

theorem Kept.advance (h : s.Kept) (hcareful : s.Careful (p, .advance)) : (s.advance p).Kept := by
  unfold Careful at hcareful
  unfold BCast.advance
  cases hphase : s.phase p with
  | out => exact h
  | returned => exact h
  | pausing =>
    show (if _ then _ else _ : BCast P β sz).Kept
    split
    · exact h
    · exact h.setPhase_idle (by rw [hphase]; rfl) rfl trivial
  | entering mode wantsPayload =>
    cases hlock : s.lock with
    | free => exact h.register (by rw [hphase]; rfl) hlock mode wantsPayload
    | lost => exact h
    | held => exact h
  | waiting =>
    refine h.advanceWaiting hphase ?_
    rintro rfl
    simp only [hphase] at hcareful
    exact hcareful
  | released => exact h.advanceReleased hphase
  | counting => exact h.countTriggered hphase
  | expired =>
    refine h.advanceExpired hphase ?_
    rintro rfl
    simp only [hphase] at hcareful
    exact hcareful
  | locking => exact h.acquire hphase
  | triggering =>
    cases hlock : s.lock with
    | free => exact h
    | lost => exact h
    | held q call stage =>
      show (if _ then _ else _ : BCast P β sz).Kept
      split
      · rename_i heq
        subst heq
        have hholds : s.Holds q call stage := ⟨h, hlock, hphase⟩
        refine hholds.advance ?_
        rintro w rfl
        simp only [hphase, hlock] at hcareful
        exact hcareful
      · exact h

theorem Kept.expire (h : s.Kept) (hcareful : s.Careful (p, .expire)) : (s.expire p).Kept := by
  unfold Careful at hcareful
  unfold BCast.expire
  cases hphase : s.phase p with
  | out => exact h
  | returned => exact h
  | pausing => exact h.setPhase_idle (by rw [hphase]; rfl) rfl trivial
  | entering => exact h
  | waiting reg w =>
    cases w with
    | turning => exact h
    | dozing => exact h.withdraw (by rw [hphase]; rfl) (by rw [hphase]; rfl) rfl trivial
    | switching => exact h
    | spinning idx adaptive =>
      show (s.expireSpin p reg idx).Kept
      unfold expireSpin
      split
      · rename_i hslot
        exact h.endSpin hphase hslot (.inr rfl)
      · rename_i hslot
        exact h.freeSlot hphase hslot (.inl rfl)
  | released => exact h
  | counting => exact h
  | expired => exact h
  | locking => exact h
  | triggering =>
    cases hlock : s.lock with
    | free => exact h
    | lost => exact h
    | held q call stage =>
      show (if _ then _ else _ : BCast P β sz).Kept
      split
      · rename_i heq
        subst heq
        have hholds : s.Holds q call stage := ⟨h, hlock, hphase⟩
        refine hholds.expire ?_
        rintro n rfl
        simp only [hphase, hlock] at hcareful
        exact hcareful
      · exact h

theorem Kept.adapt (h : s.Kept) : (s.adapt p).Kept := by
  unfold BCast.adapt
  split
  · rename_i reg idx hphase
    unfold adaptSpin
    split
    · rename_i hslot
      refine h.freeSlot hphase ?_ (.inr rfl)
      rw [hslot]
      exact nofun
    · rename_i hnot
      have hadvance := h.advanceWaiting hphase nofun
      change (if s.spinList idx = .waiting then s else s.endSpin p reg idx).Kept at hadvance
      rw [if_neg hnot] at hadvance
      exact hadvance
  · exact h

theorem Kept.exec (h : s.Kept) {step : P × Action β} (hcareful : s.Careful step) :
    (s.exec step).Kept := by
  obtain ⟨p, action⟩ := step
  cases action with
  | wait => exact h.start rfl trivial
  | trigger => exact h.start rfl trivial
  | advance => exact h.advance hcareful
  | expire => exact h.expire hcareful
  | adapt => exact h.adapt

omit [DecidableEq P] in
theorem Kept.agrees (h : s.Kept) : s.Agrees := by
  refine ⟨?_, h.history.bounds, h.history.releases⟩
  intro p reg cause payload hphase
  have hcause := h.causes p
  rw [hphase] at hcause
  exact hcause

/-- Waits and triggers agree along every run whose steps do not go wrong. -/
theorem agrees_of_careful (payloadAreaSz : ℕ) (steps : List (P × Action β))
    (hsteps : Runs.Legal exec Careful (init payloadAreaSz : BCast P β sz) steps) :
    (run payloadAreaSz steps : BCast P β sz).Agrees :=
  (hsteps.invariant (I := Kept) (fun _ _ hs hcareful => hs.exec hcareful)
    (kept_init payloadAreaSz)).agrees

end Totals

/-- A process waits in idle mode until it is registered. -/
def waits (p : P) : List (P × Action β) :=
  [(p, .wait .idle true), (p, .advance), (p, .advance)]

/-- So many steps of a process. -/
def steps (p : P) (n : ℕ) : List (P × Action β) := List.replicate n (p, .advance)

/-- One process waits and another one triggers it with a payload. -/
theorem agrees_of_careful_one_waiter :
    (run 8 (waits 0 ++ [((1 : Fin 2), Action.trigger ⟨.all, [7]⟩)] ++ steps 1 9 ++ steps 0 4 ++ steps 1 6) :
      BCast (Fin 2) ℕ 1).Agrees := by
  refine agrees_of_careful 8 _ ?_
  simp only [waits, steps, List.replicate, List.cons_append, List.nil_append, Runs.legal_cons,
    Runs.legal_nil, and_true]
  refine ⟨trivial, trivial, trivial, trivial, trivial, trivial, trivial, trivial, ?_, trivial,
    trivial, trivial, trivial, ?_, trivial, trivial, trivial, trivial, trivial, trivial, trivial,
    trivial, trivial⟩
  · show numUncounted _ = 0
    decide
  · show allowableCount _ ≠ intMin
    decide

/-- The first waiter has left `num_waiting` and has not counted itself in `num_triggered` when the
second trigger resets it.  It counts for the second trigger, which returns `DRAGON_SUCCESS` while
the only process that waits is not released. -/
theorem not_agrees_late_count :
    ¬ (run 8 (waits 0 ++ [((1 : Fin 4), Action.trigger ⟨.all, []⟩)] ++ steps 1 9 ++ steps 0 3 ++ steps 1 5 ++
        waits 2 ++ [((3 : Fin 4), Action.trigger ⟨.all, []⟩)] ++ steps 3 9 ++ steps 0 1 ++ steps 3 4) :
      BCast (Fin 4) ℕ 1).Agrees := by
  intro hagrees
  have hpending : (run 8 (waits 0 ++ [((1 : Fin 4), Action.trigger ⟨.all, []⟩)] ++ steps 1 9 ++ steps 0 3 ++
      steps 1 5 ++ waits 2 ++ [((3 : Fin 4), Action.trigger ⟨.all, []⟩)] ++ steps 3 9 ++ steps 0 1 ++ steps 3 4) :
        BCast (Fin 4) ℕ 1).Pending 2 1 := ⟨⟨1, true⟩, .turning, by decide, rfl, nofun⟩
  rcases hagrees.releases 2 (by decide) with ⟨n, hn, -⟩ | hnone
  · exact nomatch hn
  · exact absurd (hnone 2 1 hpending) (by decide)

end BCast
