/-
# Waiting on a BCast and triggering it (`src/lib/bcast.c`)

A non-synchronized BCast.  A spin waiter polls a slot of the spin list; an idle waiter takes a
ticket from `allowable_count` on every turn of its loop; an adaptive waiter begins as a spin waiter
and goes on as an idle one.  A trigger marks slots, stores what is left as the allowance of the idle
waiters, and waits until the waiters have counted themselves in `num_triggered`.

Conventions:

* each atomic operation is a step, and so are the section of a registration that is protected by
  the lock, the writing of the payload and the reading of it;
* every wait and every trigger may time out wherever the source tests the clock;
* the BCast is not destroyed, no process dies and no memory runs out; there are fewer waiters than
  `INT_MAX`, which stands for all of them;
* the lock has the trigger that holds it, with its local variables; it is lost when a trigger
  returns without unlocking it;
* the fields of the second half are not in the source: how many triggers have taken the lock, what
  each of them was asked for, its payload and how many waiters it has released, which of them have
  returned `DRAGON_SUCCESS`, and by which of them the allowance and each slot were set.
-/
import DragonRuntime.Runs

/-- A slot of the spin list: `0`, `1` or `2`. -/
inductive SpinSlot : Type where
  | free
  | waiting
  | triggered
  deriving DecidableEq

inductive WaitMode : Type where
  | idle
  | spin
  | adaptive
  deriving DecidableEq

/-- What a wait that was released returns. -/
inductive WaitResult (β : Type*) : Type _ where
  | success (payload : List β)
  | invalidArgument
  deriving DecidableEq

/-- A registered wait: how many triggers had taken the lock before it, and whether it gives the
pointers for a payload. -/
structure Registration where
  time : ℕ
  wantsPayload : Bool
  deriving DecidableEq

/-- A registered waiter that has not found out yet that it is released. -/
inductive Waiting (sz : ℕ) : Type where
  /-- in `_idle_wait`, before it takes a ticket -/
  | turning
  /-- after a ticket that does not release it -/
  | dozing
  /-- an adaptive waiter that has given up its slot -/
  | switching
  | spinning (idx : Fin sz) (adaptive : Bool)
  deriving DecidableEq

/-- A waiter that was released, until it is not counted in `num_waiting` any more. -/
inductive Leaving (sz : ℕ) (β : Type*) : Type _ where
  | clearing (idx : Fin sz)
  | uncounting
  | reading
  | departing (result : WaitResult β)
  deriving DecidableEq

/-- A spin waiter that has timed out. -/
inductive Expiring : Type where
  | withdrawing
  | uncounting
  | clearing
  deriving DecidableEq

/-- `num_to_trigger` -/
inductive TriggerRequest : Type where
  | all
  | some (n : ℕ)
  deriving DecidableEq

/-- The number of waiters to trigger of those that are waiting. -/
def TriggerRequest.count : TriggerRequest → ℕ → ℕ
  | .all, numWaiting => numWaiting
  | .some n, _ => n

structure TriggerCall (β : Type*) where
  request : TriggerRequest
  payload : List β
  deriving DecidableEq

/-- Where a process is. -/
inductive BCastPhase (sz : ℕ) (β : Type*) : Type _ where
  | out
  /-- in `_bcast_wait_on_triggering` -/
  | pausing (mode : WaitMode) (wantsPayload : Bool)
  | entering (mode : WaitMode) (wantsPayload : Bool)
  | waiting (reg : Registration) (w : Waiting sz)
  /-- with the trigger that has released it, if there is one -/
  | released (reg : Registration) (cause : Option ℕ) (l : Leaving sz β)
  /-- before it counts itself in `num_triggered` -/
  | counting (reg : Registration) (cause : Option ℕ) (result : WaitResult β)
  | returned (reg : Registration) (cause : Option ℕ) (result : WaitResult β)
  | expired (idx : Fin sz) (e : Expiring)
  /-- a trigger that does not have the lock yet -/
  | locking (call : TriggerCall β)
  /-- a trigger that has the lock -/
  | triggering
  deriving DecidableEq

/-- Where a trigger that has the lock is, with its local variables. -/
inductive TriggerStage : Type where
  | checking
  | loading
  | writing (numWaiting : ℕ)
  | resetting (numWaiting : ℕ)
  | starting (numWaiting : ℕ)
  | sizing (numToTrigger : ℕ)
  | scanning (numToTrigger numSpinners currentSpinnerCount idx : ℕ)
  | allowing (numToTrigger numToWake : ℕ)
  /-- at the first test of the loop, at the second one, and in its body -/
  | counting (numToTrigger : ℕ)
  | remaining (numToTrigger : ℕ)
  | looping (numToTrigger : ℕ)
  /-- in `_trigger_completion` -/
  | completing (numToTrigger : ℕ)
  | ending (numToTrigger : ℕ)
  | unlocking (numToTrigger : ℕ) (success : Bool)
  deriving DecidableEq

inductive BCastLock (P β : Type*) : Type _ where
  | free
  | lost
  | held (p : P) (call : TriggerCall β) (stage : TriggerStage)
  deriving DecidableEq

/-- A BCast with a spin list of `sz` slots, and the processes that use it. -/
structure BCast (P β : Type*) (sz : ℕ) where
  payloadAreaSz : ℕ
  lock : BCastLock P β
  numWaiting : ℕ
  numTriggered : ℕ
  triggering : Bool
  allowableCount : ℤ
  spinListCount : ℕ
  spinList : Fin sz → SpinSlot
  payload : List β
  phase : P → BCastPhase sz β
  serial : ℕ
  requestOf : ℕ → TriggerRequest
  payloadOf : ℕ → List β
  releasedOf : ℕ → ℕ
  succeeded : Finset ℕ
  allowedBy : ℕ
  triggeredBy : Fin sz → ℕ

namespace BCast

/-- The least value of `allowable_count`. -/
def intMin : ℤ := -2 ^ 31

/-- `atomic_fetch_add` of `-1` on `allowable_count`. -/
def fetchDecr (count : ℤ) : ℤ := if count = intMin then 2 ^ 31 - 1 else count - 1

variable {P β : Type*} {sz : ℕ} [DecidableEq P]

/-- A BCast that was just created, in no call. -/
def init (payloadAreaSz : ℕ) : BCast P β sz where
  payloadAreaSz := payloadAreaSz
  lock := .free
  numWaiting := 0
  numTriggered := 0
  triggering := false
  allowableCount := 0
  spinListCount := 0
  spinList := fun _ => .free
  payload := []
  phase := fun _ => .out
  serial := 0
  requestOf := fun _ => .some 0
  payloadOf := fun _ => []
  releasedOf := fun _ => 0
  succeeded := ∅
  allowedBy := 0
  triggeredBy := fun _ => 0

def setPhase (s : BCast P β sz) (p : P) (phase : BCastPhase sz β) : BCast P β sz :=
  { s with phase := Function.update s.phase p phase }

def setSlot (s : BCast P β sz) (idx : Fin sz) (slot : SpinSlot) : BCast P β sz :=
  { s with spinList := Function.update s.spinList idx slot }

/-! ## `dragon_bcast_wait` -/

def freeSlot (s : BCast P β sz) : Option (Fin sz) :=
  (List.finRange sz).find? fun idx => s.spinList idx = .free

/-- The section of `_idle_wait` that is protected by the lock. -/
def registerIdle (s : BCast P β sz) (p : P) (wantsPayload : Bool) : BCast P β sz :=
  { s with numWaiting := s.numWaiting + 1 }.setPhase p
    (.waiting ⟨s.serial, wantsPayload⟩ .turning)

/-- The section of `_spin_wait` that is protected by the lock. -/
def registerSpin (s : BCast P β sz) (p : P) (adaptive wantsPayload : Bool) : BCast P β sz :=
  match s.freeSlot with
  | none => s.setPhase p (.entering .idle wantsPayload)
  | some idx =>
    ({ s with
        spinListCount := s.spinListCount + 1
        numWaiting := s.numWaiting + 1 }.setSlot idx .waiting).setPhase p
      (.waiting ⟨s.serial, wantsPayload⟩ (.spinning idx adaptive))

def register (s : BCast P β sz) (p : P) (mode : WaitMode) (wantsPayload : Bool) : BCast P β sz :=
  match mode with
  | .idle => s.registerIdle p wantsPayload
  | .spin => s.registerSpin p false wantsPayload
  | .adaptive => s.registerSpin p true wantsPayload

/-- A turn of the loop of `_idle_wait`. -/
def turn (s : BCast P β sz) (p : P) (reg : Registration) : BCast P β sz :=
  if 0 < s.allowableCount then
    { s with
      allowableCount := fetchDecr s.allowableCount
      releasedOf := Function.update s.releasedOf s.allowedBy (s.releasedOf s.allowedBy + 1)
      phase := Function.update s.phase p (.released reg (some s.allowedBy) .reading) }
  else
    { s with
      allowableCount := fetchDecr s.allowableCount
      phase := Function.update s.phase p (.waiting reg .dozing) }

/-- The trigger that has marked a slot, if it is marked. -/
def slotCause (s : BCast P β sz) (idx : Fin sz) : Option ℕ :=
  if s.spinList idx = .triggered then some (s.triggeredBy idx) else none

/-- The end of the loop of `_spin_wait`. -/
def endSpin (s : BCast P β sz) (p : P) (reg : Registration) (idx : Fin sz) : BCast P β sz :=
  s.setPhase p (.released reg (s.slotCause idx) (.clearing idx))

/-- A spin waiter times out: the exchange of its slot tells whether it was released. -/
def expireSpin (s : BCast P β sz) (p : P) (reg : Registration) (idx : Fin sz) : BCast P β sz :=
  if s.spinList idx = .triggered then (s.endSpin p reg idx).setSlot idx .free
  else (s.setPhase p (.expired idx .withdrawing)).setSlot idx .free

/-- An adaptive waiter gives up its slot, if it was not released. -/
def adaptSpin (s : BCast P β sz) (p : P) (reg : Registration) (idx : Fin sz) : BCast P β sz :=
  if s.spinList idx = .waiting then (s.setPhase p (.waiting reg .switching)).setSlot idx .free
  else s.endSpin p reg idx

def advanceWaiting (s : BCast P β sz) (p : P) (reg : Registration) : Waiting sz → BCast P β sz
  | .turning => s.turn p reg
  | .dozing => s.setPhase p (.waiting reg .turning)
  | .switching =>
    { s with spinListCount := s.spinListCount - 1 }.setPhase p (.waiting reg .turning)
  | .spinning idx _ => if s.spinList idx = .waiting then s else s.endSpin p reg idx

/-- The end of `dragon_bcast_wait`, before the counters are changed. -/
def readPayload (s : BCast P β sz) (reg : Registration) : WaitResult β :=
  match s.payload, reg.wantsPayload with
  | _ :: _, false => .invalidArgument
  | payload, _ => .success payload

def advanceReleased (s : BCast P β sz) (p : P) (reg : Registration) (cause : Option ℕ) :
    Leaving sz β → BCast P β sz
  | .clearing idx => (s.setSlot idx .free).setPhase p (.released reg cause .uncounting)
  | .uncounting =>
    { s with spinListCount := s.spinListCount - 1 }.setPhase p (.released reg cause .reading)
  | .reading => s.setPhase p (.released reg cause (.departing (s.readPayload reg)))
  | .departing result =>
    { s with numWaiting := s.numWaiting - 1 }.setPhase p (.counting reg cause result)

/-- The rest of a spin wait that has timed out. -/
def advanceExpired (s : BCast P β sz) (p : P) (idx : Fin sz) : Expiring → BCast P β sz
  | .withdrawing =>
    { s with numWaiting := s.numWaiting - 1 }.setPhase p (.expired idx .uncounting)
  | .uncounting =>
    { s with spinListCount := s.spinListCount - 1 }.setPhase p (.expired idx .clearing)
  | .clearing => (s.setSlot idx .free).setPhase p .out

/-! ## `dragon_bcast_trigger_some` -/

def acquire (s : BCast P β sz) (p : P) (call : TriggerCall β) : BCast P β sz :=
  match s.lock with
  | .free =>
    { s with
      lock := .held p call .checking
      serial := s.serial + 1
      requestOf := Function.update s.requestOf (s.serial + 1) call.request
      payloadOf := Function.update s.payloadOf (s.serial + 1) call.payload
      phase := Function.update s.phase p .triggering }
  | _ => s

def unlock (s : BCast P β sz) (p : P) : BCast P β sz := { s with lock := .free }.setPhase p .out

def setStage (s : BCast P β sz) (p : P) (call : TriggerCall β) (stage : TriggerStage) :
    BCast P β sz :=
  { s with lock := .held p call stage }

/-- A turn of the loop that marks the slots of spin waiters. -/
def scan (s : BCast P β sz) (p : P) (call : TriggerCall β)
    (numToTrigger numSpinners currentSpinnerCount idx : ℕ) : BCast P β sz :=
  if h : numSpinners < currentSpinnerCount ∧ idx < sz ∧ numSpinners < numToTrigger then
    if s.spinList ⟨idx, h.2.1⟩ = .waiting then
      ({ s with
          triggeredBy := Function.update s.triggeredBy ⟨idx, h.2.1⟩ s.serial
          releasedOf := Function.update s.releasedOf s.serial (s.releasedOf s.serial + 1) }.setSlot
        ⟨idx, h.2.1⟩ .triggered).setStage p call
        (.scanning numToTrigger (numSpinners + 1) currentSpinnerCount (idx + 1))
    else s.setStage p call (.scanning numToTrigger numSpinners currentSpinnerCount (idx + 1))
  else s.setStage p call (.allowing numToTrigger (numToTrigger - numSpinners))

def advanceTrigger (s : BCast P β sz) (p : P) (call : TriggerCall β) :
    TriggerStage → BCast P β sz
  | .checking =>
    if s.numWaiting = 0 ∨ s.payloadAreaSz < call.payload.length then s.unlock p
    else s.setStage p call .loading
  | .loading =>
    if s.numWaiting = 0 then s.unlock p else s.setStage p call (.writing s.numWaiting)
  | .writing numWaiting =>
    { s with payload := call.payload }.setStage p call (.resetting numWaiting)
  | .resetting numWaiting => { s with numTriggered := 0 }.setStage p call (.starting numWaiting)
  | .starting numWaiting =>
    -- `DRAGON_BCAST_INSUFFICIENT_WAITERS` is returned with the lock
    if numWaiting < call.request.count numWaiting then { s with lock := .lost }.setPhase p .out
    else { s with triggering := true }.setStage p call (.sizing (call.request.count numWaiting))
  | .sizing n => s.setStage p call (.scanning n 0 s.spinListCount 0)
  | .scanning n numSpinners currentSpinnerCount idx =>
    s.scan p call n numSpinners currentSpinnerCount idx
  | .allowing n numToWake =>
    { s with allowableCount := numToWake, allowedBy := s.serial }.setStage p call (.counting n)
  | .counting n =>
    if s.numTriggered < n then s.setStage p call (.remaining n)
    else s.setStage p call (.completing n)
  | .remaining n =>
    if 0 < s.numWaiting then s.setStage p call (.looping n)
    else s.setStage p call (.completing n)
  | .looping n => s.setStage p call (.counting n)
  | .completing n => { s with allowableCount := 0 }.setStage p call (.ending n)
  | .ending n => { s with triggering := false }.setStage p call (.unlocking n true)
  | .unlocking _ success =>
    { s with succeeded := if success then insert s.serial s.succeeded else s.succeeded }.unlock p

/-- The trigger times out in the body of its loop. -/
def expireTrigger (s : BCast P β sz) (p : P) (call : TriggerCall β) :
    TriggerStage → BCast P β sz
  | .looping n => { s with triggering := false }.setStage p call (.unlocking n false)
  | _ => s

/-! ## The steps -/

/-- What a process does: it begins a call, makes the next step of its call, times out, or gives
up its slot of the spin list. -/
inductive Action (β : Type*) : Type _ where
  | wait (mode : WaitMode) (wantsPayload : Bool)
  | trigger (call : TriggerCall β)
  | advance
  | expire
  | adapt

/-- A call begins in no other call. -/
def start (s : BCast P β sz) (p : P) (phase : BCastPhase sz β) : BCast P β sz :=
  match s.phase p with
  | .out | .returned _ _ _ => s.setPhase p phase
  | _ => s

def advance (s : BCast P β sz) (p : P) : BCast P β sz :=
  match s.phase p with
  | .out | .returned _ _ _ => s
  | .pausing mode wantsPayload => if s.triggering then s else s.setPhase p (.entering mode wantsPayload)
  | .entering mode wantsPayload =>
    match s.lock with
    | .free => s.register p mode wantsPayload
    | _ => s
  | .waiting reg w => s.advanceWaiting p reg w
  | .released reg cause l => s.advanceReleased p reg cause l
  | .counting reg cause result =>
    { s with numTriggered := s.numTriggered + 1 }.setPhase p (.returned reg cause result)
  | .expired idx e => s.advanceExpired p idx e
  | .locking call => s.acquire p call
  | .triggering =>
    match s.lock with
    | .held q call stage => if q = p then s.advanceTrigger p call stage else s
    | _ => s

def expire (s : BCast P β sz) (p : P) : BCast P β sz :=
  match s.phase p with
  | .pausing _ _ => s.setPhase p .out
  | .waiting _ .dozing => { s with numWaiting := s.numWaiting - 1 }.setPhase p .out
  | .waiting reg (.spinning idx _) => s.expireSpin p reg idx
  | .triggering =>
    match s.lock with
    | .held q call stage => if q = p then s.expireTrigger p call stage else s
    | _ => s
  | _ => s

def adapt (s : BCast P β sz) (p : P) : BCast P β sz :=
  match s.phase p with
  | .waiting reg (.spinning idx true) => s.adaptSpin p reg idx
  | _ => s

def exec (s : BCast P β sz) (step : P × Action β) : BCast P β sz :=
  match step.2 with
  | .wait mode wantsPayload => s.start step.1 (.pausing mode wantsPayload)
  | .trigger call => s.start step.1 (.locking call)
  | .advance => s.advance step.1
  | .expire => s.expire step.1
  | .adapt => s.adapt step.1

def run (payloadAreaSz : ℕ) (steps : List (P × Action β)) : BCast P β sz :=
  steps.foldl exec (init payloadAreaSz)

/-! ## Agreement -/

/-- A process waits and is not released; it registered when so many triggers had taken the lock. -/
def Pending (s : BCast P β sz) (p : P) (time : ℕ) : Prop :=
  ∃ reg w, s.phase p = .waiting reg w ∧ reg.time = time ∧
    ∀ idx adaptive, w = .spinning idx adaptive → s.spinList idx ≠ .triggered

/-- Waits and triggers agree. -/
structure Agrees (s : BCast P β sz) : Prop where
  /-- a wait returns `DRAGON_SUCCESS` because of a trigger that took the lock after it had
  registered, with the payload of that trigger -/
  causes : ∀ p reg cause payload, s.phase p = .returned reg cause (.success payload) →
    ∃ t, cause = some t ∧ reg.time < t ∧ t ≤ s.serial ∧ payload = s.payloadOf t
  /-- no trigger releases more waiters than it was asked for -/
  bounds : ∀ t n, s.requestOf t = .some n → s.releasedOf t ≤ n
  /-- a trigger that has returned `DRAGON_SUCCESS` has released as many waiters as it was asked
  for, or no waiter that had registered before it is still to be released -/
  releases : ∀ t ∈ s.succeeded, (∃ n, s.requestOf t = .some n ∧ s.releasedOf t = n) ∨
    ∀ p time, s.Pending p time → t ≤ time

end BCast
