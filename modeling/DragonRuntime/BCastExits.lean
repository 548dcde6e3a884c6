/-
# How the calls on a BCast end (`src/lib/bcast.c`)

`dragon_bcast_trigger_some` and `dragon_bcast_wait` with all their exits: refused arguments, too few
waiters, a payload that is too large, time-outs, waiters that have died, a BCast that is being
destroyed.  The BCast is not synchronized.

Conventions:

* the atomic operations are grouped to steps: the sections that are protected by the lock, and what
  a call does to the counters between two of its tests;
* a call ends in a step that gives what it returns, and for a wait how often it has called the
  release function; a call of the release function changes nothing else here;
* every time-out may come wherever the source tests the clock, and a process may die anywhere;
* the lock has the process that holds it; a counter that went below zero is negative;
* the payload itself, the signals and the memory of the BCast are left out.
-/
import DragonRuntime.BCastAgreement
import DragonRuntime.ReturnCodes

namespace BCastExits

/-- The timer of a call, as far as the calls tell it apart. -/
inductive Timer : Type where
  | forever
  | zero
  | deadline
  /-- without a deadline that could be computed -/
  | invalid (e : DragonError)

/-- `dragon_timespec_deadline` -/
def Timer.computed : Timer → Except DragonError Unit
  | .invalid e => .error e
  | _ => .ok ()

/-- There is a deadline. -/
def Timer.timed : Timer → Bool
  | .forever => false
  | _ => true

/-- The arguments of `dragon_bcast_wait`, with what the descriptor leads to. -/
structure WaitArgs where
  bdNull : Bool
  /-- `none` is a mode that does not exist -/
  mode : Option WaitMode
  handle : Except DragonError Unit
  timer : Timer
  /-- One of the two pointers for the payload is null. -/
  payloadNull : Bool

structure TriggerArgs where
  bdNull : Bool
  handle : Except DragonError Unit
  numToTrigger : ℤ
  timer : Timer
  payloadNull : Bool
  payloadSz : ℕ

/-- A wait on its way. -/
structure Waiter where
  mode : WaitMode
  timed : Bool
  payloadNull : Bool
  /-- how often the release function was called -/
  releases : ℕ

/-- `(release_fun)(release_arg)` -/
def Waiter.release (w : Waiter) : Waiter := { w with releases := w.releases + 1 }

/-- Where a trigger that has the lock is. -/
inductive Stage : Type where
  | checking
  | loading
  | writing (numWaiting : ℤ)
  | starting (numWaiting : ℤ)
  | scanning (numToTrigger : ℤ) (numSpinners : ℕ) (currentSpinnerCount : ℤ) (idx : ℕ)
  | allowing (numToTrigger : ℤ) (numSpinners : ℕ)
  /-- at the first and at the second test of the loop, at the test of `shutting_down`, and after
  it -/
  | counting (numToTrigger : ℤ)
  | remaining (numToTrigger : ℤ)
  | looping (numToTrigger : ℤ)
  | turning (numToTrigger : ℤ)
  | completing

/-- Where a process is. -/
inductive Phase (sz procMax : ℕ) : Type where
  | out
  /-- in `_bcast_wait_on_triggering` -/
  | pausing (w : Waiter)
  | entering (w : Waiter)
  /-- registered, with the slot of a spin waiter -/
  | releasing (w : Waiter) (idx : Option (Fin sz))
  | listing (w : Waiter) (idx : Fin sz)
  | spinning (w : Waiter) (idx : Fin sz) (procIdx : Option (Fin procMax))
  /-- in the loop of `_idle_wait`: before a ticket, after one in vain, and asleep -/
  | turning (w : Waiter)
  | missed (w : Waiter)
  | dozing (w : Waiter) (procIdx : Option (Fin procMax))
  /-- at the end of `dragon_bcast_wait` -/
  | leaving (w : Waiter)
  /-- before it counts itself in `num_triggered` -/
  | counting (w : Waiter) (result : Except DragonError Unit)
  | locking (args : TriggerArgs)
  | triggering (args : TriggerArgs) (stage : Stage)

/-- What a call returns; a wait with how often it has called the release function. -/
inductive Exit : Type where
  | wait (releases : ℕ) (result : Except DragonError Unit)
  | trigger (result : Except DragonError Unit)

/-- What a process does. -/
inductive Action (P : Type*) : Type _ where
  | wait (args : WaitArgs)
  | trigger (args : TriggerArgs)
  | advance
  | expire
  /-- an adaptive waiter goes on as an idle one -/
  | adapt
  /-- a call inside fails: the lock, the second deadline, the sleep or the memory of the payload -/
  | fail (e : DragonError)
  /-- the trigger looks after the waiters; some refuse the signal -/
  | sweep (refused : P → Bool)
  /-- a waiter finds its handle, or the BCast, replaced -/
  | corrupt (e : DragonError)
  /-- `dragon_bcast_destroy` is called -/
  | shutDown
  | die

end BCastExits

open BCastExits

/-- A BCast with a spin list of `sz` slots and a list of `procMax` processes, and its users. -/
structure ExitBCast (P : Type*) (sz procMax : ℕ) where
  payloadAreaSz : ℕ
  lock : Option P
  numWaiting : ℤ
  numTriggered : ℕ
  numToTrigger : ℤ
  triggering : Bool
  allowableCount : ℤ
  spinListCount : ℤ
  spinList : Fin sz → SpinSlot
  payloadSz : ℕ
  shuttingDown : Bool
  procList : Fin procMax → Option P
  procNum : ℤ
  phase : P → Phase sz procMax
  dead : P → Bool

namespace BCastExits.Phase

variable {sz procMax : ℕ}

/-- The process is counted in `num_waiting`. -/
def counted : Phase sz procMax → Bool
  | .releasing _ _ | .listing _ _ | .spinning _ _ _ | .turning _ | .missed _ | .dozing _ _
  | .leaving _ => true
  | _ => false

/-- The process has the lock. -/
def locked : Phase sz procMax → Bool
  | .triggering _ _ => true
  | _ => false

/-- The process is in the midst of triggering. -/
def late : Phase sz procMax → Bool
  | .triggering _ .checking | .triggering _ .loading | .triggering _ (.writing _)
  | .triggering _ (.starting _) => false
  | .triggering _ _ => true
  | _ => false

/-- The release function was called if the process has come past the registration. -/
def ReleasesOk : Phase sz procMax → Prop
  | .pausing w | .entering w | .releasing w _ => w.releases = 0
  | .listing w _ | .spinning w _ _ | .turning w | .missed w | .dozing w _ | .leaving w
  | .counting w _ => w.releases = 1
  | _ => True

theorem locked_of_late {ph : Phase sz procMax} (h : ph.late) : ph.locked := by
  cases ph <;> simp_all [late, locked]

theorem not_counted_of_locked {ph : Phase sz procMax} (h : ph.locked) : ph.counted = false := by
  cases ph <;> simp_all [counted, locked]

end BCastExits.Phase

namespace ExitBCast

variable {P : Type*} {sz procMax : ℕ} [DecidableEq P]

/-- A BCast that was just created, in no call. -/
def init (payloadAreaSz : ℕ) : ExitBCast P sz procMax where
  payloadAreaSz := payloadAreaSz
  lock := none
  numWaiting := 0
  numTriggered := 0
  numToTrigger := 0
  triggering := false
  allowableCount := 0
  spinListCount := 0
  spinList := fun _ => .free
  payloadSz := 0
  shuttingDown := false
  procList := fun _ => none
  procNum := 0
  phase := fun _ => .out
  dead := fun _ => false

variable (s : ExitBCast P sz procMax) (p : P)

/-- The call goes on here. -/
def go (phase : Phase sz procMax) : ExitBCast P sz procMax × Option Exit :=
  ({ s with phase := Function.update s.phase p phase }, none)

/-- The call returns. -/
def exit (e : Exit) : ExitBCast P sz procMax × Option Exit :=
  ({ s with phase := Function.update s.phase p .out }, some e)

/-- The process has nothing to do here. -/
def stay : ExitBCast P sz procMax × Option Exit := (s, none)

def setSlot (idx : Fin sz) (slot : SpinSlot) : ExitBCast P sz procMax :=
  { s with spinList := Function.update s.spinList idx slot }

/-! ## The list of processes -/

/-- `_register_pid` -/
def registerPid : ExitBCast P sz procMax × Option (Fin procMax) :=
  if s.procNum < procMax then
    match (List.finRange procMax).find? fun k => s.procList k = none with
    | some k =>
      ({ s with
        procNum := s.procNum + 1
        procList := Function.update s.procList k (some p) }, some k)
    | none => (s, none)
  else (s, none)

/-- `_erase_pid`, of the process that calls it -/
def erasePid : Option (Fin procMax) → ExitBCast P sz procMax
  | none => s
  | some k =>
    if s.procList k = some p then
      { s with
        procNum := s.procNum - 1
        procList := Function.update s.procList k none }
    else s

/-- The loop of `_check_pids`; the process that has died is not the one that calls `_erase_pid`. -/
def checkPidsFrom (refused : P → Bool) (numProcs : ℤ) : List (Fin procMax) →
    ExitBCast P sz procMax → ℤ → Bool → ExitBCast P sz procMax × Except DragonError Unit
  | [], s, _, lost => (s, if lost then .error .bcastDeadWaiter else .ok ())
  | k :: ks, s, foundPids, lost =>
    match s.procList k with
    | none =>
      if foundPids = numProcs then (s, .ok ())
      else checkPidsFrom refused numProcs ks s foundPids lost
    | some q =>
      if s.dead q then
        let s := { s with numWaiting := s.numWaiting - 1 }.erasePid p (some k)
        if foundPids = numProcs then (s, .ok ())
        else checkPidsFrom refused numProcs ks s foundPids true
      else if refused q then (s, .error .failure)
      else if foundPids + 1 = numProcs then (s, .ok ())
      else checkPidsFrom refused numProcs ks s (foundPids + 1) lost

/-- `_check_pids` -/
def checkPids (refused : P → Bool) : ExitBCast P sz procMax × Except DragonError Unit :=
  checkPidsFrom p refused s.procNum (List.finRange procMax) s 0 false

/-! ## `dragon_bcast_wait` -/

/-- Until `_bcast_wait_on_triggering`. -/
def startWait (args : WaitArgs) : ExitBCast P sz procMax × Option Exit :=
  if args.bdNull then s.exit p (.wait 1 (.error .invalidArgument))
  else
    match args.mode with
    -- the release function is not called
    | none => s.exit p (.wait 0 (.error .invalidArgument))
    | some mode =>
      match args.handle, args.timer with
      | .error e, _ => s.exit p (.wait 1 (.error e))
      | .ok (), .zero => s.exit p (.wait 1 (.error .timeout))
      | .ok (), .invalid e => s.exit p (.wait 1 (.error e))
      | .ok (), timer => s.go p (.pausing ⟨mode, timer.timed, args.payloadNull, 0⟩)

/-- The sections of `_idle_wait` and of `_spin_wait` that are protected by the lock. -/
def register (w : Waiter) : ExitBCast P sz procMax × Option Exit :=
  match w.mode with
  | .idle => { s with numWaiting := s.numWaiting + 1 }.go p (.releasing w none)
  | .spin | .adaptive =>
    match (List.finRange sz).find? fun idx => s.spinList idx = .free with
    | none => s.go p (.entering { w with mode := .idle })
    | some idx =>
      ({ s with
          spinListCount := s.spinListCount + 1
          numWaiting := s.numWaiting + 1 }.setSlot idx .waiting).go p (.releasing w (some idx))

/-- The end of `_spin_wait`. -/
def endSpin (w : Waiter) (idx : Fin sz) (procIdx : Option (Fin procMax)) :
    ExitBCast P sz procMax × Option Exit :=
  ({ s.erasePid p procIdx with spinListCount := s.spinListCount - 1 }.setSlot idx .free).go p
    (.leaving w)

/-- A turn of the loop of `_idle_wait`. -/
def takeTicket (w : Waiter) : ExitBCast P sz procMax × Option Exit :=
  let s' := { s with allowableCount := BCast.fetchDecr s.allowableCount }
  if 0 < s.allowableCount then s'.go p (.leaving w) else s'.go p (.missed w)

/-- After the sleep of `_idle_wait`; `failed` if the sleep has returned an error. -/
def wake (w : Waiter) (procIdx : Option (Fin procMax)) (failed : Bool) :
    ExitBCast P sz procMax × Option Exit :=
  let s := s.erasePid p procIdx
  if s.shuttingDown then s.go p (.leaving w)
  else if failed then
    { s with numWaiting := s.numWaiting - 1 }.exit p
      (.wait w.releases (.error .bcastIdleWaitCallError))
  else s.go p (.turning w)

/-- The end of `dragon_bcast_wait`; `malloced` if there is memory for the payload. -/
def leave (w : Waiter) (malloced : Bool) : ExitBCast P sz procMax × Option Exit :=
  let s' := { s with numWaiting := s.numWaiting - 1 }
  if s.shuttingDown then s'.exit p (.wait w.releases (.error .objectDestroyed))
  else if s.payloadSz = 0 then s'.go p (.counting w (.ok ()))
  else if w.payloadNull then s'.go p (.counting w (.error .invalidArgument))
  else if malloced then s'.go p (.counting w (.ok ()))
  else s'.go p (.counting w (.error .internalMallocFail))

/-- A spin waiter times out, unless its slot was marked meanwhile. -/
def expireSpin (w : Waiter) (idx : Fin sz) (procIdx : Option (Fin procMax)) :
    ExitBCast P sz procMax × Option Exit :=
  if s.spinList idx = .triggered then s.endSpin p w idx procIdx
  else
    ({ s.erasePid p procIdx with
        numWaiting := s.numWaiting - 1
        spinListCount := s.spinListCount - 1 }.setSlot idx .free).exit p
      (.wait w.releases (.error .timeout))

/-- An adaptive waiter gives up its slot, unless it was marked meanwhile. -/
def adaptSpin (w : Waiter) (idx : Fin sz) (procIdx : Option (Fin procMax)) :
    ExitBCast P sz procMax × Option Exit :=
  if s.spinList idx = .waiting then
    ({ s.erasePid p procIdx with spinListCount := s.spinListCount - 1 }.setSlot idx .free).go p
      (.turning w)
  else s.endSpin p w idx procIdx

/-! ## `dragon_bcast_trigger_some` -/

/-- Until the lock. -/
def startTrigger (args : TriggerArgs) : ExitBCast P sz procMax × Option Exit :=
  if args.bdNull then s.exit p (.trigger (.error .invalidArgument))
  else if 0 < args.payloadSz ∧ args.payloadNull then s.exit p (.trigger (.error .invalidArgument))
  else
    match args.timer.computed, args.handle with
    | .error e, _ => s.exit p (.trigger (.error e))
    | .ok (), .error e => s.exit p (.trigger (.error e))
    | .ok (), .ok () => s.go p (.locking args)

/-- The trigger unlocks the BCast and returns. -/
def unlockAndExit (result : Except DragonError Unit) : ExitBCast P sz procMax × Option Exit :=
  { s with lock := none }.exit p (.trigger result)

/-- `INT_MAX` -/
def intMax : ℤ := 2 ^ 31 - 1

/-- The number of waiters to trigger, of those that were counted. -/
def toTrigger (numToTrigger numWaiting : ℤ) : ℤ :=
  if numToTrigger = intMax ∧ 0 ≤ numWaiting ∧ numWaiting < numToTrigger then numWaiting
  else numToTrigger

/-- `num_waiting < num_to_trigger`, where both are unsigned -/
def Insufficient (numToTrigger numWaiting : ℤ) : Prop :=
  numToTrigger < 0 ∨ 0 ≤ numWaiting ∧ numWaiting < numToTrigger

instance (numToTrigger numWaiting : ℤ) : Decidable (Insufficient numToTrigger numWaiting) :=
  inferInstanceAs (Decidable (_ ∨ _))

/-- A turn of the loop that marks the slots of spin waiters. -/
def scan (args : TriggerArgs) (numToTrigger : ℤ) (numSpinners : ℕ) (currentSpinnerCount : ℤ)
    (idx : ℕ) : ExitBCast P sz procMax × Option Exit :=
  if h : numSpinners < currentSpinnerCount ∧ idx < sz ∧ numSpinners < numToTrigger then
    if s.spinList ⟨idx, h.2.1⟩ = .waiting then
      (s.setSlot ⟨idx, h.2.1⟩ .triggered).go p
        (.triggering args (.scanning numToTrigger (numSpinners + 1) currentSpinnerCount (idx + 1)))
    else
      s.go p (.triggering args (.scanning numToTrigger numSpinners currentSpinnerCount (idx + 1)))
  else s.go p (.triggering args (.allowing numToTrigger numSpinners))

/-- `_trigger_completion` -/
def triggerCompletion : ExitBCast P sz procMax :=
  { s with
    allowableCount := 0
    numToTrigger := 0
    triggering := false
    lock := none }

def advanceTrigger (args : TriggerArgs) : Stage → ExitBCast P sz procMax × Option Exit
  | .checking =>
    if s.numWaiting = 0 then s.unlockAndExit p (.error .bcastNoWaiters)
    else if s.payloadAreaSz < args.payloadSz then s.unlockAndExit p (.error .invalidArgument)
    else s.go p (.triggering args .loading)
  | .loading =>
    if s.numWaiting = 0 then s.unlockAndExit p (.error .bcastNoWaiters)
    else s.go p (.triggering args (.writing s.numWaiting))
  | .writing numWaiting =>
    { s with payloadSz := args.payloadSz, numTriggered := 0 }.go p
      (.triggering args (.starting numWaiting))
  | .starting numWaiting =>
    -- returns with the lock
    if Insufficient (toTrigger args.numToTrigger numWaiting) numWaiting then
      s.exit p (.trigger (.error .bcastInsufficientWaiters))
    else
      { s with
        numToTrigger := toTrigger args.numToTrigger numWaiting
        triggering := true }.go p
        (.triggering args
          (.scanning (toTrigger args.numToTrigger numWaiting) 0 s.spinListCount 0))
  | .scanning n numSpinners currentSpinnerCount idx =>
    s.scan p args n numSpinners currentSpinnerCount idx
  | .allowing n numSpinners =>
    { s with allowableCount := n - numSpinners }.go p (.triggering args (.counting n))
  | .counting n =>
    if s.numTriggered < n then s.go p (.triggering args (.remaining n))
    else s.go p (.triggering args .completing)
  | .remaining n =>
    if s.numWaiting ≠ 0 then s.go p (.triggering args (.looping n))
    else s.go p (.triggering args .completing)
  | .looping n =>
    -- returns with the lock, in the midst of triggering
    if s.shuttingDown then s.exit p (.trigger (.error .objectDestroyed))
    else s.go p (.triggering args (.turning n))
  | .turning n => s.go p (.triggering args (.counting n))
  | .completing => s.triggerCompletion.exit p (.trigger (.ok ()))

/-- The trigger looks after the waiters. -/
def sweepTrigger (args : TriggerArgs) (n : ℤ) (refused : P → Bool) :
    ExitBCast P sz procMax × Option Exit :=
  match s.checkPids p refused with
  | (s, .ok ()) => s.go p (.triggering args (.turning n))
  -- in the midst of triggering
  | (s, .error e) => s.unlockAndExit p (.error e)

/-! ## The steps -/

def advance : ExitBCast P sz procMax × Option Exit :=
  match s.phase p with
  | .out => s.stay
  | .pausing w => if s.triggering then s.stay else s.go p (.entering w)
  | .entering w => if s.lock = none then s.register p w else s.stay
  | .releasing w none => s.go p (.turning w.release)
  | .releasing w (some idx) => s.go p (.listing w.release idx)
  | .listing w idx => (s.registerPid p).1.go p (.spinning w idx (s.registerPid p).2)
  | .spinning w idx procIdx =>
    if s.shuttingDown = false ∧ s.spinList idx = .waiting then s.stay
    else s.endSpin p w idx procIdx
  | .turning w => s.takeTicket p w
  | .missed w => (s.registerPid p).1.go p (.dozing w (s.registerPid p).2)
  | .dozing w procIdx => s.wake p w procIdx false
  | .leaving w => s.leave p w true
  | .counting w result =>
    { s with numTriggered := s.numTriggered + 1 }.exit p (.wait w.releases result)
  | .locking args =>
    if s.lock = none then { s with lock := some p }.go p (.triggering args .checking) else s.stay
  | .triggering args stage => s.advanceTrigger p args stage

def expire : ExitBCast P sz procMax × Option Exit :=
  match s.phase p with
  | .pausing w =>
    if w.timed then s.exit p (.wait w.release.releases (.error .timeout)) else s.stay
  | .missed w =>
    if w.timed then
      { s with numWaiting := s.numWaiting - 1 }.exit p (.wait w.releases (.error .timeout))
    else s.stay
  | .spinning w idx procIdx => if w.timed then s.expireSpin p w idx procIdx else s.stay
  | .triggering args (.turning _) =>
    if args.timer.timed then { s with triggering := false }.unlockAndExit p (.error .timeout)
    else s.stay
  | _ => s.stay

def adapt : ExitBCast P sz procMax × Option Exit :=
  match s.phase p with
  | .spinning w idx procIdx =>
    if w.mode = .adaptive then s.adaptSpin p w idx procIdx else s.stay
  | _ => s.stay

def fail (e : DragonError) : ExitBCast P sz procMax × Option Exit :=
  match s.phase p with
  | .locking _ => s.exit p (.trigger (.error e))
  | .triggering args .loading =>
    if args.timer.timed then s.unlockAndExit p (.error e) else s.stay
  | .dozing w procIdx => s.wake p w procIdx true
  | .leaving w => s.leave p w false
  | _ => s.stay

def corrupt (e : DragonError) : ExitBCast P sz procMax × Option Exit :=
  match s.phase p with
  | .spinning w _ _ | .dozing w _ => s.exit p (.wait w.releases (.error e))
  | _ => s.stay

/-- A step of a process that is alive, and the call that it ends. -/
def act : Action P → ExitBCast P sz procMax × Option Exit
  | .wait args => match s.phase p with
    | .out => s.startWait p args
    | _ => s.stay
  | .trigger args => match s.phase p with
    | .out => s.startTrigger p args
    | _ => s.stay
  | .advance => s.advance p
  | .expire => s.expire p
  | .adapt => s.adapt p
  | .fail e => s.fail p e
  | .sweep refused => match s.phase p with
    | .triggering args (.turning n) => s.sweepTrigger p args n refused
    | _ => s.stay
  | .corrupt e => s.corrupt p e
  | .shutDown => match s.phase p with
    | .out => ({ s with shuttingDown := true }, none)
    | _ => s.stay
  | .die => ({ s with dead := Function.update s.dead p true }, none)

/-- A step of any process. -/
def call (step : P × Action P) : ExitBCast P sz procMax × Option Exit :=
  if s.dead step.1 then s.stay else s.act step.1 step.2

def exec (step : P × Action P) : ExitBCast P sz procMax := (s.call step).1

/-! ## Clean exits -/

/-- The processes that are registered in a wait. -/
def numInside [Fintype P] : ℕ := ∑ q, if (s.phase q).counted && !s.dead q then 1 else 0

/-- What a trigger of `p` leaves behind.  If another trigger has the lock, it is the one that
triggers. -/
structure Usable [Fintype P] : Prop where
  unlocked : s.lock ≠ some p
  quiet : s.lock = none → s.triggering = false ∧ s.allowableCount ≤ 0
  inside : s.numWaiting = s.numInside

/-- A call ends as it should. -/
def CleanExit [Fintype P] (r : ExitBCast P sz procMax × Option Exit) : Prop :=
  match r.2 with
  | some (.trigger _) => r.1.Usable p
  | some (.wait releases _) => releases = 1
  | none => True

/-- The step leads to none of the exits that leave something undone: the mode of a wait exists, a
trigger finds as many waiters as it is to release, it does not find the BCast being destroyed or a
waiter that has died or refuses the signal, and when it times out its allowance is used up; no
process dies, or finds the BCast replaced, while it is counted, and `allowable_count` does not wrap
around. -/
def Careful (step : P × Action P) : Prop :=
  s.dead step.1 = false →
    match step.2, s.phase step.1 with
    | .wait args, .out => args.bdNull = true ∨ args.mode.isSome = true
    | .advance, .turning _ => s.allowableCount ≠ BCast.intMin
    | .advance, .triggering args (.starting numWaiting) =>
      ¬ Insufficient (toTrigger args.numToTrigger numWaiting) numWaiting
    | .advance, .triggering _ (.looping _) => s.shuttingDown = false
    | .expire, .triggering args (.turning _) => args.timer.timed = true → s.allowableCount ≤ 0
    | .sweep refused, .triggering _ (.turning _) =>
      ∀ k q, s.procList k = some q → s.dead q = false ∧ refused q = false
    | .corrupt _, .spinning _ _ _ => False
    | .corrupt _, .dozing _ _ => False
    | .die, phase => phase.counted = false
    | _, _ => True

/-! ## The invariant -/

structure Inv [Fintype P] (s : ExitBCast P sz procMax) : Prop where
  inside : s.numWaiting = s.numInside
  alive : ∀ p, (s.phase p).counted → s.dead p = false
  lockHeld : ∀ p, s.lock = some p ↔ (s.phase p).locked
  quiet : (∀ p, (s.phase p).late = false) → s.triggering = false ∧ s.allowableCount ≤ 0
  releases : ∀ p, (s.phase p).ReleasesOk

omit [DecidableEq P] in
theorem inv_init [Fintype P] (payloadAreaSz : ℕ) :
    (init payloadAreaSz : ExitBCast P sz procMax).Inv where
  inside := by simp [numInside, init, Phase.counted]
  alive := fun _ h => by cases h
  lockHeld := fun _ => by simp [init, Phase.locked]
  quiet := fun _ => ⟨rfl, le_rfl⟩
  releases := fun _ => trivial

/-- A call that ends cleanly and keeps the invariant. -/
structure Good [Fintype P] (p : P) (r : ExitBCast P sz procMax × Option Exit) : Prop where
  inv : r.1.Inv
  clean : CleanExit p r

section Moves

variable [Fintype P] {s s₁ : ExitBCast P sz procMax} {p : P} {ph : Phase sz procMax}

omit [DecidableEq P] in
theorem Inv.good_stay (h : s.Inv) : Good p s.stay := ⟨h, trivial⟩

/-- What a process does beside its own phase, with the lock and the flag left as they are. -/
structure Beside (s s₁ : ExitBCast P sz procMax) : Prop where
  phase : s₁.phase = s.phase
  dead : s₁.dead = s.dead
  lock : s₁.lock = s.lock
  triggering : s₁.triggering = s.triggering
  allowable : s.allowableCount ≤ 0 → s₁.allowableCount ≤ 0

omit [Fintype P] [DecidableEq P] in
theorem Beside.refl (s : ExitBCast P sz procMax) : s.Beside s := ⟨rfl, rfl, rfl, rfl, id⟩

/-- One process goes on, the others stay where they are. -/
theorem numInside_update (ph : Phase sz procMax) (hphase : s₁.phase = s.phase) (hdead : s₁.dead = s.dead)
    (halive : s.dead p = false) :
    ({ s₁ with phase := Function.update s₁.phase p ph }.numInside +
        if (s.phase p).counted then 1 else 0) =
      s.numInside + if ph.counted then 1 else 0 := by
  have hoff : ∀ q, q ≠ p →
      (if (Function.update s.phase p ph q).counted && !s.dead q then 1 else 0) =
        if (s.phase q).counted && !s.dead q then 1 else 0 := by
    intro q hq
    rw [Function.update_of_ne hq]
  have hsum := sum_add_eq_of_eq_off p hoff
  simp only [Function.update_self, halive, Bool.not_false, Bool.and_true] at hsum
  simp only [numInside, hphase, hdead]
  exact hsum

/-- **Step lemma**, for a process that does not have the lock. -/
theorem Inv.move (h : s.Inv) (hb : s.Beside s₁) (halive : s.dead p = false)
    (hold : (s.phase p).locked = false) (hnew : ph.locked = false) (hrel : ph.ReleasesOk)
    (hwaiting : (s₁.numWaiting + if (s.phase p).counted then 1 else 0) =
      s.numWaiting + if ph.counted then 1 else 0) :
    ({ s₁ with phase := Function.update s₁.phase p ph } : ExitBCast P sz procMax).Inv where
  inside := by
    have hsum := numInside_update ph hb.phase hb.dead halive
    have hin := h.inside
    change s₁.numWaiting = _
    push_cast [← @Nat.cast_inj ℤ] at hsum
    omega
  alive := by
    intro q hq
    by_cases hqp : q = p
    · rw [hqp]
      exact (congrFun hb.dead p).trans halive
    · have hq' : (s₁.phase q).counted := by
        simpa only [Function.update_of_ne hqp] using hq
      rw [hb.phase] at hq'
      exact (congrFun hb.dead q).trans (h.alive q hq')
  lockHeld := by
    intro q
    change s₁.lock = some q ↔ (Function.update s₁.phase p ph q).locked
    rw [hb.lock, hb.phase, h.lockHeld]
    by_cases hqp : q = p
    · subst hqp
      rw [Function.update_self, hold, hnew]
    · rw [Function.update_of_ne hqp]
  quiet := by
    intro hlate
    have hnone : ∀ q, (s.phase q).late = false := by
      intro q
      by_cases hqp : q = p
      · subst hqp
        by_contra hq
        have := Phase.locked_of_late (Bool.not_eq_false _ ▸ hq)
        rw [hold] at this
        cases this
      · have hq := hlate q
        simpa only [Function.update_of_ne hqp, hb.phase] using hq
    obtain ⟨htrig, hallow⟩ := h.quiet hnone
    exact ⟨hb.triggering.trans htrig, hb.allowable hallow⟩
  releases := by
    intro q
    change (Function.update s₁.phase p ph q).ReleasesOk
    by_cases hqp : q = p
    · subst hqp
      rw [Function.update_self]
      exact hrel
    · rw [Function.update_of_ne hqp, hb.phase]
      exact h.releases q

/-- What a trigger does beside its own phase, while it has the lock. -/
structure Within (s s₁ : ExitBCast P sz procMax) : Prop where
  phase : s₁.phase = s.phase
  dead : s₁.dead = s.dead
  numWaiting : s₁.numWaiting = s.numWaiting

omit [Fintype P] [DecidableEq P] in
theorem Within.refl (s : ExitBCast P sz procMax) : s.Within s := ⟨rfl, rfl, rfl⟩

/-- **Step lemma**, for a process that has the lock, takes it or gives it back. -/
theorem Inv.hold (h : s.Inv) (hw : s.Within s₁) (halive : s.dead p = false)
    (hlock : s.lock = some p ∨ s.lock = none) (hold : (s.phase p).counted = false)
    (hnew : ph.counted = false) (hlock' : s₁.lock = if ph.locked then some p else none)
    (hrel : ph.ReleasesOk)
    (hquiet : ph.late = false → s₁.triggering = false ∧ s₁.allowableCount ≤ 0) :
    ({ s₁ with phase := Function.update s₁.phase p ph } : ExitBCast P sz procMax).Inv where
  inside := by
    have hsum := numInside_update ph hw.phase hw.dead halive
    have hin := h.inside
    rw [hold, hnew] at hsum
    change s₁.numWaiting = _
    rw [hw.numWaiting, hin]
    exact congrArg Nat.cast hsum.symm
  alive := by
    intro q hq
    by_cases hqp : q = p
    · rw [hqp]
      exact (congrFun hw.dead p).trans halive
    · have hq' : (s₁.phase q).counted := by
        simpa only [Function.update_of_ne hqp] using hq
      rw [hw.phase] at hq'
      exact (congrFun hw.dead q).trans (h.alive q hq')
  lockHeld := by
    intro q
    change s₁.lock = some q ↔ (Function.update s₁.phase p ph q).locked
    rw [hlock']
    by_cases hqp : q = p
    · subst hqp
      rw [Function.update_self]
      by_cases hph : ph.locked
      · simp [hph]
      · simp [hph]
    · rw [Function.update_of_ne hqp, hw.phase, ← h.lockHeld]
      -- the lock was not with anyone else, and is not now
      refine iff_of_false ?_ ?_
      · split
        · exact fun heq => hqp (Option.some.inj heq).symm
        · exact fun heq => by cases heq
      · rcases hlock with hlock | hlock
        · rw [hlock]
          exact fun heq => hqp (Option.some.inj heq).symm
        · rw [hlock]
          exact fun heq => by cases heq
  quiet := by
    intro hlate
    have hp := hlate p
    exact hquiet (by simpa only [Function.update_self] using hp)
  releases := by
    intro q
    change (Function.update s₁.phase p ph q).ReleasesOk
    by_cases hqp : q = p
    · subst hqp
      rw [Function.update_self]
      exact hrel
    · rw [Function.update_of_ne hqp, hw.phase]
      exact h.releases q

omit [DecidableEq P] in
/-- A trigger ends where the BCast meets the invariant. -/
theorem Inv.usable (h : s.Inv) (hp : (s.phase p).locked = false) : s.Usable p where
  unlocked := by
    rw [Ne, h.lockHeld, hp]
    exact Bool.false_ne_true
  quiet := by
    intro hlock
    refine h.quiet fun q => ?_
    by_contra hq
    have hq' := (h.lockHeld q).mpr (Phase.locked_of_late (Bool.not_eq_false _ ▸ hq))
    rw [hlock] at hq'
    cases hq'
  inside := h.inside

omit [DecidableEq P] in
theorem Inv.releases_of (h : s.Inv) (hp : s.phase p = ph) : ph.ReleasesOk := by
  rw [← hp]
  exact h.releases p

variable (h : s.Inv) (halive : s.dead p = false)

include h halive

theorem good_go (hb : s.Beside s₁) (hold : (s.phase p).locked = false)
    (hnew : ph.locked = false) (hrel : ph.ReleasesOk)
    (hwaiting : (s₁.numWaiting + if (s.phase p).counted then 1 else 0) =
      s.numWaiting + if ph.counted then 1 else 0) : Good p (s₁.go p ph) :=
  ⟨h.move hb halive hold hnew hrel hwaiting, trivial⟩

theorem good_exit_wait (hb : s.Beside s₁) (hold : (s.phase p).locked = false)
    (hwaiting : (s₁.numWaiting + if (s.phase p).counted then 1 else 0) = s.numWaiting)
    {releases : ℕ} (hreleases : releases = 1) (result : Except DragonError Unit) :
    Good p (s₁.exit p (.wait releases result)) :=
  ⟨h.move hb halive hold rfl trivial (hwaiting.trans (add_zero _).symm), hreleases⟩

theorem good_exit_trigger (hold : (s.phase p).locked = false)
    (hcounted : (s.phase p).counted = false) (result : Except DragonError Unit) :
    Good p (s.exit p (.trigger result)) := by
  have hinv : ({ s with phase := Function.update s.phase p .out } :
      ExitBCast P sz procMax).Inv :=
    h.move (Beside.refl s) halive hold rfl trivial (by rw [hcounted]; rfl)
  exact ⟨hinv, hinv.usable (by simp [Phase.locked])⟩

variable {args : TriggerArgs} {stage : Stage} {w : Waiter} {idx : Fin sz}
  {procIdx : Option (Fin procMax)}

theorem good_go_trigger (hw : s.Within s₁) (hlock : s.lock = some p ∨ s.lock = none)
    (hold : (s.phase p).counted = false) (hlock' : s₁.lock = some p)
    (hquiet : (Phase.triggering args stage : Phase sz procMax).late = false →
      s₁.triggering = false ∧ s₁.allowableCount ≤ 0) : Good p (s₁.go p (.triggering args stage)) :=
  ⟨h.hold hw halive hlock hold rfl hlock' trivial hquiet, trivial⟩

theorem good_unlockAndExit (hw : s.Within s₁) (hlock : s.lock = some p)
    (hquiet : s₁.triggering = false ∧ s₁.allowableCount ≤ 0) (result : Except DragonError Unit) :
    Good p (s₁.unlockAndExit p result) := by
  have hcounted := Phase.not_counted_of_locked ((h.lockHeld p).mp hlock)
  have hinv : ({ s₁ with lock := none, phase := Function.update s₁.phase p .out } :
      ExitBCast P sz procMax).Inv := by
    have hw' : s.Within { s₁ with lock := none } := ⟨hw.phase, hw.dead, hw.numWaiting⟩
    exact h.hold hw' halive (.inl hlock) hcounted rfl rfl trivial fun _ => hquiet
  exact ⟨hinv, hinv.usable (by simp [Phase.locked])⟩

/-! ## The calls -/

theorem good_startWait (hp : s.phase p = .out) {args : WaitArgs}
    (hargs : args.bdNull = true ∨ args.mode.isSome = true) : Good p (s.startWait p args) := by
  have hout : ∀ {e : Exit} {releases result}, e = .wait releases result → releases = 1 →
      Good p (s.exit p e) := by
    rintro e releases result rfl hreleases
    exact good_exit_wait h halive (Beside.refl s) (by rw [hp]; rfl)
      (by rw [hp]; exact add_zero _) hreleases result
  unfold startWait
  split
  · exact hout rfl rfl
  · rename_i hbd
    split
    · rename_i hmode
      rw [hmode] at hargs
      exact absurd hargs (by simpa using hbd)
    · split
      · exact hout rfl rfl
      · exact hout rfl rfl
      · exact hout rfl rfl
      · exact good_go h halive (Beside.refl s) (by rw [hp]; rfl) rfl rfl (by rw [hp]; rfl)

theorem good_startTrigger (hp : s.phase p = .out) (args : TriggerArgs) :
    Good p (s.startTrigger p args) := by
  have hout : ∀ result, Good p (s.exit p (.trigger result)) :=
    good_exit_trigger h halive (by rw [hp]; rfl) (by rw [hp]; rfl)
  unfold startTrigger
  split_ifs
  · exact hout _
  · exact hout _
  · split
    · exact hout _
    · exact hout _
    · exact good_go h halive (Beside.refl s) (by rw [hp]; rfl) rfl trivial (by rw [hp]; rfl)

theorem good_register (hp : s.phase p = .entering w) : Good p (s.register p w) := by
  have hrel : w.releases = 0 := by
    have := h.releases p
    rwa [hp] at this
  have hspin : Good p (match (List.finRange sz).find? fun idx => s.spinList idx = .free with
      | none => s.go p (.entering { w with mode := .idle })
      | some idx =>
        ({ s with
            spinListCount := s.spinListCount + 1
            numWaiting := s.numWaiting + 1 }.setSlot idx .waiting).go p
          (.releasing w (some idx))) := by
    split
    · exact good_go h halive (Beside.refl s) (by rw [hp]; rfl) rfl hrel (by rw [hp]; rfl)
    · refine good_go h halive ⟨rfl, rfl, rfl, rfl, id⟩ (by rw [hp]; rfl) rfl hrel ?_
      rw [hp]
      exact add_zero _
  unfold register
  split
  · refine good_go h halive ⟨rfl, rfl, rfl, rfl, id⟩ (by rw [hp]; rfl) rfl hrel ?_
    rw [hp]
    exact add_zero _
  · exact hspin
  · exact hspin

omit [Fintype P] [DecidableEq P] h halive in
theorem registerPid_eq : ∃ procList procNum,
    (s.registerPid p).1 = { s with procList := procList, procNum := procNum } := by
  unfold registerPid
  split_ifs
  · split
    · exact ⟨_, _, rfl⟩
    · exact ⟨_, _, rfl⟩
  · exact ⟨_, _, rfl⟩

omit [Fintype P] h halive in
theorem erasePid_eq (procIdx : Option (Fin procMax)) : ∃ procList procNum,
    s.erasePid p procIdx = { s with procList := procList, procNum := procNum } := by
  cases procIdx with
  | none => exact ⟨_, _, rfl⟩
  | some k =>
    by_cases hk : s.procList k = some p
    · exact ⟨_, _, if_pos hk⟩
    · exact ⟨_, _, if_neg hk⟩

theorem good_endSpin (hp : s.phase p = .spinning w idx procIdx) :
    Good p (s.endSpin p w idx procIdx) := by
  have hrel : w.releases = 1 := h.releases_of hp
  obtain ⟨procList, procNum, herase⟩ := s.erasePid_eq (p := p) procIdx
  unfold endSpin
  rw [herase]
  exact good_go h halive ⟨rfl, rfl, rfl, rfl, id⟩ (by rw [hp]; rfl) rfl hrel (by rw [hp]; rfl)

theorem good_takeTicket (hp : s.phase p = .turning w) (hmin : s.allowableCount ≠ BCast.intMin) :
    Good p (s.takeTicket p w) := by
  have hrel : w.releases = 1 := h.releases_of hp
  have hb : s.Beside { s with allowableCount := BCast.fetchDecr s.allowableCount } := by
    refine ⟨rfl, rfl, rfl, rfl, fun hle => ?_⟩
    change BCast.fetchDecr s.allowableCount ≤ 0
    unfold BCast.fetchDecr
    rw [if_neg hmin]
    omega
  unfold takeTicket
  simp only
  split_ifs
  · exact good_go h halive hb (by rw [hp]; rfl) rfl hrel (by rw [hp]; rfl)
  · exact good_go h halive hb (by rw [hp]; rfl) rfl hrel (by rw [hp]; rfl)

theorem good_wake (hp : s.phase p = .dozing w procIdx) (failed : Bool) :
    Good p (s.wake p w procIdx failed) := by
  have hrel : w.releases = 1 := h.releases_of hp
  obtain ⟨procList, procNum, herase⟩ := s.erasePid_eq (p := p) procIdx
  unfold wake
  rw [herase]
  simp only
  split_ifs
  · exact good_go h halive ⟨rfl, rfl, rfl, rfl, id⟩ (by rw [hp]; rfl) rfl hrel (by rw [hp]; rfl)
  · refine good_exit_wait h halive ?_ (by rw [hp]; rfl) ?_ hrel _
    · exact ⟨rfl, rfl, rfl, rfl, id⟩
    · rw [hp]
      exact sub_add_cancel _ _
  · exact good_go h halive ⟨rfl, rfl, rfl, rfl, id⟩ (by rw [hp]; rfl) rfl hrel (by rw [hp]; rfl)

theorem good_leave (hp : s.phase p = .leaving w) (malloced : Bool) :
    Good p (s.leave p w malloced) := by
  have hrel : w.releases = 1 := h.releases_of hp
  have hcount : (s.numWaiting - 1 + if (s.phase p).counted then 1 else 0) = s.numWaiting := by
    rw [hp]
    exact sub_add_cancel _ _
  have hgo : ∀ result, Good p ({ s with numWaiting := s.numWaiting - 1 }.go p
      (.counting w result)) := fun result =>
    good_go h halive ⟨rfl, rfl, rfl, rfl, id⟩ (by rw [hp]; rfl) rfl hrel
      (hcount.trans (add_zero _).symm)
  unfold leave
  simp only
  split_ifs
  · refine good_exit_wait h halive ?_ (by rw [hp]; rfl) hcount hrel _
    exact ⟨rfl, rfl, rfl, rfl, id⟩
  · exact hgo _
  · exact hgo _
  · exact hgo _
  · exact hgo _

theorem good_expireSpin (hp : s.phase p = .spinning w idx procIdx) :
    Good p (s.expireSpin p w idx procIdx) := by
  have hrel : w.releases = 1 := h.releases_of hp
  obtain ⟨procList, procNum, herase⟩ := s.erasePid_eq (p := p) procIdx
  unfold expireSpin
  split_ifs
  · exact good_endSpin h halive hp
  · rw [herase]
    refine good_exit_wait h halive ?_ (by rw [hp]; rfl) ?_ hrel _
    · exact ⟨rfl, rfl, rfl, rfl, id⟩
    · rw [hp]
      exact sub_add_cancel _ _

theorem good_adaptSpin (hp : s.phase p = .spinning w idx procIdx) :
    Good p (s.adaptSpin p w idx procIdx) := by
  have hrel : w.releases = 1 := h.releases_of hp
  obtain ⟨procList, procNum, herase⟩ := s.erasePid_eq (p := p) procIdx
  unfold adaptSpin
  split_ifs
  · rw [herase]
    exact good_go h halive ⟨rfl, rfl, rfl, rfl, id⟩ (by rw [hp]; rfl) rfl hrel (by rw [hp]; rfl)
  · exact good_endSpin h halive hp

theorem good_listed (ph : Option (Fin procMax) → Phase sz procMax)
    (hold : (s.phase p).locked = false) (hcounted : (s.phase p).counted)
    (hph : ∀ procIdx, (ph procIdx).locked = false ∧ (ph procIdx).counted ∧
      (ph procIdx).ReleasesOk) :
    Good p ((s.registerPid p).1.go p (ph (s.registerPid p).2)) := by
  obtain ⟨procList, procNum, hlist⟩ := s.registerPid_eq (p := p)
  obtain ⟨hlocked, hcounted', hrel⟩ := hph (s.registerPid p).2
  rw [hlist]
  refine good_go h halive ⟨rfl, rfl, rfl, rfl, id⟩ hold hlocked hrel ?_
  rw [hcounted, hcounted']

omit [DecidableEq P] in
/-- Before the trigger has begun, nothing has changed. -/
theorem Inv.quiet_of_not_late (hp : s.phase p = .triggering args stage)
    (hlate : (Phase.triggering args stage : Phase sz procMax).late = false) :
    s.triggering = false ∧ s.allowableCount ≤ 0 := by
  refine h.quiet fun q => ?_
  by_contra hq
  have hlock := (h.lockHeld q).mpr (Phase.locked_of_late (Bool.not_eq_false _ ▸ hq))
  have hlock' := (h.lockHeld p).mpr (by rw [hp]; rfl)
  obtain rfl := Option.some.inj (hlock.symm.trans hlock')
  rw [hp, hlate] at hq
  exact hq rfl

theorem good_advanceTrigger (hp : s.phase p = .triggering args stage)
    (hcareful : s.Careful (p, .advance)) : Good p (s.advanceTrigger p args stage) := by
  have hlock : s.lock = some p := (h.lockHeld p).mpr (by rw [hp]; rfl)
  have hcounted : (s.phase p).counted = false := by rw [hp]; rfl
  have hc := hcareful halive
  simp only [hp] at hc
  -- the stages that come after the beginning of the triggering
  have hgo : ∀ {s₁ : ExitBCast P sz procMax} {stage' : Stage}, s.Within s₁ → s₁.lock = s.lock →
      (Phase.triggering args stage' : Phase sz procMax).late = true →
      Good p (s₁.go p (.triggering args stage')) := by
    intro s₁ stage' hw hlock₁ hlate
    refine good_go_trigger h halive hw (.inl hlock) hcounted (hlock₁.trans hlock) fun hnot => ?_
    rw [hlate] at hnot
    cases hnot
  cases stage with
  | checking =>
    have hquiet := h.quiet_of_not_late halive hp rfl
    simp only [advanceTrigger]
    split_ifs
    · exact good_unlockAndExit h halive (Within.refl s) hlock hquiet _
    · exact good_unlockAndExit h halive (Within.refl s) hlock hquiet _
    · exact good_go_trigger h halive (Within.refl s) (.inl hlock) hcounted hlock fun _ => hquiet
  | loading =>
    have hquiet := h.quiet_of_not_late halive hp rfl
    simp only [advanceTrigger]
    split_ifs
    · exact good_unlockAndExit h halive (Within.refl s) hlock hquiet _
    · exact good_go_trigger h halive (Within.refl s) (.inl hlock) hcounted hlock fun _ => hquiet
  | writing =>
    have hquiet := h.quiet_of_not_late halive hp rfl
    have hw : s.Within { s with payloadSz := args.payloadSz, numTriggered := 0 } :=
      ⟨rfl, rfl, rfl⟩
    exact good_go_trigger h halive hw (.inl hlock) hcounted hlock fun _ => hquiet
  | starting =>
    simp only [advanceTrigger]
    rw [if_neg hc]
    exact hgo ⟨rfl, rfl, rfl⟩ rfl rfl
  | scanning =>
    simp only [advanceTrigger, scan]
    split_ifs
    · exact hgo ⟨rfl, rfl, rfl⟩ rfl rfl
    · exact hgo ⟨rfl, rfl, rfl⟩ rfl rfl
    · exact hgo ⟨rfl, rfl, rfl⟩ rfl rfl
  | allowing => exact hgo ⟨rfl, rfl, rfl⟩ rfl rfl
  | counting | remaining =>
    simp only [advanceTrigger]
    split_ifs
    · exact hgo ⟨rfl, rfl, rfl⟩ rfl rfl
    · exact hgo ⟨rfl, rfl, rfl⟩ rfl rfl
  | looping =>
    simp only [advanceTrigger]
    rw [if_neg (by simpa using hc)]
    exact hgo ⟨rfl, rfl, rfl⟩ rfl rfl
  | turning => exact hgo ⟨rfl, rfl, rfl⟩ rfl rfl
  | completing =>
    have hw : s.Within { s with allowableCount := 0, numToTrigger := 0, triggering := false } :=
      ⟨rfl, rfl, rfl⟩
    exact good_unlockAndExit h halive hw hlock ⟨rfl, le_rfl⟩ _

omit [Fintype P] h halive in
/-- All processes of the list are alive and take the signal. -/
theorem checkPidsFrom_of_alive {refused : P → Bool}
    (hlist : ∀ k q, s.procList k = some q → s.dead q = false ∧ refused q = false) (numProcs : ℤ)
    (ks : List (Fin procMax)) (foundPids : ℤ) :
    checkPidsFrom p refused numProcs ks s foundPids false = (s, .ok ()) := by
  induction ks generalizing foundPids with
  | nil => rfl
  | cons k ks ih =>
    unfold checkPidsFrom
    split
    · split_ifs
      · rfl
      · exact ih foundPids
    · rename_i q hq
      obtain ⟨hdead, hrefused⟩ := hlist k q hq
      simp only [hdead, hrefused, Bool.false_eq_true, if_false]
      split_ifs
      · rfl
      · exact ih (foundPids + 1)

theorem good_sweepTrigger {n : ℤ} {refused : P → Bool}
    (hp : s.phase p = .triggering args (.turning n))
    (hlist : ∀ k q, s.procList k = some q → s.dead q = false ∧ refused q = false) :
    Good p (s.sweepTrigger p args n refused) := by
  have hlock : s.lock = some p := (h.lockHeld p).mpr (by rw [hp]; rfl)
  have hsweep : s.checkPids p refused = (s, .ok ()) :=
    checkPidsFrom_of_alive hlist s.procNum _ 0
  unfold sweepTrigger
  rw [hsweep]
  refine good_go_trigger h halive (Within.refl s) (.inl hlock) (by rw [hp]; rfl) hlock fun hlate => ?_
  cases hlate

theorem good_advance (hcareful : s.Careful (p, .advance)) : Good p (s.advance p) := by
  have hc := hcareful halive
  have hrel := h.releases p
  unfold advance
  split
  · exact h.good_stay
  · rename_i w hp
    rw [hp] at hrel
    split_ifs
    · exact h.good_stay
    · exact good_go h halive (Beside.refl s) (by rw [hp]; rfl) rfl hrel (by rw [hp]; rfl)
  · rename_i w hp
    split_ifs
    · exact good_register h halive hp
    · exact h.good_stay
  · rename_i w hp
    rw [hp] at hrel
    exact good_go h halive (Beside.refl s) (by rw [hp]; rfl) rfl (congrArg Nat.succ hrel)
      (by rw [hp]; rfl)
  · rename_i w idx hp
    rw [hp] at hrel
    exact good_go h halive (Beside.refl s) (by rw [hp]; rfl) rfl (congrArg Nat.succ hrel)
      (by rw [hp]; rfl)
  · rename_i w idx hp
    rw [hp] at hrel
    exact good_listed h halive (fun procIdx => .spinning w idx procIdx) (by rw [hp]; rfl)
      (by rw [hp]; rfl) fun _ => ⟨rfl, rfl, hrel⟩
  · rename_i w idx procIdx hp
    split_ifs
    · exact h.good_stay
    · exact good_endSpin h halive hp
  · rename_i w hp
    simp only [hp] at hc
    exact good_takeTicket h halive hp hc
  · rename_i w hp
    rw [hp] at hrel
    exact good_listed h halive (fun procIdx => .dozing w procIdx) (by rw [hp]; rfl)
      (by rw [hp]; rfl) fun _ => ⟨rfl, rfl, hrel⟩
  · rename_i w procIdx hp
    exact good_wake h halive hp false
  · rename_i w hp
    exact good_leave h halive hp true
  · rename_i w result hp
    rw [hp] at hrel
    refine good_exit_wait h halive ?_ (by rw [hp]; rfl) (by rw [hp]; exact add_zero _) hrel result
    exact ⟨rfl, rfl, rfl, rfl, id⟩
  · rename_i args hp
    split_ifs with hlock
    · have hw : s.Within { s with lock := some p } := ⟨rfl, rfl, rfl⟩
      refine good_go_trigger h halive hw (.inr hlock) (by rw [hp]; rfl) rfl fun _ => ?_
      refine h.quiet fun q => ?_
      by_contra hq
      have hlock' := (h.lockHeld q).mpr (Phase.locked_of_late (Bool.not_eq_false _ ▸ hq))
      rw [hlock] at hlock'
      cases hlock'
    · exact h.good_stay
  · rename_i args stage hp
    exact good_advanceTrigger h halive hp hcareful

theorem good_expire (hcareful : s.Careful (p, .expire)) : Good p (s.expire p) := by
  have hc := hcareful halive
  have hrel := h.releases p
  unfold expire
  split
  · rename_i w hp
    rw [hp] at hrel
    split_ifs
    · exact good_exit_wait h halive (Beside.refl s) (by rw [hp]; rfl) (by rw [hp]; exact add_zero _)
        (congrArg Nat.succ hrel) _
    · exact h.good_stay
  · rename_i w hp
    rw [hp] at hrel
    split_ifs
    · refine good_exit_wait h halive ?_ (by rw [hp]; rfl) ?_ hrel _
      · exact ⟨rfl, rfl, rfl, rfl, id⟩
      · rw [hp]
        exact sub_add_cancel _ _
    · exact h.good_stay
  · rename_i w idx procIdx hp
    split_ifs
    · exact good_expireSpin h halive hp
    · exact h.good_stay
  · rename_i args n hp
    simp only [hp] at hc
    split_ifs with htimed
    · have hlock : s.lock = some p := (h.lockHeld p).mpr (by rw [hp]; rfl)
      have hw : s.Within { s with triggering := false } := ⟨rfl, rfl, rfl⟩
      exact good_unlockAndExit h halive hw hlock ⟨rfl, hc htimed⟩ _
    · exact h.good_stay
  · exact h.good_stay

theorem good_adapt : Good p (s.adapt p) := by
  unfold adapt
  split
  · rename_i w idx procIdx hp
    split_ifs
    · exact good_adaptSpin h halive hp
    · exact h.good_stay
  · exact h.good_stay

theorem good_fail (e : DragonError) : Good p (s.fail p e) := by
  unfold fail
  split
  · rename_i args hp
    exact good_exit_trigger h halive (by rw [hp]; rfl) (by rw [hp]; rfl) _
  · rename_i args hp
    split_ifs
    · have hlock : s.lock = some p := (h.lockHeld p).mpr (by rw [hp]; rfl)
      exact good_unlockAndExit h halive (Within.refl s) hlock
        (h.quiet_of_not_late halive hp rfl) _
    · exact h.good_stay
  · rename_i w procIdx hp
    exact good_wake h halive hp true
  · rename_i w hp
    exact good_leave h halive hp false
  · exact h.good_stay

theorem good_corrupt {e : DragonError} (hcareful : s.Careful (p, .corrupt e)) :
    Good p (s.corrupt p e) := by
  have hc := hcareful halive
  unfold corrupt
  split
  · rename_i w idx procIdx hp
    simp only [hp] at hc
  · rename_i w procIdx hp
    simp only [hp] at hc
  · exact h.good_stay

theorem good_die (hcareful : s.Careful (p, .die)) :
    Good p ({ s with dead := Function.update s.dead p true }, none) := by
  have hcounted : (s.phase p).counted = false := hcareful halive
  refine ⟨⟨?_, ?_, h.lockHeld, h.quiet, h.releases⟩, trivial⟩
  · refine h.inside.trans (congrArg Nat.cast (Finset.sum_congr rfl fun q _ => ?_))
    by_cases hqp : q = p
    · subst hqp
      rw [hcounted]
      rfl
    · change _ = if (s.phase q).counted && !Function.update s.dead p true q then 1 else 0
      rw [Function.update_of_ne hqp]
  · intro q hq
    have hqp : q ≠ p := by
      rintro rfl
      rw [hcounted] at hq
      cases hq
    change Function.update s.dead p true q = false
    rw [Function.update_of_ne hqp]
    exact h.alive q hq

/-- **Step lemma.** -/
theorem good_act {a : Action P} (hcareful : s.Careful (p, a)) : Good p (s.act p a) := by
  cases a with
  | wait args =>
    have hc := hcareful halive
    simp only [act]
    split
    · rename_i hp
      simp only [hp] at hc
      exact good_startWait h halive hp hc
    · exact h.good_stay
  | trigger args =>
    simp only [act]
    split
    · rename_i hp
      exact good_startTrigger h halive hp args
    · exact h.good_stay
  | advance => exact good_advance h halive hcareful
  | expire => exact good_expire h halive hcareful
  | adapt => exact good_adapt h halive
  | fail e => exact good_fail h halive e
  | sweep refused =>
    have hc := hcareful halive
    simp only [act]
    split
    · rename_i args n hp
      simp only [hp] at hc
      exact good_sweepTrigger h halive hp hc
    · exact h.good_stay
  | corrupt => exact good_corrupt h halive hcareful
  | shutDown =>
    simp only [act]
    split
    · exact ⟨⟨h.inside, h.alive, h.lockHeld, h.quiet, h.releases⟩, trivial⟩
    · exact h.good_stay
  | die => exact good_die h halive hcareful

end Moves

section Runs

variable [Fintype P] {s : ExitBCast P sz procMax}

theorem Inv.good_call (h : s.Inv) {step : P × Action P} (hcareful : s.Careful step) :
    Good step.1 (s.call step) := by
  unfold call
  split
  · exact h.good_stay
  · rename_i hdead
    exact good_act h (Bool.eq_false_of_not_eq_true hdead) hcareful

/-- In a run of careful steps every call ends as it should: a trigger leaves the BCast usable, and a
wait has called its release function once. -/
theorem cleanExit_of_careful (payloadAreaSz : ℕ) {steps : List (P × Action P)}
    (h : Runs.Legal exec Careful (init payloadAreaSz : ExitBCast P sz procMax) steps)
    {before after : List (P × Action P)} {step : P × Action P}
    (hsteps : steps = before ++ step :: after) :
    CleanExit step.1
      ((before.foldl exec (init payloadAreaSz : ExitBCast P sz procMax)).call step) := by
  subst hsteps
  obtain ⟨hbefore, hcareful, -⟩ := Runs.legal_append.mp h
  have hinv : (before.foldl exec (init payloadAreaSz : ExitBCast P sz procMax)).Inv :=
    hbefore.invariant (fun s step (hs : s.Inv) hc => (hs.good_call hc).inv) (inv_init payloadAreaSz)
  exact (hinv.good_call hcareful).clean

/-- A waiter is released by a trigger that completes. -/
theorem cleanExit_of_careful_release :
    CleanExit true
      (([(false, .wait ⟨false, some .idle, .ok (), .forever, false⟩), (false, .advance),
          (false, .advance), (false, .advance),
          (true, .trigger ⟨false, .ok (), 1, .forever, false, 0⟩), (true, .advance),
          (true, .advance), (true, .advance), (true, .advance), (true, .advance), (true, .advance),
          (true, .advance), (false, .advance), (false, .advance), (false, .advance),
          (true, .advance)].foldl exec (init 0 : ExitBCast Bool 1 1)).call
        (true, .advance)) := by
  have hlegal : Runs.Legal exec Careful (init 0 : ExitBCast Bool 1 1)
      ([(false, .wait ⟨false, some .idle, .ok (), .forever, false⟩), (false, .advance),
          (false, .advance), (false, .advance),
          (true, .trigger ⟨false, .ok (), 1, .forever, false, 0⟩), (true, .advance),
          (true, .advance), (true, .advance), (true, .advance), (true, .advance), (true, .advance),
          (true, .advance), (false, .advance), (false, .advance), (false, .advance),
          (true, .advance)] ++ [(true, .advance)]) := by
    refine ⟨fun _ => .inr rfl, fun _ => trivial, fun _ => trivial, fun _ => trivial,
      fun _ => trivial, fun _ => trivial, fun _ => trivial, fun _ => trivial, fun _ => trivial, ?_,
      fun _ => trivial, fun _ => trivial, ?_, fun _ => trivial, fun _ => trivial, fun _ => trivial,
      fun _ => trivial, trivial⟩
    · intro _
      change ¬ Insufficient (toTrigger 1 1) 1
      decide
    · intro _
      change (1 : ℤ) ≠ BCast.intMin
      decide
  exact cleanExit_of_careful 0 hlegal rfl

/-- One waiter and a trigger that is to release two: it returns with the lock. -/
theorem insufficient_not_cleanExit :
    ¬ ∀ (steps before after : List (Bool × Action Bool)) (step : Bool × Action Bool),
      steps = before ++ step :: after →
      CleanExit step.1 ((before.foldl exec (init 0 : ExitBCast Bool 1 1)).call step) := by
  intro h
  have hlast := h _ [(false, .wait ⟨false, some .idle, .ok (), .forever, false⟩), (false, .advance),
    (false, .advance), (false, .advance),
    (true, .trigger ⟨false, .ok (), 2, .forever, false, 0⟩), (true, .advance), (true, .advance),
    (true, .advance), (true, .advance)] [] (true, .advance) rfl
  have husable : Usable (_ : ExitBCast Bool 1 1) true := hlast
  exact husable.unlocked rfl

end Runs

end ExitBCast
