/-
# The native lock (`src/dragon/native/lock.py`)

A lock is a channel of capacity one: the thread that has put a message into it holds the lock.
Each handle has an access count, which a recursive lock takes for the answer to the question who
holds it.  A handle is shared by the threads of its process; pickling it makes copies, and a copy
that is sent to the own process gets the access count along.

Conventions:

* each reading and each writing of `_accesscount` is a step, and so are the sending and the
  receiving of the message;
* `__getstate__` pickles the function `current_thread` and `__setstate__` compares it with itself,
  so that only the processes are compared;
* the message is the thread and the handle that have sent it; the levels, one for each thread, and
  the thread that has made the access count of a handle positive are not in the source.
-/
import DragonRuntime.Runs

inductive LockRet : Type where
  | acquired (ok : Bool)
  | released
  /-- `AssertionError` or `ValueError` -/
  | raised
  deriving DecidableEq

/-- Where a thread is. -/
inductive LockPhase (η : Type*) : Type _ where
  /-- in no call, with what the last one returned -/
  | idle (last : Option LockRet)
  /-- `acquire` of a recursive lock with a positive access count: before the reading and before
  the writing of the incremented count -/
  | incrementing (h : η)
  | incremented (h : η) (count : ℕ)
  | sending (h : η)
  /-- the message is sent, and the access count is to be set to one -/
  | setting (h : η)
  /-- `release` of a recursive lock, after the assertion -/
  | decrementing (h : η)
  | decremented (h : η) (count : ℕ)
  | retesting (h : η)
  | receiving (h : η)
  /-- the message is received, and the access count is to be set to zero -/
  | clearing (h : η)
  deriving DecidableEq

/-- The handle of a call. -/
def LockPhase.handle {η : Type*} : LockPhase η → Option η
  | .idle _ => none
  | .incrementing h | .incremented h _ | .sending h | .setting h | .decrementing h => some h
  | .decremented h _ | .retesting h | .receiving h | .clearing h => some h

/-- The phases of a recursive lock only. -/
def LockPhase.Counting {η : Type*} : LockPhase η → Prop
  | .incrementing _ | .incremented _ _ | .decrementing _ | .decremented _ _ | .retesting _ => True
  | _ => False

/-- A lock, with its handles and the threads that use them. -/
structure NativeLock (π τ η : Type*) where
  recursive : Bool
  process : τ → π
  home : η → Option π
  accesscount : η → ℕ
  pickles : List (ℕ × π)
  channel : Option (τ × η)
  phase : τ → LockPhase η
  level : τ → ℕ
  user : η → Option τ

/-- What a thread does: it begins a call, pickles or unpickles a handle, makes the next step of its
call, or gives up waiting. -/
inductive LockAction (π η : Type*) : Type _ where
  | acquire (h : η)
  | release (h : η)
  | getstate (h : η)
  | setstate (state : ℕ × π) (h : η)
  | advance
  | giveUp

namespace NativeLock

variable {π τ η : Type*} [DecidableEq π] [DecidableEq τ] [DecidableEq η]

/-- A lock that was just constructed, with its handle. -/
def init (recursive : Bool) (process : τ → π) (h : η) (home : π) : NativeLock π τ η where
  recursive := recursive
  process := process
  home := Function.update (fun _ => none) h (some home)
  accesscount := fun _ => 0
  pickles := []
  channel := none
  phase := fun _ => .idle none
  level := fun _ => 0
  user := fun _ => none

def setPhase (s : NativeLock π τ η) (t : τ) (phase : LockPhase η) : NativeLock π τ η :=
  { s with phase := Function.update s.phase t phase }

def setCount (s : NativeLock π τ η) (h : η) (count : ℕ) : NativeLock π τ η :=
  { s with accesscount := Function.update s.accesscount h count }

def setLevel (s : NativeLock π τ η) (t : τ) (level : ℕ) : NativeLock π τ η :=
  { s with level := Function.update s.level t level }

/-- The thread is in no call, and the handle is one of its process. -/
def CanCall (s : NativeLock π τ η) (t : τ) (h : η) : Prop :=
  (∃ last, s.phase t = .idle last) ∧ s.home h = some (s.process t)

/-- `acquire`, up to the test of the access count. -/
def acquire (s : NativeLock π τ η) (t : τ) (h : η) : NativeLock π τ η :=
  if s.recursive ∧ 0 < s.accesscount h then s.setPhase t (.incrementing h)
  else s.setPhase t (.sending h)

/-- `release`, up to the assertion. -/
def release (s : NativeLock π τ η) (t : τ) (h : η) : NativeLock π τ η :=
  if s.recursive then
    if 0 < s.accesscount h then s.setPhase t (.decrementing h)
    else s.setPhase t (.idle (some .raised))
  else s.setPhase t (.receiving h)

/-- `send_bytes`: the lock is taken if the channel is empty. -/
def send (s : NativeLock π τ η) (t : τ) (h : η) : NativeLock π τ η :=
  match s.channel with
  | none => ({ s with channel := some (t, h) }.setLevel t (s.level t + 1)).setPhase t (.setting h)
  | some _ => s

/-- `recv_bytes`: the thread that has released a recursive lock, or the thread that held a lock
that is not recursive, is on a lower level. -/
def recv (s : NativeLock π τ η) (t : τ) (h : η) : NativeLock π τ η :=
  match s.channel with
  | none => s.setPhase t (.idle (some .raised))
  | some (owner, _) =>
    if s.recursive then
      ({ s with channel := none }.setLevel t (s.level t - 1)).setPhase t (.clearing h)
    else
      ({ s with channel := none }.setLevel owner (s.level owner - 1)).setPhase t (.clearing h)

/-- The next step of a call. -/
def advance (s : NativeLock π τ η) (t : τ) : NativeLock π τ η :=
  match s.phase t with
  | .idle _ => s
  | .incrementing h => s.setPhase t (.incremented h (s.accesscount h))
  | .incremented h count =>
    ((s.setCount h (count + 1)).setLevel t (s.level t + 1)).setPhase t
      (.idle (some (.acquired true)))
  | .sending h => s.send t h
  | .setting h =>
    ({ s with user := Function.update s.user h (some t) }.setCount h 1).setPhase t
      (.idle (some (.acquired true)))
  | .decrementing h => s.setPhase t (.decremented h (s.accesscount h))
  | .decremented h count => (s.setCount h (count - 1)).setPhase t (.retesting h)
  | .retesting h =>
    if 0 < s.accesscount h then
      (s.setLevel t (s.level t - 1)).setPhase t (.idle (some .released))
    else s.setPhase t (.receiving h)
  | .receiving h => s.recv t h
  | .clearing h => (s.setCount h 0).setPhase t (.idle (some .released))

/-- A send that does not block, or times out, finds the channel full. -/
def giveUp (s : NativeLock π τ η) (t : τ) : NativeLock π τ η :=
  match s.phase t, s.channel with
  | .sending _, some _ => s.setPhase t (.idle (some (.acquired false)))
  | _, _ => s

/-- `__setstate__` -/
def setstate (s : NativeLock π τ η) (t : τ) (state : ℕ × π) (h : η) : NativeLock π τ η :=
  { s with
    home := Function.update s.home h (some (s.process t))
    user := Function.update s.user h none }.setCount h
      (if s.process t = state.2 then state.1 else 0)

instance (s : NativeLock π τ η) (t : τ) (h : η) : Decidable (s.CanCall t h) :=
  match hphase : s.phase t with
  | .idle last => decidable_of_iff (s.home h = some (s.process t))
      ⟨fun hhome => ⟨⟨last, hphase⟩, hhome⟩, fun hcan => hcan.2⟩
  | .incrementing _ | .incremented _ _ | .sending _ | .setting _ | .decrementing _ =>
    isFalse fun hcan => by
      obtain ⟨last, hlast⟩ := hcan.1
      rw [hphase] at hlast
      exact nomatch hlast
  | .decremented _ _ | .retesting _ | .receiving _ | .clearing _ =>
    isFalse fun hcan => by
      obtain ⟨last, hlast⟩ := hcan.1
      rw [hphase] at hlast
      exact nomatch hlast

def exec (s : NativeLock π τ η) (step : τ × LockAction π η) : NativeLock π τ η :=
  match step.2 with
  | .acquire h => if s.CanCall step.1 h then s.acquire step.1 h else s
  | .release h => if s.CanCall step.1 h then s.release step.1 h else s
  | .getstate h =>
    if s.CanCall step.1 h then
      { s with pickles := (s.accesscount h, s.process step.1) :: s.pickles }
    else s
  | .setstate state h =>
    if state ∈ s.pickles ∧ s.home h = none then s.setstate step.1 state h else s
  | .advance => s.advance step.1
  | .giveUp => s.giveUp step.1

/-! ## Ownership -/

/-- What a step has to respect. -/
structure Sound (s : NativeLock π τ η) (step : τ × LockAction π η) : Prop where
  /-- at most one thread is between an outermost acquire and the release that matches it -/
  exclusive : ∀ t t', 0 < (s.exec step).level t → 0 < (s.exec step).level t' → t = t'
  /-- `acquire` takes the way without waiting only for the thread that holds the lock -/
  unwaited : ∀ h, step.2 = .acquire h → s.CanCall step.1 h →
    (s.exec step).phase step.1 = .incrementing h → 0 < s.level step.1
  /-- `release` of a recursive lock by a thread that does not hold it raises and changes nothing -/
  refused : ∀ h, step.2 = .release h → s.CanCall step.1 h → s.recursive → s.level step.1 = 0 →
    s.exec step = s.setPhase step.1 (.idle (some .raised))

/-- The condition for that on a recursive lock.  A handle with a positive access count is used by
the thread only that has taken the lock with it, so not by another thread that shares the handle,
and not if it has the count from a pickled handle; and when a thread that has released the lock
sets the access count to zero, no other thread that shares the handle has set it since. -/
def Careful (s : NativeLock π τ η) (step : τ × LockAction π η) : Prop :=
  s.recursive →
    match step.2, s.phase step.1 with
    | .acquire h, _ | .release h, _ => 0 < s.accesscount h → s.user h = some step.1
    | .advance, .clearing h => s.accesscount h = 0
    | _, _ => True

/-! ## The invariant -/

/-- A lock that is not recursive. -/
structure Plain (s : NativeLock π τ η) : Prop where
  held : ∀ t, 0 < s.level t → ∃ h, s.channel = some (t, h)
  le_one : ∀ t, s.level t ≤ 1
  phases : ∀ t, ¬ (s.phase t).Counting

/-- What a thread that holds a recursive lock has reached. -/
def Holds (s : NativeLock π τ η) (t : τ) (h : η) : LockPhase η → Prop
  | .setting _ | .receiving _ => s.accesscount h = 0 ∧ s.level t = 1
  | .retesting _ => s.user h = some t ∧ s.level t = s.accesscount h + 1
  | _ => s.user h = some t ∧ 0 < s.accesscount h ∧ s.level t = s.accesscount h

/-- What a phase of a recursive lock says. -/
def PhaseOk (s : NativeLock π τ η) (t : τ) : LockPhase η → Prop
  | .incrementing h | .decrementing h => s.user h = some t ∧ 0 < s.accesscount h
  | .incremented h count | .decremented h count =>
    s.user h = some t ∧ 0 < s.accesscount h ∧ count = s.accesscount h
  | .setting h | .retesting h | .receiving h => s.channel = some (t, h)
  | .sending h => 0 < s.accesscount h → s.user h ≠ none
  | .idle _ | .clearing _ => True

/-- A recursive lock. -/
structure Reentrant (s : NativeLock π τ η) : Prop where
  held : ∀ t, 0 < s.level t → ∃ h, s.channel = some (t, h)
  used : ∀ t h, s.user h = some t → 0 < s.accesscount h → s.channel = some (t, h)
  holds : ∀ t h, s.channel = some (t, h) → s.Holds t h (s.phase t)
  phases : ∀ t, s.PhaseOk t (s.phase t)
  known : ∀ t h, (s.phase t).handle = some h → s.home h ≠ none
  channelKnown : ∀ t h, s.channel = some (t, h) → s.home h ≠ none

/-- The invariant of a lock. -/
structure Kept (s : NativeLock π τ η) : Prop where
  plain : s.recursive = false → s.Plain
  reentrant : s.recursive = true → s.Reentrant

/-! ## Updates -/

section Updates

omit [DecidableEq π] [DecidableEq η]

variable (s : NativeLock π τ η) (t t' : τ) (h h' : η) (phase : LockPhase η) (n : ℕ)

@[simp] theorem setPhase_phase_self : (s.setPhase t phase).phase t = phase := by
  simp [setPhase]

theorem setPhase_phase_of_ne (hne : t' ≠ t) : (s.setPhase t phase).phase t' = s.phase t' := by
  simp [setPhase, hne]


/-- What a phase says does not depend on where the threads are. -/
theorem phaseOk_setPhase (p : LockPhase η) :
    (s.setPhase t phase).PhaseOk t' p ↔ s.PhaseOk t' p := by
  cases p <;> exact Iff.rfl

theorem holds_setPhase (p : LockPhase η) :
    (s.setPhase t phase).Holds t' h p ↔ s.Holds t' h p := by
  cases p <;> exact Iff.rfl

theorem acquire_recursive : (s.acquire t h).recursive = s.recursive := by
  unfold acquire
  split <;> rfl

theorem release_recursive : (s.release t h).recursive = s.recursive := by
  unfold release
  split
  · split <;> rfl
  · rfl

theorem giveUp_recursive : (s.giveUp t).recursive = s.recursive := by
  unfold giveUp
  split <;> rfl

end Updates

omit [DecidableEq π] in
theorem advance_recursive (s : NativeLock π τ η) (t : τ) :
    (s.advance t).recursive = s.recursive := by
  unfold advance send recv
  split
  any_goals rfl
  · split <;> rfl
  · split <;> rfl
  · split
    · rfl
    · split <;> rfl

omit [DecidableEq π] [DecidableEq τ] [DecidableEq η] in
/-- What a phase says is about its handle. -/
theorem phaseOk_congr {s s' : NativeLock π τ η} {t : τ} {phase : LockPhase η}
    (hchannel : s'.channel = s.channel)
    (hsame : ∀ h, phase.handle = some h →
      s'.user h = s.user h ∧ s'.accesscount h = s.accesscount h)
    (hok : s.PhaseOk t phase) : s'.PhaseOk t phase := by
  cases phase with
  | idle => trivial
  | clearing => trivial
  | incrementing h | decrementing h =>
    obtain ⟨huser, hcount⟩ := hsame h rfl
    exact ⟨huser.trans hok.1, hcount ▸ hok.2⟩
  | incremented h | decremented h =>
    obtain ⟨huser, hcount⟩ := hsame h rfl
    exact ⟨huser.trans hok.1, hcount ▸ hok.2.1, hcount ▸ hok.2.2⟩
  | sending h =>
    obtain ⟨huser, hcount⟩ := hsame h rfl
    intro hpos
    rw [huser]
    exact hok (hcount ▸ hpos)
  | setting => exact hchannel.trans hok
  | retesting => exact hchannel.trans hok
  | receiving => exact hchannel.trans hok

omit [DecidableEq π] [DecidableEq τ] [DecidableEq η] in
theorem holds_congr {s s' : NativeLock π τ η} {t : τ} {h : η} {phase : LockPhase η}
    (huser : s'.user h = s.user h) (hcount : s'.accesscount h = s.accesscount h)
    (hlevel : s'.level t = s.level t) (hholds : s.Holds t h phase) : s'.Holds t h phase := by
  cases phase <;> simpa only [Holds, huser, hcount, hlevel] using hholds

theorem exec_recursive (s : NativeLock π τ η) (step : τ × LockAction π η) :
    (s.exec step).recursive = s.recursive := by
  obtain ⟨t, action⟩ := step
  cases action with
  | acquire h =>
    show (if _ then _ else _ : NativeLock π τ η).recursive = _
    split
    · exact s.acquire_recursive t h
    · rfl
  | release h =>
    show (if _ then _ else _ : NativeLock π τ η).recursive = _
    split
    · exact s.release_recursive t h
    · rfl
  | getstate | setstate =>
    show (if _ then _ else _ : NativeLock π τ η).recursive = _
    split <;> rfl
  | advance => exact advance_recursive s t
  | giveUp => exact s.giveUp_recursive t

/-! ## A lock that is not recursive -/

namespace Plain

variable {s : NativeLock π τ η}

omit [DecidableEq π] [DecidableEq τ] in
theorem init (r : Bool) (process : τ → π) (h : η) (home : π) :
    (NativeLock.init r process h home).Plain where
  held := fun _ hlevel => absurd hlevel (lt_irrefl 0)
  le_one := fun _ => Nat.zero_le 1
  phases := fun _ hcounting => hcounting

omit [DecidableEq π] [DecidableEq η] in
/-- A step that changes the phase of a thread only, and access counts and users. -/
theorem goto (hs : s.Plain) {s' : NativeLock π τ η} {t : τ} {phase : LockPhase η}
    (hlevel : s'.level = s.level) (hchannel : s'.channel = s.channel)
    (hphase : s'.phase = Function.update s.phase t phase)
    (hok : ¬ phase.Counting) : s'.Plain where
  held := by
    rw [hlevel, hchannel]
    exact hs.held
  le_one := by
    rw [hlevel]
    exact hs.le_one
  phases := by
    intro t'
    rw [hphase]
    rcases eq_or_ne t' t with rfl | hne
    · rw [Function.update_self]
      exact hok
    · rw [Function.update_of_ne hne]
      exact hs.phases t'

omit [DecidableEq π] [DecidableEq τ] [DecidableEq η] in
/-- If the channel is empty, no thread holds the lock. -/
theorem level_eq_zero (hs : s.Plain) (hchannel : s.channel = none) (t : τ) : s.level t = 0 := by
  by_contra hne
  obtain ⟨h, hh⟩ := hs.held t (Nat.pos_of_ne_zero hne)
  rw [hchannel] at hh
  exact nomatch hh

omit [DecidableEq π] [DecidableEq η] in
theorem send (hs : s.Plain) (t : τ) (h : η) : (s.send t h).Plain := by
  cases hchannel : s.channel with
  | some owner =>
    have heq : s.send t h = s := by simp [NativeLock.send, hchannel]
    rw [heq]
    exact hs
  | none =>
    obtain ⟨s', hs'⟩ : ∃ s', s.send t h = s' := ⟨_, rfl⟩
    rw [hs']
    simp only [NativeLock.send, hchannel] at hs'
    have hlevel : s'.level = Function.update s.level t 1 := by
      rw [← hs']
      show Function.update s.level t (s.level t + 1) = _
      rw [hs.level_eq_zero hchannel t]
    have hphase : s'.phase = Function.update s.phase t (.setting h) := by
      rw [← hs']
      rfl
    refine ⟨fun t' hpos => ?_, fun t' => ?_, fun t' => ?_⟩
    · rcases eq_or_ne t' t with rfl | hne
      · exact ⟨h, by rw [← hs']; rfl⟩
      · rw [hlevel, Function.update_of_ne hne, hs.level_eq_zero hchannel] at hpos
        exact absurd hpos (lt_irrefl 0)
    · rw [hlevel]
      rcases eq_or_ne t' t with rfl | hne
      · rw [Function.update_self]
      · rw [Function.update_of_ne hne]
        exact hs.le_one t'
    · rw [hphase]
      rcases eq_or_ne t' t with rfl | hne
      · rw [Function.update_self]
        exact fun hcounting => hcounting
      · rw [Function.update_of_ne hne]
        exact hs.phases t'

omit [DecidableEq π] [DecidableEq η] in
theorem recv (hs : s.Plain) (hr : s.recursive = false) (t : τ) (h : η) : (s.recv t h).Plain := by
  cases hchannel : s.channel with
  | none =>
    have heq : s.recv t h = s.setPhase t (.idle (some .raised)) := by
      simp [NativeLock.recv, hchannel]
    rw [heq]
    exact hs.goto rfl rfl rfl (fun hcounting => hcounting)
  | some sent =>
    obtain ⟨owner, g⟩ := sent
    obtain ⟨s', hs'⟩ : ∃ s', s.recv t h = s' := ⟨_, rfl⟩
    rw [hs']
    simp only [NativeLock.recv, hchannel, hr, Bool.false_eq_true, if_false] at hs'
    -- the owner has lost the lock, whoever has released it
    have hlevel : ∀ t', s'.level t' = 0 := by
      intro t'
      rw [← hs']
      show Function.update s.level owner (s.level owner - 1) t' = 0
      rcases eq_or_ne t' owner with rfl | hne
      · rw [Function.update_self]
        have := hs.le_one t'
        omega
      · rw [Function.update_of_ne hne]
        by_contra hne0
        obtain ⟨g', hg'⟩ := hs.held t' (Nat.pos_of_ne_zero hne0)
        rw [hchannel] at hg'
        exact hne (congrArg Prod.fst (Option.some.inj hg')).symm
    refine ⟨fun t' hpos => ?_, fun t' => ?_, fun t' => ?_⟩
    · rw [hlevel] at hpos
      exact absurd hpos (lt_irrefl 0)
    · rw [hlevel]
      exact Nat.zero_le 1
    · have hphase : s'.phase = Function.update s.phase t (.clearing h) := by
        rw [← hs']
        rfl
      rw [hphase]
      rcases eq_or_ne t' t with rfl | hne
      · rw [Function.update_self]
        exact fun hcounting => hcounting
      · rw [Function.update_of_ne hne]
        exact hs.phases t'

omit [DecidableEq π] in
theorem advance (hs : s.Plain) (hr : s.recursive = false) (t : τ) : (s.advance t).Plain := by
  have hphase := hs.phases t
  unfold NativeLock.advance
  split
  next => exact hs
  next h heq => rw [heq] at hphase; exact absurd trivial hphase
  next h n heq => rw [heq] at hphase; exact absurd trivial hphase
  next h heq => exact hs.send t h
  next h heq => exact hs.goto rfl rfl rfl (fun hcounting => hcounting)
  next h heq => rw [heq] at hphase; exact absurd trivial hphase
  next h n heq => rw [heq] at hphase; exact absurd trivial hphase
  next h heq => rw [heq] at hphase; exact absurd trivial hphase
  next h heq => exact hs.recv hr t h
  next h heq => exact hs.goto rfl rfl rfl (fun hcounting => hcounting)

/-- **Step lemma** for a lock that is not recursive. -/
theorem exec (hs : s.Plain) (hr : s.recursive = false) (step : τ × LockAction π η) :
    (s.exec step).Plain := by
  obtain ⟨t, action⟩ := step
  cases action with
  | acquire =>
    show (if _ then _ else _ : NativeLock π τ η).Plain
    split
    · simp only [NativeLock.acquire, hr, Bool.false_eq_true, false_and, if_false]
      exact hs.goto rfl rfl rfl (fun hcounting => hcounting)
    · exact hs
  | release =>
    show (if _ then _ else _ : NativeLock π τ η).Plain
    split
    · simp only [NativeLock.release, hr, Bool.false_eq_true, if_false]
      exact hs.goto rfl rfl rfl (fun hcounting => hcounting)
    · exact hs
  | getstate | setstate =>
    show (if _ then _ else _ : NativeLock π τ η).Plain
    split
    · exact ⟨hs.held, hs.le_one, hs.phases⟩
    · exact hs
  | advance => exact hs.advance hr t
  | giveUp =>
    show (s.giveUp t).Plain
    unfold NativeLock.giveUp
    split
    · exact hs.goto rfl rfl rfl (fun hcounting => hcounting)
    · exact hs

end Plain

/-! ## A recursive lock -/

namespace Reentrant

variable {s : NativeLock π τ η}

omit [DecidableEq π] [DecidableEq τ] in
theorem init (r : Bool) (process : τ → π) (h : η) (home : π) :
    (NativeLock.init r process h home).Reentrant where
  held := fun _ hlevel => absurd hlevel (lt_irrefl 0)
  used := nofun
  holds := nofun
  phases := fun _ => trivial
  known := nofun
  channelKnown := nofun

omit [DecidableEq π] [DecidableEq τ] [DecidableEq η] in
/-- If the channel is empty, no thread holds the lock. -/
theorem level_eq_zero (hs : s.Reentrant) (hchannel : s.channel = none) (t : τ) :
    s.level t = 0 := by
  by_contra hne
  obtain ⟨h, hh⟩ := hs.held t (Nat.pos_of_ne_zero hne)
  rw [hchannel] at hh
  exact nomatch hh

omit [DecidableEq π] [DecidableEq τ] [DecidableEq η] in
/-- A thread other than the owner is in no phase that speaks of an owner. -/
theorem others (hs : s.Reentrant) {s' : NativeLock π τ η} {t : τ}
    (hne : ∀ h, s.channel ≠ some (t, h))
    (hsending : ∀ h, s.phase t = .sending h → 0 < s'.accesscount h → s'.user h ≠ none) :
    s'.PhaseOk t (s.phase t) := by
  have hok := hs.phases t
  cases hphase : s.phase t with
  | idle => trivial
  | clearing => trivial
  | sending h => exact hsending h hphase
  | incrementing h =>
    rw [hphase] at hok
    exact absurd (hs.used t h hok.1 hok.2) (hne h)
  | incremented h =>
    rw [hphase] at hok
    exact absurd (hs.used t h hok.1 hok.2.1) (hne h)
  | decrementing h =>
    rw [hphase] at hok
    exact absurd (hs.used t h hok.1 hok.2) (hne h)
  | decremented h =>
    rw [hphase] at hok
    exact absurd (hs.used t h hok.1 hok.2.1) (hne h)
  | setting h | retesting h | receiving h =>
    rw [hphase] at hok
    exact absurd hok (hne h)

omit [DecidableEq π] [DecidableEq η] in
theorem setPhase (hs : s.Reentrant) {t : τ} {phase : LockPhase η} (hok : s.PhaseOk t phase)
    (hknown : ∀ h, phase.handle = some h → s.home h ≠ none)
    (hholds : ∀ h, s.channel = some (t, h) → s.Holds t h phase) :
    (s.setPhase t phase).Reentrant where
  held := hs.held
  used := hs.used
  holds := by
    intro t' h hchannel
    rw [holds_setPhase]
    rcases eq_or_ne t' t with rfl | hne
    · rw [setPhase_phase_self]
      exact hholds h hchannel
    · rw [setPhase_phase_of_ne s t t' phase hne]
      exact hs.holds t' h hchannel
  phases := by
    intro t'
    rw [phaseOk_setPhase]
    rcases eq_or_ne t' t with rfl | hne
    · rw [setPhase_phase_self]
      exact hok
    · rw [setPhase_phase_of_ne s t t' phase hne]
      exact hs.phases t'
  known := by
    intro t' h hhandle
    rcases eq_or_ne t' t with rfl | hne
    · rw [setPhase_phase_self] at hhandle
      exact hknown h hhandle
    · rw [setPhase_phase_of_ne s t t' phase hne] at hhandle
      exact hs.known t' h hhandle
  channelKnown := hs.channelKnown

omit [DecidableEq π] in
/-- A step of the thread that holds the lock, on the handle with which it has taken it. -/
theorem owned (hs : s.Reentrant) {s' : NativeLock π τ η} {t : τ} {h : η} {count level : ℕ}
    {phase : LockPhase η} (howner : s.channel = some (t, h)) (hchannel : s'.channel = s.channel)
    (hhome : s'.home = s.home) (huser : s'.user = Function.update s.user h (some t))
    (hcount : s'.accesscount = Function.update s.accesscount h count)
    (hlevel : s'.level = Function.update s.level t level)
    (hphase : s'.phase = Function.update s.phase t phase) (hok : s'.PhaseOk t phase)
    (hknown : ∀ g, phase.handle = some g → g = h) (hholds : s'.Holds t h phase) :
    s'.Reentrant where
  held := by
    intro t' hpos
    rw [hchannel]
    rcases eq_or_ne t' t with rfl | hne
    · exact ⟨h, howner⟩
    · rw [hlevel, Function.update_of_ne hne] at hpos
      exact hs.held t' hpos
  used := by
    intro t' g hg hpos
    rw [hchannel]
    rcases eq_or_ne g h with rfl | hne
    · rw [huser, Function.update_self] at hg
      rw [← Option.some.inj hg]
      exact howner
    · rw [huser, Function.update_of_ne hne] at hg
      rw [hcount, Function.update_of_ne hne] at hpos
      exact hs.used t' g hg hpos
  holds := by
    intro t' g hg
    rw [hchannel, howner] at hg
    obtain ⟨rfl, rfl⟩ := Prod.mk.inj (Option.some.inj hg)
    rw [hphase, Function.update_self]
    exact hholds
  phases := by
    intro t'
    rw [hphase]
    rcases eq_or_ne t' t with rfl | hne
    · rw [Function.update_self]
      exact hok
    · rw [Function.update_of_ne hne]
      refine hs.others (fun g hg => ?_) (fun g hg hpos => ?_)
      · rw [howner] at hg
        exact hne (congrArg Prod.fst (Option.some.inj hg)).symm
      · rw [huser]
        rcases eq_or_ne g h with rfl | hgh
        · rw [Function.update_self]
          exact Option.some_ne_none t
        · rw [Function.update_of_ne hgh]
          rw [hcount, Function.update_of_ne hgh] at hpos
          have hold := hs.phases t'
          rw [hg] at hold
          exact hold hpos
  known := by
    intro t' g hg
    rw [hhome]
    rw [hphase] at hg
    rcases eq_or_ne t' t with rfl | hne
    · rw [Function.update_self] at hg
      rw [hknown g hg]
      exact hs.channelKnown t' h howner
    · rw [Function.update_of_ne hne] at hg
      exact hs.known t' g hg
  channelKnown := by
    intro t' g hg
    rw [hhome]
    rw [hchannel] at hg
    exact hs.channelKnown t' g hg

omit [DecidableEq π] [DecidableEq η] in
/-- The message is sent into an empty channel. -/
theorem send (hs : s.Reentrant) {t : τ} {h : η} (hphase : s.phase t = .sending h) :
    (s.send t h).Reentrant := by
  cases hchannel : s.channel with
  | some owner =>
    have heq : s.send t h = s := by simp [NativeLock.send, hchannel]
    rw [heq]
    exact hs
  | none =>
    have hzero := hs.level_eq_zero hchannel
    -- a handle whose access count is positive has no user
    have hfree : ∀ g, s.accesscount g = 0 ∨ s.user g = none := by
      intro g
      rcases Nat.eq_zero_or_pos (s.accesscount g) with hg | hg
      · exact Or.inl hg
      · refine Or.inr ?_
        cases huser : s.user g with
        | none => rfl
        | some t' =>
          have := hs.used t' g huser hg
          rw [hchannel] at this
          exact nomatch this
    have hcount : s.accesscount h = 0 := by
      rcases hfree h with hh | hh
      · exact hh
      · by_contra hne
        have hok := hs.phases t
        rw [hphase] at hok
        exact hok (Nat.pos_of_ne_zero hne) hh
    obtain ⟨s', hs'⟩ : ∃ s', s.send t h = s' := ⟨_, rfl⟩
    rw [hs']
    simp only [NativeLock.send, hchannel] at hs'
    have hlevel : s'.level = Function.update s.level t (s.level t + 1) := by rw [← hs']; rfl
    have hphase' : s'.phase = Function.update s.phase t (.setting h) := by rw [← hs']; rfl
    have hcount' : s'.accesscount = s.accesscount := by rw [← hs']; rfl
    have huser' : s'.user = s.user := by rw [← hs']; rfl
    have hhome' : s'.home = s.home := by rw [← hs']; rfl
    have hchannel' : s'.channel = some (t, h) := by rw [← hs']; rfl
    refine ⟨fun t' hpos => ?_, fun t' g hg hpos => ?_, fun t' g hg => ?_, fun t' => ?_,
      fun t' g hg => ?_, fun t' g hg => ?_⟩
    · rcases eq_or_ne t' t with rfl | hne
      · exact ⟨h, hchannel'⟩
      · rw [hlevel, Function.update_of_ne hne, hzero] at hpos
        exact absurd hpos (lt_irrefl 0)
    · rw [huser'] at hg
      rw [hcount'] at hpos
      rcases hfree g with hfree | hfree
      · exact absurd hfree hpos.ne'
      · rw [hfree] at hg
        exact nomatch hg
    · rw [hchannel'] at hg
      obtain ⟨rfl, rfl⟩ := Prod.mk.inj (Option.some.inj hg)
      rw [hphase', Function.update_self]
      show s'.accesscount h = 0 ∧ s'.level t = 1
      rw [hcount', hlevel, Function.update_self, hzero]
      exact ⟨hcount, rfl⟩
    · rw [hphase']
      rcases eq_or_ne t' t with rfl | hne
      · rw [Function.update_self]
        exact hchannel'
      · rw [Function.update_of_ne hne]
        refine hs.others (fun g hg => ?_) (fun g hg hpos => ?_)
        · rw [hchannel] at hg
          exact nomatch hg
        · rw [huser']
          rw [hcount'] at hpos
          have hold := hs.phases t'
          rw [hg] at hold
          exact hold hpos
    · rw [hphase'] at hg
      rw [hhome']
      rcases eq_or_ne t' t with rfl | hne
      · rw [Function.update_self] at hg
        obtain rfl := Option.some.inj hg
        exact hs.known t' _ (by rw [hphase]; rfl)
      · rw [Function.update_of_ne hne] at hg
        exact hs.known t' g hg
    · rw [hchannel'] at hg
      obtain ⟨rfl, rfl⟩ := Prod.mk.inj (Option.some.inj hg)
      rw [hhome']
      exact hs.known t h (by rw [hphase]; rfl)

omit [DecidableEq π] [DecidableEq η] in
/-- The message is received by the thread that has released the lock. -/
theorem recv (hs : s.Reentrant) (hr : s.recursive = true) {t : τ} {h : η}
    (hphase : s.phase t = .receiving h) : (s.recv t h).Reentrant := by
  have howner : s.channel = some (t, h) := by
    have hok := hs.phases t
    rw [hphase] at hok
    exact hok
  have hholds := hs.holds t h howner
  rw [hphase] at hholds
  obtain ⟨hcount, hone⟩ : s.accesscount h = 0 ∧ s.level t = 1 := hholds
  obtain ⟨s', hs'⟩ : ∃ s', s.recv t h = s' := ⟨_, rfl⟩
  rw [hs']
  simp only [NativeLock.recv, howner, hr, if_true] at hs'
  have hlevel : ∀ t', s'.level t' = 0 := by
    intro t'
    rw [← hs']
    show Function.update s.level t (s.level t - 1) t' = 0
    rcases eq_or_ne t' t with rfl | hne
    · rw [Function.update_self, hone]
    · rw [Function.update_of_ne hne]
      by_contra hne0
      obtain ⟨g, hg⟩ := hs.held t' (Nat.pos_of_ne_zero hne0)
      rw [howner] at hg
      exact hne (congrArg Prod.fst (Option.some.inj hg)).symm
  have hphase' : s'.phase = Function.update s.phase t (.clearing h) := by rw [← hs']; rfl
  have hcount' : s'.accesscount = s.accesscount := by rw [← hs']; rfl
  have huser' : s'.user = s.user := by rw [← hs']; rfl
  have hhome' : s'.home = s.home := by rw [← hs']; rfl
  have hchannel' : s'.channel = none := by rw [← hs']; rfl
  refine ⟨fun t' hpos => ?_, fun t' g hg hpos => ?_, fun t' g hg => ?_, fun t' => ?_,
    fun t' g hg => ?_, fun t' g hg => ?_⟩
  · rw [hlevel] at hpos
    exact absurd hpos (lt_irrefl 0)
  · rw [huser'] at hg
    rw [hcount'] at hpos
    have hused := hs.used t' g hg hpos
    rw [howner] at hused
    obtain ⟨-, rfl⟩ := Prod.mk.inj (Option.some.inj hused)
    exact absurd hcount hpos.ne'
  · rw [hchannel'] at hg
    exact nomatch hg
  · rw [hphase']
    rcases eq_or_ne t' t with rfl | hne
    · rw [Function.update_self]
      trivial
    · rw [Function.update_of_ne hne]
      refine hs.others (fun g hg => ?_) (fun g hg hpos => ?_)
      · rw [howner] at hg
        exact hne (congrArg Prod.fst (Option.some.inj hg)).symm
      · rw [huser']
        rw [hcount'] at hpos
        have hold := hs.phases t'
        rw [hg] at hold
        exact hold hpos
  · rw [hphase'] at hg
    rw [hhome']
    rcases eq_or_ne t' t with rfl | hne
    · rw [Function.update_self] at hg
      obtain rfl := Option.some.inj hg
      exact hs.known t' _ (by rw [hphase]; rfl)
    · rw [Function.update_of_ne hne] at hg
      exact hs.known t' g hg
  · rw [hchannel'] at hg
    exact nomatch hg

omit [DecidableEq π] in
theorem advance (hs : s.Reentrant) (hr : s.recursive = true) {t : τ}
    (hcareful : s.Careful (t, .advance)) : (s.advance t).Reentrant := by
  have hok := hs.phases t
  have hholds := hs.holds t
  have hknown := hs.known t
  unfold NativeLock.advance
  split
  next => exact hs
  next h hphase =>
    rw [hphase] at hok hholds hknown
    exact hs.setPhase ⟨hok.1, hok.2, rfl⟩ hknown hholds
  next h n hphase =>
    rw [hphase] at hok hholds
    obtain ⟨huser, hpos, rfl⟩ := hok
    have howner := hs.used t h huser hpos
    obtain ⟨-, -, hlevel⟩ := hholds h howner
    refine hs.owned howner rfl rfl ?_ rfl rfl rfl trivial (fun g hg => nomatch hg) ?_
    · rw [← huser, Function.update_eq_self]
      rfl
    · refine ⟨huser, ?_, ?_⟩
      · show 0 < Function.update s.accesscount h _ h
        rw [Function.update_self]
        exact Nat.succ_pos _
      · show Function.update s.level t _ t = Function.update s.accesscount h _ h
        rw [Function.update_self, Function.update_self, hlevel]
  next h hphase => exact hs.send hphase
  next h hphase =>
    rw [hphase] at hok hholds
    obtain ⟨-, hlevel⟩ := hholds h hok
    refine hs.owned hok rfl rfl rfl rfl (Function.update_eq_self t s.level).symm rfl trivial
      (fun g hg => nomatch hg) ?_
    refine ⟨Function.update_self .., ?_, ?_⟩
    · show 0 < Function.update s.accesscount h 1 h
      rw [Function.update_self]
      exact Nat.one_pos
    · show s.level t = Function.update s.accesscount h 1 h
      rw [Function.update_self, hlevel]
  next h hphase =>
    rw [hphase] at hok hholds hknown
    exact hs.setPhase ⟨hok.1, hok.2, rfl⟩ hknown hholds
  next h n hphase =>
    rw [hphase] at hok hholds
    obtain ⟨huser, hpos, rfl⟩ := hok
    have howner := hs.used t h huser hpos
    obtain ⟨-, -, hlevel⟩ := hholds h howner
    refine hs.owned howner rfl rfl ?_ rfl (Function.update_eq_self t s.level).symm rfl howner
      (fun g hg => (Option.some.inj hg).symm) ?_
    · rw [← huser, Function.update_eq_self]
      rfl
    · refine ⟨huser, ?_⟩
      show s.level t = Function.update s.accesscount h _ h + 1
      rw [Function.update_self, hlevel]
      omega
  next h hphase =>
    rw [hphase] at hok hholds hknown
    obtain ⟨huser, hlevel⟩ := hholds h hok
    split
    next hpos =>
      refine hs.owned hok rfl rfl ?_ (Function.update_eq_self h s.accesscount).symm rfl rfl trivial
        (fun g hg => nomatch hg) ⟨huser, hpos, ?_⟩
      · rw [← huser, Function.update_eq_self]
        rfl
      · show Function.update s.level t _ t = s.accesscount h
        rw [Function.update_self, hlevel]
        exact Nat.add_sub_cancel _ _
    next hzero =>
      refine hs.setPhase hok hknown fun g hg => ?_
      rw [show s.channel = some (t, h) from hok] at hg
      obtain ⟨-, rfl⟩ := Prod.mk.inj (Option.some.inj hg)
      have hcount : s.accesscount h = 0 := Nat.eq_zero_of_not_pos hzero
      rw [hcount] at hlevel
      exact ⟨hcount, hlevel⟩
  next h hphase => exact hs.recv hr hphase
  next h hphase =>
    -- the access count is zero already
    have hzero : s.accesscount h = 0 := by
      have := hcareful hr
      simp only [hphase] at this
      exact this
    have heq : s.setCount h 0 = s := by
      unfold setCount
      rw [← hzero, Function.update_eq_self]
    rw [heq]
    rw [hphase] at hholds
    exact hs.setPhase trivial (fun g hg => nomatch hg) hholds

omit [DecidableEq τ] in
/-- A handle that was not in use takes part in nothing. -/
theorem setstate (hs : s.Reentrant) {t : τ} {state : ℕ × π} {h : η} (hfresh : s.home h = none) :
    (s.setstate t state h).Reentrant := by
  obtain ⟨s', hs'⟩ : ∃ s', s.setstate t state h = s' := ⟨_, rfl⟩
  rw [hs']
  have huser (g : η) (hne : g ≠ h) : s'.user g = s.user g := by
    rw [← hs']
    exact Function.update_of_ne hne ..
  have hcount (g : η) (hne : g ≠ h) : s'.accesscount g = s.accesscount g := by
    rw [← hs']
    exact Function.update_of_ne hne ..
  have hhome (g : η) (hg : s.home g ≠ none) : s'.home g ≠ none := by
    rw [← hs']
    show Function.update s.home h _ g ≠ none
    rw [Function.update_of_ne]
    · exact hg
    · intro heq
      rw [heq] at hg
      exact hg hfresh
  have hlevel : s'.level = s.level := by rw [← hs']; rfl
  have hphase : s'.phase = s.phase := by rw [← hs']; rfl
  have hchannel : s'.channel = s.channel := by rw [← hs']; rfl
  have hne (g : η) (hg : s.home g ≠ none) : g ≠ h := fun heq => hg (heq ▸ hfresh)
  refine ⟨fun t' hpos => ?_, fun t' g hg hpos => ?_, fun t' g hg => ?_, fun t' => ?_,
    fun t' g hg => ?_, fun t' g hg => ?_⟩
  · rw [hlevel] at hpos
    rw [hchannel]
    exact hs.held t' hpos
  · rcases eq_or_ne g h with rfl | hgh
    · rw [← hs'] at hg
      have : Function.update s.user g none g = some t' := hg
      rw [Function.update_self] at this
      exact nomatch this
    · rw [huser g hgh] at hg
      rw [hcount g hgh] at hpos
      rw [hchannel]
      exact hs.used t' g hg hpos
  · rw [hchannel] at hg
    have hgh := hne g (hs.channelKnown t' g hg)
    rw [hphase]
    exact holds_congr (huser g hgh) (hcount g hgh) (congrFun hlevel t') (hs.holds t' g hg)
  · rw [hphase]
    refine phaseOk_congr hchannel (fun g hg => ?_) (hs.phases t')
    have hgh := hne g (hs.known t' g hg)
    exact ⟨huser g hgh, hcount g hgh⟩
  · rw [hphase] at hg
    exact hhome g (hs.known t' g hg)
  · rw [hchannel] at hg
    exact hhome g (hs.channelKnown t' g hg)

omit [DecidableEq π] [DecidableEq τ] [DecidableEq η] in
/-- The thread that uses a handle with a positive access count holds the lock. -/
theorem owner_of_careful (hs : s.Reentrant) {t : τ} {h : η}
    (hcareful : 0 < s.accesscount h → s.user h = some t) (hidle : ∃ last, s.phase t = .idle last)
    (hpos : 0 < s.accesscount h) : s.user h = some t ∧ 0 < s.level t := by
  have huser := hcareful hpos
  refine ⟨huser, ?_⟩
  obtain ⟨last, hlast⟩ := hidle
  have hholds := hs.holds t h (hs.used t h huser hpos)
  rw [hlast] at hholds
  obtain ⟨-, -, hlevel⟩ := hholds
  rw [hlevel]
  exact hpos

/-- **Step lemma** for a recursive lock. -/
theorem exec (hs : s.Reentrant) (hr : s.recursive = true) (step : τ × LockAction π η)
    (hcareful : s.Careful step) : (s.exec step).Reentrant := by
  obtain ⟨t, action⟩ := step
  have hhomed : ∀ {h p}, s.home h = some p → ∀ g, some h = some g → s.home g ≠ none := by
    rintro h p hhome g ⟨⟩
    exact hhome ▸ Option.some_ne_none p
  cases action with
  | acquire h =>
    have hown : 0 < s.accesscount h → s.user h = some t := hcareful hr
    show (if _ then _ else _ : NativeLock π τ η).Reentrant
    split
    next hcan =>
      obtain ⟨⟨last, hlast⟩, hhome⟩ := hcan
      have hknown := hhomed hhome
      have hholds := hs.holds t
      rw [hlast] at hholds
      simp only [NativeLock.acquire, hr, true_and]
      split
      next hpos => exact hs.setPhase ⟨hown hpos, hpos⟩ hknown hholds
      next hzero => exact hs.setPhase (fun hpos => absurd hpos hzero) hknown hholds
    next => exact hs
  | release h =>
    have hown : 0 < s.accesscount h → s.user h = some t := hcareful hr
    show (if _ then _ else _ : NativeLock π τ η).Reentrant
    split
    next hcan =>
      obtain ⟨⟨last, hlast⟩, hhome⟩ := hcan
      have hknown := hhomed hhome
      have hholds := hs.holds t
      rw [hlast] at hholds
      simp only [NativeLock.release, hr, if_true]
      split
      next hpos => exact hs.setPhase ⟨hown hpos, hpos⟩ hknown hholds
      next hzero => exact hs.setPhase trivial (fun g hg => nomatch hg) hholds
    next => exact hs
  | getstate =>
    show (if _ then _ else _ : NativeLock π τ η).Reentrant
    split
    · exact ⟨hs.held, hs.used, fun t' g hg => holds_congr rfl rfl rfl (hs.holds t' g hg),
        fun t' => phaseOk_congr rfl (fun _ _ => ⟨rfl, rfl⟩) (hs.phases t'), hs.known,
        hs.channelKnown⟩
    · exact hs
  | setstate =>
    show (if _ then _ else _ : NativeLock π τ η).Reentrant
    split
    next hcan => exact hs.setstate hcan.2
    next => exact hs
  | advance => exact hs.advance hr hcareful
  | giveUp =>
    show (s.giveUp t).Reentrant
    unfold NativeLock.giveUp
    split
    next h sent hphase hchannel =>
      have hholds := hs.holds t
      rw [hphase] at hholds
      exact hs.setPhase trivial (fun g hg => nomatch hg) hholds
    next => exact hs

end Reentrant

/-! ## Main statement -/

namespace Kept

variable {s : NativeLock π τ η}

theorem exec (hs : s.Kept) (step : τ × LockAction π η) (hcareful : s.Careful step) :
    (s.exec step).Kept where
  plain := by
    rw [exec_recursive]
    exact fun hr => (hs.plain hr).exec hr step
  reentrant := by
    rw [exec_recursive]
    exact fun hr => (hs.reentrant hr).exec hr step hcareful

omit [DecidableEq π] [DecidableEq τ] [DecidableEq η] in
/-- A thread that holds the lock has sent the message in the channel. -/
theorem held (hs : s.Kept) (t : τ) (hpos : 0 < s.level t) : ∃ h, s.channel = some (t, h) := by
  cases hr : s.recursive with
  | false => exact (hs.plain hr).held t hpos
  | true => exact (hs.reentrant hr).held t hpos

theorem sound (hs : s.Kept) (step : τ × LockAction π η) (hcareful : s.Careful step) :
    Sound s step where
  exclusive := by
    intro t t' hpos hpos'
    obtain ⟨h, hh⟩ := (hs.exec step hcareful).held t hpos
    obtain ⟨h', hh'⟩ := (hs.exec step hcareful).held t' hpos'
    rw [hh] at hh'
    exact congrArg Prod.fst (Option.some.inj hh')
  unwaited := by
    obtain ⟨t, action⟩ := step
    rintro h rfl hcan hphase
    have hexec : s.exec (t, .acquire h) = s.acquire t h := if_pos hcan
    rw [hexec, NativeLock.acquire] at hphase
    split at hphase
    next hfast =>
      have hown : 0 < s.accesscount h → s.user h = some t := hcareful hfast.1
      exact ((hs.reentrant hfast.1).owner_of_careful hown hcan.1 hfast.2).2
    next =>
      rw [setPhase_phase_self] at hphase
      exact nomatch hphase
  refused := by
    obtain ⟨t, action⟩ := step
    rintro h rfl hcan hr hzero
    have hexec : s.exec (t, .release h) = s.release t h := if_pos hcan
    rw [hexec, NativeLock.release, if_pos hr, if_neg]
    intro hpos
    have hown : 0 < s.accesscount h → s.user h = some t := hcareful hr
    have hlevel := ((hs.reentrant hr).owner_of_careful hown hcan.1 hpos).2
    exact absurd hzero hlevel.ne'

end Kept

/-- Every step of a careful run of a lock that was just constructed respects who holds it. -/
theorem sound_of_careful (r : Bool) (process : τ → π) (h : η) (home : π)
    (steps : List (τ × LockAction π η))
    (hcareful : Runs.Legal NativeLock.exec Careful (init r process h home) steps) :
    Runs.Legal NativeLock.exec Sound (init r process h home) steps :=
  Runs.Legal.imp (I := Kept) (fun _ step hs hstep => hs.sound step hstep)
    (fun _ step hs hstep => hs.exec step hstep) hcareful
    ⟨fun _ => Plain.init r process h home, fun _ => Reentrant.init r process h home⟩

/-- Two threads of a process share the handle of a recursive lock: the second one takes the lock
that the first one holds. -/
theorem two_owners :
    ¬ Runs.Legal NativeLock.exec Sound
      (init true (fun _ => ()) () () : NativeLock Unit Bool Unit)
      [(false, .acquire ()), (false, .advance), (false, .advance), (true, .acquire ()),
        (true, .advance), (true, .advance)] := by
  intro hlegal
  simp only [Runs.legal_cons] at hlegal
  have hexclusive := hlegal.2.2.2.2.2.1.exclusive false true (by decide) (by decide)
  exact absurd hexclusive (by decide)

/-- The thread that has taken the lock takes it again, another one is refused, and gives up. -/
theorem sound_of_careful_reentered :
    Runs.Legal NativeLock.exec Sound
      (init true (fun t => t) false false : NativeLock Bool Bool Bool)
      [(false, .acquire false), (false, .getstate false), (true, .setstate (0, false) true),
        (false, .advance), (false, .advance), (true, .release true), (false, .acquire false),
        (true, .acquire true), (false, .advance), (true, .advance), (false, .advance),
        (true, .giveUp), (false, .release false), (false, .advance), (false, .advance),
        (false, .advance)] := by
  refine sound_of_careful true (fun t : Bool => t) false false _ ?_
  simp only [Runs.legal_cons, Runs.legal_nil, and_true]
  refine ⟨?_, ?_, ?_, ?_, ?_, ?_, ?_, ?_, ?_, ?_, ?_, ?_, ?_, ?_, ?_, ?_⟩
  all_goals
    first
    | exact fun _ => trivial
    | exact fun _ hpos => absurd hpos (by decide)
    | exact fun _ _ => by decide

end NativeLock
