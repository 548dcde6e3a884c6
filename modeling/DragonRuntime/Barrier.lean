/-
# The barrier (`src/dragon/native/barrier.py`, `src/lib/channels.c`)

A barrier of `n` parties is a channel of capacity `n`.  A `wait` registers under the locks of the
channel (`POLLBARRIER_WAIT`), which counts it in `barrier_count`; the last of `n` runs the action
and releases the waiters (`POLLBARRIER_RELEASE`), which puts one message for each of them in the
channel; and each waiter receives a message, the value it returns.  `abort`, `reset` and a `wait`
that times out before it has registered release the registered waiters with the value `-1`.

Conventions:

* each lock-protected section is a step, and so are the end of the action, a timeout, the removal
  of a message from the channel and the return of its block;
* a message of `-1` is `none`; the messages are in the order of the ordering table;
* the fields of the second half are not in the source: which waits are counted at the moment, for
  which a message is in the channel, and which have a message in their hands; how many waits
  left after they had registered; and the rounds, one for each time that waiters were released.
-/
import DragonRuntime.Runs

/-- Where a call of `wait` is. -/
inductive BarrierPhase : Type where
  | idle
  /-- in `POLLBARRIER_WAIT`, before its first test -/
  | polling
  /-- in the loop of `POLLBARRIER_WAIT` -/
  | looping
  /-- registered, in the receive -/
  | waiting
  /-- registered as the last one, in the action -/
  | acting
  /-- the action is done and the waiters are still to be released -/
  | acted
  /-- on its way to `abort`, after a timeout of the receive or an exception of the action -/
  | aborting
  /-- with a message that it has taken out of the channel -/
  | holding (val : Option ℕ)
  | returned (val : ℕ)
  /-- ended with `BrokenBarrierError` -/
  | raised
  deriving DecidableEq

/-- Registered, and neither with a message nor on the way out. -/
def BarrierPhase.registered : BarrierPhase → Bool
  | .waiting | .acting | .acted => true
  | _ => false

/-- The call of `wait` is over, or has not begun. -/
def BarrierPhase.out : BarrierPhase → Bool
  | .idle | .returned _ | .raised => true
  | _ => false

/-- How many steps a wait has before it. -/
def BarrierPhase.ahead : BarrierPhase → ℕ
  | .idle => 6
  | .polling | .looping => 5
  | .acting => 4
  | .acted => 3
  | .waiting => 2
  | .holding _ => 1
  | _ => 0

/-- The barrier's channel, the calls of `wait`, and the history of the rounds. -/
structure Barrier (ω : Type*) where
  parties : ℕ
  barrierCount : ℕ
  barrierBroken : Bool
  msgs : List (Option ℕ)
  availableBlocks : ℕ
  phase : ω → BarrierPhase
  counted : Finset ω
  owed : Finset ω
  hands : Finset ω
  left : ℕ
  round : ℕ
  roundOf : ω → ℕ
  size : ℕ → ℕ
  actionDone : ℕ → Bool
  doomed : Finset ω

namespace Barrier

variable {ω : Type*} [DecidableEq ω]

/-- A barrier that was just made. -/
def init (parties : ℕ) : Barrier ω :=
  ⟨parties, 0, false, [], parties, fun _ => .idle, ∅, ∅, ∅, 0, 0, fun _ => 0, fun _ => 0,
    fun _ => false, ∅⟩

def setPhase (s : Barrier ω) (w : ω) (phase : BarrierPhase) : Barrier ω :=
  { s with phase := Function.update s.phase w phase }

/-- The values that `_release_barrier_waiters` sends. -/
def releaseValues (s : Barrier ω) : List (Option ℕ) :=
  if s.barrierBroken ∨ s.barrierCount < s.parties then List.replicate s.barrierCount none
  else (List.range s.barrierCount).map some

/-- `_release_barrier_waiters`. -/
def releaseBarrierWaiters (s : Barrier ω) : Barrier ω :=
  if s.barrierBroken ∧ s.barrierCount = 0 then s
  else
    { s with
      msgs := s.msgs ++ s.releaseValues
      availableBlocks := s.availableBlocks - s.barrierCount
      barrierCount := 0
      counted := ∅
      owed := s.owed ∪ s.counted.filter (fun w => s.phase w ≠ .aborting)
      round := if s.barrierCount = 0 then s.round else s.round + 1 }

/-- `DRAGON_CHANNEL_POLLBARRIER_ABORT`. -/
def pollAbort (s : Barrier ω) : Barrier ω :=
  if s.barrierBroken then s
  else { s with barrierBroken := true, doomed := s.doomed ∪ s.counted }.releaseBarrierWaiters

/-- `DRAGON_CHANNEL_POLLRESET`. -/
def pollReset (s : Barrier ω) : Barrier ω :=
  { ({ s with doomed := s.doomed ∪ s.counted } : Barrier ω).releaseBarrierWaiters with
    barrierBroken := false, barrierCount := 0 }

/-- `DRAGON_CHANNEL_POLLBARRIER_RELEASE`. -/
def pollRelease (s : Barrier ω) : Barrier ω :=
  if s.barrierBroken then s else s.releaseBarrierWaiters

/-- The registration at the end of `DRAGON_CHANNEL_POLLBARRIER_WAIT`; the last one is told that
the barrier is ready. -/
def register (s : Barrier ω) (w : ω) : Barrier ω :=
  { s with
    barrierCount := s.barrierCount + 1
    phase := Function.update s.phase w
      (if s.barrierCount + 1 = s.parties then .acting else .waiting)
    counted := insert w s.counted
    roundOf := Function.update s.roundOf w s.round
    size := Function.update s.size s.round (s.barrierCount + 1) }

/-- `DRAGON_CHANNEL_POLLBARRIER_WAIT`, from its start or from the test of its loop on. -/
def pollWait (s : Barrier ω) (w : ω) : Barrier ω :=
  if s.phase w = .polling ∧ s.barrierBroken then s.setPhase w .raised
  else if s.availableBlocks ≠ s.parties ∨ s.barrierCount = s.parties then s.setPhase w .looping
  else if s.barrierBroken then s.setPhase w .raised
  else s.register w

/-- The steps of the calls of `wait`, `abort` and `reset`. -/
inductive Step (ω : Type*) : Type _ where
  | enter (w : ω)
  | pollWait (w : ω)
  /-- the poll in the loop of `POLLBARRIER_WAIT` times out -/
  | pollTimeout (w : ω)
  /-- the same for a wait that was called with a timeout of zero -/
  | tryAgain (w : ω)
  | actionReturns (w : ω)
  | actionRaises (w : ω)
  | pollRelease (w : ω)
  /-- the receive of `wait` takes a message out of the channel -/
  | recv (w : ω)
  | recvTimeout (w : ω)
  /-- the block is returned and the message is read -/
  | finish (w : ω)
  /-- the abort of a wait that is on its way out -/
  | abortAndRaise (w : ω)
  | abort
  | reset

/-- The outcome of a message. -/
def outcome (parties : ℕ) : Option ℕ → BarrierPhase
  | none => .raised
  | some val => if val < parties then .returned val else .raised

/-- The barrier after a step; one that cannot be made changes nothing. -/
def exec (s : Barrier ω) : Step ω → Barrier ω
  | .enter w => if s.phase w = .idle then s.setPhase w .polling else s
  | .pollWait w =>
    if s.phase w = .polling ∨ s.phase w = .looping then s.pollWait w else s
  | .pollTimeout w =>
    if s.phase w = .looping then
      ({ s with
        barrierBroken := true
        doomed := s.doomed ∪ s.counted }.releaseBarrierWaiters).setPhase w .raised
    else s
  | .tryAgain w => if s.phase w = .looping then s.setPhase w .raised else s
  | .actionReturns w =>
    if s.phase w = .acting then
      { s with actionDone := Function.update s.actionDone (s.roundOf w) true }.setPhase w .acted
    else s
  | .actionRaises w =>
    if s.phase w = .acting then
      { s with owed := s.owed.erase w, left := s.left + 1 }.setPhase w .aborting
    else s
  | .pollRelease w => if s.phase w = .acted then s.pollRelease.setPhase w .waiting else s
  | .recv w =>
    match s.msgs with
    | [] => s
    | val :: msgs =>
      if s.phase w = .waiting then
        { s with
          msgs := msgs, owed := s.owed.erase w, hands := insert w s.hands }.setPhase w
            (.holding val)
      else s
  | .recvTimeout w =>
    if s.phase w = .waiting then
      { s with owed := s.owed.erase w, left := s.left + 1 }.setPhase w .aborting
    else s
  | .finish w =>
    match s.phase w with
    | .holding val =>
      { s with
        availableBlocks := s.availableBlocks + 1, hands := s.hands.erase w }.setPhase w
          (outcome s.parties val)
    | _ => s
  | .abortAndRaise w => if s.phase w = .aborting then s.pollAbort.setPhase w .raised else s
  | .abort => s.pollAbort
  | .reset => s.pollReset

/-- The barrier after the steps of a run. -/
def run (parties : ℕ) (steps : List (Step ω)) : Barrier ω := steps.foldl Barrier.exec (init parties)

/-! ## Blocks, messages and waits -/

/-- The waits that are counted and on their way out: a message will be sent for them. -/
def leavers (s : Barrier ω) : Finset ω := s.counted.filter (fun w => s.phase w = .aborting)

/-- The counters fit the calls: while waits are counted the channel is untouched, and there is a
message in the channel for every wait that is owed one, and for every wait that left. -/
structure Kept (s : Barrier ω) : Prop where
  blocks : s.availableBlocks + s.msgs.length + s.hands.card = s.parties
  count : s.barrierCount = s.counted.card
  count_le : s.barrierCount ≤ s.parties
  fresh : 0 < s.barrierCount →
    s.msgs = [] ∧ s.hands = ∅ ∧ s.owed = ∅ ∧ s.barrierBroken = false
  messages : s.msgs.length + s.leavers.card = s.owed.card + s.left
  counted_phase : ∀ w ∈ s.counted, (s.phase w).registered ∨ s.phase w = .aborting
  owed_phase : ∀ w ∈ s.owed, (s.phase w).registered
  hands_phase : ∀ w, w ∈ s.hands ↔ ∃ val, s.phase w = .holding val
  covered : ∀ w, (s.phase w).registered → w ∈ s.counted ∨ w ∈ s.owed

omit [DecidableEq ω] in
theorem Kept.init (parties : ℕ) : (init parties : Barrier ω).Kept := by
  constructor <;> simp [Barrier.init, leavers, BarrierPhase.registered]

variable {s : Barrier ω} {w : ω} {phase : BarrierPhase} {ws : Finset ω}

section

omit [DecidableEq ω]

theorem Kept.counted_eq_empty (h : s.Kept) (hcount : s.barrierCount = 0) : s.counted = ∅ := by
  rw [← Finset.card_eq_zero, ← h.count, hcount]

/-- There is a block for each waiter, so that `_release_barrier_waiters` finds one. -/
theorem Kept.count_le_availableBlocks (h : s.Kept) : s.barrierCount ≤ s.availableBlocks := by
  rcases Nat.eq_zero_or_pos s.barrierCount with hzero | hpos
  · omega
  · obtain ⟨hmsgs, hhands, _⟩ := h.fresh hpos
    have hblocks := h.blocks
    have hle := h.count_le
    rw [hmsgs, hhands] at hblocks
    simp only [List.length_nil, Finset.card_empty] at hblocks
    omega

/-- A message in the channel means that no wait is counted. -/
theorem Kept.count_eq_zero_of_msgs (h : s.Kept) (hmsgs : s.msgs ≠ []) : s.barrierCount = 0 := by
  by_contra hne
  exact hmsgs (h.fresh (Nat.pos_of_ne_zero hne)).1

/-- A wait that is counted is owed nothing yet. -/
theorem Kept.notMem_owed (h : s.Kept) (hw : w ∈ s.counted) : w ∉ s.owed := by
  have hpos : 0 < s.barrierCount := by
    rw [h.count]
    exact Finset.card_pos.mpr ⟨w, hw⟩
  rw [(h.fresh hpos).2.2.1]
  exact Finset.notMem_empty w

/-- A wait that has not registered, or is over, is in none of the sets. -/
theorem Kept.notMem_of_phase (h : s.Kept) (hreg : (s.phase w).registered = false)
    (habort : s.phase w ≠ .aborting) (hhold : ∀ val, s.phase w ≠ .holding val) :
    w ∉ s.counted ∧ w ∉ s.owed ∧ w ∉ s.hands := by
  refine ⟨fun hw => ?_, fun hw => ?_, fun hw => ?_⟩
  · rcases h.counted_phase w hw with hphase | hphase
    · rw [hreg] at hphase
      exact Bool.false_ne_true hphase
    · exact habort hphase
  · have hphase := h.owed_phase w hw
    rw [hreg] at hphase
    exact Bool.false_ne_true hphase
  · obtain ⟨val, hval⟩ := (h.hands_phase w).mp hw
    exact hhold val hval

theorem leavers_congr {s' : Barrier ω} (hcounted : s'.counted = s.counted)
    (hphase : ∀ w ∈ s.counted, s'.phase w = .aborting ↔ s.phase w = .aborting) :
    s'.leavers = s.leavers := by
  rw [leavers, leavers, hcounted]
  exact Finset.filter_congr hphase

end

theorem Kept.setPhase_out (h : s.Kept) (hw : w ∉ s.counted ∧ w ∉ s.owed ∧ w ∉ s.hands)
    (hreg : phase.registered = false) (hhold : ∀ val, phase ≠ .holding val) :
    (s.setPhase w phase).Kept := by
  have hother : ∀ w', w' ≠ w → (s.setPhase w phase).phase w' = s.phase w' :=
    fun w' hne => Function.update_of_ne hne _ _
  have hself : (s.setPhase w phase).phase w = phase := Function.update_self _ _ _
  have hleavers : (s.setPhase w phase).leavers = s.leavers := by
    refine leavers_congr (s := s) rfl ?_
    intro w' hw'
    rw [hother w' (fun heq => hw.1 (heq ▸ hw'))]
  refine ⟨h.blocks, h.count, h.count_le, h.fresh, ?_, ?_, ?_, ?_, ?_⟩
  · rw [hleavers]
    exact h.messages
  · intro w' hw'
    rw [hother w' (fun heq => hw.1 (heq ▸ hw'))]
    exact h.counted_phase w' hw'
  · intro w' hw'
    rw [hother w' (fun heq => hw.2.1 (heq ▸ hw'))]
    exact h.owed_phase w' hw'
  · intro w'
    by_cases heq : w' = w
    · subst heq
      rw [hself]
      exact ⟨fun hmem => absurd hmem hw.2.2, fun ⟨val, hval⟩ => absurd hval (hhold val)⟩
    · rw [hother w' heq]
      exact h.hands_phase w'
  · intro w' hw'
    by_cases heq : w' = w
    · subst heq
      rw [hself, hreg] at hw'
      exact absurd hw' Bool.false_ne_true
    · rw [hother w' heq] at hw'
      exact h.covered w' hw'

theorem Kept.setPhase_registered (h : s.Kept) (hold : (s.phase w).registered)
    (hnew : phase.registered) : (s.setPhase w phase).Kept := by
  have hother : ∀ w', w' ≠ w → (s.setPhase w phase).phase w' = s.phase w' :=
    fun w' hne => Function.update_of_ne hne _ _
  have hself : (s.setPhase w phase).phase w = phase := Function.update_self _ _ _
  have hne : ∀ {ph : BarrierPhase}, ph.registered → ph ≠ .aborting := by
    rintro ph hreg rfl
    exact absurd hreg Bool.false_ne_true
  have hhold : ∀ {ph : BarrierPhase}, ph.registered → ∀ val, ph ≠ .holding val := by
    rintro ph hreg val rfl
    exact absurd hreg Bool.false_ne_true
  have hleavers : (s.setPhase w phase).leavers = s.leavers := by
    refine leavers_congr (s := s) rfl ?_
    intro w' _
    by_cases heq : w' = w
    · subst heq
      rw [hself]
      exact iff_of_false (hne hnew) (hne hold)
    · rw [hother w' heq]
  refine ⟨h.blocks, h.count, h.count_le, h.fresh, ?_, ?_, ?_, ?_, ?_⟩
  · rw [hleavers]
    exact h.messages
  · intro w' hw'
    by_cases heq : w' = w
    · subst heq
      rw [hself]
      exact .inl hnew
    · rw [hother w' heq]
      exact h.counted_phase w' hw'
  · intro w' hw'
    by_cases heq : w' = w
    · subst heq
      rwa [hself]
    · rw [hother w' heq]
      exact h.owed_phase w' hw'
  · intro w'
    by_cases heq : w' = w
    · subst heq
      rw [hself]
      have hnot : w' ∉ s.hands := fun hmem =>
        ((h.hands_phase w').mp hmem).elim (fun val hval => hhold hold val hval)
      exact iff_of_false hnot (fun ⟨val, hval⟩ => hhold hnew val hval)
    · rw [hother w' heq]
      exact h.hands_phase w'
  · intro w' hw'
    by_cases heq : w' = w
    · subst heq
      exact h.covered w' hold
    · rw [hother w' heq] at hw'
      exact h.covered w' hw'

omit [DecidableEq ω] in
/-- The history of the rounds and the flag change, with no wait counted if the barrier is
broken. -/
theorem Kept.setRounds (h : s.Kept) {broken : Bool} (hbroken : 0 < s.barrierCount → broken = false)
    (round : ℕ) (roundOf : ω → ℕ) (size : ℕ → ℕ) (actionDone : ℕ → Bool) (doomed : Finset ω) :
    { s with
      barrierBroken := broken
      round := round
      roundOf := roundOf
      size := size
      actionDone := actionDone
      doomed := doomed }.Kept := by
  refine ⟨h.blocks, h.count, h.count_le, ?_, h.messages, h.counted_phase, h.owed_phase,
    h.hands_phase, h.covered⟩
  intro hpos
  obtain ⟨hmsgs, hhands, howed, _⟩ := h.fresh hpos
  exact ⟨hmsgs, hhands, howed, hbroken hpos⟩

/-! ## The steps -/

@[simp] theorem setPhase_phase_self (s : Barrier ω) (w : ω) (phase : BarrierPhase) :
    (s.setPhase w phase).phase w = phase := Function.update_self _ _ _

theorem setPhase_phase_of_ne (s : Barrier ω) {w' : ω} (hne : w' ≠ w) (phase : BarrierPhase) :
    (s.setPhase w phase).phase w' = s.phase w' := Function.update_of_ne hne _ _

omit [DecidableEq ω] in
theorem length_releaseValues (s : Barrier ω) : s.releaseValues.length = s.barrierCount := by
  rw [releaseValues]
  split
  · exact List.length_replicate
  · rw [List.length_map, List.length_range]

omit [DecidableEq ω] in
theorem card_counted (s : Barrier ω) :
    s.counted.card = s.leavers.card + (s.counted.filter (fun w => s.phase w ≠ .aborting)).card :=
  (Finset.card_filter_add_card_filter_not (fun w => s.phase w = .aborting)).symm

/-- The release of the waiters, from a channel whose flag may just have been set. -/
theorem Kept.releaseBarrierWaiters (h : s.Kept) (broken : Bool) (doomed : Finset ω) :
    ({ s with barrierBroken := broken, doomed := doomed } : Barrier ω).releaseBarrierWaiters.Kept := by
  rw [Barrier.releaseBarrierWaiters]
  split
  next hzero =>
    have hcount : s.barrierCount = 0 := hzero.2
    exact h.setRounds (fun hpos => absurd hcount hpos.ne') _ _ _ _ _
  · have hlength : ∀ flag marks, ({ s with barrierBroken := flag, doomed := marks } :
        Barrier ω).releaseValues.length = s.barrierCount := fun _ _ => length_releaseValues _
    have hle := h.count_le_availableBlocks
    have hblocks := h.blocks
    have hmessages := h.messages
    have hcard := card_counted s
    -- the waits that are counted now are not owed anything before
    have hdisjoint : Disjoint s.owed (s.counted.filter (fun w => s.phase w ≠ .aborting)) := by
      rw [Finset.disjoint_right]
      exact fun w hw => h.notMem_owed (Finset.mem_of_mem_filter w hw)
    refine ⟨?_, ?_, Nat.zero_le _, ?_, ?_, ?_, ?_, h.hands_phase, ?_⟩
    · rw [List.length_append, hlength]
      change s.availableBlocks - s.barrierCount + (s.msgs.length + s.barrierCount) +
        s.hands.card = s.parties
      omega
    · rfl
    · exact fun hpos => absurd hpos (Nat.lt_irrefl 0)
    · rw [List.length_append, hlength, Finset.card_union_of_disjoint hdisjoint, leavers]
      simp only [Finset.filter_empty, Finset.card_empty]
      have hcount := h.count
      omega
    · exact fun w hw => absurd hw (Finset.notMem_empty w)
    · intro w hw
      rcases Finset.mem_union.mp hw with hw | hw
      · exact h.owed_phase w hw
      · obtain ⟨hcounted, hphase⟩ := Finset.mem_filter.mp hw
        exact (h.counted_phase w hcounted).resolve_right hphase
    · intro w hw
      refine .inr (Finset.mem_union.mpr ?_)
      rcases h.covered w hw with hcounted | howed
      · refine .inr (Finset.mem_filter.mpr ⟨hcounted, ?_⟩)
        intro habort
        change (s.phase w).registered = true at hw
        rw [habort] at hw
        exact absurd hw Bool.false_ne_true
      · exact .inl howed

theorem Kept.releaseBarrierWaiters_count (h : s.Kept) (broken : Bool) (doomed : Finset ω) :
    ({ s with barrierBroken := broken, doomed := doomed } :
      Barrier ω).releaseBarrierWaiters.barrierCount = 0 ∧
    ({ s with barrierBroken := broken, doomed := doomed } :
      Barrier ω).releaseBarrierWaiters.counted = ∅ := by
  rw [Barrier.releaseBarrierWaiters]
  split
  next hzero => exact ⟨hzero.2, h.counted_eq_empty hzero.2⟩
  · exact ⟨rfl, rfl⟩

theorem releaseBarrierWaiters_phase (s : Barrier ω) : s.releaseBarrierWaiters.phase = s.phase := by
  rw [releaseBarrierWaiters]
  split
  · rfl
  · rfl

theorem Kept.pollAbort (h : s.Kept) : s.pollAbort.Kept := by
  rw [Barrier.pollAbort]
  split
  · exact h
  · exact h.releaseBarrierWaiters true _

theorem Kept.pollAbort_counted (h : s.Kept) : s.pollAbort.counted = ∅ := by
  rw [Barrier.pollAbort]
  split
  next hbroken =>
    apply h.counted_eq_empty
    by_contra hne
    have hfresh := (h.fresh (Nat.pos_of_ne_zero hne)).2.2.2
    rw [hbroken] at hfresh
    exact absurd hfresh.symm Bool.false_ne_true
  · exact (h.releaseBarrierWaiters_count true _).2

theorem pollAbort_phase (s : Barrier ω) : s.pollAbort.phase = s.phase := by
  rw [pollAbort]
  split
  · rfl
  · exact releaseBarrierWaiters_phase _

theorem Kept.pollReset (h : s.Kept) : s.pollReset.Kept := by
  have hreleased := h.releaseBarrierWaiters s.barrierBroken (s.doomed ∪ s.counted)
  have hcount := (h.releaseBarrierWaiters_count s.barrierBroken (s.doomed ∪ s.counted)).1
  have hcounted := (h.releaseBarrierWaiters_count s.barrierBroken (s.doomed ∪ s.counted)).2
  refine ⟨hreleased.blocks, ?_, Nat.zero_le _, fun hpos => absurd hpos (Nat.lt_irrefl 0),
    hreleased.messages, hreleased.counted_phase, hreleased.owed_phase, hreleased.hands_phase,
    hreleased.covered⟩
  exact hcount.symm.trans hreleased.count

theorem Kept.pollRelease (h : s.Kept) : s.pollRelease.Kept := by
  rw [Barrier.pollRelease]
  split
  · exact h
  · exact h.releaseBarrierWaiters s.barrierBroken s.doomed

theorem pollRelease_phase (s : Barrier ω) : s.pollRelease.phase = s.phase := by
  rw [pollRelease]
  split
  · rfl
  · exact releaseBarrierWaiters_phase s

omit [DecidableEq ω] in
/-- All blocks are free only when no wait is owed a message, and every wait that left is still
counted. -/
theorem Kept.owed_eq_empty (h : s.Kept) (hblocks : s.availableBlocks = s.parties) :
    s.msgs = [] ∧ s.hands = ∅ ∧ s.owed = ∅ := by
  have hsum := h.blocks
  have hmsgs : s.msgs = [] := List.eq_nil_of_length_eq_zero (by omega)
  have hhands : s.hands = ∅ := Finset.card_eq_zero.mp (by omega)
  refine ⟨hmsgs, hhands, ?_⟩
  rcases Nat.eq_zero_or_pos s.barrierCount with hzero | hpos
  · have hmessages := h.messages
    rw [hmsgs, leavers, h.counted_eq_empty hzero] at hmessages
    simp only [List.length_nil, Finset.filter_empty, Finset.card_empty, Nat.add_zero] at hmessages
    exact Finset.card_eq_zero.mp (by omega)
  · exact (h.fresh hpos).2.2.1

theorem Kept.register (h : s.Kept) (hw : w ∉ s.counted ∧ w ∉ s.owed ∧ w ∉ s.hands)
    (hblocks : s.availableBlocks = s.parties) (hcount : s.barrierCount ≠ s.parties)
    (hbroken : s.barrierBroken = false) : (s.register w).Kept := by
  obtain ⟨hmsgs, hhands, howed⟩ := h.owed_eq_empty hblocks
  have hreg : (if s.barrierCount + 1 = s.parties then BarrierPhase.acting
      else .waiting).registered = true := by
    split
    · rfl
    · rfl
  have hother : ∀ w', w' ≠ w → (s.register w).phase w' = s.phase w' :=
    fun w' hne => Function.update_of_ne hne _ _
  have hself : ((s.register w).phase w).registered = true := by
    rw [Barrier.register]
    simp only [Function.update_self]
    exact hreg
  have hleavers : (s.register w).leavers = s.leavers := by
    rw [leavers, leavers]
    change (insert w s.counted).filter (fun w' => (s.register w).phase w' = .aborting) = _
    rw [Finset.filter_insert, if_neg (fun heq => by rw [heq] at hself; nomatch hself)]
    apply Finset.filter_congr
    intro w' hw'
    rw [hother w' (fun heq => hw.1 (heq ▸ hw'))]
  refine ⟨h.blocks, ?_, ?_, fun _ => ⟨hmsgs, hhands, howed, hbroken⟩, ?_, ?_, ?_, ?_, ?_⟩
  · change s.barrierCount + 1 = (insert w s.counted).card
    rw [Finset.card_insert_of_notMem hw.1, h.count]
  · have hle := h.count_le
    change s.barrierCount + 1 ≤ s.parties
    omega
  · rw [hleavers]
    exact h.messages
  · intro w' hw'
    by_cases heq : w' = w
    · subst heq
      exact .inl hself
    · rw [hother w' heq]
      exact h.counted_phase w' (Finset.mem_of_mem_insert_of_ne hw' heq)
  · intro w' hw'
    rw [hother w' (fun heq => hw.2.1 (heq ▸ hw'))]
    exact h.owed_phase w' hw'
  · intro w'
    by_cases heq : w' = w
    · subst heq
      refine iff_of_false hw.2.2 ?_
      rintro ⟨val, hval⟩
      rw [hval] at hself
      nomatch hself
    · rw [hother w' heq]
      exact h.hands_phase w'
  · intro w' hw'
    by_cases heq : w' = w
    · subst heq
      exact .inl (Finset.mem_insert_self _ _)
    · rw [hother w' heq] at hw'
      exact (h.covered w' hw').imp_left Finset.mem_insert_of_mem

theorem Kept.pollWait (h : s.Kept) (hphase : s.phase w = .polling ∨ s.phase w = .looping) :
    (s.pollWait w).Kept := by
  have hw : w ∉ s.counted ∧ w ∉ s.owed ∧ w ∉ s.hands := by
    apply h.notMem_of_phase
    · rcases hphase with hphase | hphase <;> rw [hphase] <;> rfl
    · rcases hphase with hphase | hphase <;> rw [hphase] <;> nofun
    · rcases hphase with hphase | hphase <;> rw [hphase] <;> nofun
  rw [Barrier.pollWait]
  split
  · exact h.setPhase_out hw rfl nofun
  · split
    · exact h.setPhase_out hw rfl nofun
    next hfull =>
      rw [not_or, not_not] at hfull
      split
      · exact h.setPhase_out hw rfl nofun
      next hbroken => exact h.register hw hfull.1 hfull.2 (Bool.eq_false_iff.mpr hbroken)

/-- A registered wait leaves without a message. -/
theorem Kept.leave (h : s.Kept) (hphase : (s.phase w).registered) :
    ({ s with owed := s.owed.erase w, left := s.left + 1 }.setPhase w .aborting).Kept := by
  have hother : ∀ w', w' ≠ w →
      ({ s with owed := s.owed.erase w, left := s.left + 1 }.setPhase w .aborting).phase w' =
        s.phase w' :=
    fun w' hne => Function.update_of_ne hne _ _
  have hself :
      ({ s with owed := s.owed.erase w, left := s.left + 1 }.setPhase w .aborting).phase w =
        .aborting := Function.update_self _ _ _
  have hne : s.phase w ≠ .aborting := by
    intro heq
    rw [heq] at hphase
    exact absurd hphase Bool.false_ne_true
  have hhands : w ∉ s.hands := by
    intro hmem
    obtain ⟨val, hval⟩ := (h.hands_phase w).mp hmem
    rw [hval] at hphase
    exact absurd hphase Bool.false_ne_true
  refine ⟨h.blocks, h.count, h.count_le, ?_, ?_, ?_, ?_, ?_, ?_⟩
  · intro hpos
    obtain ⟨hmsgs, hhands, howed, hbroken⟩ := h.fresh hpos
    refine ⟨hmsgs, hhands, ?_, hbroken⟩
    change s.owed.erase w = ∅
    rw [howed, Finset.erase_empty]
  · have hmessages := h.messages
    change s.msgs.length + (s.counted.filter (fun w' => _)).card =
      (s.owed.erase w).card + (s.left + 1)
    rcases h.covered w hphase with hcounted | howed
    · -- the wait is counted: its message is still to be sent
      have hleavers : s.counted.filter (fun w' => ({ s with
          owed := s.owed.erase w, left := s.left + 1 }.setPhase w .aborting).phase w' =
            .aborting) = insert w s.leavers := by
        ext w'
        rw [Finset.mem_filter, Finset.mem_insert, leavers, Finset.mem_filter]
        by_cases heq : w' = w
        · subst heq
          exact iff_of_true ⟨hcounted, hself⟩ (.inl rfl)
        · rw [hother w' heq]
          simp only [heq, false_or]
      have hnot : w ∉ s.leavers := fun hmem => hne (Finset.mem_filter.mp hmem).2
      rw [hleavers, Finset.card_insert_of_notMem hnot,
        Finset.erase_eq_of_notMem (h.notMem_owed hcounted)]
      omega
    · -- the message of the wait is in the channel
      have hcounted : w ∉ s.counted := fun hmem => h.notMem_owed hmem howed
      have hleavers : s.counted.filter (fun w' => ({ s with
          owed := s.owed.erase w, left := s.left + 1 }.setPhase w .aborting).phase w' =
            .aborting) = s.leavers := by
        apply Finset.filter_congr
        intro w' hw'
        rw [hother w' (fun heq => hcounted (heq ▸ hw'))]
      rw [hleavers, Finset.card_erase_of_mem howed]
      have hpos := Finset.card_pos.mpr ⟨w, howed⟩
      omega
  · intro w' hw'
    by_cases heq : w' = w
    · subst heq
      exact .inr hself
    · rw [hother w' heq]
      exact h.counted_phase w' hw'
  · intro w' hw'
    obtain ⟨heq, howed⟩ := Finset.mem_erase.mp hw'
    rw [hother w' heq]
    exact h.owed_phase w' howed
  · intro w'
    by_cases heq : w' = w
    · subst heq
      rw [hself]
      exact iff_of_false hhands (by rintro ⟨val, hval⟩; nomatch hval)
    · rw [hother w' heq]
      exact h.hands_phase w'
  · intro w' hw'
    by_cases heq : w' = w
    · subst heq
      rw [hself] at hw'
      exact absurd hw' Bool.false_ne_true
    · rw [hother w' heq] at hw'
      exact (h.covered w' hw').imp_right (fun howed => Finset.mem_erase.mpr ⟨heq, howed⟩)

theorem Kept.recv (h : s.Kept) (hphase : s.phase w = .waiting) {val : Option ℕ}
    {msgs : List (Option ℕ)} (hmsgs : s.msgs = val :: msgs) :
    ({ s with msgs := msgs, owed := s.owed.erase w, hands := insert w s.hands }.setPhase w
      (.holding val)).Kept := by
  have hother : ∀ w', w' ≠ w → ({ s with
      msgs := msgs, owed := s.owed.erase w, hands := insert w s.hands }.setPhase w
        (.holding val)).phase w' = s.phase w' :=
    fun w' hne => Function.update_of_ne hne _ _
  have hself : ({ s with
      msgs := msgs, owed := s.owed.erase w, hands := insert w s.hands }.setPhase w
        (.holding val)).phase w = .holding val := Function.update_self _ _ _
  have hzero : s.barrierCount = 0 := h.count_eq_zero_of_msgs (hmsgs ▸ List.cons_ne_nil _ _)
  have hcounted := h.counted_eq_empty hzero
  have hreg : (s.phase w).registered = true := by rw [hphase]; rfl
  have howed : w ∈ s.owed := by
    refine (h.covered w hreg).resolve_left ?_
    rw [hcounted]
    exact Finset.notMem_empty w
  have hhands : w ∉ s.hands := by
    intro hmem
    obtain ⟨val', hval'⟩ := (h.hands_phase w).mp hmem
    rw [hphase] at hval'
    nomatch hval'
  refine ⟨?_, h.count, h.count_le, fun hpos => absurd hzero hpos.ne', ?_, ?_, ?_, ?_, ?_⟩
  · have hblocks := h.blocks
    rw [hmsgs, List.length_cons] at hblocks
    change s.availableBlocks + msgs.length + (insert w s.hands).card = s.parties
    rw [Finset.card_insert_of_notMem hhands]
    omega
  · have hmessages := h.messages
    rw [hmsgs, List.length_cons, leavers, hcounted] at hmessages
    have hpos := Finset.card_pos.mpr ⟨w, howed⟩
    change msgs.length + (s.counted.filter (fun w' => _)).card = (s.owed.erase w).card + s.left
    rw [hcounted, Finset.card_erase_of_mem howed]
    simp only [Finset.filter_empty, Finset.card_empty] at hmessages ⊢
    omega
  · intro w' hw'
    change w' ∈ s.counted at hw'
    rw [hcounted] at hw'
    exact absurd hw' (Finset.notMem_empty w')
  · intro w' hw'
    obtain ⟨heq, howed'⟩ := Finset.mem_erase.mp hw'
    rw [hother w' heq]
    exact h.owed_phase w' howed'
  · intro w'
    by_cases heq : w' = w
    · subst heq
      exact iff_of_true (Finset.mem_insert_self _ _) ⟨val, hself⟩
    · rw [hother w' heq, ← h.hands_phase w']
      exact Finset.mem_insert.trans (or_iff_right heq)
  · intro w' hw'
    by_cases heq : w' = w
    · subst heq
      rw [hself] at hw'
      exact absurd hw' Bool.false_ne_true
    · rw [hother w' heq] at hw'
      exact (h.covered w' hw').imp_right (fun howed' => Finset.mem_erase.mpr ⟨heq, howed'⟩)

theorem outcome_out (parties : ℕ) (val : Option ℕ) : (outcome parties val).out = true := by
  cases val with
  | none => rfl
  | some val =>
    rw [outcome]
    split
    · rfl
    · rfl

theorem BarrierPhase.not_registered_of_out (h : phase.out) :
    phase.registered = false ∧ phase ≠ .aborting ∧ ∀ val, phase ≠ .holding val := by
  cases phase with
  | idle => exact ⟨rfl, nofun, nofun⟩
  | returned => exact ⟨rfl, nofun, nofun⟩
  | raised => exact ⟨rfl, nofun, nofun⟩
  | _ => exact absurd h Bool.false_ne_true

theorem Kept.finish (h : s.Kept) {val : Option ℕ} (hphase : s.phase w = .holding val) :
    ({ s with availableBlocks := s.availableBlocks + 1, hands := s.hands.erase w }.setPhase w
      (outcome s.parties val)).Kept := by
  have hmem : w ∈ s.hands := (h.hands_phase w).mpr ⟨val, hphase⟩
  have hreg : (s.phase w).registered = false := by rw [hphase]; rfl
  have hcounted : w ∉ s.counted := by
    intro hw
    rcases h.counted_phase w hw with hw | hw
    · rw [hreg] at hw
      exact Bool.false_ne_true hw
    · rw [hphase] at hw
      nomatch hw
  have howed : w ∉ s.owed := fun hw => by
    have := h.owed_phase w hw
    rw [hreg] at this
    exact Bool.false_ne_true this
  obtain ⟨hout, _, hhold⟩ :=
    BarrierPhase.not_registered_of_out (outcome_out s.parties val)
  have hother : ∀ w', w' ≠ w → ({ s with
      availableBlocks := s.availableBlocks + 1, hands := s.hands.erase w }.setPhase w
        (outcome s.parties val)).phase w' = s.phase w' :=
    fun w' hne => Function.update_of_ne hne _ _
  have hself : ({ s with
      availableBlocks := s.availableBlocks + 1, hands := s.hands.erase w }.setPhase w
        (outcome s.parties val)).phase w = outcome s.parties val := Function.update_self _ _ _
  refine ⟨?_, h.count, h.count_le, ?_, ?_, ?_, ?_, ?_, ?_⟩
  · have hblocks := h.blocks
    have hpos := Finset.card_pos.mpr ⟨w, hmem⟩
    change s.availableBlocks + 1 + s.msgs.length + (s.hands.erase w).card = s.parties
    rw [Finset.card_erase_of_mem hmem]
    omega
  · intro hpos
    have hempty := (h.fresh hpos).2.1
    rw [hempty] at hmem
    exact absurd hmem (Finset.notMem_empty w)
  · have hleavers : ({ s with
        availableBlocks := s.availableBlocks + 1, hands := s.hands.erase w }.setPhase w
          (outcome s.parties val)).leavers = s.leavers := by
      refine leavers_congr (s := s) rfl ?_
      intro w' hw'
      rw [hother w' (fun heq => hcounted (heq ▸ hw'))]
    rw [hleavers]
    exact h.messages
  · intro w' hw'
    rw [hother w' (fun heq => hcounted (heq ▸ hw'))]
    exact h.counted_phase w' hw'
  · intro w' hw'
    rw [hother w' (fun heq => howed (heq ▸ hw'))]
    exact h.owed_phase w' hw'
  · intro w'
    by_cases heq : w' = w
    · subst heq
      rw [hself]
      exact iff_of_false (Finset.notMem_erase _ _) (fun ⟨v, hv⟩ => hhold v hv)
    · rw [hother w' heq, ← h.hands_phase w']
      exact Finset.mem_erase.trans (and_iff_right heq)
  · intro w' hw'
    by_cases heq : w' = w
    · subst heq
      rw [hself, hout] at hw'
      exact absurd hw' Bool.false_ne_true
    · rw [hother w' heq] at hw'
      exact h.covered w' hw'

/-- A wait that is on its way out aborts and is over. -/
theorem Kept.abortAndRaise (h : s.Kept) (hphase : s.phase w = .aborting) :
    (s.pollAbort.setPhase w .raised).Kept := by
  refine h.pollAbort.setPhase_out ⟨?_, ?_, ?_⟩ rfl nofun
  · rw [h.pollAbort_counted]
    exact Finset.notMem_empty w
  · intro hw
    have hreg := h.pollAbort.owed_phase w hw
    rw [pollAbort_phase, hphase] at hreg
    exact absurd hreg Bool.false_ne_true
  · intro hw
    obtain ⟨val, hval⟩ := (h.pollAbort.hands_phase w).mp hw
    rw [pollAbort_phase, hphase] at hval
    nomatch hval

theorem Kept.pollTimeout (h : s.Kept) (hphase : s.phase w = .looping) :
    (({ s with
      barrierBroken := true
      doomed := s.doomed ∪ s.counted } : Barrier ω).releaseBarrierWaiters.setPhase w
        .raised).Kept := by
  have hreleased := h.releaseBarrierWaiters true (s.doomed ∪ s.counted)
  have hphase' : ({ s with
      barrierBroken := true
      doomed := s.doomed ∪ s.counted } : Barrier ω).releaseBarrierWaiters.phase w = .looping := by
    rw [releaseBarrierWaiters_phase]
    exact hphase
  refine hreleased.setPhase_out (hreleased.notMem_of_phase ?_ ?_ ?_) rfl nofun
  · rw [hphase']
    rfl
  · rw [hphase']
    nofun
  · rw [hphase']
    nofun

/-- **Step.**  Every step keeps the counters. -/
theorem Kept.exec (h : s.Kept) (step : Step ω) : (s.exec step).Kept := by
  cases step with
  | enter =>
    rw [Barrier.exec]
    split
    next hphase =>
      refine h.setPhase_out (h.notMem_of_phase ?_ ?_ ?_) rfl nofun
      · rw [hphase]
        rfl
      · rw [hphase]
        nofun
      · rw [hphase]
        nofun
    · exact h
  | pollWait =>
    rw [Barrier.exec]
    split
    next hphase => exact h.pollWait hphase
    · exact h
  | pollTimeout =>
    rw [Barrier.exec]
    split
    next hphase => exact h.pollTimeout hphase
    · exact h
  | tryAgain =>
    rw [Barrier.exec]
    split
    next hphase =>
      refine h.setPhase_out (h.notMem_of_phase ?_ ?_ ?_) rfl nofun
      · rw [hphase]
        rfl
      · rw [hphase]
        nofun
      · rw [hphase]
        nofun
    · exact h
  | actionReturns w =>
    rw [Barrier.exec]
    split
    next hphase =>
      have hkept := h.setRounds (fun hpos => (h.fresh hpos).2.2.2) s.round s.roundOf s.size
        (Function.update s.actionDone (s.roundOf w) true) s.doomed
      refine hkept.setPhase_registered ?_ rfl
      change (s.phase w).registered = true
      rw [hphase]
      rfl
    · exact h
  | actionRaises =>
    rw [Barrier.exec]
    split
    next hphase =>
      apply h.leave
      rw [hphase]
      rfl
    · exact h
  | pollRelease =>
    rw [Barrier.exec]
    split
    next hphase =>
      refine h.pollRelease.setPhase_registered ?_ rfl
      rw [pollRelease_phase, hphase]
      rfl
    · exact h
  | recv =>
    rw [Barrier.exec]
    split
    · exact h
    next val msgs hmsgs =>
      split
      next hphase => exact h.recv hphase hmsgs
      · exact h
  | recvTimeout =>
    rw [Barrier.exec]
    split
    next hphase =>
      apply h.leave
      rw [hphase]
      rfl
    · exact h
  | finish =>
    rw [Barrier.exec]
    split
    next val hphase => exact h.finish hphase
    · exact h
  | abortAndRaise =>
    rw [Barrier.exec]
    split
    next hphase => exact h.abortAndRaise hphase
    · exact h
  | abort => exact h.pollAbort
  | reset => exact h.pollReset

theorem kept_run (parties : ℕ) (steps : List (Step ω)) : (run parties steps).Kept :=
  List.foldlRecOn steps Barrier.exec (.init parties) fun _ h step _ => h.exec step

/-! ## The channel after a reset -/

/-- The channel is as it was made. -/
structure Initial (s : Barrier ω) : Prop where
  msgs : s.msgs = []
  blocks : s.availableBlocks = s.parties
  count : s.barrierCount = 0
  broken : s.barrierBroken = false

/-- No process is inside `wait`. -/
def AllOut (s : Barrier ω) : Prop := ∀ w, (s.phase w).out = true

omit [DecidableEq ω] in
theorem Kept.empty_of_allOut (h : s.Kept) (hout : s.AllOut) :
    s.counted = ∅ ∧ s.owed = ∅ ∧ s.hands = ∅ := by
  have hnone : ∀ w, w ∉ s.counted ∧ w ∉ s.owed ∧ w ∉ s.hands := by
    intro w
    obtain ⟨hreg, habort, hhold⟩ := BarrierPhase.not_registered_of_out (hout w)
    exact h.notMem_of_phase hreg habort hhold
  exact ⟨Finset.eq_empty_of_forall_notMem (fun w => (hnone w).1),
    Finset.eq_empty_of_forall_notMem (fun w => (hnone w).2.1),
    Finset.eq_empty_of_forall_notMem (fun w => (hnone w).2.2)⟩

omit [DecidableEq ω] in
/-- Once all are out, there is one message in the channel for each wait that left after it had
registered. -/
theorem Kept.initial_iff (h : s.Kept) (hout : s.AllOut) :
    s.Initial ↔ s.left = 0 ∧ s.barrierBroken = false := by
  obtain ⟨hcounted, howed, hhands⟩ := h.empty_of_allOut hout
  have hcount : s.barrierCount = 0 := by
    rw [h.count, hcounted, Finset.card_empty]
  have hblocks := h.blocks
  have hmessages := h.messages
  rw [hhands, Finset.card_empty] at hblocks
  rw [leavers, hcounted, howed, Finset.filter_empty, Finset.card_empty] at hmessages
  constructor
  · intro hinitial
    rw [hinitial.msgs, List.length_nil] at hmessages
    exact ⟨by omega, hinitial.broken⟩
  · rintro ⟨hleft, hbroken⟩
    have hnil : s.msgs = [] := List.eq_nil_of_length_eq_zero (by omega)
    rw [hnil, List.length_nil] at hblocks
    exact ⟨hnil, by omega, hcount, hbroken⟩

/-- The step is not that of a registered wait that leaves: by a timeout of its receive, or by an
exception of the action. -/
def Stays (s : Barrier ω) : Step ω → Prop
  | .recvTimeout w => s.phase w ≠ .waiting
  | .actionRaises w => s.phase w ≠ .acting
  | _ => True

/-- The step breaks the barrier. -/
def Breaks (s : Barrier ω) : Step ω → Prop
  | .pollTimeout w => s.phase w = .looping
  | .abortAndRaise w => s.phase w = .aborting
  | .abort => True
  | _ => False

theorem releaseBarrierWaiters_fields (s : Barrier ω) :
    s.releaseBarrierWaiters.parties = s.parties ∧ s.releaseBarrierWaiters.left = s.left ∧
      s.releaseBarrierWaiters.barrierBroken = s.barrierBroken := by
  rw [releaseBarrierWaiters]
  split
  · exact ⟨rfl, rfl, rfl⟩
  · exact ⟨rfl, rfl, rfl⟩

theorem pollAbort_fields (s : Barrier ω) :
    s.pollAbort.parties = s.parties ∧ s.pollAbort.left = s.left ∧
      s.pollAbort.barrierBroken = true := by
  rw [pollAbort]
  split
  next hbroken => exact ⟨rfl, rfl, hbroken⟩
  · exact releaseBarrierWaiters_fields _

/-- What a step does to the parties, to the waits that left and to the flag, which only a reset
takes back. -/
theorem exec_fields (s : Barrier ω) (step : Step ω) :
    (s.exec step).parties = s.parties ∧ (s.Stays step → (s.exec step).left = s.left) ∧
      (step ≠ .reset →
        ((s.exec step).barrierBroken = true ↔ s.barrierBroken = true ∨ s.Breaks step)) := by
  have hsame : ∀ {s' : Barrier ω}, s'.parties = s.parties ∧ s'.left = s.left ∧
      s'.barrierBroken = s.barrierBroken → ¬ s.Breaks step →
      s'.parties = s.parties ∧ (s.Stays step → s'.left = s.left) ∧ (step ≠ .reset →
        (s'.barrierBroken = true ↔ s.barrierBroken = true ∨ s.Breaks step)) := by
    rintro s' ⟨hparties, hleft, hbroken⟩ hnot
    refine ⟨hparties, fun _ => hleft, fun _ => ?_⟩
    rw [hbroken, or_iff_left hnot]
  have hbreaks : ∀ {s' : Barrier ω}, s'.parties = s.parties ∧ s'.left = s.left ∧
      s'.barrierBroken = true → s.Breaks step →
      s'.parties = s.parties ∧ (s.Stays step → s'.left = s.left) ∧ (step ≠ .reset →
        (s'.barrierBroken = true ↔ s.barrierBroken = true ∨ s.Breaks step)) := by
    rintro s' ⟨hparties, hleft, hbroken⟩ h
    exact ⟨hparties, fun _ => hleft, fun _ => iff_of_true hbroken (.inr h)⟩
  cases step with
  | enter | tryAgain | actionReturns | finish =>
    rw [exec]
    split <;> exact hsame ⟨rfl, rfl, rfl⟩ id
  | pollWait =>
    rw [exec, pollWait]
    split
    · split
      · exact hsame ⟨rfl, rfl, rfl⟩ id
      · split
        · exact hsame ⟨rfl, rfl, rfl⟩ id
        · split <;> exact hsame ⟨rfl, rfl, rfl⟩ id
    · exact hsame ⟨rfl, rfl, rfl⟩ id
  | pollTimeout =>
    rw [exec]
    split
    next hphase => exact hbreaks (releaseBarrierWaiters_fields _) hphase
    next hphase => exact hsame ⟨rfl, rfl, rfl⟩ hphase
  | actionRaises | recvTimeout =>
    rw [exec]
    split
    next hphase => exact ⟨rfl, fun hstays => absurd hphase hstays, fun _ => (or_iff_left id).symm⟩
    · exact hsame ⟨rfl, rfl, rfl⟩ id
  | pollRelease =>
    rw [exec]
    split
    · refine hsame ?_ id
      change s.pollRelease.parties = s.parties ∧ s.pollRelease.left = s.left ∧
        s.pollRelease.barrierBroken = s.barrierBroken
      rw [pollRelease]
      split
      · exact ⟨rfl, rfl, rfl⟩
      · exact releaseBarrierWaiters_fields s
    · exact hsame ⟨rfl, rfl, rfl⟩ id
  | recv =>
    rw [exec]
    split
    · exact hsame ⟨rfl, rfl, rfl⟩ id
    · split <;> exact hsame ⟨rfl, rfl, rfl⟩ id
  | abortAndRaise =>
    rw [exec]
    split
    next hphase => exact hbreaks (pollAbort_fields s) hphase
    next hphase => exact hsame ⟨rfl, rfl, rfl⟩ hphase
  | abort => exact hbreaks (pollAbort_fields s) trivial
  | reset =>
    have hfields := releaseBarrierWaiters_fields
      ({ s with doomed := s.doomed ∪ s.counted } : Barrier ω)
    exact ⟨hfields.1, fun _ => hfields.2.1, fun hstep => absurd rfl hstep⟩

theorem exec_left_of_not_stays {step : Step ω} (hstep : ¬ s.Stays step) :
    (s.exec step).left = s.left + 1 := by
  cases step with
  | actionRaises => rw [exec, if_pos (not_not.mp hstep)]; rfl
  | recvTimeout => rw [exec, if_pos (not_not.mp hstep)]; rfl
  | _ => exact absurd trivial hstep

theorem left_le_foldl (s : Barrier ω) (steps : List (Step ω)) :
    s.left ≤ (steps.foldl Barrier.exec s).left := by
  induction steps generalizing s with
  | nil => exact Nat.le_refl _
  | cons step steps ih =>
    refine Nat.le_trans ?_ (ih (s.exec step))
    by_cases hstep : s.Stays step
    · rw [(s.exec_fields step).2.1 hstep]
    · rw [exec_left_of_not_stays hstep]
      exact Nat.le_succ _

/-- No wait has left exactly when every step stays. -/
theorem foldl_left_eq_iff (s : Barrier ω) (steps : List (Step ω)) :
    (steps.foldl Barrier.exec s).left = s.left ↔ Runs.Legal Barrier.exec Stays s steps := by
  induction steps generalizing s with
  | nil => exact iff_of_true rfl trivial
  | cons step steps ih =>
    rw [Runs.legal_cons, List.foldl_cons]
    by_cases hstep : s.Stays step
    · rw [← ih (s.exec step), (s.exec_fields step).2.1 hstep, and_iff_right hstep]
    · have hle := left_le_foldl (s.exec step) steps
      rw [exec_left_of_not_stays hstep] at hle
      exact iff_of_false (by omega) (fun hlegal => hstep hlegal.1)

theorem foldl_broken_iff (s : Barrier ω) {steps : List (Step ω)} (hsteps : .reset ∉ steps) :
    (steps.foldl Barrier.exec s).barrierBroken = false ↔
      s.barrierBroken = false ∧
        Runs.Legal Barrier.exec (fun s step => ¬ s.Breaks step) s steps := by
  induction steps generalizing s with
  | nil => exact (and_iff_left trivial).symm
  | cons step steps ih =>
    have hne : step ≠ .reset := fun heq => hsteps (heq ▸ List.mem_cons_self)
    rw [Runs.legal_cons, List.foldl_cons, ih _ fun hmem => hsteps (List.mem_cons_of_mem _ hmem),
      ← Bool.not_eq_true, (s.exec_fields step).2.2 hne, not_or, Bool.not_eq_true, and_assoc]

/-! ## Waits from the initial state -/

/-- The next step of a wait that neither times out nor has an action that raises. -/
inductive Proceeds (s : Barrier ω) (ws : Finset ω) : Step ω → Prop where
  | enter {w : ω} (hw : w ∈ ws) (h : s.phase w = .idle) : Proceeds s ws (.enter w)
  | pollWait {w : ω} (hw : w ∈ ws) (h : s.phase w = .polling ∨ s.phase w = .looping) :
      Proceeds s ws (.pollWait w)
  | actionReturns {w : ω} (hw : w ∈ ws) (h : s.phase w = .acting) :
      Proceeds s ws (.actionReturns w)
  | pollRelease {w : ω} (hw : w ∈ ws) (h : s.phase w = .acted) : Proceeds s ws (.pollRelease w)
  | recv {w : ω} (hw : w ∈ ws) (h : s.phase w = .waiting) (hmsgs : s.msgs ≠ []) :
      Proceeds s ws (.recv w)
  | finish {w : ω} {val : Option ℕ} (hw : w ∈ ws) (h : s.phase w = .holding val) :
      Proceeds s ws (.finish w)

/-- The waits complete in whatever order they proceed: after at most six steps each there is no
next step, and there is one as long as not all have returned a value. -/
def Completes (s : Barrier ω) (ws : Finset ω) : Prop :=
  ∀ steps, Runs.Legal Barrier.exec (fun s => s.Proceeds ws) s steps →
    steps.length ≤ 6 * ws.card ∧
      ((∀ w ∈ ws, ∃ val < ws.card, (steps.foldl Barrier.exec s).phase w = .returned val) ∨
        ∃ step, (steps.foldl Barrier.exec s).Proceeds ws step)

/-- The waits register, and the last one is told that the barrier is ready. -/
structure Gathering (s : Barrier ω) (ws : Finset ω) : Prop where
  card : ws.card = s.parties
  msgs : s.msgs = []
  blocks : s.availableBlocks = s.parties
  broken : s.barrierBroken = false
  count : s.barrierCount = ∑ w ∈ ws, (s.phase w).registered.toNat
  phases : ∀ w ∈ ws, s.phase w = .idle ∨ s.phase w = .polling ∨ (s.phase w).registered
  full : ∀ w ∈ ws, s.barrierCount = s.parties →
    ∃ last ∈ ws, s.phase last = .acting ∨ s.phase last = .acted
  last : ∀ w ∈ ws, s.phase w = .acting ∨ s.phase w = .acted →
    s.barrierCount = s.parties ∧ ∀ w' ∈ ws, w' ≠ w → s.phase w' = .waiting

/-- The waits are released, and there is a message for each that has not received one. -/
structure Released (s : Barrier ω) (ws : Finset ω) : Prop where
  card : ws.card = s.parties
  vals : ∀ msg ∈ s.msgs, ∃ val < ws.card, msg = some val
  length : s.msgs.length = ∑ w ∈ ws, (if s.phase w = .waiting then 1 else 0)
  phases : ∀ w ∈ ws, s.phase w = .waiting ∨
    ∃ val < ws.card, s.phase w = .holding (some val) ∨ s.phase w = .returned val

theorem sum_update (f : BarrierPhase → ℕ) (hw : w ∈ ws) (phase : ω → BarrierPhase)
    (next : BarrierPhase) :
    ∑ w' ∈ ws, f (Function.update phase w next w') + f (phase w) =
      ∑ w' ∈ ws, f (phase w') + f next := by
  have hold := Finset.add_sum_erase ws (fun w' => f (phase w')) hw
  have hnew := Finset.add_sum_erase ws (fun w' => f (Function.update phase w next w')) hw
  have hrest : ∑ w' ∈ ws.erase w, f (Function.update phase w next w') =
      ∑ w' ∈ ws.erase w, f (phase w') := by
    refine Finset.sum_congr rfl fun w' hw' => ?_
    rw [Function.update_of_ne (Finset.ne_of_mem_erase hw')]
  simp only [Function.update_self] at hnew
  omega

theorem registered_of_card_le {phase : ω → BarrierPhase}
    (hcard : ws.card ≤ ∑ w ∈ ws, (phase w).registered.toNat) (hw : w ∈ ws) :
    (phase w).registered = true := by
  by_contra hnot
  have hsum : ∑ w' ∈ ws, (Function.update phase w .waiting w').registered.toNat +
      (phase w).registered.toNat = ∑ w' ∈ ws, (phase w').registered.toNat + 1 :=
    sum_update (fun phase => phase.registered.toNat) hw phase .waiting
  have hle : ∑ w' ∈ ws, (Function.update phase w .waiting w').registered.toNat ≤ ws.card := by
    have := Finset.sum_le_card_nsmul ws
      (fun w' => (Function.update phase w .waiting w').registered.toNat) 1 fun _ _ => Bool.toNat_le _
    rwa [smul_eq_mul, mul_one] at this
  rw [Bool.eq_false_iff.mpr hnot, Bool.toNat_false] at hsum
  omega

namespace Gathering

variable {s : Barrier ω} {ws : Finset ω} {w : ω}

theorem enter (h : s.Gathering ws) (hw : w ∈ ws) (hphase : s.phase w = .idle) :
    (s.setPhase w .polling).Gathering ws := by
  have hsum := sum_update (fun phase => phase.registered.toNat) hw s.phase .polling
  have hother : ∀ w', s.phase w' = .acting ∨ s.phase w' = .acted → w' ≠ w := by
    rintro w' hw' rfl
    rw [hphase] at hw'
    rcases hw' with hw' | hw' <;> cases hw'
  refine ⟨h.card, h.msgs, h.blocks, h.broken, ?_, ?_, ?_, ?_⟩
  · rw [hphase] at hsum
    exact h.count.trans hsum.symm
  · intro w' hw'
    by_cases heq : w' = w
    · rw [heq, setPhase_phase_self]
      exact .inr (.inl rfl)
    · rw [setPhase_phase_of_ne _ heq]
      exact h.phases w' hw'
  · intro w' hw' hfull
    obtain ⟨last, hlast, hacting⟩ := h.full w' hw' hfull
    refine ⟨last, hlast, ?_⟩
    rw [setPhase_phase_of_ne _ (hother last hacting)]
    exact hacting
  · intro w' hw' hacting
    by_cases heq : w' = w
    · rw [heq, setPhase_phase_self] at hacting
      rcases hacting with hacting | hacting <;> cases hacting
    · rw [setPhase_phase_of_ne _ heq] at hacting
      have hwait := (h.last w' hw' hacting).2 w hw (Ne.symm heq)
      rw [hphase] at hwait
      cases hwait

theorem registers (h : s.Gathering ws) (hw : w ∈ ws) (hphase : s.phase w = .polling) :
    s.pollWait w = s.register w ∧ (s.register w).Gathering ws := by
  have hroom : s.barrierCount < s.parties := by
    rw [h.count, ← h.card]
    by_contra hle
    have hreg := registered_of_card_le (Nat.not_lt.mp hle) hw
    rw [hphase] at hreg
    cases hreg
  have hbroken : ¬ s.barrierBroken = true := Bool.eq_false_iff.mp h.broken
  have hother : ∀ w', w' ≠ w → (s.register w).phase w' = s.phase w' :=
    fun w' hne => Function.update_of_ne hne _ _
  have hself : (s.register w).phase w =
      if s.barrierCount + 1 = s.parties then .acting else .waiting := Function.update_self _ _ _
  have hreg : ((s.register w).phase w).registered = true := by
    rw [hself]
    split
    · rfl
    · rfl
  have hidle : ∀ w' ∈ ws, ¬ (s.phase w' = .acting ∨ s.phase w' = .acted) :=
    fun w' hw' hacting => absurd (h.last w' hw' hacting).1 hroom.ne
  have hsum := sum_update (fun phase => phase.registered.toNat) hw s.phase
    (if s.barrierCount + 1 = s.parties then .acting else .waiting)
  rw [← hself, hreg, hphase, ← h.count] at hsum
  have hcount : s.barrierCount + 1 = ∑ w' ∈ ws, ((s.register w).phase w').registered.toNat := by
    rw [hself] at hsum
    exact hsum.symm
  constructor
  · rw [Barrier.pollWait, if_neg fun hand => hbroken hand.2, if_neg, if_neg hbroken]
    rw [not_or, not_not]
    exact ⟨h.blocks, hroom.ne⟩
  · refine ⟨h.card, h.msgs, h.blocks, h.broken, hcount, ?_, ?_, ?_⟩
    · intro w' hw'
      by_cases heq : w' = w
      · subst heq
        exact .inr (.inr hreg)
      · rw [hother w' heq]
        exact h.phases w' hw'
    · intro _ _ hfull
      have hacting : (s.register w).phase w = .acting := by
        rw [hself]
        exact if_pos hfull
      exact ⟨w, hw, .inl hacting⟩
    · intro w' hw' hacting
      by_cases heq : w' = w
      · subst heq
        have hfull : s.barrierCount + 1 = s.parties := by
          by_contra hne
          rw [hself, if_neg hne] at hacting
          rcases hacting with hacting | hacting <;> cases hacting
        refine ⟨hfull, fun w'' hw'' hne => ?_⟩
        have hall := registered_of_card_le (hcount.symm.trans hfull |>.trans h.card.symm).ge hw''
        rw [hother w'' hne] at hall ⊢
        have hnot := hidle w'' hw''
        cases hphase' : s.phase w'' with
        | waiting => rfl
        | acting => exact absurd (.inl hphase') hnot
        | acted => exact absurd (.inr hphase') hnot
        | _ => rw [hphase'] at hall; cases hall
      · rw [hother w' heq] at hacting
        exact absurd hacting (hidle w' hw')

theorem actionReturns (h : s.Gathering ws) (hw : w ∈ ws) (hphase : s.phase w = .acting)
    (actionDone : ℕ → Bool) : ({ s with actionDone := actionDone }.setPhase w .acted).Gathering ws := by
  obtain ⟨hfull, hwaiting⟩ := h.last w hw (.inl hphase)
  have hsum := sum_update (fun phase => phase.registered.toNat) hw s.phase .acted
  have hother : ∀ w', w' ≠ w → ({ s with actionDone := actionDone }.setPhase w .acted).phase w' =
      s.phase w' := fun w' hne => Function.update_of_ne hne _ _
  have hself : ({ s with actionDone := actionDone }.setPhase w .acted).phase w = .acted :=
    Function.update_self _ _ _
  refine ⟨h.card, h.msgs, h.blocks, h.broken, ?_, ?_, ?_, ?_⟩
  · rw [hphase] at hsum
    exact h.count.trans (Nat.add_right_cancel hsum).symm
  · intro w' hw'
    by_cases heq : w' = w
    · rw [heq, hself]
      exact .inr (.inr rfl)
    · rw [hother w' heq]
      exact h.phases w' hw'
  · exact fun _ _ _ => ⟨w, hw, .inr hself⟩
  · intro w' hw' hacting
    by_cases heq : w' = w
    · subst heq
      refine ⟨hfull, fun w'' hw'' hne => ?_⟩
      rw [hother w'' hne]
      exact hwaiting w'' hw'' hne
    · rw [hother w' heq, hwaiting w' hw' heq] at hacting
      rcases hacting with hacting | hacting <;> cases hacting

/-- The last wait releases all. -/
theorem pollRelease (h : s.Gathering ws) (hw : w ∈ ws) (hphase : s.phase w = .acted) :
    (s.pollRelease.setPhase w .waiting).Released ws := by
  obtain ⟨hfull, hwaiting⟩ := h.last w hw (.inr hphase)
  have hbroken : ¬ s.barrierBroken = true := Bool.eq_false_iff.mp h.broken
  have hphases : ∀ w' ∈ ws, (s.pollRelease.setPhase w .waiting).phase w' = .waiting := by
    intro w' hw'
    by_cases heq : w' = w
    · rw [heq, setPhase_phase_self]
    · rw [setPhase_phase_of_ne _ heq, pollRelease_phase]
      exact hwaiting w' hw' heq
  have hmsgs : s.pollRelease.msgs = (List.range ws.card).map some := by
    rw [Barrier.pollRelease, if_neg hbroken, releaseBarrierWaiters, if_neg fun hand => hbroken hand.1]
    change s.msgs ++ s.releaseValues = _
    rw [h.msgs, List.nil_append, releaseValues, if_neg, hfull, h.card]
    rw [not_or]
    exact ⟨hbroken, hfull.ge.not_gt⟩
  refine ⟨?_, ?_, ?_, fun w' hw' => .inl (hphases w' hw')⟩
  · change ws.card = s.pollRelease.parties
    rw [Barrier.pollRelease, if_neg hbroken, releaseBarrierWaiters, if_neg fun hand => hbroken hand.1]
    exact h.card
  · intro msg hmsg
    change msg ∈ s.pollRelease.msgs at hmsg
    rw [hmsgs] at hmsg
    obtain ⟨val, hval, rfl⟩ := List.mem_map.mp hmsg
    exact ⟨val, List.mem_range.mp hval, rfl⟩
  · change s.pollRelease.msgs.length = _
    rw [hmsgs, List.length_map, List.length_range, Finset.card_eq_sum_ones]
    exact Finset.sum_congr rfl fun w' hw' => (if_pos (hphases w' hw')).symm

end Gathering

namespace Released

variable {s : Barrier ω} {ws : Finset ω} {w : ω}

theorem recv (h : s.Released ws) (hw : w ∈ ws) (hphase : s.phase w = .waiting) {msg : Option ℕ}
    {msgs : List (Option ℕ)} (hmsgs : s.msgs = msg :: msgs) (owed hands : Finset ω) :
    ({ s with msgs := msgs, owed := owed, hands := hands }.setPhase w (.holding msg)).Released ws := by
  have hvals := h.vals
  have hlength := h.length
  rw [hmsgs] at hvals hlength
  obtain ⟨val, hval, rfl⟩ := hvals msg List.mem_cons_self
  have hsum := sum_update (fun phase => if phase = .waiting then 1 else 0) hw s.phase
    (.holding (some val))
  simp only [hphase, if_true, reduceCtorEq, if_false, List.length_cons] at hsum hlength
  refine ⟨h.card, fun msg hmsg => hvals msg (List.mem_cons_of_mem _ hmsg), ?_, ?_⟩
  · change msgs.length = ∑ w' ∈ ws,
      (if Function.update s.phase w (.holding (some val)) w' = .waiting then 1 else 0)
    omega
  · intro w' hw'
    by_cases heq : w' = w
    · rw [heq, setPhase_phase_self]
      exact .inr ⟨val, hval, .inl rfl⟩
    · rw [setPhase_phase_of_ne _ heq]
      exact h.phases w' hw'

theorem finish (h : s.Released ws) (hw : w ∈ ws) {msg : Option ℕ} (hphase : s.phase w = .holding msg)
    (availableBlocks : ℕ) (hands : Finset ω) :
    ({ s with availableBlocks := availableBlocks, hands := hands }.setPhase w
      (outcome s.parties msg)).Released ws := by
  obtain ⟨val, hval, rfl⟩ : ∃ val < ws.card, msg = some val := by
    rcases h.phases w hw with hwait | ⟨val, hval, hhold | hret⟩
    · cases hphase.symm.trans hwait
    · exact ⟨val, hval, BarrierPhase.holding.inj (hphase.symm.trans hhold)⟩
    · cases hphase.symm.trans hret
  have houtcome : outcome s.parties (some val) = .returned val := if_pos (h.card ▸ hval)
  have hsum := sum_update (fun phase => if phase = .waiting then 1 else 0) hw s.phase (.returned val)
  simp only [hphase, reduceCtorEq, if_false, Nat.add_zero] at hsum
  rw [houtcome]
  refine ⟨h.card, h.vals, h.length.trans hsum.symm, ?_⟩
  intro w' hw'
  by_cases heq : w' = w
  · rw [heq, setPhase_phase_self]
    exact .inr ⟨val, hval, .inr rfl⟩
  · rw [setPhase_phase_of_ne _ heq]
    exact h.phases w' hw'

end Released

/-- The waits have fewer steps before them when one of them has moved on. -/
theorem sum_ahead_lt {s' : Barrier ω} (hw : w ∈ ws) {next : BarrierPhase}
    (hphase : s'.phase = Function.update s.phase w next) (hnext : next.ahead < (s.phase w).ahead) :
    ∑ w ∈ ws, (s'.phase w).ahead < ∑ w ∈ ws, (s.phase w).ahead := by
  have hsum := sum_update BarrierPhase.ahead hw s.phase next
  rw [hphase]
  omega

theorem outcome_ahead (parties : ℕ) (val : Option ℕ) : (outcome parties val).ahead = 0 := by
  cases val with
  | none => rfl
  | some val =>
    rw [outcome]
    split
    · rfl
    · rfl

/-- A step of one of the waits. -/
theorem Proceeds.exec (h : s.Gathering ws ∨ s.Released ws) {step : Step ω}
    (hstep : s.Proceeds ws step) :
    ((s.exec step).Gathering ws ∨ (s.exec step).Released ws) ∧
      ∑ w ∈ ws, ((s.exec step).phase w).ahead < ∑ w ∈ ws, (s.phase w).ahead := by
  -- a wait that has not received its message is released exactly when it waits
  have hgathering : ∀ w ∈ ws, s.phase w = .idle ∨ s.phase w = .polling ∨ s.phase w = .looping ∨
      s.phase w = .acting ∨ s.phase w = .acted → s.Gathering ws := by
    intro w hw hphase
    refine h.resolve_right fun h => ?_
    rcases h.phases w hw with hwait | ⟨val, -, hhold | hret⟩
    · simp [hwait] at hphase
    · simp [hhold] at hphase
    · simp [hret] at hphase
  cases hstep with
  | @enter w hw hphase =>
    have hexec : s.exec (.enter w) = s.setPhase w .polling := if_pos hphase
    rw [hexec]
    refine ⟨.inl ((hgathering w hw (.inl hphase)).enter hw hphase), sum_ahead_lt hw rfl ?_⟩
    rw [hphase]
    decide
  | @pollWait w hw hphase =>
    have hgather := hgathering w hw (.inr (hphase.imp_right .inl))
    have hpolling : s.phase w = .polling := by
      refine hphase.resolve_right fun hlooping => ?_
      rcases hgather.phases w hw with hidle | hpolling | hreg
      · cases hlooping.symm.trans hidle
      · cases hlooping.symm.trans hpolling
      · rw [hlooping] at hreg
        cases hreg
    obtain ⟨hregister, hnext⟩ := hgather.registers hw hpolling
    have hexec : s.exec (.pollWait w) = s.register w := (if_pos hphase).trans hregister
    rw [hexec]
    refine ⟨.inl hnext, sum_ahead_lt hw rfl ?_⟩
    rw [hpolling]
    split
    · decide
    · decide
  | @actionReturns w hw hphase =>
    have hgather := hgathering w hw (.inr (.inr (.inr (.inl hphase))))
    have hexec : s.exec (.actionReturns w) = { s with
        actionDone := Function.update s.actionDone (s.roundOf w) true }.setPhase w .acted :=
      if_pos hphase
    rw [hexec]
    refine ⟨.inl (hgather.actionReturns hw hphase _), sum_ahead_lt hw rfl ?_⟩
    rw [hphase]
    decide
  | @pollRelease w hw hphase =>
    have hgather := hgathering w hw (.inr (.inr (.inr (.inr hphase))))
    have hexec : s.exec (.pollRelease w) = s.pollRelease.setPhase w .waiting := if_pos hphase
    rw [hexec]
    have hmoved : (s.pollRelease.setPhase w .waiting).phase = Function.update s.phase w .waiting := by
      change Function.update s.pollRelease.phase w .waiting = _
      rw [pollRelease_phase]
    refine ⟨.inr (hgather.pollRelease hw hphase), sum_ahead_lt hw hmoved ?_⟩
    rw [hphase]
    decide
  | @recv w hw hphase hmsgs =>
    have hreleased := h.resolve_left fun h => hmsgs h.msgs
    obtain ⟨msg, msgs, heq⟩ := List.exists_cons_of_ne_nil hmsgs
    have hexec : s.exec (.recv w) = { s with
        msgs := msgs, owed := s.owed.erase w, hands := insert w s.hands }.setPhase w
          (.holding msg) := by
      rw [Barrier.exec, heq]
      exact if_pos hphase
    rw [hexec]
    refine ⟨.inr (hreleased.recv hw hphase heq _ _), sum_ahead_lt hw rfl ?_⟩
    rw [hphase]
    exact Nat.one_lt_two
  | @finish w val hw hphase =>
    have hreleased : s.Released ws := by
      refine h.resolve_left fun h => ?_
      rcases h.phases w hw with hidle | hpolling | hreg
      · cases hphase.symm.trans hidle
      · cases hphase.symm.trans hpolling
      · rw [hphase] at hreg
        cases hreg
    have hexec : s.exec (.finish w) = { s with
        availableBlocks := s.availableBlocks + 1, hands := s.hands.erase w }.setPhase w
          (outcome s.parties val) := by
      rw [Barrier.exec, hphase]
    rw [hexec]
    refine ⟨.inr (hreleased.finish hw hphase _ _), sum_ahead_lt hw rfl ?_⟩
    rw [hphase, outcome_ahead]
    exact Nat.one_pos

omit [DecidableEq ω] in
/-- As long as not all have returned, one of them has a next step. -/
theorem exists_proceeds (h : s.Gathering ws ∨ s.Released ws) :
    (∀ w ∈ ws, ∃ val < ws.card, s.phase w = .returned val) ∨ ∃ step, s.Proceeds ws step := by
  by_contra hstuck
  rw [not_or, not_exists] at hstuck
  obtain ⟨hnot, hnone⟩ := hstuck
  apply hnot
  intro w hw
  rcases h with h | h
  · -- all of them wait, so that the last one has still to release them
    have hwaiting : ∀ w ∈ ws, s.phase w = .waiting := by
      intro w hw
      rcases h.phases w hw with hidle | hpolling | hreg
      · exact absurd (.enter hw hidle) (hnone _)
      · exact absurd (.pollWait hw (.inl hpolling)) (hnone _)
      · cases hphase : s.phase w with
        | waiting => rfl
        | acting => exact absurd (.actionReturns hw hphase) (hnone _)
        | acted => exact absurd (.pollRelease hw hphase) (hnone _)
        | _ => rw [hphase] at hreg; cases hreg
    have hfull : s.barrierCount = s.parties := by
      rw [h.count, ← h.card, Finset.card_eq_sum_ones]
      refine Finset.sum_congr rfl fun w hw => ?_
      rw [hwaiting w hw]
      rfl
    obtain ⟨last, hlast, hacting⟩ := h.full w hw hfull
    rw [hwaiting last hlast] at hacting
    rcases hacting with hacting | hacting <;> cases hacting
  · rcases h.phases w hw with hwait | ⟨val, hval, hhold | hret⟩
    · have hmsgs : s.msgs ≠ [] := by
        intro hnil
        have hlength := h.length
        rw [hnil, List.length_nil, eq_comm, Finset.sum_eq_zero_iff] at hlength
        exact absurd (hlength w hw) (by rw [if_pos hwait]; exact one_ne_zero)
      exact absurd (.recv hw hwait hmsgs) (hnone _)
    · exact absurd (.finish hw hhold) (hnone _)
    · exact ⟨val, hval, hret⟩

theorem Initial.completes (h : s.Initial) (hcard : ws.card = s.parties)
    (hidle : ∀ w ∈ ws, s.phase w = .idle) : s.Completes ws := by
  have hstart : s.Gathering ws := by
    refine ⟨hcard, h.msgs, h.blocks, h.broken, ?_, fun w hw => .inl (hidle w hw), ?_, ?_⟩
    · rw [h.count, eq_comm]
      refine Finset.sum_eq_zero fun w hw => ?_
      rw [hidle w hw]
      rfl
    · intro w hw hfull
      rw [← hcard, h.count] at hfull
      exact absurd hfull.symm (Finset.card_ne_zero_of_mem hw)
    · intro w hw hacting
      rw [hidle w hw] at hacting
      rcases hacting with hacting | hacting <;> cases hacting
  have hahead : ∑ w ∈ ws, (s.phase w).ahead = 6 * ws.card := by
    rw [Finset.sum_congr rfl fun w hw => congrArg BarrierPhase.ahead (hidle w hw),
      Finset.sum_const, smul_eq_mul, mul_comm]
    rfl
  have hrun : ∀ (steps : List (Step ω)) (s : Barrier ω), s.Gathering ws ∨ s.Released ws →
      Runs.Legal Barrier.exec (fun s => s.Proceeds ws) s steps →
      ((steps.foldl Barrier.exec s).Gathering ws ∨ (steps.foldl Barrier.exec s).Released ws) ∧
        steps.length ≤ ∑ w ∈ ws, (s.phase w).ahead := by
    intro steps
    induction steps with
    | nil => exact fun s h _ => ⟨h, Nat.zero_le _⟩
    | cons step steps ih =>
      intro s h hlegal
      obtain ⟨hnext, hlt⟩ := hlegal.1.exec h
      obtain ⟨hend, hlength⟩ := ih _ hnext hlegal.2
      refine ⟨hend, ?_⟩
      rw [List.length_cons]
      omega
  intro steps hsteps
  obtain ⟨hend, hlength⟩ := hrun steps s (.inl hstart) hsteps
  exact ⟨hahead ▸ hlength, exists_proceeds hend⟩

theorem run_parties (parties : ℕ) (steps : List (Step ω)) : (run parties steps).parties = parties :=
  List.foldlRecOn (motive := fun s => s.parties = parties) steps Barrier.exec rfl
    fun s h step _ => (s.exec_fields step).1.trans h

/-- **The barrier after a reset.**  After every run with a final reset, and after which no process
is inside `wait`, the channel is in its initial state exactly when no wait of the run has left after
it had registered and nothing has broken the barrier since the reset; and from that state `n`
further waits complete. -/
theorem reset_initial_iff (parties : ℕ) (before after : List (Step ω)) (hfinal : .reset ∉ after)
    (hout : (run parties (before ++ .reset :: after)).AllOut) :
    ((run parties (before ++ .reset :: after)).Initial ↔
        Runs.Legal Barrier.exec Stays (init parties) (before ++ .reset :: after) ∧
          Runs.Legal Barrier.exec (fun s step => ¬ s.Breaks step) (run parties (before ++ [.reset]))
            after) ∧
      ((run parties (before ++ .reset :: after)).Initial → ∀ ws : Finset ω, ws.card = parties →
        (∀ w ∈ ws, (run parties (before ++ .reset :: after)).phase w = .idle) →
        (run parties (before ++ .reset :: after)).Completes ws) := by
  have hafter : run parties (before ++ .reset :: after) =
      after.foldl Barrier.exec (run parties (before ++ [.reset]) : Barrier ω) := by
    simp only [run, List.foldl_append, List.foldl_cons, List.foldl_nil]
  have hreset : (run parties (before ++ [.reset]) : Barrier ω).barrierBroken = false := by
    simp only [run, List.foldl_append, List.foldl_cons, List.foldl_nil]
    rfl
  constructor
  · rw [(kept_run parties _).initial_iff hout, ← foldl_left_eq_iff]
    refine and_congr Iff.rfl ?_
    rw [hafter, foldl_broken_iff _ hfinal, and_iff_right hreset]
  · intro hinitial ws hcard hidle
    exact hinitial.completes (hcard.trans (run_parties parties _).symm) hidle

/-- The waits `ws` and then `last` register, the action is run, the waiters are released, and all
receive their messages. -/
def roundSteps (ws : List ω) (last : ω) : List (Step ω) :=
  (ws ++ [last]).flatMap (fun w => [Step.enter w, Step.pollWait w]) ++
    ([Step.actionReturns last, Step.pollRelease last] ++
      (ws ++ [last]).flatMap (fun w => [Step.recv w, Step.finish w]))

/-- The barrier is reset while a wait is in its receive, which then raises; two more complete. -/
theorem reset_initial_iff_two_waits :
    (run 2 ([.enter 0, .pollWait 0] ++ .reset :: [.recv 0, .finish 0]) : Barrier (Fin 3)).Initial ∧
      (run 2 ([.enter 0, .pollWait 0] ++ .reset :: [.recv 0, .finish 0]) :
        Barrier (Fin 3)).Completes {1, 2} := by
  have hout : (run 2 ([.enter 0, .pollWait 0] ++ .reset :: [.recv 0, .finish 0]) :
      Barrier (Fin 3)).AllOut := by
    show ∀ w, ((run 2 ([.enter 0, .pollWait 0] ++ .reset :: [.recv 0, .finish 0]) :
      Barrier (Fin 3)).phase w).out = true
    decide
  obtain ⟨hiff, hcompletes⟩ := reset_initial_iff 2 _ _ (by simp) hout
  have hinitial := hiff.mpr (by
    simp only [List.cons_append, List.nil_append, Runs.legal_cons, Runs.legal_nil, Stays, Breaks,
      not_false_eq_true, and_self])
  exact ⟨hinitial, hcompletes hinitial {1, 2} rfl (by decide)⟩

/-- A wait that times out leaves its message in the channel.  After the reset the channel has one
block less, and no further wait can register. -/
theorem not_initial_after_timeout :
    (∀ w, ((run 2 [.enter false, .pollWait false, .recvTimeout false, .abortAndRaise false, .reset] :
        Barrier Bool).phase w).out = true) ∧
      (run 2 [.enter false, .pollWait false, .recvTimeout false, .abortAndRaise false, .reset] :
        Barrier Bool).msgs = [none] ∧
      (run 2 [.enter false, .pollWait false, .recvTimeout false, .abortAndRaise false, .reset] :
        Barrier Bool).availableBlocks = 1 ∧
      ¬ (run 2 [.enter false, .pollWait false, .recvTimeout false, .abortAndRaise false, .reset] :
        Barrier Bool).Initial :=
  ⟨by decide, by decide, by decide, fun h => absurd h.msgs (by decide)⟩

end Barrier
