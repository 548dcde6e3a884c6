/-
# Agreement of the barrier

What the waits of one round return.  The channel does not record to which round a message
belongs; it does not have to, since a wait registers only when all blocks are free, so that all
messages in the channel are those of the last round that was released.

The one exception is a reset that falls between the registration of the last wait and the release:
`_release_barrier_waiters` then finds the barrier full and not broken, and sends the values of a
completed round.
-/
import DragonRuntime.Barrier

/-- The value that a call of `wait` has in its hands or has returned. -/
def BarrierPhase.value : BarrierPhase → Option ℕ
  | .holding val => val
  | .returned val => some val
  | _ => none

/-- The call of `wait` has not registered. -/
def BarrierPhase.early : BarrierPhase → Bool
  | .idle | .polling | .looping => true
  | _ => false

theorem BarrierPhase.value_of_registered {phase : BarrierPhase} (h : phase.registered) :
    phase.value = none := by
  cases phase with
  | waiting => rfl
  | acting => rfl
  | acted => rfl
  | _ => exact absurd h Bool.false_ne_true

theorem BarrierPhase.early_of_registered {phase : BarrierPhase} (h : phase.registered) :
    phase.early = false := by
  cases phase with
  | waiting => rfl
  | acting => rfl
  | acted => rfl
  | _ => exact absurd h Bool.false_ne_true

namespace Barrier

variable {ω : Type*} [DecidableEq ω]

/-- **Agreement**: a wait returns a value only in a round in which `n` waits have registered and
whose action was completed; the values of a round are distinct and below `n`; and a wait that was
registered when the barrier was aborted or reset returns no value, and has its message. -/
structure Agreement (s : Barrier ω) : Prop where
  size : ∀ w val, s.phase w = .returned val → s.size (s.roundOf w) = s.parties
  action : ∀ w val, s.phase w = .returned val → s.actionDone (s.roundOf w) = true
  range : ∀ w val, s.phase w = .returned val → val < s.parties
  distinct : ∀ w w' val, s.phase w = .returned val → s.phase w' = .returned val →
    s.roundOf w = s.roundOf w' → w = w'
  doomed : ∀ w ∈ s.doomed, (∀ val, s.phase w ≠ .returned val) ∧
    (s.phase w = .waiting → s.msgs ≠ [] ∧ ∀ val ∈ s.msgs, val = none)

/-- The step does not reset a full barrier that is still to be released. -/
def Timely (s : Barrier ω) : Step ω → Prop
  | .reset => 0 < s.barrierCount → s.barrierCount ≠ s.parties
  | _ => True

/-- What is known of the rounds: the counted waits are in the current round and those that are
owed a message in the last one; the values in the channel are those of the last round, of which
each is given once. -/
structure Rounds (s : Barrier ω) : Prop where
  counted : ∀ w ∈ s.counted, s.roundOf w = s.round
  owed : ∀ w ∈ s.owed, s.roundOf w + 1 = s.round
  size : s.size s.round = s.barrierCount ∧ ∀ r, s.round < r → s.size r = 0
  msgs : ∀ val, some val ∈ s.msgs → val < s.parties ∧ ∃ r, r + 1 = s.round ∧
    s.size r = s.parties ∧ s.actionDone r = true
  nodup : (s.msgs.filterMap id).Nodup
  given : ∀ w val, (s.phase w).value = some val → val < s.parties ∧ s.roundOf w < s.round ∧
    s.size (s.roundOf w) = s.parties ∧ s.actionDone (s.roundOf w) = true
  distinct : ∀ w w' val, (s.phase w).value = some val → (s.phase w').value = some val →
    s.roundOf w = s.roundOf w' → w = w'
  once : ∀ w val, (s.phase w).value = some val → s.roundOf w + 1 = s.round →
    some val ∉ s.msgs
  doomed : ∀ w ∈ s.doomed, (s.phase w).value = none ∧ (s.phase w).early = false ∧
    w ∉ s.counted ∧ (w ∈ s.owed → ∀ val ∈ s.msgs, val = none)
  acted : ∀ w, s.phase w = .acted → s.actionDone (s.roundOf w) = true

omit [DecidableEq ω] in
theorem Rounds.init (parties : ℕ) : (init parties : Barrier ω).Rounds := by
  constructor <;> simp [Barrier.init, BarrierPhase.value]

variable {s : Barrier ω} {w : ω}

omit [DecidableEq ω] in
theorem Rounds.agreement (h : s.Rounds) (hkept : s.Kept) : s.Agreement := by
  have hvalue : ∀ {w val}, s.phase w = .returned val → (s.phase w).value = some val := by
    intro w val hphase
    rw [hphase]
    rfl
  refine ⟨?_, ?_, ?_, ?_, ?_⟩
  · intro w val hphase
    exact (h.given w val (hvalue hphase)).2.2.1
  · intro w val hphase
    exact (h.given w val (hvalue hphase)).2.2.2
  · intro w val hphase
    exact (h.given w val (hvalue hphase)).1
  · intro w w' val hphase hphase' hround
    exact h.distinct w w' val (hvalue hphase) (hvalue hphase') hround
  · intro w hw
    obtain ⟨hnone, _, hcounted, howed⟩ := h.doomed w hw
    refine ⟨?_, ?_⟩
    · intro val hphase
      rw [hvalue hphase] at hnone
      exact absurd hnone (Option.some_ne_none val)
    · intro hphase
      have hmem : w ∈ s.owed := by
        refine (hkept.covered w ?_).resolve_left hcounted
        rw [hphase]
        rfl
      refine ⟨?_, howed hmem⟩
      intro hnil
      have hmessages := hkept.messages
      have hpos := Finset.card_pos.mpr ⟨w, hmem⟩
      -- with an empty channel every wait that left is still counted, and then nobody is owed
      have hempty : s.leavers = ∅ := by
        have hzero : s.barrierCount = 0 := by
          by_contra hne
          have howed' := (hkept.fresh (Nat.pos_of_ne_zero hne)).2.2.1
          rw [howed'] at hmem
          exact absurd hmem (Finset.notMem_empty w)
        rw [leavers, hkept.counted_eq_empty hzero, Finset.filter_empty]
      rw [hnil, hempty, List.length_nil, Finset.card_empty] at hmessages
      omega

/-! ## The steps -/

/-- A wait changes its phase with no effect on values. -/
theorem Rounds.setPhase (h : s.Rounds) {phase : BarrierPhase}
    (hvalue : phase.value = (s.phase w).value ∨ phase.value = none)
    (hearly : (s.phase w).early = false → phase.early = false)
    (hacted : phase = .acted → s.actionDone (s.roundOf w) = true) :
    (s.setPhase w phase).Rounds := by
  have hold : ∀ w' val, ((s.setPhase w phase).phase w').value = some val →
      (s.phase w').value = some val := by
    intro w' val hval
    by_cases heq : w' = w
    · subst heq
      rw [setPhase_phase_self] at hval
      rcases hvalue with hvalue | hvalue
      · rwa [← hvalue]
      · rw [hvalue] at hval
        exact absurd hval.symm (Option.some_ne_none val)
    · rwa [setPhase_phase_of_ne _ heq] at hval
  refine ⟨h.counted, h.owed, h.size, h.msgs, h.nodup, ?_, ?_, ?_, ?_, ?_⟩
  · exact fun w' val hval => h.given w' val (hold w' val hval)
  · exact fun w₁ w₂ val h₁ h₂ => h.distinct w₁ w₂ val (hold w₁ val h₁) (hold w₂ val h₂)
  · exact fun w' val hval => h.once w' val (hold w' val hval)
  · intro w' hw'
    obtain ⟨hnone, hearly', hcounted, howed⟩ := h.doomed w' hw'
    refine ⟨?_, ?_, hcounted, howed⟩
    · by_contra hne
      obtain ⟨val, hval⟩ := Option.ne_none_iff_exists'.mp hne
      rw [hold w' val hval] at hnone
      exact absurd hnone (Option.some_ne_none val)
    · by_cases heq : w' = w
      · subst heq
        rw [setPhase_phase_self]
        exact hearly hearly'
      · rwa [setPhase_phase_of_ne _ heq]
  · intro w' hw'
    by_cases heq : w' = w
    · subst heq
      rw [setPhase_phase_self] at hw'
      exact hacted hw'
    · rw [setPhase_phase_of_ne _ heq] at hw'
      exact h.acted w' hw'

/-- A wait is owed nothing any more. -/
theorem Rounds.eraseOwed (h : s.Rounds) (w : ω) (left : ℕ) :
    { s with owed := s.owed.erase w, left := left }.Rounds := by
  refine ⟨h.counted, ?_, h.size, h.msgs, h.nodup, h.given, h.distinct, h.once, ?_, h.acted⟩
  · exact fun w' hw' => h.owed w' (Finset.mem_of_mem_erase hw')
  · intro w' hw'
    obtain ⟨hnone, hearly, hcounted, howed⟩ := h.doomed w' hw'
    exact ⟨hnone, hearly, hcounted, fun hmem => howed (Finset.mem_of_mem_erase hmem)⟩

/-- The release of the waiters, from a channel whose flag may just have been set.  The values are
sent only for a full barrier that is not broken, and then the action must be done; and a wait that
is marked as doomed was counted when `-1` was sent. -/
theorem Rounds.releaseBarrierWaiters (h : s.Rounds) (hkept : s.Kept) {broken : Bool}
    {doomed : Finset ω}
    (haction : 0 < s.barrierCount → broken = false → s.barrierCount = s.parties →
      s.actionDone s.round = true) (hdoomed : ∀ w ∈ doomed, w ∈ s.doomed ∨
      (w ∈ s.counted ∧ (broken = true ∨ s.barrierCount < s.parties))) :
    ({ s with barrierBroken := broken, doomed := doomed } :
      Barrier ω).releaseBarrierWaiters.Rounds := by
  have hmark : ∀ w ∈ doomed, s.barrierCount = 0 → w ∈ s.doomed := by
    intro w hw hzero
    refine (hdoomed w hw).resolve_right (fun hand => ?_)
    rw [hkept.counted_eq_empty hzero] at hand
    exact absurd hand.1 (Finset.notMem_empty w)
  rw [Barrier.releaseBarrierWaiters]
  split
  next hzero =>
    refine ⟨h.counted, h.owed, h.size, h.msgs, h.nodup, h.given, h.distinct, h.once, ?_, h.acted⟩
    exact fun w hw => h.doomed w (hmark w hw hzero.2)
  · rcases Nat.eq_zero_or_pos s.barrierCount with hzero | hpos
    · -- nobody is counted: nothing is sent
      have hvalues : ({ s with barrierBroken := broken, doomed := doomed } :
          Barrier ω).releaseValues = [] :=
        List.eq_nil_of_length_eq_zero ((length_releaseValues _).trans hzero)
      have hround : (if s.barrierCount = 0 then s.round else s.round + 1) = s.round := if_pos hzero
      have hcounted := hkept.counted_eq_empty hzero
      have howed : s.owed ∪ s.counted.filter (fun w => s.phase w ≠ .aborting) = s.owed := by
        rw [hcounted, Finset.filter_empty, Finset.union_empty]
      simp only [hvalues, List.append_nil, hround, howed]
      refine ⟨fun w hw => absurd hw (Finset.notMem_empty w), h.owed, ?_, h.msgs, h.nodup, h.given,
        h.distinct, h.once, ?_, h.acted⟩
      · exact ⟨h.size.1.trans hzero, h.size.2⟩
      · intro w hw
        obtain ⟨hnone, hearly, _, hmsgs⟩ := h.doomed w (hmark w hw hzero)
        exact ⟨hnone, hearly, Finset.notMem_empty w, hmsgs⟩
    · -- the channel is untouched, and the round ends
      obtain ⟨hnil, _, hempty, _⟩ := hkept.fresh hpos
      have hround : (if s.barrierCount = 0 then s.round else s.round + 1) = s.round + 1 :=
        if_neg hpos.ne'
      simp only [hnil, List.nil_append, hround, hempty, Finset.empty_union]
      have hvalue : ∀ val, some val ∈ ({ s with barrierBroken := broken, doomed := doomed } :
          Barrier ω).releaseValues → val < s.parties ∧ broken = false ∧
            s.barrierCount = s.parties := by
        intro val hval
        rw [releaseValues] at hval
        split at hval
        · exact absurd (List.eq_of_mem_replicate hval) (Option.some_ne_none val)
        next hfull =>
          rw [not_or] at hfull
          obtain ⟨val', hrange, heq⟩ := List.mem_map.mp hval
          have hcount : s.barrierCount = s.parties :=
            Nat.le_antisymm hkept.count_le (Nat.le_of_not_lt hfull.2)
          have hlt := List.mem_range.mp hrange
          rw [Option.some.inj heq] at hlt
          exact ⟨hcount ▸ hlt, Bool.eq_false_iff.mpr hfull.1, hcount⟩
      refine ⟨fun w hw => absurd hw (Finset.notMem_empty w), ?_, ?_, ?_, ?_, ?_, h.distinct, ?_, ?_,
        h.acted⟩
      · intro w hw
        rw [h.counted w (Finset.mem_of_mem_filter w hw)]
      · exact ⟨h.size.2 _ (Nat.lt_succ_self _), fun r hr => h.size.2 r (Nat.lt_of_succ_lt hr)⟩
      · intro val hval
        obtain ⟨hlt, hbroken, hcount⟩ := hvalue val hval
        exact ⟨hlt, s.round, rfl, h.size.1.trans hcount, haction hpos hbroken hcount⟩
      · rw [releaseValues]
        split
        · rw [List.filterMap_replicate_of_none rfl]
          exact List.nodup_nil
        · rw [List.filterMap_map]
          simp only [Function.comp_def, id_eq, List.filterMap_some]
          exact List.nodup_range
      · intro w val hval
        obtain ⟨hlt, hlast, hrest⟩ := h.given w val hval
        exact ⟨hlt, Nat.lt_succ_of_lt hlast, hrest⟩
      · intro w val hval hlast
        have hlt := (h.given w val hval).2.1
        exact absurd (Nat.succ.inj hlast) hlt.ne
      · intro w hw
        rcases hdoomed w hw with hw' | ⟨hcounted, hsent⟩
        · obtain ⟨hnone, hearly, hnot, _⟩ := h.doomed w hw'
          refine ⟨hnone, hearly, Finset.notMem_empty w, fun hmem => ?_⟩
          exact absurd (Finset.mem_of_mem_filter w hmem) hnot
        · have hphase := hkept.counted_phase w hcounted
          refine ⟨?_, ?_, Finset.notMem_empty w, fun _ val hval => ?_⟩
          · rcases hphase with hreg | habort
            · exact BarrierPhase.value_of_registered hreg
            · change (s.phase w).value = none
              rw [habort]
              rfl
          · change (s.phase w).early = false
            rcases hphase with hreg | habort
            · exact BarrierPhase.early_of_registered hreg
            · rw [habort]
              rfl
          · rw [releaseValues, if_pos hsent] at hval
            exact List.eq_of_mem_replicate hval

theorem Rounds.pollAbort (h : s.Rounds) (hkept : s.Kept) : s.pollAbort.Rounds := by
  rw [Barrier.pollAbort]
  split
  · exact h
  · refine h.releaseBarrierWaiters hkept (fun _ hfalse => absurd hfalse.symm Bool.false_ne_true) ?_
    intro w hw
    exact (Finset.mem_union.mp hw).imp_right (fun hcounted => ⟨hcounted, .inl rfl⟩)

theorem Rounds.pollTimeout (h : s.Rounds) (hkept : s.Kept) :
    ({ s with
      barrierBroken := true
      doomed := s.doomed ∪ s.counted } : Barrier ω).releaseBarrierWaiters.Rounds := by
  refine h.releaseBarrierWaiters hkept (fun _ hfalse => absurd hfalse.symm Bool.false_ne_true) ?_
  intro w hw
  exact (Finset.mem_union.mp hw).imp_right (fun hcounted => ⟨hcounted, .inl rfl⟩)

theorem Rounds.pollReset (h : s.Rounds) (hkept : s.Kept)
    (htimely : 0 < s.barrierCount → s.barrierCount ≠ s.parties) : s.pollReset.Rounds := by
  have hreleased : ({ s with doomed := s.doomed ∪ s.counted } :
      Barrier ω).releaseBarrierWaiters.Rounds := by
    refine h.releaseBarrierWaiters hkept
      (fun hpos _ hcount => absurd hcount (htimely hpos)) ?_
    intro w hw
    refine (Finset.mem_union.mp hw).imp_right (fun hcounted => ⟨hcounted, .inr ?_⟩)
    have hpos : 0 < s.barrierCount := by
      rw [hkept.count]
      exact Finset.card_pos.mpr ⟨w, hcounted⟩
    exact lt_of_le_of_ne hkept.count_le (htimely hpos)
  have hcount := (hkept.releaseBarrierWaiters_count s.barrierBroken (s.doomed ∪ s.counted)).1
  refine ⟨hreleased.counted, hreleased.owed, ?_, hreleased.msgs, hreleased.nodup, hreleased.given,
    hreleased.distinct, hreleased.once, hreleased.doomed, hreleased.acted⟩
  exact ⟨hreleased.size.1.trans hcount, hreleased.size.2⟩

/-- The release by a wait whose action is done. -/
theorem Rounds.pollRelease (h : s.Rounds) (hkept : s.Kept) (hphase : s.phase w = .acted) :
    s.pollRelease.Rounds := by
  rw [Barrier.pollRelease]
  split
  · exact h
  · refine h.releaseBarrierWaiters hkept ?_ (fun w' hw' => .inl hw')
    intro hpos _ _
    -- somebody is counted, so that nobody is owed a message, and this wait is of this round
    have hcounted : w ∈ s.counted := by
      refine (hkept.covered w (by rw [hphase]; rfl)).resolve_right ?_
      rw [(hkept.fresh hpos).2.2.1]
      exact Finset.notMem_empty w
    rw [← h.counted w hcounted]
    exact h.acted w hphase

theorem Rounds.register (h : s.Rounds) (hkept : s.Kept) (hearly : (s.phase w).early)
    (hblocks : s.availableBlocks = s.parties) : (s.register w).Rounds := by
  obtain ⟨hmsgs, _, howed⟩ := hkept.owed_eq_empty hblocks
  have hother : ∀ w', w' ≠ w → (s.register w).phase w' = s.phase w' :=
    fun w' hne => Function.update_of_ne hne _ _
  have hround : ∀ w', w' ≠ w → (s.register w).roundOf w' = s.roundOf w' :=
    fun w' hne => Function.update_of_ne hne _ _
  have hnone : ((s.register w).phase w).value = none := by
    rw [Barrier.register]
    simp only [Function.update_self]
    split
    · rfl
    · rfl
  have hne : ∀ w' val, ((s.register w).phase w').value = some val → w' ≠ w := by
    rintro w' val hval rfl
    rw [hnone] at hval
    exact absurd hval.symm (Option.some_ne_none val)
  have hsize : ∀ r, r ≠ s.round → (s.register w).size r = s.size r :=
    fun r hr => Function.update_of_ne hr _ _
  refine ⟨?_, ?_, ?_, ?_, h.nodup, ?_, ?_, ?_, ?_, ?_⟩
  · intro w' hw'
    by_cases heq : w' = w
    · subst heq
      exact Function.update_self _ _ _
    · rw [hround w' heq]
      exact h.counted w' (Finset.mem_of_mem_insert_of_ne hw' heq)
  · intro w' hw'
    change w' ∈ s.owed at hw'
    rw [howed] at hw'
    exact absurd hw' (Finset.notMem_empty w')
  · refine ⟨Function.update_self _ _ _, fun r hr => ?_⟩
    rw [hsize r (Nat.ne_of_gt hr)]
    exact h.size.2 r hr
  · intro val hval
    change some val ∈ s.msgs at hval
    rw [hmsgs] at hval
    exact absurd hval List.not_mem_nil
  · intro w' val hval
    have hw' := hne w' val hval
    rw [hother w' hw'] at hval
    obtain ⟨hlt, hlast, hsize', hdone⟩ := h.given w' val hval
    rw [hround w' hw', hsize _ hlast.ne]
    exact ⟨hlt, hlast, hsize', hdone⟩
  · intro w₁ w₂ val h₁ h₂ hrounds
    have hw₁ := hne w₁ val h₁
    have hw₂ := hne w₂ val h₂
    rw [hother w₁ hw₁] at h₁
    rw [hother w₂ hw₂] at h₂
    rw [hround w₁ hw₁, hround w₂ hw₂] at hrounds
    exact h.distinct w₁ w₂ val h₁ h₂ hrounds
  · intro w' val _ _
    change some val ∉ s.msgs
    rw [hmsgs]
    exact List.not_mem_nil
  · intro w' hw'
    obtain ⟨hnone', hearly', hcounted, _⟩ := h.doomed w' hw'
    have heq : w' ≠ w := by
      rintro rfl
      rw [hearly'] at hearly
      exact Bool.false_ne_true hearly
    rw [hother w' heq]
    refine ⟨hnone', hearly', ?_, fun _ val hval => ?_⟩
    · exact fun hmem => hcounted (Finset.mem_of_mem_insert_of_ne hmem heq)
    · change val ∈ s.msgs at hval
      rw [hmsgs] at hval
      exact absurd hval List.not_mem_nil
  · intro w' hw'
    by_cases heq : w' = w
    · subst heq
      exfalso
      rw [Barrier.register] at hw'
      simp only [Function.update_self] at hw'
      split at hw'
      · cases hw'
      · cases hw'
    · rw [hother w' heq] at hw'
      rw [hround w' heq]
      exact h.acted w' hw'

theorem Rounds.pollWait (h : s.Rounds) (hkept : s.Kept)
    (hphase : s.phase w = .polling ∨ s.phase w = .looping) : (s.pollWait w).Rounds := by
  have hearly : (s.phase w).early = true := by
    rcases hphase with hphase | hphase
    · rw [hphase]
      rfl
    · rw [hphase]
      rfl
  have hout : ∀ phase : BarrierPhase, phase.value = none → phase ≠ .acted →
      (s.setPhase w phase).Rounds := by
    intro phase hnone hacted
    refine h.setPhase (.inr hnone) (fun hfalse => ?_) (fun heq => absurd heq hacted)
    rw [hearly] at hfalse
    exact absurd hfalse.symm Bool.false_ne_true
  rw [Barrier.pollWait]
  split
  · exact hout _ rfl (by simp)
  · split
    · exact hout _ rfl (by simp)
    next hfull =>
      rw [not_or, not_not] at hfull
      split
      · exact hout _ rfl (by simp)
      · exact h.register hkept hearly hfull.1

/-- The receive: the value was in the channel once, and is given to a wait of its round. -/
theorem Rounds.recv (h : s.Rounds) (hkept : s.Kept) (hphase : s.phase w = .waiting) {val : Option ℕ}
    {msgs : List (Option ℕ)} (hmsgs : s.msgs = val :: msgs) :
    ({ s with msgs := msgs, owed := s.owed.erase w, hands := insert w s.hands }.setPhase w
      (.holding val)).Rounds := by
  have howed : w ∈ s.owed := by
    refine (hkept.covered w (by rw [hphase]; rfl)).resolve_left ?_
    rw [hkept.counted_eq_empty (hkept.count_eq_zero_of_msgs (hmsgs ▸ List.cons_ne_nil _ _))]
    exact Finset.notMem_empty w
  have hlast := h.owed w howed
  have hsub : ∀ {v}, v ∈ msgs → v ∈ s.msgs := by
    intro v hv
    rw [hmsgs]
    exact List.mem_cons_of_mem _ hv
  have hhead : val ∈ s.msgs := by
    rw [hmsgs]
    exact List.mem_cons_self
  generalize hs' : { s with
    msgs := msgs, owed := s.owed.erase w, hands := insert w s.hands }.setPhase w (.holding val) = s'
  have hself : s'.phase w = .holding val := by
    rw [← hs']
    exact Function.update_self _ _ _
  have hother : ∀ w', w' ≠ w → s'.phase w' = s.phase w' := by
    intro w' hne
    rw [← hs']
    exact Function.update_of_ne hne _ _
  -- who has a value now had it before, or is the receiver of the head
  have hvalue : ∀ w' v, (s'.phase w').value = some v →
      (w' ≠ w ∧ (s.phase w').value = some v) ∨ (w' = w ∧ val = some v) := by
    intro w' v hv
    by_cases heq : w' = w
    · subst heq
      rw [hself] at hv
      exact .inr ⟨rfl, hv⟩
    · rw [hother w' heq] at hv
      exact .inl ⟨heq, hv⟩
  have hgone : ∀ w' v, (s.phase w').value = some v → s.roundOf w' + 1 = s.round →
      val ≠ some v := by
    rintro w' v hv hround rfl
    exact h.once w' v hv hround hhead
  have hround : s.roundOf = s'.roundOf ∧ s.round = s'.round ∧ s.parties = s'.parties ∧
      s.size = s'.size ∧ s.actionDone = s'.actionDone ∧ s.counted = s'.counted ∧
      s.barrierCount = s'.barrierCount ∧ s.doomed = s'.doomed ∧ msgs = s'.msgs ∧
      s.owed.erase w = s'.owed := by
    subst hs'
    exact ⟨rfl, rfl, rfl, rfl, rfl, rfl, rfl, rfl, rfl, rfl⟩
  obtain ⟨hroundOf, hround, hparties, hsize, hdone, hcounted, hcount, hdoomed, hmsgs', howed'⟩ :=
    hround
  constructor
  · rw [← hcounted, ← hroundOf, ← hround]
    exact h.counted
  · rw [← howed', ← hroundOf, ← hround]
    exact fun w' hw' => h.owed w' (Finset.mem_of_mem_erase hw')
  · rw [← hsize, ← hround, ← hcount]
    exact h.size
  · rw [← hmsgs', ← hparties, ← hround, ← hsize, ← hdone]
    exact fun v hv => h.msgs v (hsub hv)
  · rw [← hmsgs']
    have hnodup := h.nodup
    rw [hmsgs] at hnodup
    cases val with
    | none => exact hnodup
    | some v => exact (List.nodup_cons.mp hnodup).2
  · rw [← hparties, ← hroundOf, ← hround, ← hsize, ← hdone]
    intro w' v hv
    rcases hvalue w' v hv with ⟨_, hv⟩ | ⟨rfl, rfl⟩
    · exact h.given w' v hv
    · obtain ⟨hlt, r, hr, hsize', hdone'⟩ := h.msgs v hhead
      obtain rfl : r = s.roundOf w' := by omega
      exact ⟨hlt, by omega, hsize', hdone'⟩
  · rw [← hroundOf]
    intro w₁ w₂ v h₁ h₂ hrounds
    rcases hvalue w₁ v h₁ with ⟨_, h₁⟩ | ⟨rfl, hv₁⟩
    · rcases hvalue w₂ v h₂ with ⟨_, h₂⟩ | ⟨rfl, hv₂⟩
      · exact h.distinct w₁ w₂ v h₁ h₂ hrounds
      · exact absurd hv₂ (hgone w₁ v h₁ (hrounds.symm ▸ hlast))
    · rcases hvalue w₂ v h₂ with ⟨_, h₂⟩ | ⟨rfl, _⟩
      · exact absurd hv₁ (hgone w₂ v h₂ (hrounds ▸ hlast))
      · rfl
  · rw [← hroundOf, ← hround, ← hmsgs']
    intro w' v hv hround' hmem
    rcases hvalue w' v hv with ⟨_, hv⟩ | ⟨rfl, rfl⟩
    · exact h.once w' v hv hround' (hsub hmem)
    · have hnodup := h.nodup
      rw [hmsgs] at hnodup
      apply (List.nodup_cons.mp hnodup).1
      exact List.mem_filterMap.mpr ⟨some v, hmem, rfl⟩
  · rw [← hdoomed, ← hcounted, ← howed', ← hmsgs']
    intro w' hw'
    obtain ⟨hnone, hearly, hnot, hall⟩ := h.doomed w' hw'
    refine ⟨?_, ?_, hnot, fun hmem v hv => hall (Finset.mem_of_mem_erase hmem) v (hsub hv)⟩
    · by_cases heq : w' = w
      · subst heq
        rw [hself]
        exact hall howed val hhead
      · rw [hother w' heq]
        exact hnone
    · by_cases heq : w' = w
      · subst heq
        rw [hself]
        rfl
      · rw [hother w' heq]
        exact hearly
  · rw [← hdone, ← hroundOf]
    intro w' hw'
    by_cases heq : w' = w
    · subst heq
      rw [hself] at hw'
      nomatch hw'
    · rw [hother w' heq] at hw'
      exact h.acted w' hw'

/-- A message keeps its value when it is read. -/
theorem Rounds.finish (h : s.Rounds) {val : Option ℕ} (hphase : s.phase w = .holding val) :
    ({ s with availableBlocks := s.availableBlocks + 1, hands := s.hands.erase w }.setPhase w
      (outcome s.parties val)).Rounds := by
  have hblocks : { s with
      availableBlocks := s.availableBlocks + 1, hands := s.hands.erase w }.Rounds :=
    ⟨h.counted, h.owed, h.size, h.msgs, h.nodup, h.given, h.distinct, h.once, h.doomed, h.acted⟩
  refine hblocks.setPhase ?_ (fun _ => ?_) (fun heq => ?_)
  · cases val with
    | none => exact .inr rfl
    | some v =>
      have hvalue : (s.phase w).value = some v := by
        rw [hphase]
        rfl
      have hlt := (h.given w v hvalue).1
      refine .inl ?_
      rw [outcome, if_pos hlt]
      exact hvalue.symm
  · cases val with
    | none => rfl
    | some v =>
      rw [outcome]
      split
      · rfl
      · rfl
  · have hout := outcome_out s.parties val
    rw [heq] at hout
    exact absurd hout Bool.false_ne_true

theorem Rounds.actionReturns (h : s.Rounds) :
    ({ s with actionDone := Function.update s.actionDone (s.roundOf w) true }.setPhase w
      .acted).Rounds := by
  have hmono : ∀ r, s.actionDone r = true →
      Function.update s.actionDone (s.roundOf w) true r = true := by
    intro r hr
    by_cases heq : r = s.roundOf w
    · rw [heq, Function.update_self]
    · rwa [Function.update_of_ne heq]
  have hdone : { s with
      actionDone := Function.update s.actionDone (s.roundOf w) true }.Rounds := by
    refine ⟨h.counted, h.owed, h.size, ?_, h.nodup, ?_, h.distinct, h.once, h.doomed, ?_⟩
    · intro val hval
      obtain ⟨hlt, r, hr, hsize, hdone⟩ := h.msgs val hval
      exact ⟨hlt, r, hr, hsize, hmono r hdone⟩
    · intro w' val hval
      obtain ⟨hlt, hlast, hsize, hdone⟩ := h.given w' val hval
      exact ⟨hlt, hlast, hsize, hmono _ hdone⟩
    · exact fun w' hw' => hmono _ (h.acted w' hw')
  exact hdone.setPhase (.inr rfl) (fun _ => rfl) (fun _ => Function.update_self _ _ _)

/-- **Step.**  Every step but the reset of a full barrier keeps what is known of the rounds. -/
theorem Rounds.exec (h : s.Rounds) (hkept : s.Kept) {step : Step ω} (hstep : s.Timely step) :
    (s.exec step).Rounds := by
  cases step with
  | enter =>
    rw [Barrier.exec]
    split
    next hphase =>
      refine h.setPhase (.inr rfl) (fun hearly => ?_) (by simp)
      rw [hphase] at hearly
      exact absurd hearly.symm Bool.false_ne_true
    · exact h
  | pollWait =>
    rw [Barrier.exec]
    split
    next hphase => exact h.pollWait hkept hphase
    · exact h
  | pollTimeout =>
    rw [Barrier.exec]
    split
    · exact (h.pollTimeout hkept).setPhase (.inr rfl) (fun _ => rfl) (by simp)
    · exact h
  | tryAgain =>
    rw [Barrier.exec]
    split
    · exact h.setPhase (.inr rfl) (fun _ => rfl) (by simp)
    · exact h
  | actionReturns =>
    rw [Barrier.exec]
    split
    · exact h.actionReturns
    · exact h
  | actionRaises w =>
    rw [Barrier.exec]
    split
    · exact (h.eraseOwed w _).setPhase (.inr rfl) (fun _ => rfl) (by simp)
    · exact h
  | pollRelease =>
    rw [Barrier.exec]
    split
    next hphase =>
      exact (h.pollRelease hkept hphase).setPhase (.inr rfl) (fun _ => rfl) (by simp)
    · exact h
  | recv =>
    rw [Barrier.exec]
    split
    · exact h
    next val msgs hmsgs =>
      split
      next hphase => exact h.recv hkept hphase hmsgs
      · exact h
  | recvTimeout w =>
    rw [Barrier.exec]
    split
    · exact (h.eraseOwed w _).setPhase (.inr rfl) (fun _ => rfl) (by simp)
    · exact h
  | finish =>
    rw [Barrier.exec]
    split
    next val hphase => exact h.finish hphase
    · exact h
  | abortAndRaise =>
    rw [Barrier.exec]
    split
    · exact (h.pollAbort hkept).setPhase (.inr rfl) (fun _ => rfl) (by simp)
    · exact h
  | abort => exact h.pollAbort hkept
  | reset => exact h.pollReset hkept hstep

/-- **Agreement of the barrier.**  In every run in which no reset falls on a full barrier that is
still to be released, the waits agree in every state. -/
theorem agreement_of_timely (parties : ℕ) (steps : List (Step ω))
    (hsteps : Runs.Legal Barrier.exec Timely (init parties) steps) :
    (run parties steps).Agreement := by
  have hstep : ∀ (s : Barrier ω) (step : Step ω), s.Kept ∧ s.Rounds → s.Timely step →
      (s.exec step).Kept ∧ (s.exec step).Rounds :=
    fun s step h htimely => ⟨h.1.exec step, h.2.exec h.1 htimely⟩
  have hinv := hsteps.invariant hstep ⟨.init parties, .init parties⟩
  exact hinv.2.agreement hinv.1

/-- A round of two waits, after a wait that was reset. -/
theorem agreement_of_timely_two_waits :
    (run 2 ([Step.enter 2, .pollWait 2, .reset, .recv 2, .finish 2] ++ roundSteps [0] 1) :
      Barrier ℕ).Agreement := by
  apply agreement_of_timely
  simp only [roundSteps, List.cons_append, List.nil_append, List.flatMap_cons, List.flatMap_nil,
    Runs.legal_cons, Runs.legal_nil, Timely, and_true, true_and]
  decide

/-- The barrier is full and the action is running when the barrier is reset: wait 0, which was
registered, returns a value, and before the action is done. -/
theorem not_agreement_reset_full :
    (run 2 [.enter 0, .pollWait 0, .enter 1, .pollWait 1, .reset, .recv 0, .finish 0] :
        Barrier ℕ).phase 0 = .returned 0 ∧
      (run 2 [.enter 0, .pollWait 0, .enter 1, .pollWait 1, .reset, .recv 0, .finish 0] :
        Barrier ℕ).phase 1 = .acting ∧
      ¬ (run 2 [.enter 0, .pollWait 0, .enter 1, .pollWait 1, .reset, .recv 0, .finish 0] :
        Barrier ℕ).Agreement := by
  have hreturned : (run 2 [.enter 0, .pollWait 0, .enter 1, .pollWait 1, .reset, .recv 0,
      .finish 0] : Barrier ℕ).phase 0 = .returned 0 := by
    decide
  refine ⟨hreturned, by decide, fun h => ?_⟩
  exact absurd (h.action 0 0 hreturned) (by decide)

end Barrier
