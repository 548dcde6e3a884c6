/-
# Timeouts and deadlines (`src/lib/utils.c`)

A call with a timeout computes a deadline, and hands what remains of it down to the calls inside,
which compute a deadline again.  A time of zero stands for a single attempt.

Conventions: the two fields do not overflow; the clock is read once in a call, and
what it shows is an argument.
-/
import DragonRuntime.ReturnCodes

@[ext] structure Timespec where
  tv_sec : ℤ
  tv_nsec : ℤ

namespace Timespec

def oneBillion : ℤ := 1000000000

def noTimeout : Timespec := ⟨157680000000, 0⟩

/-- The loop of `dragon_timespec_add`. -/
def carry (t : Timespec) : Timespec :=
  if oneBillion ≤ t.tv_nsec then carry ⟨t.tv_sec + 1, t.tv_nsec - oneBillion⟩ else t
termination_by t.tv_nsec.toNat
decreasing_by unfold oneBillion at *; omega

/-- `dragon_timespec_add` -/
def add (first second : Timespec) : Timespec :=
  carry ⟨first.tv_sec + second.tv_sec, first.tv_nsec + second.tv_nsec⟩

/-- The loop of `dragon_timespec_diff`. -/
def borrow (t : Timespec) : Timespec :=
  if t.tv_nsec < 0 then borrow ⟨t.tv_sec - 1, t.tv_nsec + oneBillion⟩ else t
termination_by (-t.tv_nsec).toNat
decreasing_by unfold oneBillion at *; omega

/-- `dragon_timespec_diff` -/
def diff (first second : Timespec) : Timespec :=
  borrow ⟨first.tv_sec - second.tv_sec, first.tv_nsec - second.tv_nsec⟩

/-- `dragon_timespec_le` -/
def le (first second : Timespec) : Bool :=
  first.tv_sec < second.tv_sec || first.tv_sec = second.tv_sec && first.tv_nsec ≤ second.tv_nsec

/-- `dragon_timespec_deadline` -/
def deadline (current : Timespec) : Option Timespec → Timespec
  | none => add current noTimeout
  | some timeout =>
    if timeout.tv_nsec = 0 ∧ timeout.tv_sec = 0 then ⟨0, 0⟩ else add current timeout

/-- `dragon_timespec_remaining` -/
def remaining (now_time : Timespec) : Option Timespec → Except DragonError Unit × Timespec
  | none => (.ok (), noTimeout)
  | some deadline =>
    if deadline.tv_nsec = 0 ∧ deadline.tv_sec = 0 then (.ok (), ⟨0, 0⟩)
    else if deadline.le now_time then (.error .timeout, ⟨0, 0⟩)
    else (.ok (), diff deadline now_time)

/-! ## The time that is meant -/

def nanos (t : Timespec) : ℤ := t.tv_sec * oneBillion + t.tv_nsec

def Normalized (t : Timespec) : Prop := 0 ≤ t.tv_nsec ∧ t.tv_nsec < oneBillion

variable {t first second : Timespec}

theorem carry_spec (h : 0 ≤ t.tv_nsec) : t.carry.Normalized ∧ t.carry.nanos = t.nanos := by
  fun_induction carry t with
  | case1 t hle ih =>
    obtain ⟨hnorm, hnanos⟩ := ih (sub_nonneg.mpr hle)
    refine ⟨hnorm, hnanos.trans ?_⟩
    unfold nanos
    ring
  | case2 t hlt => exact ⟨⟨h, not_le.mp hlt⟩, rfl⟩

theorem borrow_spec (h : t.tv_nsec < oneBillion) :
    t.borrow.Normalized ∧ t.borrow.nanos = t.nanos := by
  fun_induction borrow t with
  | case1 t hlt ih =>
    obtain ⟨hnorm, hnanos⟩ := ih (add_lt_of_neg_left oneBillion hlt)
    refine ⟨hnorm, hnanos.trans ?_⟩
    unfold nanos
    ring
  | case2 t hle => exact ⟨⟨not_lt.mp hle, h⟩, rfl⟩

theorem add_spec (hfirst : first.Normalized) (hsecond : second.Normalized) :
    (add first second).Normalized ∧ (add first second).nanos = first.nanos + second.nanos := by
  obtain ⟨hnorm, hnanos⟩ := carry_spec (t := ⟨first.tv_sec + second.tv_sec, _⟩)
    (add_nonneg hfirst.1 hsecond.1)
  refine ⟨hnorm, hnanos.trans ?_⟩
  unfold nanos
  ring

theorem diff_spec (hfirst : first.Normalized) (hsecond : second.Normalized) :
    (diff first second).Normalized ∧ (diff first second).nanos = first.nanos - second.nanos := by
  obtain ⟨hnorm, hnanos⟩ := borrow_spec (t := ⟨first.tv_sec - second.tv_sec, _⟩)
    ((sub_le_self _ hsecond.1).trans_lt hfirst.2)
  refine ⟨hnorm, hnanos.trans ?_⟩
  unfold nanos
  ring

theorem le_iff (hfirst : first.Normalized) (hsecond : second.Normalized) :
    first.le second = true ↔ first.nanos ≤ second.nanos := by
  obtain ⟨h1, h2⟩ := hfirst
  obtain ⟨h3, h4⟩ := hsecond
  unfold le nanos oneBillion at *
  simp only [Bool.or_eq_true, Bool.and_eq_true, decide_eq_true_eq]
  omega

theorem nanos_eq_zero_iff (h : t.Normalized) :
    t.nanos = 0 ↔ t.tv_nsec = 0 ∧ t.tv_sec = 0 := by
  obtain ⟨h1, h2⟩ := h
  unfold nanos oneBillion at *
  omega

theorem remaining_spec {now_time deadline : Timespec} (hnow : now_time.Normalized)
    (hdeadline : deadline.Normalized) (hpos : deadline.nanos ≠ 0) :
    deadline.nanos ≤ now_time.nanos ∧
        remaining now_time (some deadline) = (.error .timeout, ⟨0, 0⟩) ∨
      now_time.nanos < deadline.nanos ∧ ∃ timeout, timeout.Normalized ∧
        timeout.nanos = deadline.nanos - now_time.nanos ∧
        remaining now_time (some deadline) = (.ok (), timeout) := by
  rw [show remaining now_time (some deadline) = _ from
    if_neg (mt (nanos_eq_zero_iff hdeadline).mpr hpos)]
  by_cases hle : deadline.nanos ≤ now_time.nanos
  · exact .inl ⟨hle, if_pos ((le_iff hdeadline hnow).mpr hle)⟩
  · obtain ⟨hnorm, hnanos⟩ := diff_spec hdeadline hnow
    exact .inr ⟨not_le.mp hle, _, hnorm, hnanos, if_neg (mt (le_iff hdeadline hnow).mp hle)⟩

theorem deadline_spec {current timeout : Timespec} (hcurrent : current.Normalized)
    (htimeout : timeout.Normalized) (hpos : timeout.nanos ≠ 0) :
    (deadline current (some timeout)).Normalized ∧
      (deadline current (some timeout)).nanos = current.nanos + timeout.nanos := by
  rw [show deadline current (some timeout) = _ from
    if_neg (mt (nanos_eq_zero_iff htimeout).mpr hpos)]
  exact add_spec hcurrent htimeout

/-! ## A timeout that is handed down -/

/-- Calls inside one another: each hands down what remains of its deadline at a first reading of
the clock, and the one inside computes its own at a second reading. -/
def handDown (deadline₀ : Timespec) : List (Timespec × Timespec) → Except DragonError Timespec
  | [] => .ok deadline₀
  | (now_time, current) :: readings =>
    match remaining now_time (some deadline₀) with
    | (.error e, _) => .error e
    | (.ok (), timeout) => handDown (deadline current (some timeout)) readings

/-- Each first reading comes before the deadline, which moves by what passes between the two. -/
def InTime : ℤ → List (Timespec × Timespec) → Prop
  | _, [] => True
  | nanos₀, (now_time, current) :: readings =>
    now_time.nanos < nanos₀ ∧ InTime (nanos₀ + (current.nanos - now_time.nanos)) readings

/-- **A timeout handed down.**  The innermost deadline is the outermost one, later by exactly what
passes between the two readings of each call; a call fails only when the deadline has passed, and
a single attempt stays one at every depth. -/
theorem handDown_spec (deadline₀ : Timespec) (hdeadline : deadline₀.Normalized)
    (readings : List (Timespec × Timespec))
    (hreadings : ∀ r ∈ readings, r.1.Normalized ∧ r.2.Normalized ∧ r.1.nanos ≤ r.2.nanos) :
    (deadline₀.nanos = 0 → handDown deadline₀ readings = .ok ⟨0, 0⟩) ∧
    (0 < deadline₀.nanos → InTime deadline₀.nanos readings →
      ∃ deadline', handDown deadline₀ readings = .ok deadline' ∧ deadline'.Normalized ∧
        deadline'.nanos
          = deadline₀.nanos + (readings.map fun r => r.2.nanos - r.1.nanos).sum) ∧
    (0 < deadline₀.nanos → ¬ InTime deadline₀.nanos readings →
      handDown deadline₀ readings = .error .timeout) := by
  induction readings generalizing deadline₀ with
  | nil =>
    refine ⟨fun hzero => ?_, fun _ _ => ⟨_, rfl, hdeadline, ?_⟩, fun _ hnot => ?_⟩
    · obtain ⟨hnsec, hsec⟩ := (nanos_eq_zero_iff hdeadline).mp hzero
      exact congrArg Except.ok (Timespec.ext hsec hnsec)
    · simp
    · exact absurd trivial hnot
  | cons r readings ih =>
    obtain ⟨now_time, current⟩ := r
    obtain ⟨⟨hnow, hcurrent, hle⟩, hrest⟩ := List.forall_mem_cons.mp hreadings
    dsimp only at hnow hcurrent hle
    refine ⟨fun hzero => ?_, ?_⟩
    · have hremaining : remaining now_time (some deadline₀) = (.ok (), ⟨0, 0⟩) :=
        if_pos ((nanos_eq_zero_iff hdeadline).mp hzero)
      unfold handDown
      rw [hremaining]
      exact (ih ⟨0, 0⟩ ⟨le_rfl, by decide⟩ hrest).1 rfl
    · rw [← imp_and]
      intro hpos
      unfold handDown
      rcases remaining_spec hnow hdeadline hpos.ne' with
        ⟨hpast, hremaining⟩ | ⟨hfuture, timeout, htimeout, hnanos, hremaining⟩ <;> rw [hremaining]
      · exact ⟨fun hin => absurd hin.1 (not_lt.mpr hpast), fun _ => rfl⟩
      · obtain ⟨hnorm, hnext⟩ := deadline_spec hcurrent htimeout (by omega)
        have hmoved : (deadline current (some timeout)).nanos
            = deadline₀.nanos + (current.nanos - now_time.nanos) := by omega
        obtain ⟨-, hok, herror⟩ := ih _ hnorm hrest
        rw [hmoved] at hok herror
        refine ⟨fun hin => ?_, fun hnot => ?_⟩
        · obtain ⟨deadline', hrun, hnorm', hsum⟩ := hok (by omega) hin.2
          refine ⟨deadline', hrun, hnorm', ?_⟩
          rw [hsum, List.map_cons, List.sum_cons]
          ring
        · exact herror (by omega) fun hin => hnot ⟨hfuture, hin⟩

/-- The second call finds that the deadline has passed. -/
theorem handDown_spec_example :
    handDown ⟨5, 0⟩ [(⟨3, 999999999⟩, ⟨4, 1⟩), (⟨5, 2⟩, ⟨5, 3⟩)] = .error .timeout :=
  (handDown_spec ⟨5, 0⟩ ⟨by decide, by decide⟩ _ (by
    simp [Normalized, nanos, oneBillion])).2.2 (by decide) fun h => absurd h.2.1 (by decide)

end Timespec
