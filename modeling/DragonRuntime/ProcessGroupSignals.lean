/-
# The signals by which workers are brought down (`Idle.run`, `PGProcessHistory`)

`Idle.run` sends SIGINT, waits for the time of its patience, sends SIGTERM, waits again, and means
to send SIGKILL before a wait without limit.  But the last signal is addressed with
`self.state.guid`: `self.state` is the member `State.IDLE`, which has no `guid`, and the
`AttributeError` is caught as an error of `group_kill`.

Global services deliver every signal, and answer a join when all workers have exited or when the
time is up.
-/
import DragonRuntime.ProcessGroupHistory

inductive UnixSignal : Type where
  | sigint
  | sigterm
  | sigkill
  deriving DecidableEq

/-- How a worker ends: the signal it dies on, the wait (0, 1 or 2) in which it does if that was sent
by then, and its exit code. -/
structure Death where
  signal : UnixSignal
  wait : ℕ
  ecode : ℤ

/-- What is sent before a wait of `Idle.run`. -/
def kills : ℕ → List UnixSignal
  | 0 => [.sigint]
  | 1 => [.sigterm]
  -- `self.state.guid` raises before the call
  | _ => []

/-- The worker is dead at the end of a wait; the one without limit is as long as it takes. -/
def Death.done (d : Death) (phase : ℕ) : Bool :=
  (List.range (phase + 1)).any (fun k => d.signal ∈ kills k) && (d.wait ≤ phase || 2 ≤ phase)

theorem sigkill_not_mem_kills (phase : ℕ) : UnixSignal.sigkill ∉ kills phase := by
  unfold kills
  split <;> decide

namespace PGManager

variable {τ : Type} {w w' : PGManager τ} {deaths : ℕ → Death} {phase : ℕ} {running_procs : List ℕ}
  {msg : PGSignalMessage τ}

/-- A worker is running. -/
def alive (w : PGManager τ) (p : ℕ) : Bool := w.workers.any fun v => v.puid = p && v.ecode.isNone

/-- The workers that die in a wait of `Idle.run` exit, and the join is answered. -/
def stopPhase (deaths : ℕ → Death) (w : PGManager τ) : PGManager τ :=
  match w.place with
  | .stopping phase running_procs _ =>
    let w := ((running_procs.filter fun p => (deaths p).done phase).map fun p =>
      PGAction.exits p (deaths p).ecode).foldl exec w
    w.exec (.joined (running_procs.any w.alive))
  | _ => w

/-- `Idle.run` -/
def bringDown (deaths : ℕ → Death) (w : PGManager τ) : PGManager τ :=
  stopPhase deaths (stopPhase deaths (stopPhase deaths (w.exec .step)))

def waiting (w : PGManager τ) : Option ℕ :=
  match w.place with
  | .stopping phase _ _ => some phase
  | _ => none

/-- The waits that `Idle.run` comes to. -/
def waits (deaths : ℕ → Death) (w : PGManager τ) : List ℕ :=
  [w.exec .step, stopPhase deaths (w.exec .step),
    stopPhase deaths (stopPhase deaths (w.exec .step))].filterMap waiting

/-- The signals it sends, each before a wait. -/
def signals (deaths : ℕ → Death) (w : PGManager τ) : List UnixSignal :=
  (waits deaths w).flatMap kills

/-- A worker outlives the two waits for SIGINT and SIGTERM. -/
def Survives (deaths : ℕ → Death) (w : PGManager τ) (p : ℕ) : Prop :=
  w.alive p = true ∧ (deaths p).done 1 = false

/-- SIGKILL is sent if need be and before the last wait, and `Idle.run` returns with every worker
that was running in the archive, once, with its exit code. -/
structure BringsDown (deaths : ℕ → Death) (w : PGManager τ) : Prop where
  kill : (∃ p ∈ w.cur_procs.get_running_p_uids, w.Survives deaths p) →
    .sigkill ∈ w.signals deaths
  final : 2 ∈ w.waits deaths → .sigkill ∈ w.signals deaths
  returns : (w.bringDown deaths).waiting = none
  archived : ∃ l, (w.bringDown deaths).cur_procs.inactive_processes
      = w.cur_procs.inactive_processes ++ l ∧
    ∀ p ∈ w.cur_procs.get_running_p_uids,
      p ∉ (w.bringDown deaths).cur_procs.active_processes.map Prod.fst ∧
      ∃ c, Exited (w.bringDown deaths).workers p c ∧
        l.filter (fun item => item.1 = p) = [(p, some c)]

/-! ## A wait -/

theorem exits_frame (l : List (ℕ × ℤ)) :
    ∃ workers,
      (l.map fun d => PGAction.exits d.1 d.2).foldl exec w = { w with workers := workers } := by
  induction l generalizing w with
  | nil => exact ⟨w.workers, rfl⟩
  | cons d l ih =>
    obtain ⟨workers, hw⟩ := ih (w := w.workerExits d.1 d.2)
    exact ⟨workers, hw⟩

theorem alive_workerExits (puid : ℕ) (ecode : ℤ) (p : ℕ) :
    (w.workerExits puid ecode).alive p = (w.alive p && p ≠ puid) := by
  unfold alive workerExits
  rw [List.any_map, Bool.eq_iff_iff]
  simp only [List.any_eq_true, Function.comp_apply, Bool.and_eq_true, decide_eq_true_eq,
    Option.isNone_iff_eq_none]
  constructor
  · rintro ⟨v, hv, hp⟩
    split at hp
    · exact absurd hp.2 (Option.some_ne_none ecode)
    · rename_i hnot
      exact ⟨⟨v, hv, hp⟩, fun heq => hnot ⟨hp.1.trans heq, hp.2⟩⟩
  · rintro ⟨⟨v, hv, hp⟩, hne⟩
    refine ⟨v, hv, ?_⟩
    rw [if_neg (fun hif => hne (hp.1.symm.trans hif.1))]
    exact hp

theorem alive_exits (l : List (ℕ × ℤ)) (p : ℕ) :
    ((l.map fun d => PGAction.exits d.1 d.2).foldl exec w).alive p
      = (w.alive p && !(l.map Prod.fst).contains p) := by
  induction l generalizing w with
  | nil => simp
  | cons d l ih =>
    rw [List.map_cons, List.foldl_cons, ih]
    show ((w.workerExits d.1 d.2).alive p && _) = _
    rw [alive_workerExits, List.map_cons, List.contains_cons]
    cases w.alive p <;> by_cases hp : p = d.1 <;> simp [hp]

/-- Global services have an exit code for a worker that is not running. -/
theorem joinStatus_of_not_alive {timedOut : Bool} {p : ℕ} (hp : p ∈ w.workers.map PGWorker.puid)
    (halive : w.alive p = false) : ∃ c, joinStatus w.workers timedOut p = .success c := by
  have hstatus : joinStatus w.workers timedOut p = (if timedOut then .timeout else .pending) ∨
      ∃ c, joinStatus w.workers timedOut p = .success c := joinStatus_of_mem hp
  rcases hstatus with hs | hs
  · exfalso
    obtain ⟨v, hv, rfl⟩ := List.mem_map.1 hp
    unfold joinStatus at hs
    split at hs
    · cases timedOut <;> cases hs
    · rename_i v' hfind
      split at hs
      · cases timedOut <;> cases hs
      · rename_i hnone
        have hv' := List.mem_of_find?_eq_some hfind
        have hpuid := List.find?_some hfind
        unfold alive at halive
        rw [List.any_eq_false] at halive
        exact halive v' hv' (by simpa [hnone] using hpuid)
  · exact hs

theorem Exited.not_alive {p : ℕ} {c : ℤ} (h : Exited w.workers p c)
    (hnodup : (w.workers.map PGWorker.puid).Nodup) : w.alive p = false := by
  obtain ⟨v, hv, rfl, hcode⟩ := h
  unfold alive
  rw [List.any_eq_false]
  intro v' hv' hboth
  simp only [Bool.and_eq_true, decide_eq_true_eq, Option.isNone_iff_eq_none] at hboth
  rw [eq_of_puid_eq hnodup hv' hv hboth.1, hcode] at hboth
  exact nomatch hboth.2

theorem settle_keeps (m : PGSignalMessage τ) (d : PGState τ) :
    (w.settle m d).waiting = none ∧ (w.settle m d).cur_procs = w.cur_procs ∧
      (w.settle m d).workers = w.workers := by
  have hfinish : ∀ (w' : PGManager τ) (valid : Bool) (reply : PGReply),
      (w'.finish valid reply).waiting = none := by
    intro w' valid reply
    unfold waiting
    rcases finish_place w' valid reply with hplace | hplace <;> rw [hplace]
  unfold settle
  split
  · exact ⟨hfinish _ _ _, finish_cur_procs _ _ _, finish_workers _ _ _⟩
  · split
    · exact ⟨rfl, rfl, rfl⟩
    · exact ⟨hfinish _ _ _, finish_cur_procs _ _ _, finish_workers _ _ _⟩

theorem idleReturn_keeps (msg : PGSignalMessage τ) :
    (w.idleReturn msg).waiting = none ∧ (w.idleReturn msg).cur_procs = w.cur_procs ∧
      (w.idleReturn msg).workers = w.workers := by
  unfold idleReturn
  split
  · exact settle_keeps _ _
  · split
    · exact settle_keeps _ _
    · exact settle_keeps _ _

theorem stopPhase_of_not_waiting (deaths : ℕ → Death) (h : w.waiting = none) :
    stopPhase deaths w = w := by
  unfold waiting at h
  unfold stopPhase
  split
  · rename_i hplace
    rw [hplace] at h
    cases h
  · rfl

/-- What a run of the manager knows. -/
def Sound (w : PGManager τ) : Prop := w.Placed ∧ w.Hist

theorem Sound.foldl (h : w.Sound) (actions : List (PGAction τ)) : (actions.foldl exec w).Sound :=
  run_invariant (fun _ _ _ hplaced hw hmove => hw.move hplaced hmove) h.1 h.2 actions

/-- All workers that were running are recorded with their exit codes, and archived. -/
structure AllEnded (w : PGManager τ) (running_procs : List ℕ) (w' : PGManager τ) : Prop where
  waiting : w'.waiting = none
  archive : ∃ success, w'.cur_procs = (w.cur_procs.update_active_processes success).archive_active ∧
    ∀ p ∈ running_procs, ∃ c, (p, c) ∈ success
  truth : ∀ p c, (p, some c) ∈ w'.cur_procs.inactive_processes → Exited w'.workers p c

/-- **A wait.**  It ends with all workers archived, if they have all exited; else, if its time is
limited, the next one follows. -/
theorem stopPhase_spec (deaths : ℕ → Death) (h : w.Sound)
    (hplace : w.place = .stopping phase running_procs msg) :
    ∃ workers, (∀ p ∈ running_procs, alive { w with workers := workers } p
        = (w.alive p && !(deaths p).done phase)) ∧
      ((∀ p ∈ running_procs, alive { w with workers := workers } p = false) →
        AllEnded w running_procs (stopPhase deaths w)) ∧
      ((∃ p ∈ running_procs, alive { w with workers := workers } p = true) → phase < 2 →
        stopPhase deaths w
          = { w with workers := workers, place := .stopping (phase + 1) running_procs msg }) := by
  have hl : ((running_procs.filter fun p => (deaths p).done phase).map fun p =>
      (PGAction.exits p (deaths p).ecode : PGAction τ))
      = ((running_procs.filter fun p => (deaths p).done phase).map fun p =>
        (p, (deaths p).ecode)).map fun d => PGAction.exits d.1 d.2 := by
    rw [List.map_map]
    rfl
  have hdead : stopPhase deaths w = exec (((running_procs.filter fun p => (deaths p).done phase).map
      fun p => PGAction.exits p (deaths p).ecode).foldl exec w) (.joined (running_procs.any
        (((running_procs.filter fun p => (deaths p).done phase).map fun p =>
          PGAction.exits p (deaths p).ecode).foldl exec w).alive)) := by
    unfold stopPhase
    rw [hplace]
  have hsound := h.foldl ((running_procs.filter fun p => (deaths p).done phase).map fun p =>
    PGAction.exits p (deaths p).ecode)
  rw [hl] at hdead hsound
  have halive := alive_exits (w := w) ((running_procs.filter fun p => (deaths p).done phase).map
    fun p => (p, (deaths p).ecode))
  obtain ⟨workers, hw₁⟩ := exits_frame (w := w) ((running_procs.filter fun p =>
    (deaths p).done phase).map fun p => (p, (deaths p).ecode))
  rw [hw₁] at hdead hsound halive
  have hplace₁ : PGManager.place { w with workers := workers } = .stopping phase running_procs msg :=
    hplace
  obtain ⟨-, hne, hknown⟩ := hsound.2.stopping _ _ _ hplace₁
  have hnodup := hsound.2.known.recorded.nodup
  refine ⟨workers, fun p hp => ?_, fun hall => ?_, fun hsome hphase => ?_⟩
  · rw [halive, List.map_map]
    congr 2
    rw [Bool.eq_iff_iff]
    simp [hp]
  · have hany : running_procs.any (alive { w with workers := workers }) = false :=
      List.any_eq_false.mpr fun p hp => by rw [hall p hp]; exact Bool.false_ne_true
    have hstatus : ∀ p ∈ running_procs, ∃ c, joinStatus workers false p = .success c :=
      fun p hp => joinStatus_of_not_alive (w := { w with workers := workers }) (hknown p hp)
        (hall p hp)
    have hanswered : (stopRequest phase running_procs msg).answered workers false = true := by
      unfold JoinListRequest.answered
      rw [if_neg Bool.false_ne_true]
      refine Bool.or_eq_true_iff.mpr (.inl (Bool.or_eq_true_iff.mpr (.inr ?_)))
      refine List.all_eq_true.mpr fun p hp => ?_
      obtain ⟨c, hc⟩ := hstatus p hp
      rw [hc]
      rfl
    have hend : stopPhase deaths w = idleReturn { w with
        workers := workers
        cur_procs := (w.cur_procs.update_active_processes (get_multi_join_success_puids
          (puidStatus workers false running_procs))).archive_active } msg := by
      rw [hdead, hany]
      unfold exec
      dsimp only
      rw [hplace]
      dsimp only
      rw [if_pos hanswered, idleJoined]
      dsimp only
      rw [multi_join_of_success phase msg hne hstatus]
    obtain ⟨hwait, hcur, hworkers⟩ := idleReturn_keeps (w := { w with
      workers := workers
      cur_procs := (w.cur_procs.update_active_processes (get_multi_join_success_puids
        (puidStatus workers false running_procs))).archive_active }) msg
    have hrec := (hsound.foldl [.joined false]).2.known.recorded
    have hstep : [PGAction.joined false].foldl exec { w with workers := workers }
        = stopPhase deaths w := by
      rw [hdead, hany]
      rfl
    rw [hstep] at hrec
    refine ⟨by rw [hend]; exact hwait, ⟨_, by rw [hend]; exact hcur, fun p hp => ?_⟩,
      fun p c hpc => hrec.truth p c (List.mem_append_right _ hpc)⟩
    obtain ⟨c, hc⟩ := hstatus p hp
    exact ⟨c, mem_success_puids.2 (List.mem_map.2 ⟨p, hp, by rw [hc]⟩)⟩
  · have hany : running_procs.any (alive { w with workers := workers }) = true :=
      List.any_eq_true.mpr hsome
    have hanswered : (stopRequest phase running_procs msg).answered workers true = true := by
      unfold JoinListRequest.answered stopRequest
      rw [if_pos rfl, if_pos hphase]
      rfl
    have hnot := hsound.2.not_joinedFails hplace₁ hanswered
    have hjoin : (stopRequest phase running_procs msg).multi_join
        (puidStatus workers true running_procs) = some none := by
      cases hres : (stopRequest phase running_procs msg).multi_join
          (puidStatus workers true running_procs) with
      | none => exact absurd (.inl hres) hnot
      | some res =>
        cases res with
        | none => rfl
        | some success =>
          -- one of the workers is running, and has no exit code
          obtain ⟨p, hp, hpalive⟩ := hsome
          obtain ⟨hsuccess, hlength⟩ := multi_join_eq_some rfl hres
          rw [hsuccess] at hlength
          obtain ⟨c, hc⟩ := exited_of_length hlength hp
          rw [Exited.not_alive (w := { w with workers := workers }) hc hnodup] at hpalive
          cases hpalive
    rw [hdead, hany]
    unfold exec
    dsimp only
    rw [hplace]
    dsimp only
    rw [if_pos hanswered, idleJoined]
    dsimp only
    rw [hjoin]
    dsimp only
    rw [if_pos hphase]

/-! ## The archive -/

/-- A worker whose exit code is recorded is no longer listed as running. -/
theorem not_running_of_recorded {h : PGProcessHistory} (hi : h.Indexed) (l : List (ℕ × ℤ)) {p : ℕ}
    {c : ℤ} (hp : (p, c) ∈ l) : (p, none) ∉ (h.update_active_processes l).active_processes := by
  induction l generalizing h with
  | nil => exact absurd hp List.not_mem_nil
  | cons pair rest ih =>
    obtain ⟨hstep, hu⟩ := hi.update pair
    rcases List.mem_cons.mp hp with rfl | hp
    · intro hmem
      have hmem' := (hstep.update_active_processes rest).2.mem_running hmem
      obtain ⟨i, hget⟩ := List.mem_iff_getElem?.1 hmem'
      obtain ⟨j, hj⟩ := List.mem_iff_getElem?.1 (hu.mem_running hmem')
      -- the place of the worker has the code
      have hidx := (hi.inverse p j).2 ⟨none, hj⟩
      obtain ⟨hlt, -⟩ := List.getElem?_eq_some_iff.1 hj
      have hself : (h.update (p, c)).active_processes[j]? = some (p, some c) := by
        rw [PGProcessHistory.update_of_some hidx]
        exact List.getElem?_set_self hlt
      rw [hstep.idx_eq hget hself, hself] at hget
      cases hget
    · exact ih hstep hp

theorem filter_puid {l : List (ℕ × Option ℤ)} (hnodup : (l.map Prod.fst).Nodup) {p : ℕ}
    {e : Option ℤ} (hp : (p, e) ∈ l) : l.filter (fun item => item.1 = p) = [(p, e)] := by
  induction l with
  | nil => exact absurd hp List.not_mem_nil
  | cons item l ih =>
    rw [List.map_cons, List.nodup_cons] at hnodup
    rcases List.mem_cons.mp hp with rfl | hp
    · rw [List.filter_cons_of_pos (by simp), List.filter_eq_nil_iff.mpr]
      intro item hitem heq
      exact hnodup.1 (List.mem_map.2 ⟨item, hitem, of_decide_eq_true heq⟩)
    · rw [List.filter_cons_of_neg, ih hnodup.2 hp]
      intro heq
      exact hnodup.1 (List.mem_map.2 ⟨_, hp, (of_decide_eq_true heq).symm⟩)

theorem AllEnded.archived (h : AllEnded w running_procs w') (hi : w.cur_procs.Indexed)
    (hrunning : ∀ p ∈ running_procs, (p, none) ∈ w.cur_procs.active_processes) :
    ∃ l, w'.cur_procs.inactive_processes = w.cur_procs.inactive_processes ++ l ∧
      ∀ p ∈ running_procs, p ∉ w'.cur_procs.active_processes.map Prod.fst ∧
        ∃ c, Exited w'.workers p c ∧ l.filter (fun item => item.1 = p) = [(p, some c)] := by
  obtain ⟨success, hcur, hall⟩ := h.archive
  obtain ⟨hi', hu⟩ := hi.update_active_processes success
  have hinactive : w'.cur_procs.inactive_processes = w.cur_procs.inactive_processes ++
      (w.cur_procs.update_active_processes success).active_processes := by
    rw [hcur, ← hu.inactive]
    rfl
  refine ⟨_, hinactive, fun p hp => ⟨by rw [hcur]; exact List.not_mem_nil, ?_⟩⟩
  have hnodup : ((w.cur_procs.update_active_processes success).active_processes.map
      Prod.fst).Nodup := by
    rw [List.nodup_iff_getElem?_ne_getElem?]
    intro i j hij hj heq
    rw [List.length_map] at hj
    rw [List.getElem?_map, List.getElem?_map, List.getElem?_eq_getElem hj,
      List.getElem?_eq_getElem (hij.trans hj)] at heq
    have hplaces : ∀ x y : ℕ × Option ℤ,
        (w.cur_procs.update_active_processes success).active_processes[i]? = some x →
        (w.cur_procs.update_active_processes success).active_processes[j]? = some y →
        x.1 = y.1 → i = j := by
      rintro ⟨p, e⟩ ⟨q, e'⟩ hx hy rfl
      exact hi'.idx_eq hx hy
    exact hij.ne (hplaces _ _ (List.getElem?_eq_getElem (hij.trans hj))
      (List.getElem?_eq_getElem hj) (Option.some.inj heq))
  obtain ⟨c, hc⟩ := hall p hp
  have hmem : p ∈ (w.cur_procs.update_active_processes success).active_processes.map Prod.fst := by
    rw [hu.puids]
    exact List.mem_map.2 ⟨_, hrunning p hp, rfl⟩
  obtain ⟨⟨q, e⟩, hitem, rfl⟩ := List.mem_map.1 hmem
  cases e with
  | none => exact absurd hitem (not_running_of_recorded hi success hc)
  | some c' =>
    exact ⟨c', h.truth q c' (by rw [hinactive]; exact List.mem_append_right _ hitem),
      filter_puid hnodup hitem⟩

/-- **Bringing workers down.**  In every state that a manager comes to in which `Idle.run` is
called, and however its workers end: it brings them down iff each that is running dies on SIGINT or
SIGTERM within the two waits. -/
theorem bringsDown_iff (puid : ℕ) (restart ignore_error_on_exit : Bool) (walltime : Option ℚ)
    (actions : List (PGAction τ)) (deaths : ℕ → Death) (w : PGManager τ)
    (hw : w = actions.foldl exec (init puid restart ignore_error_on_exit walltime))
    (msg : PGSignalMessage τ) (hplace : w.place = .run msg) (hidle : w.the_state.state = .idle) :
    w.BringsDown deaths ↔ ∀ p ∈ w.cur_procs.get_running_p_uids, w.alive p = true →
      (deaths p).done 1 = true := by
  constructor
  · intro hdown p hp halive
    by_contra hsurvives
    obtain ⟨phase, -, hkill⟩ := List.mem_flatMap.mp
      (hdown.kill ⟨p, hp, halive, Bool.eq_false_iff.mpr hsurvives⟩)
    exact sigkill_not_mem_kills phase hkill
  · intro hdone
    have hsound : w.Sound := hw ▸ hist_run puid restart ignore_error_on_exit walltime actions
    have hsound₀ : (w.exec .step).Sound := hsound.foldl [.step]
    have hkill : (∃ p ∈ w.cur_procs.get_running_p_uids, w.Survives deaths p) → False := by
      rintro ⟨p, hp, halive, hsurvives⟩
      rw [hdone p hp halive] at hsurvives
      cases hsurvives
    have hstep : w.exec .step = w.idleRun msg := by
      show w.runnerStep = _
      unfold runnerStep
      rw [hplace]
      dsimp only
      rw [hidle]
    have hrunning : ∀ p ∈ w.cur_procs.get_running_p_uids,
        (p, none) ∈ w.cur_procs.active_processes := fun p hp => mem_running_p_uids.1 hp
    have hi := hsound.2.known.recorded.indexed
    unfold idleRun at hstep
    by_cases hempty : w.cur_procs.get_running_p_uids.isEmpty = true
    · rw [if_pos hempty] at hstep
      obtain ⟨hwait, hcur, -⟩ := idleReturn_keeps (w := w) msg
      rw [← hstep] at hwait hcur
      have hdown : w.bringDown deaths = w.exec .step := by
        unfold bringDown
        simp only [stopPhase_of_not_waiting deaths hwait]
      refine ⟨fun hs => (hkill hs).elim, fun hmem => ?_, by rw [hdown]; exact hwait, [], ?_, ?_⟩
      · unfold waits at hmem
        simp only [stopPhase_of_not_waiting deaths hwait] at hmem
        simp [hwait] at hmem
      · rw [hdown, hcur, List.append_nil]
      · rw [List.isEmpty_iff.1 hempty]
        exact fun p hp => absurd hp List.not_mem_nil
    · rw [if_neg hempty] at hstep
      have hplace₀ : (w.exec .step).place = .stopping 0 w.cur_procs.get_running_p_uids msg := by
        rw [hstep]
      obtain ⟨workers, halive, hended, hagain⟩ := stopPhase_spec deaths hsound₀ hplace₀
      have hwait₀ : (w.exec .step).waiting = some 0 := by
        unfold waiting
        rw [hplace₀]
      by_cases hall : ∀ p ∈ w.cur_procs.get_running_p_uids,
          alive { w.exec .step with workers := workers } p = false
      · have hend := hended hall
        have hsame := stopPhase_of_not_waiting deaths hend.waiting
        have hdown : w.bringDown deaths = stopPhase deaths (w.exec .step) := by
          unfold bringDown
          rw [hsame, hsame]
        refine ⟨fun hs => (hkill hs).elim, fun hmem => ?_, by rw [hdown]; exact hend.waiting, ?_⟩
        · unfold waits at hmem
          simp [hsame, hend.waiting, hwait₀] at hmem
        · rw [hdown]
          rw [hstep] at hend ⊢
          exact hend.archived hi hrunning
      · push Not at hall
        obtain ⟨p, hp, hpalive⟩ := hall
        have hnext := hagain ⟨p, hp, by simpa using hpalive⟩ Nat.two_pos
        have hsound₁ : (stopPhase deaths (w.exec .step)).Sound := by
          have h := hsound₀.foldl ((w.cur_procs.get_running_p_uids.filter fun p =>
            (deaths p).done 0).map fun p => PGAction.exits p (deaths p).ecode)
          unfold stopPhase
          rw [hplace₀]
          exact h.foldl [.joined _]
        have hplace₁ : (stopPhase deaths (w.exec .step)).place
            = .stopping 1 w.cur_procs.get_running_p_uids msg := by
          rw [hnext]
        have hwait₁ : (stopPhase deaths (w.exec .step)).waiting = some 1 := by
          unfold waiting
          rw [hplace₁]
        obtain ⟨workers', halive', hended', -⟩ :=
          stopPhase_spec deaths hsound₁ hplace₁
        have hend := hended' fun p hp => by
          rw [halive' p hp, hnext]
          show (alive { w.exec .step with workers := workers } p && _) = false
          rw [halive p hp, hstep]
          show ((w.alive p && _) && _) = false
          cases halive₀ : w.alive p with
          | false => rfl
          | true => rw [hdone p hp halive₀, Bool.not_true, Bool.and_false]
        have hsame := stopPhase_of_not_waiting deaths hend.waiting
        have hdown : w.bringDown deaths
            = stopPhase deaths (stopPhase deaths (w.exec .step)) := by
          unfold bringDown
          rw [hsame]
        have hcur : (stopPhase deaths (w.exec .step)).cur_procs = w.cur_procs := by
          rw [hnext, hstep]
        refine ⟨fun hs => (hkill hs).elim, fun hmem => ?_, by rw [hdown]; exact hend.waiting, ?_⟩
        · unfold waits at hmem
          simp [hend.waiting, hwait₀, hwait₁] at hmem
        · rw [hdown]
          have harchived := hend.archived (by rw [hcur]; exact hi) (by rw [hcur]; exact hrunning)
          rw [hcur] at harchived
          exact harchived

/-- A group of two workers and a request to stop, up to `Idle.run`. -/
def stopRequested : List (PGAction ℕ) :=
  [.request 7 1 (.add_processes [(2, 20)]), .get, .step, .step, .request 7 2 .start, .get, .step,
    .created 5 [10, 11], .step, .step, .joinerStep 0, .request 7 3 (.stop 1), .get, .step]

/-- One worker dies on SIGINT at once, the other on SIGTERM. -/
theorem bringsDown_iff_two :
    (stopRequested.foldl exec (init 1 false true none)).BringsDown
      (fun p => if p = 10 then ⟨.sigint, 0, 0⟩ else ⟨.sigterm, 1, 15⟩) :=
  (bringsDown_iff 1 false true none stopRequested _ _ rfl
    { signal := .stop, p_uid := some 7, tag := some 3, payload := { patience := some 1 } }
    rfl rfl).mpr (by decide)

/-- A worker that dies on SIGKILL only is never sent it. -/
theorem not_bringsDown_stubborn :
    ¬ (stopRequested.foldl exec (init 1 false true none)).BringsDown
      fun _ => ⟨.sigkill, 2, 9⟩ := by
  intro hdown
  have hmem := hdown.kill ⟨10, by decide, by decide, by decide⟩
  exact absurd hmem (by decide)

end PGManager
