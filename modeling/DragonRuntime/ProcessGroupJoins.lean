/-
# That a join of a process group tells the truth

`Join` takes it that all workers have exited from the joiner thread, which is not alive any more.
All running workers are among those that the thread waits for, as it is a new thread that waits for
new workers; but the thread can end before all of them have exited, and a join can still be in hand
when `Running` finds that it has ended and starts new workers.
-/
import DragonRuntime.ProcessGroupReplies

namespace PGManager

variable {τ : Type} {w w' w₀ : PGManager τ} {workers : List (PGWorker τ)}

/-! ## The joiner thread -/

/-- The thread waits for all running workers, or is about to. -/
def Covers (workers : List (PGWorker τ)) (j : Joiner) : Prop :=
  j.phase = .starting ∨ ∀ v ∈ workers, v.ecode = none → v.puid ∈ j.active_puids

/-- The thread of the current state covers the workers. -/
def Watched (workers : List (PGWorker τ)) (joiners : List Joiner) (d : PGState τ) : Prop :=
  ∃ t j, d.joiner_thread = some t ∧ joiners[t]? = some j ∧ Covers workers j

/-- **Invariant.** -/
structure Watching (w : PGManager τ) : Prop where
  grouped : ∀ j ∈ w.joiners, j.g_uid ≠ none
  watched : w.the_state.state = .running ∨ w.the_state.state = .join ∨
    w.the_state.state = .idle ∧ w.the_state.g_uid ≠ none →
      Watched w.workers w.joiners w.the_state

variable {j : Joiner} {a : PGAction τ} {msg : PGSignalMessage τ}
  {payload : List (Option ℕ × PGReply)} {put_back : List JoinRequest}

theorem Covers.exits (h : Covers workers j) (puid : ℕ) (ecode : ℤ) :
    Covers (workers.map fun v =>
      if v.puid = puid ∧ v.ecode = none then { v with ecode := some ecode } else v) j := by
  refine h.imp id fun h v hv hnone => ?_
  obtain ⟨v', hv', rfl⟩ := List.mem_map.1 hv
  split at hnone
  next => exact nomatch hnone
  next hne =>
    rw [if_neg hne]
    exact h v' hv' hnone

/-- A thread that goes on, and still covers the workers. -/
theorem Watching.setJoiner (hw : w.Watching) (i : ℕ) {j' : Joiner} (hi : w.joiners[i]? = some j)
    (hjoiners : w'.joiners = w.joiners.set i j') (hgroup : j'.g_uid = j.g_uid)
    (hcovers : Covers w.workers j → Covers w.workers j') (hstate : w'.the_state = w.the_state)
    (hworkers : w'.workers = w.workers) : w'.Watching where
  grouped x hx := by
    rw [hjoiners] at hx
    rcases List.mem_or_eq_of_mem_set hx with hx | rfl
    · exact hw.grouped x hx
    · rw [hgroup]
      exact hw.grouped j (List.mem_of_getElem? hi)
  watched h := by
    rw [hstate] at h ⊢
    rw [hworkers, hjoiners]
    obtain ⟨t, x, ht, hx, hcover⟩ := hw.watched h
    by_cases heq : i = t
    · obtain rfl := heq
      obtain rfl := Option.some.inj (hi.symm.trans hx)
      refine ⟨i, j', ht, ?_, hcovers hcover⟩
      exact List.getElem?_set_self (List.getElem?_eq_some_iff.1 hi).1
    · exact ⟨t, x, ht, (List.getElem?_set_ne heq).trans hx, hcover⟩

/-- Another state with the same thread. -/
theorem Watching.goes (hw : w.Watching) {m : PGSignalMessage τ} {d : PGState τ}
    (hworkers : w₀.workers = w.workers) (hjoiners : w₀.joiners = w.joiners)
    (hd : d.state = .running ∨ d.state = .join ∨ d.state = .idle ∧ d.g_uid ≠ none →
      (w.the_state.state = .running ∨ w.the_state.state = .join ∨
        w.the_state.state = .idle ∧ w.the_state.g_uid ≠ none) ∧
          d.joiner_thread = w.the_state.joiner_thread) : (w₀.goes m d).Watching where
  grouped := by
    show ∀ j ∈ w₀.joiners, j.g_uid ≠ none
    rw [hjoiners]
    exact hw.grouped
  watched h := by
    obtain ⟨hstate, heq⟩ := hd h
    obtain ⟨t, j, ht, hj, hcovers⟩ := hw.watched hstate
    refine ⟨t, j, heq.trans ht, ?_, ?_⟩
    · show w₀.joiners[t]? = some j
      rw [hjoiners]
      exact hj
    · show Covers w₀.workers j
      rw [hworkers]
      exact hcovers

theorem Watching.frame (hw : w.Watching) (hstate : w'.the_state = w.the_state)
    (hworkers : w'.workers = w.workers) (hjoiners : w'.joiners = w.joiners) : w'.Watching where
  grouped := by
    rw [hjoiners]
    exact hw.grouped
  watched := by
    rw [hstate, hworkers, hjoiners]
    exact hw.watched

theorem Watching.fail (hw : w.Watching) (hjoiners : w₀.joiners = w.joiners) (valid : Bool) :
    (w₀.fail valid).Watching where
  grouped := by
    rw [PGManager.fail, finish_joiners]
    show ∀ j ∈ w₀.joiners, j.g_uid ≠ none
    rw [hjoiners]
    exact hw.grouped
  watched h := by
    rw [fail_the_state] at h
    rcases h with h | h | ⟨h, -⟩ <;> cases h

/-- **Step lemma.** -/
theorem Watching.move (hw : w.Watching) (hhist : w.Hist) (hmove : Move w a w') : w'.Watching := by
  cases hmove with
  | stutter => exact hw
  | request => exact hw.frame rfl rfl rfl
  | tick => exact hw.frame rfl rfl rfl
  | exits puid ecode =>
    refine ⟨hw.grouped, fun h => ?_⟩
    obtain ⟨t, j, ht, hj, hcovers⟩ := hw.watched h
    exact ⟨t, j, ht, hj, hcovers.exits puid ecode⟩
  | take _ _ _ htaken =>
    obtain ⟨-, hworkers, hjoiners⟩ := htaken.frame
    exact hw.frame htaken.the_state hworkers hjoiners
  | refuse _ _ _ htaken =>
    obtain ⟨-, hworkers, hjoiners⟩ := htaken.frame
    refine hw.frame ?_ ?_ ?_
    · rw [finish_the_state, htaken.the_state]
    · rw [finish_workers, hworkers]
    · rw [finish_joiners, hjoiners]
  | addTemplates =>
    refine hw.goes rfl rfl ?_
    rintro (h | h | ⟨-, h⟩)
    · exact nomatch h
    · exact nomatch h
    · exact absurd rfl h
  | stopping => exact hw.frame rfl rfl rfl
  | stopAgain => exact hw.frame rfl rfl rfl
  | idleStart _ _ hstopped =>
    refine hw.goes hstopped.workers hstopped.joiners ?_
    rintro (h | h | ⟨h, -⟩) <;> exact nomatch h
  | idleJoin _ _ hstopped _ hgroup =>
    refine hw.goes hstopped.workers hstopped.joiners fun _ => ⟨?_, rfl⟩
    exact Or.inr (Or.inr ⟨hstopped.state, hgroup⟩)
  | idleStays _ _ hstopped =>
    refine hw.frame ?_ ?_ ?_
    · rw [succeed, finish_the_state]
      exact hstopped.the_state
    · rw [succeed, finish_workers]
      exact hstopped.workers
    · rw [succeed, finish_joiners]
      exact hstopped.joiners
  | created =>
    refine ⟨hw.grouped, ?_⟩
    rintro (h | h | ⟨h, -⟩) <;> exact nomatch h
  | makeJoiner _ _ hstate =>
    refine ⟨fun j hj => ?_, fun _ => ⟨w.joiners.length, _, rfl, List.getElem?_concat_length,
      Or.inl rfl⟩⟩
    rcases List.mem_append.1 hj with hj | hj
    · exact hw.grouped j hj
    · obtain rfl := List.mem_singleton.1 hj
      exact hhist.grouped.g_uid (Or.inl hstate)
  | runStop _ _ hstate => exact hw.goes rfl rfl fun _ => ⟨Or.inl hstate, rfl⟩
  | runJoin _ _ hstate => exact hw.goes rfl rfl fun _ => ⟨Or.inl hstate, rfl⟩
  | runJoinFinal _ _ hstate => exact hw.goes rfl rfl fun _ => ⟨Or.inl hstate, rfl⟩
  | runStopMaintaining _ _ hstate => exact hw.goes rfl rfl fun _ => ⟨Or.inl hstate, rfl⟩
  | runStays =>
    refine hw.frame ?_ ?_ ?_
    · rw [succeed, finish_the_state]
      rfl
    · rw [succeed, finish_workers]
      rfl
    · rw [succeed, finish_joiners]
      rfl
  | runExit _ _ hstate => exact hw.goes rfl rfl fun _ => ⟨Or.inl hstate, rfl⟩
  | runRestart => exact hw.frame rfl rfl rfl
  | added _ _ _ _ _ _ h hadds =>
    obtain rfl := hadds.eq
    refine ⟨hw.grouped, ?_⟩
    rintro (h | h | ⟨h, -⟩) <;> exact nomatch h
  | addedFails _ _ _ _ _ _ hadds hreplace =>
    exact absurd hreplace (hhist.replace_ne_none hadds)
  | joinBegin => exact ⟨hw.grouped, hw.watched⟩
  | joinItem => exact ⟨hw.grouped, hw.watched⟩
  | joinEnd _ _ _ _ hstate =>
    exact hw.goes rfl rfl fun _ => ⟨Or.inr (Or.inl hstate), rfl⟩
  | joinedFails _ _ _ _ hplace hanswered hjoin =>
    exact absurd hjoin (hhist.not_joinedFails hplace hanswered)
  | raises => exact hw.fail rfl true
  | joinerMoves i j _ hi hj =>
    have hgroup := hw.grouped j (List.mem_of_getElem? hi)
    have hrunning : ∀ v ∈ w.workers, v.ecode = none → v.puid ∈ w.cur_procs.get_running_p_uids :=
      fun v hv hnone => mem_running_p_uids.2 (hhist.known.recorded.running v hv hnone)
    cases hj with
    | empty _ hnone =>
      refine hw.setJoiner i hi rfl rfl (fun _ => Or.inr fun v hv hecode => ?_) rfl rfl
      have hmem := hrunning v hv hecode
      rw [hnone.resolve_left hgroup] at hmem
      exact absurd hmem List.not_mem_nil
    | snapshot => exact hw.setJoiner i hi rfl rfl (fun _ => Or.inr hrunning) rfl rfl
    | again _ hphase | returned _ hphase | raised _ hphase =>
      refine hw.setJoiner i hi rfl rfl (fun h => Or.inr (h.resolve_left ?_)) rfl rfl
      rw [hphase]
      exact nofun
  | joinerRecord i _ _ hi hphase | joinerEnds i _ _ hi hphase =>
    refine hw.setJoiner i hi rfl rfl (fun h => Or.inr (h.resolve_left ?_)) rfl rfl
    rw [hphase]
    exact nofun

theorem phase_of_isAlive {t : ℕ} (hdead : w.isAlive = false)
    (ht : w.the_state.joiner_thread = some t) (hj : w.joiners[t]? = some j) : j.phase = .ended := by
  rw [isAlive, ht, Option.bind_some, hj, Option.any_some] at hdead
  by_contra hne
  rw [decide_eq_true hne] at hdead
  exact nomatch hdead

/-- Why the wait of a joiner thread ends while one of its workers is running: it was to end at the
first exit, as with `restart`, or the walltime is over, or a worker has exited badly and errors are
not ignored. -/
theorem joinerAnswered_early {i p : ℕ} {flag timedOut : Bool} (hi : w.joiners[i]? = some j)
    (hphase : j.phase = .waiting flag) (hends : w.joinerAnswered i timedOut ≠ w)
    (hp : p ∈ j.active_puids) (hrunning : joinStatus w.workers false p = .pending) :
    flag = true ∨ timedOut = true ∧ w.walltime ≠ none ∨ w.ignore_error_on_exit = false ∧
      get_multi_join_failure_puids (puidStatus w.workers false j.active_puids) ≠ [] := by
  have hanswered : (w.joinerRequest j flag).answered w.workers timedOut = true := by
    by_contra hnot
    apply hends
    simp only [joinerAnswered, hi, hphase, if_neg hnot]
  unfold JoinListRequest.answered at hanswered
  cases timedOut with
  | true => exact Or.inr (Or.inl ⟨rfl, Option.isSome_iff_ne_none.1 hanswered⟩)
  | false =>
    simp only [Bool.false_eq_true, if_false, Bool.or_eq_true, Bool.and_eq_true,
      Bool.not_eq_true', List.isEmpty_eq_false_iff, List.all_eq_true] at hanswered
    rcases hanswered with (⟨hbad, hfailures⟩ | hall) | ⟨hfirst, -⟩
    · exact Or.inr (Or.inr ⟨Bool.not_eq_true' _ ▸ hbad, hfailures⟩)
    · exact absurd hrunning (of_decide_eq_true (hall p hp))
    · exact Or.inl (by simpa [joinerRequest] using hfirst)

/-! ## What a join has to find -/

/-- The condition: while `Join` looks at a pending request, a joiner thread that has ended has not
ended before the workers that it was waiting for; and `Running` does not find that there are workers
to restart while a join is in hand. -/
def Honest (w : PGManager τ) : PGAction τ → Prop
  | .step =>
    (∀ payload put_back msg, w.place = .joining payload put_back msg →
      w.the_state.pending_replies ≠ [] → w.isAlive = false → ∀ t j,
        w.the_state.joiner_thread = some t → w.joiners[t]? = some j →
          ∀ p ∈ j.active_puids, ∃ c, Exited w.workers p c) ∧
      (∀ msg, w.place = .run msg → w.the_state.state = .running → msg.signal = .readyToRun →
        w.isAlive = false → w.restart = true → w.client_msg.signal ≠ .join)
  | _ => True

/-- Where a join can be: the message that is to be the last one says that there is no reply, until
all workers have exited. -/
structure Skipping (w : PGManager τ) : Prop where
  run : ∀ msg, w.place = .run msg →
    w.the_state.state = .idle ∧ msg.signal ∉ [PGSignals.start, .stop, .close] ∨
      w.the_state.state = .join ∧ msg.skip_reply = true ∨
        w.the_state.state = .running ∧
          (msg.signal = .join ∨ msg.signal = .readyToRun ∧ msg.skip_reply = true)
  stopping : ∀ phase running_procs msg, w.place = .stopping phase running_procs msg →
    msg.signal ∉ [PGSignals.start, .stop, .close]
  joining : ∀ payload put_back msg, w.place = .joining payload put_back msg →
    msg.skip_reply = true
  adding : ∀ templates gone_procs msg, w.place ≠ .adding templates gone_procs msg

theorem skipping_of_run (hplace : w.place = .run msg)
    (h : w.the_state.state = .idle ∧ msg.signal ∉ [PGSignals.start, .stop, .close] ∨
      w.the_state.state = .join ∧ msg.skip_reply = true ∨
        w.the_state.state = .running ∧
          (msg.signal = .join ∨ msg.signal = .readyToRun ∧ msg.skip_reply = true)) :
    w.Skipping := by
  refine ⟨fun msg' h' => ?_, fun _ _ _ h' => ?_, fun _ _ _ h' => ?_, fun _ _ _ h' => ?_⟩
  · obtain rfl := PGPlace.run.inj (hplace.symm.trans h')
    exact h
  all_goals exact nomatch hplace.symm.trans h'

theorem skipping_of_stopping {phase : ℕ} {running_procs : List ℕ}
    (hplace : w.place = .stopping phase running_procs msg)
    (h : msg.signal ∉ [PGSignals.start, .stop, .close]) : w.Skipping := by
  refine ⟨fun _ h' => ?_, fun _ _ msg' h' => ?_, fun _ _ _ h' => ?_, fun _ _ _ h' => ?_⟩
  · exact nomatch hplace.symm.trans h'
  · obtain ⟨-, -, rfl⟩ := PGPlace.stopping.inj (hplace.symm.trans h')
    exact h
  all_goals exact nomatch hplace.symm.trans h'

theorem skipping_of_joining (hplace : w.place = .joining payload put_back msg)
    (h : msg.skip_reply = true) : w.Skipping := by
  refine ⟨fun _ h' => ?_, fun _ _ _ h' => ?_, fun _ _ msg' h' => ?_, fun _ _ _ h' => ?_⟩
  · exact nomatch hplace.symm.trans h'
  · exact nomatch hplace.symm.trans h'
  · obtain ⟨-, -, rfl⟩ := PGPlace.joining.inj (hplace.symm.trans h')
    exact h
  · exact nomatch hplace.symm.trans h'

theorem skipping_of_ended (hplace : w.place = .ready ∨ w.place = .left) : w.Skipping := by
  refine ⟨fun _ h' => ?_, fun _ _ _ h' => ?_, fun _ _ _ h' => ?_, fun _ _ _ h' => ?_⟩
  all_goals rcases hplace with hplace | hplace <;> exact nomatch hplace.symm.trans h'

theorem Skipping.frame (h : w.Skipping) (hplace : w'.place = w.place)
    (hstate : w'.the_state = w.the_state) : w'.Skipping where
  run msg h' := by
    rw [hstate]
    exact h.run msg (hplace.symm.trans h')
  stopping phase running_procs msg h' :=
    h.stopping phase running_procs msg (hplace.symm.trans h')
  joining payload put_back msg h' := h.joining payload put_back msg (hplace.symm.trans h')
  adding templates gone_procs msg h' := h.adding templates gone_procs msg (hplace.symm.trans h')

theorem Skipping.stopped (h : w.Skipping) (hstopped : Stopped w msg w₀) :
    msg.signal ∉ [PGSignals.start, .stop, .close] := by
  cases hstopped with
  | quiet hplace hstate =>
    rcases h.run msg hplace with ⟨-, h⟩ | ⟨hstate', -⟩ | ⟨hstate', -⟩
    · exact h
    · exact nomatch hstate.symm.trans hstate'
    · exact nomatch hstate.symm.trans hstate'
  | joined _ _ _ _ hplace => exact h.stopping _ _ msg hplace

theorem Skipping.running (h : w.Skipping) (hplace : w.place = .run msg)
    (hstate : w.the_state.state = .running) :
    msg.signal = .join ∨ msg.signal = .readyToRun ∧ msg.skip_reply = true := by
  rcases h.run msg hplace with ⟨hstate', -⟩ | ⟨hstate', -⟩ | ⟨-, h⟩
  · exact nomatch hstate.symm.trans hstate'
  · exact nomatch hstate.symm.trans hstate'
  · exact h

theorem Skipping.join (h : w.Skipping) (hplace : w.place = .run msg)
    (hstate : w.the_state.state = .join) : msg.skip_reply = true := by
  rcases h.run msg hplace with ⟨hstate', -⟩ | ⟨-, h⟩ | ⟨hstate', -⟩
  · exact nomatch hstate.symm.trans hstate'
  · exact h
  · exact nomatch hstate.symm.trans hstate'

theorem Skipping.state_ne (h : w.Skipping) (hplace : w.place = .run msg) :
    w.the_state.state ∉ [BaseState.start, .makeJoiner, .addTemplates] := by
  rcases h.run msg hplace with ⟨hstate, -⟩ | ⟨hstate, -⟩ | ⟨hstate, -⟩ <;> rw [hstate] <;> decide

/-- `Running` looks at the joiner thread again. -/
theorem Skipping.readyToRun (h : w.Skipping) (hplace : w.place = .run msg)
    (hstate : w.the_state.state = .running)
    (hsignal : msg.signal = .readyToRun ∨ msg.signal = .joinFinal) :
    msg.signal = .readyToRun ∧ msg.skip_reply = true := by
  rcases h.running hplace hstate with heq | h
  · rw [heq] at hsignal
    exact hsignal.elim nofun nofun
  · exact h

/-- **Step lemma.**  A join that finds what it has to find. -/
theorem Skipping.move (hskip : w.client_msg.signal = .join → w.Skipping) (hw : w.Hist)
    (hplaced : w.Placed) (hhonest : Honest w a) (hmove : Move w a w')
    (hjoin : w'.client_msg.signal = .join) : w'.Skipping := by
  cases hmove with
  | stutter => exact hskip hjoin
  | request => exact (hskip hjoin).frame rfl rfl
  | tick => exact (hskip hjoin).frame rfl rfl
  | exits => exact (hskip hjoin).frame rfl rfl
  | take msg w₀ hplace htaken hallowed =>
    have hsignal : msg.signal = .join := by
      rw [show w₀.client_msg = msg from htaken.client_msg] at hjoin
      exact hjoin
    refine skipping_of_run rfl ?_
    show w₀.the_state.state = .idle ∧ _ ∨ w₀.the_state.state = .join ∧ _ ∨
      w₀.the_state.state = .running ∧ _
    rw [htaken.the_state]
    rcases hplaced.ready hplace with h | h | h
    · exact Or.inl ⟨h, by rw [hsignal]; decide⟩
    · exact Or.inr (Or.inr ⟨h, Or.inl hsignal⟩)
    · rw [h, hsignal] at hallowed
      exact absurd hallowed (by decide)
  | refuse => exact skipping_of_ended (finish_place _ _ _)
  | addTemplates _ hplace hstate =>
    exact absurd (by rw [hstate]; decide) ((hskip hjoin).state_ne hplace)
  | stopping msg hplace hstate =>
    rcases (hskip hjoin).run msg hplace with ⟨-, h⟩ | ⟨hstate', -⟩ | ⟨hstate', -⟩
    · exact skipping_of_stopping rfl h
    · exact nomatch hstate.symm.trans hstate'
    · exact nomatch hstate.symm.trans hstate'
  | stopAgain _ _ _ msg hplace =>
    exact skipping_of_stopping rfl ((hskip hjoin).stopping _ _ msg hplace)
  | idleStart _ _ hstopped hsignal =>
    have hjoin : w.client_msg.signal = .join := by
      rw [← hstopped.client_msg]
      exact hjoin
    have h := (hskip hjoin).stopped hstopped
    rw [hsignal] at h
    exact absurd (by decide) h
  | idleJoin _ _ hstopped hsignal =>
    have hjoin : w.client_msg.signal = .join := by
      rw [← hstopped.client_msg]
      exact hjoin
    have h := (hskip hjoin).stopped hstopped
    rcases hsignal with hsignal | hsignal <;> rw [hsignal] at h <;> exact absurd (by decide) h
  | idleStays => exact skipping_of_ended (finish_place _ _ _)
  | created _ _ _ hplace hstate =>
    exact absurd (by rw [hstate]; decide) ((hskip hjoin).state_ne hplace)
  | makeJoiner _ hplace hstate =>
    exact absurd (by rw [hstate]; decide) ((hskip hjoin).state_ne hplace)
  | runStop _ hplace hstate hsignal =>
    rcases (hskip hjoin).running hplace hstate with h | ⟨h, -⟩ <;>
      rcases hsignal with hsignal | hsignal <;> exact nomatch hsignal.symm.trans h
  | runJoin => exact skipping_of_run rfl (Or.inr (Or.inl ⟨rfl, rfl⟩))
  | runJoinFinal _ _ hstate =>
    have hgroup := hw.grouped.g_uid (Or.inr (Or.inl hstate))
    exact skipping_of_run rfl (Or.inr (Or.inl ⟨rfl, decide_eq_true hgroup⟩))
  | runStopMaintaining _ hplace hstate hsignal =>
    rcases (hskip hjoin).running hplace hstate with h | ⟨h, -⟩ <;>
      exact nomatch hsignal.symm.trans h
  | runStays => exact skipping_of_ended (finish_place _ _ _)
  | runExit => exact skipping_of_run rfl (Or.inl ⟨rfl, exitSignal_not_mem w⟩)
  | runRestart msg hplace hstate hsignal hdead hrestart =>
    obtain ⟨hready, -⟩ := (hskip hjoin).readyToRun hplace hstate hsignal
    exact absurd hjoin (hhonest.2 msg hplace hstate hready hdead hrestart)
  | added _ _ _ _ _ _ _ hadds =>
    obtain rfl := hadds.eq
    exact absurd hadds.place ((hskip hjoin).adding _ _ _)
  | addedFails _ _ _ _ _ _ hadds hreplace =>
    exact absurd hreplace (hw.replace_ne_none hadds)
  | joinBegin _ hplace hstate => exact skipping_of_joining rfl ((hskip hjoin).join hplace hstate)
  | joinItem _ _ msg _ _ _ _ hplace =>
    exact skipping_of_joining rfl ((hskip hjoin).joining _ _ msg hplace)
  | joinEnd _ _ msg hplace =>
    have h := (hskip hjoin).joining _ _ msg hplace
    exact skipping_of_run rfl (Or.inr (Or.inr ⟨rfl, Or.inr ⟨rfl, h⟩⟩))
  | joinedFails => exact skipping_of_ended (Or.inr (fail_place _ _))
  | raises => exact skipping_of_ended (Or.inr (fail_place _ _))
  | joinerMoves => exact (hskip hjoin).frame rfl rfl
  | joinerRecord => exact (hskip hjoin).frame rfl rfl
  | joinerEnds => exact (hskip hjoin).frame rfl rfl

/-! ## What is put out -/

/-- A reply says the truth: that a join is done is said only when all workers have exited, and that
it has timed out only after its deadline. -/
structure Truthful (w : PGManager τ) (reply : PGReply) : Prop where
  success : reply.signal = .success →
    (∃ (r : ℕ) (t : ℚ) (m : PGSignalMessage τ), reply.req = some r ∧ w.served[r]? = some (t, m) ∧
      m.signal = .join) → AllExited w.workers
  timeout : reply.signal = .joinTimeout →
    ∃ (r : ℕ) (t : ℚ) (m : PGSignalMessage τ) (d : ℚ), reply.req = some r ∧
      w.served[r]? = some (t, m) ∧ m.signal = .join ∧ m.payload.timeout = some d ∧ t + d < w.now

/-- The replies that a step puts out say the truth. -/
def AnswersTruly (w w' : PGManager τ) : Prop :=
  ∃ new, w'.state_outq = w.state_outq ++ new ∧ ∀ item ∈ new, Truthful w' item.2

/-- **Invariant.** -/
structure Sincere (w : PGManager τ) : Prop where
  hist : w.Hist
  held : w.Held
  watching : w.Watching
  skipping : w.client_msg.signal = .join → w.Skipping
  done : ∀ payload put_back msg, w.place = .joining payload put_back msg →
    ∀ item ∈ payload, item.2.signal = .success → AllExited w.workers

/-- All workers have exited, when a pending request is answered so. -/
theorem Sincere.exited (hw : w.Sincere) (hhonest : Honest w .step)
    (hplace : w.place = .joining payload put_back msg) (hstate : w.the_state.state = .join)
    (hpending : w.the_state.pending_replies ≠ []) (hdead : w.isAlive = false) :
    AllExited w.workers := by
  obtain ⟨t, j, ht, hj, hcovers⟩ := hw.watching.watched (Or.inr (Or.inl hstate))
  have hended := phase_of_isAlive hdead ht hj
  have hcovers := hcovers.resolve_left fun h => nomatch hended.symm.trans h
  intro v hv hnone
  obtain ⟨c, hc⟩ := hhonest.1 payload put_back msg hplace hpending hdead t j ht hj v.puid
    (hcovers v hv hnone)
  exact hc.ecode_ne_none hw.hist.known.recorded.nodup hv hnone

theorem answersTruly_of_eq (h : w'.state_outq = w.state_outq) : AnswersTruly w w' :=
  ⟨[], h.trans (List.append_nil _).symm, fun _ h => absurd h List.not_mem_nil⟩

/-- A state goes on, with a message that has no reply with it. -/
theorem answersTruly_goes {m : PGSignalMessage τ} {d : PGState τ}
    (hreplies : m.payload.replies = []) (houtq : w₀.state_outq = w.state_outq) :
    AnswersTruly w (w₀.goes m d) := by
  refine answersTruly_of_eq ?_
  show w₀.state_outq ++ m.payload.replies = _
  rw [hreplies, List.append_nil, houtq]

theorem answersTruly_finish (valid : Bool) {reply : PGReply} (hsuccess : reply.signal ≠ .success)
    (htimeout : reply.signal ≠ .joinTimeout) (houtq : w₀.state_outq = w.state_outq) :
    AnswersTruly w (w₀.finish valid reply) := by
  rcases finish_state_outq w₀ valid reply with h | ⟨h, -⟩
  · exact answersTruly_of_eq (h.trans houtq)
  · refine ⟨_, h.trans (by rw [houtq]), fun item hitem => ?_⟩
    obtain rfl := List.mem_singleton.1 hitem
    exact ⟨fun h => absurd h hsuccess, fun h => absurd h htimeout⟩

/-- **Step lemma.** -/
theorem Sincere.answersTruly (hw : w.Sincere) (hmove : Move w a w') : AnswersTruly w w' := by
  cases hmove with
  | stutter => exact answersTruly_of_eq rfl
  | request => exact answersTruly_of_eq rfl
  | tick => exact answersTruly_of_eq rfl
  | exits => exact answersTruly_of_eq rfl
  | take _ _ _ htaken => exact answersTruly_of_eq htaken.state_outq
  | refuse _ _ _ htaken =>
    exact answersTruly_finish _ nofun nofun htaken.state_outq
  | addTemplates => exact answersTruly_goes rfl rfl
  | stopping => exact answersTruly_of_eq rfl
  | stopAgain => exact answersTruly_of_eq rfl
  | idleStart _ _ hstopped => exact answersTruly_goes rfl hstopped.state_outq
  | idleJoin _ _ hstopped => exact answersTruly_goes rfl hstopped.state_outq
  | idleStays msg w₀ hstopped =>
    -- `Idle` has brought all workers down
    obtain ⟨-, -, hworkers, hall⟩ := hw.hist.stopped hstopped
    have hall' : AllExited (w₀.receive
        { signal := .success, close := msg.signal = .close || msg.close }).succeed.workers := by
      rw [succeed, finish_workers]
      show AllExited w₀.workers
      rw [hworkers]
      exact hall
    rcases succeed_receive_state_outq w₀
        (show ({ signal := .success, close := msg.signal = .close || msg.close } :
          PGSignalMessage τ).payload.replies = [] from rfl) with h | ⟨h, -⟩
    · exact answersTruly_of_eq (h.trans hstopped.state_outq)
    · refine ⟨_, h.trans (by rw [hstopped.state_outq]), fun item hitem => ?_⟩
      obtain rfl := List.mem_singleton.1 hitem
      exact ⟨fun _ _ => hall', nofun⟩
  | created => exact answersTruly_goes rfl rfl
  | makeJoiner => exact answersTruly_goes rfl rfl
  | runStop msg hplace => exact answersTruly_goes (hw.held.run msg hplace) rfl
  | runJoin msg hplace => exact answersTruly_goes (hw.held.run msg hplace) rfl
  | runJoinFinal msg hplace => exact answersTruly_goes (hw.held.run msg hplace) rfl
  | runStopMaintaining msg hplace => exact answersTruly_goes (hw.held.run msg hplace) rfl
  | runStays msg hplace hstate hsignal =>
    rcases succeed_receive_state_outq w
        (show ({ signal := .success, skip_reply := msg.skip_reply } :
          PGSignalMessage τ).payload.replies = [] from rfl) with h | ⟨h, hskip, -⟩
    · exact answersTruly_of_eq h
    · refine ⟨_, h, fun item hitem => ?_⟩
      obtain rfl := List.mem_singleton.1 hitem
      refine ⟨fun _ hjoin => ?_, nofun⟩
      -- a join in hand would not be answered here
      obtain ⟨r, t, m, hreq, hserved, hjoin⟩ := hjoin
      obtain ⟨t', -, hcur⟩ := hw.held.cur r hreq
      rw [succeed, finish_served] at hserved
      obtain ⟨-, rfl⟩ := Prod.mk.inj (Option.some.inj (hserved.symm.trans hcur))
      obtain ⟨-, hskip'⟩ := (hw.skipping hjoin).readyToRun hplace hstate hsignal
      exact nomatch hskip.symm.trans hskip'
  | runExit msg hplace => exact answersTruly_goes (hw.held.run msg hplace) rfl
  | runRestart => exact answersTruly_of_eq rfl
  | added _ msg _ _ _ _ _ hadds =>
    obtain rfl := hadds.eq
    exact answersTruly_goes (hw.held.adding _ _ msg hadds.place) rfl
  | addedFails _ _ _ _ _ _ hadds =>
    obtain rfl := hadds.eq
    exact answersTruly_finish _ nofun nofun rfl
  | joinBegin => exact answersTruly_of_eq rfl
  | joinItem => exact answersTruly_of_eq rfl
  | joinEnd payload put_back msg hplace =>
    refine ⟨payload, rfl, fun item hitem => ⟨fun hsuccess _ => ?_, fun htimeout => ?_⟩⟩
    · exact hw.done payload put_back msg hplace item hitem hsuccess
    · obtain ⟨r, t, m, hreq, hr, -, -, hlate⟩ := hw.held.payload payload put_back msg hplace item
        hitem
      obtain ⟨hjoin, d, hd, hlt⟩ := hlate htimeout
      exact ⟨r, t, m, d, hreq, hr, hjoin, hd, hlt⟩
  | joinedFails => exact answersTruly_finish _ nofun nofun rfl
  | raises => exact answersTruly_finish _ nofun nofun rfl
  | joinerMoves => exact answersTruly_of_eq rfl
  | joinerRecord => exact answersTruly_of_eq rfl
  | joinerEnds => exact answersTruly_of_eq rfl

/-- What `Join` has for a request that it has looked at. -/
theorem Sincere.inspected (hw : w.Sincere) (hhonest : Honest w .step)
    {payload' : List (Option ℕ × PGReply)} {put_back' : List JoinRequest} {item : JoinRequest}
    {rest : List JoinRequest} (hplace : w.place = .joining payload put_back msg)
    (hstate : w.the_state.state = .join) (hpending : w.the_state.pending_replies = item :: rest)
    (hinspected : Inspected w item payload put_back payload' put_back') :
    ∀ x ∈ payload', x.2.signal = .success → AllExited w.workers := by
  have hdone := hw.done payload put_back msg hplace
  cases hinspected with
  | timeout =>
    intro x hx hsuccess
    rcases List.mem_append.1 hx with hx | hx
    · exact hdone x hx hsuccess
    · obtain rfl := List.mem_singleton.1 hx
      exact nomatch hsuccess
  | back => exact hdone
  | success hdead =>
    intro _ _ _
    refine hw.exited hhonest hplace hstate ?_ hdead
    rw [hpending]
    exact List.cons_ne_nil item rest

/-- **Step lemma.** -/
theorem Sincere.move (hw : w.Sincere) (hplaced : w.Placed) (hhonest : Honest w a)
    (hmove : Move w a w') : w'.Sincere where
  hist := hw.hist.move hplaced hmove
  held := hw.held.move hmove
  watching := hw.watching.move hw.hist hmove
  skipping := Skipping.move hw.skipping hw.hist hplaced hhonest hmove
  done := by
    have hended : ∀ {w₁ : PGManager τ}, w₁.place = .ready ∨ w₁.place = .left →
        ∀ payload put_back msg, w₁.place = .joining payload put_back msg →
          ∀ item ∈ payload, item.2.signal = .success → AllExited w₁.workers := by
      intro w₁ hplace payload put_back msg h
      rcases hplace with hplace | hplace <;> exact nomatch hplace.symm.trans h
    cases hmove with
    | stutter => exact hw.done
    | request => exact hw.done
    | tick => exact hw.done
    | exits puid ecode =>
      intro payload put_back msg hplace item hitem hsuccess
      exact (hw.done payload put_back msg hplace item hitem hsuccess).exits puid ecode
    | refuse => exact hended (finish_place _ _ _)
    | idleStays => exact hended (finish_place _ _ _)
    | runStays => exact hended (finish_place _ _ _)
    | addedFails => exact hended (finish_place _ _ _)
    | joinedFails => exact hended (finish_place _ _ _)
    | raises => exact hended (finish_place _ _ _)
    | joinBegin =>
      intro payload put_back msg h item hitem
      obtain ⟨rfl, -, -⟩ := PGPlace.joining.inj h
      exact absurd hitem List.not_mem_nil
    | joinItem payload put_back msg item rest payload' put_back' hplace hstate hpending
        hinspected =>
        intro _ _ _ h
        obtain ⟨rfl, -, -⟩ := PGPlace.joining.inj h
        exact hw.inspected hhonest hplace hstate hpending hinspected
    | joinerMoves => exact hw.done
    | joinerRecord => exact hw.done
    | joinerEnds => exact hw.done
    | _ => exact fun _ _ _ h => nomatch h

theorem sincere_init (puid : ℕ) (restart ignore_error_on_exit : Bool) (walltime : Option ℚ) :
    (init puid restart ignore_error_on_exit walltime : PGManager τ).Sincere where
  hist := hist_init puid restart ignore_error_on_exit walltime
  held := held_init puid restart ignore_error_on_exit walltime
  watching := by
    refine ⟨fun j h => absurd h List.not_mem_nil, ?_⟩
    rintro (h | h | ⟨h, -⟩) <;> exact nomatch h
  skipping h := nomatch h
  done _ _ _ h := nomatch h

/-- **Joins.**  In every run in which joins find what they have to find, each step puts out only
replies that say the truth. -/
theorem answersTruly_of_honest (puid : ℕ) (restart ignore_error_on_exit : Bool)
    (walltime : Option ℚ) (actions : List (PGAction τ)) (a : PGAction τ)
    (hactions : Runs.Legal exec Honest (init puid restart ignore_error_on_exit walltime)
      (actions ++ [a])) :
    AnswersTruly (actions.foldl exec (init puid restart ignore_error_on_exit walltime))
      ((actions ++ [a]).foldl exec (init puid restart ignore_error_on_exit walltime)) := by
  obtain ⟨hplaced, -⟩ := hist_run puid restart ignore_error_on_exit walltime actions
  have hsincere := legal_invariant (I := Sincere)
    (fun w a w' hplaced hw hhonest hmove => hw.move hplaced hhonest hmove)
    (placed_init puid restart ignore_error_on_exit walltime)
    (sincere_init puid restart ignore_error_on_exit walltime) (Runs.legal_append.1 hactions).1
  rw [List.foldl_append]
  exact hsincere.answersTruly (hplaced.exec a)

/-- A join is pending while the worker of a group exits. -/
def joinedDone : List (PGAction ℕ) :=
  [.request 7 1 (.add_processes [(1, 20)]), .get, .step, .step, .request 7 2 .start, .get, .step,
    .created 5 [10], .step, .step, .joinerStep 0, .request 8 3 (.join none), .get, .step, .step,
    .step, .step, .step, .exits 10 0, .joinerAnswered 0 false, .joinerStep 0, .joinerStep 0, .get,
    .step, .step, .step]

theorem answersTruly_of_honest_joinedDone :
    AnswersTruly (joinedDone.foldl exec (init 1 false true none))
      ((joinedDone ++ [PGAction.step]).foldl exec (init 1 false true none)) := by
  have hno : ∀ {w : PGManager ℕ}, w.restart = false → ∀ msg, w.place = .run msg →
      w.the_state.state = .running → msg.signal = .readyToRun → w.isAlive = false →
        w.restart = true → w.client_msg.signal ≠ .join :=
    fun hrestart _ _ _ _ _ h => nomatch hrestart.symm.trans h
  have hrun : ∀ {w : PGManager ℕ} (msg : PGSignalMessage ℕ), w.restart = false →
      w.place = .run msg → Honest w .step :=
    fun msg hrestart hplace => ⟨fun _ _ _ h => (nomatch hplace.symm.trans h), hno hrestart⟩
  have hjoining : ∀ {w : PGManager ℕ}, w.restart = false →
      w.the_state.pending_replies = [] ∨ w.isAlive = true → Honest w .step :=
    fun hrestart hor => ⟨fun _ _ _ _ hpending hdead => hor.elim (fun h => absurd h hpending)
      fun h => (nomatch h.symm.trans hdead), hno hrestart⟩
  refine answersTruly_of_honest 1 false true none joinedDone .step
    ⟨trivial, trivial, hrun _ rfl rfl, hrun _ rfl rfl, trivial, trivial, hrun _ rfl rfl, trivial,
      hrun _ rfl rfl, hrun _ rfl rfl, trivial, trivial, trivial, hrun _ rfl rfl, hrun _ rfl rfl,
      hjoining rfl (Or.inr (by decide)), hjoining rfl (Or.inl rfl), hrun _ rfl rfl, trivial,
      trivial, trivial, trivial, trivial, hrun _ rfl rfl, hrun _ rfl rfl, ⟨?_, ?_⟩,
      hjoining rfl (Or.inl rfl), trivial⟩
  · -- the thread was waiting for the worker that has exited
    rintro payload put_back msg - - - t j ht hj p hp
    obtain rfl := Option.some.inj ht
    obtain rfl := Option.some.inj hj
    obtain rfl := List.mem_singleton.1 hp
    exact ⟨0, ⟨10, 5, 20, some 0⟩, List.mem_cons_self, rfl, rfl⟩
  · exact fun _ _ _ _ _ h => nomatch h

/-- A group of two workers, of which one exits while a join is pending. -/
def joinedEarly : List (PGAction ℕ) :=
  [.request 7 1 (.add_processes [(1, 20), (1, 21)]), .get, .step, .step, .request 7 2 .start, .get,
    .step, .created 5 [10, 11], .step, .step, .joinerStep 0, .request 8 3 (.join none), .get, .step,
    .step, .step, .step, .step, .exits 10 0, .joinerAnswered 0 false, .joinerStep 0, .joinerStep 0,
    .get, .step, .step, .step]

/-- With restart, the join is answered as done. -/
theorem not_answersTruly_joinedEarly :
    ¬ AnswersTruly (joinedEarly.foldl exec (init 1 true true none))
      ((joinedEarly ++ [PGAction.step]).foldl exec (init 1 true true none)) := by
  rintro ⟨new, heq, htrue⟩
  have hnew : (joinedEarly.foldl exec (init 1 true true none)).state_outq ++ new =
      (joinedEarly.foldl exec (init 1 true true none)).state_outq ++
        [(some 8, { signal := .success, tag := some 3, req := some 2 })] := by
    rw [← heq]
    decide
  obtain rfl := List.append_cancel_left hnew
  have hall := (htrue _ List.mem_cons_self).success rfl ⟨2, _, _, rfl, rfl, rfl⟩
  exact hall ⟨11, 5, 21, none⟩ (List.mem_cons_of_mem _ List.mem_cons_self) rfl

end PGManager
