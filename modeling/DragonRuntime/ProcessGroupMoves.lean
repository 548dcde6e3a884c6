/-
# What a step of a process group does

A step of the manager of a process group is one of a few moves: each of them is given with what it
needs and with the state that it leads to, so that a property of all runs is proved by cases on the
moves.  That a state goes on to the next one or asks to stay is settled here once, from the signals
that each state allows.
-/
import DragonRuntime.ProcessGroup

namespace PGManager

variable {τ : Type} {w w' : PGManager τ}

/-! ## Where a message leads to -/

/-- The state runner goes on to the desired state. -/
def goes (w : PGManager τ) (m : PGSignalMessage τ) (d : PGState τ) : PGManager τ :=
  { w.receive m with
    the_state := d
    place := .run { m with payload := { m.payload with replies := [] } } }

theorem settle_of_eq {m : PGSignalMessage τ} {d : PGState τ} (h : w.the_state.state = d.state) :
    w.settle m d = (w.receive m).succeed := if_pos (Or.inl h)

/-! ## The end of the loop

It changes whether the runner serves, the replies and the place, and nothing else. -/

section finish

variable (w) (valid : Bool) (reply : PGReply)

theorem finish_eq : w.finish valid reply =
    { w with
      stop_serving := (w.finish valid reply).stop_serving
      state_outq := (w.finish valid reply).state_outq
      place := (w.finish valid reply).place } := by
  rw [finish]
  cases w.desired_state_msg <;> rfl

@[simp] theorem finish_the_state : (w.finish valid reply).the_state = w.the_state := by
  rw [finish_eq]

@[simp] theorem finish_cur_procs : (w.finish valid reply).cur_procs = w.cur_procs := by
  rw [finish_eq]

@[simp] theorem finish_workers : (w.finish valid reply).workers = w.workers := by
  rw [finish_eq]

@[simp] theorem finish_joiners : (w.finish valid reply).joiners = w.joiners := by
  rw [finish_eq]

@[simp] theorem finish_client_msg : (w.finish valid reply).client_msg = w.client_msg := by
  rw [finish_eq]

@[simp] theorem finish_served : (w.finish valid reply).served = w.served := by
  rw [finish_eq]

@[simp] theorem finish_cur : (w.finish valid reply).cur = w.cur := by
  rw [finish_eq]

@[simp] theorem finish_now : (w.finish valid reply).now = w.now := by
  rw [finish_eq]

@[simp] theorem finish_puid : (w.finish valid reply).puid = w.puid := by
  rw [finish_eq]

@[simp] theorem finish_state_inq : (w.finish valid reply).state_inq = w.state_inq := by
  rw [finish_eq]

/-- The loop goes on or ends. -/
theorem finish_place :
    (w.finish valid reply).place = .ready ∨ (w.finish valid reply).place = .left := by
  rw [finish]
  cases w.desired_state_msg with
  | none => exact Or.inr rfl
  | some m =>
    show (if w.closes m then PGPlace.left else PGPlace.ready) = _ ∨
      (if w.closes m then PGPlace.left else PGPlace.ready) = _
    cases w.closes m with
    | true => exact Or.inr rfl
    | false => exact Or.inl rfl

end finish

theorem fail_the_state (w : PGManager τ) (valid : Bool) :
    (w.fail valid).the_state = { state := .error } := finish_the_state _ _ _

theorem fail_cur_procs (w : PGManager τ) (valid : Bool) :
    (w.fail valid).cur_procs = w.cur_procs := finish_cur_procs _ _ _

theorem fail_workers (w : PGManager τ) (valid : Bool) : (w.fail valid).workers = w.workers :=
  finish_workers _ _ _

theorem fail_place (w : PGManager τ) (valid : Bool) : (w.fail valid).place = .left := by
  rw [fail, finish]
  cases w.desired_state_msg with
  | none => rfl
  | some m =>
    have hcloses : closes { w with the_state := { state := .error } } m = true := by
      rw [closes, decide_eq_true rfl, Bool.or_true]
    exact if_pos hcloses

/-! ## Places -/

/-- The current state is the one whose `run` the state runner is in. -/
def Placed (w : PGManager τ) : Prop :=
  match w.place with
  | .ready =>
    w.the_state.state = .idle ∨ w.the_state.state = .running ∨ w.the_state.state = .addTemplates
  | .run msg => msg.signal ∈ w.the_state.state.allowed_sigs
  | .stopping _ _ _ => w.the_state.state = .idle
  | .adding _ _ _ => w.the_state.state = .running
  | .joining _ _ _ => w.the_state.state = .join
  | .left => True

theorem Placed.ready (h : w.Placed) (hplace : w.place = .ready) : w.the_state.state = .idle ∨
    w.the_state.state = .running ∨ w.the_state.state = .addTemplates := by
  rw [Placed, hplace] at h
  exact h

variable {msg : PGSignalMessage τ} {a : PGAction τ} {w₀ : PGManager τ}

theorem Placed.allowed (h : w.Placed) (hplace : w.place = .run msg) :
    msg.signal ∈ w.the_state.state.allowed_sigs := by
  rw [Placed, hplace] at h
  exact h

theorem placed_finish {valid : Bool} {reply : PGReply} (h : w.the_state.state = .idle ∨
    w.the_state.state = .running ∨ w.the_state.state = .addTemplates) :
    (w.finish valid reply).Placed := by
  rcases finish_place w valid reply with hplace | hplace <;> rw [Placed, hplace]
  · simpa using h
  · trivial

theorem placed_fail (w : PGManager τ) (valid : Bool) : (w.fail valid).Placed := by
  rw [Placed, fail_place]
  trivial

/-- `Idle.run` is through with the workers: none of them is running, as far as the history knows, or
those that were have exited and it has archived all. -/
inductive Stopped (w : PGManager τ) (msg : PGSignalMessage τ) : PGManager τ → Prop where
  | quiet (hplace : w.place = .run msg) (hstate : w.the_state.state = .idle)
      (hrunning : w.cur_procs.get_running_p_uids = []) : Stopped w msg w
  | joined (phase : ℕ) (running_procs : List ℕ) (timedOut : Bool) (success : List (ℕ × ℤ))
      (hplace : w.place = .stopping phase running_procs msg) (hstate : w.the_state.state = .idle)
      (hsuccess : success =
        get_multi_join_success_puids (puidStatus w.workers timedOut running_procs))
      (hall : success.length = running_procs.length) :
      Stopped w msg
        { w with cur_procs := (w.cur_procs.update_active_processes success).archive_active }

/-- A joiner thread goes on with nothing but itself changed. -/
inductive JoinerMoves (w : PGManager τ) (j : Joiner) : Joiner → Prop where
  | empty (hphase : j.phase = .starting)
      (hnone : j.g_uid = none ∨ w.cur_procs.get_running_p_uids = []) :
      JoinerMoves w j { j with phase := .ended }
  | snapshot (hphase : j.phase = .starting) :
      JoinerMoves w j
        { j with active_puids := w.cur_procs.get_running_p_uids, phase := .waiting w.restart }
  | again (flag : Bool) (hphase : j.phase = .waiting flag) :
      JoinerMoves w j { j with phase := .waiting w.restart }
  | returned (timedOut : Bool) (hphase : j.phase = .waiting w.restart) :
      JoinerMoves w j { j with phase := .returned (puidStatus w.workers timedOut j.active_puids) }
  | raised (flag : Bool) (hphase : j.phase = .waiting flag) :
      JoinerMoves w j { j with phase := .ended }

/-- A request in hand is taken from the queue, or made up. -/
inductive Taken (w : PGManager τ) (msg : PGSignalMessage τ) : PGManager τ → Prop where
  | request (rest : List (PGSignalMessage τ)) (hinq : w.state_inq = msg :: rest) :
      Taken w msg
        { w with
          state_inq := rest
          served := w.served ++ [(w.now, msg)]
          cur := some w.served.length
          client_msg := msg }
  | poke (hinq : w.state_inq = []) (hstate : w.the_state.state = .running)
      (hmsg : msg = { signal := .joinPoke, p_uid := some w.puid }) :
      Taken w msg { w with cur := none, client_msg := msg }

/-- What `Join.run` has put beside it once it has looked at `item`. -/
inductive Inspected (w : PGManager τ) (item : JoinRequest)
    (payload : List (Option ℕ × PGReply)) (put_back : List JoinRequest) :
    List (Option ℕ × PGReply) → List JoinRequest → Prop where
  | timeout (halive : w.isAlive = true) (htimeout : item.timeout ≠ none)
      (hdeadline : item.deadline < w.now) :
      Inspected w item payload put_back
        (payload ++ [(item.requester,
          { signal := .joinTimeout, tag := item.tag, req := item.req })]) put_back
  | back (halive : w.isAlive = true) : Inspected w item payload put_back payload (put_back ++ [item])
  | success (hdead : w.isAlive = false) :
      Inspected w item payload put_back
        (payload ++ [(item.requester, { signal := .success, tag := item.tag, req := item.req })])
        put_back

/-- Global services have created the workers that the state runner waits for: with them in the table
the manager is `w₀`, and the set of the new puids is listed as `new_puids`. -/
structure Adds (w : PGManager τ) (gone_procs : List (ℕ × ℕ)) (msg : PGSignalMessage τ)
    (templates : List τ) (puids new_puids : List ℕ) (w₀ : PGManager τ) : Prop where
  place : w.place = .adding templates gone_procs msg
  state : w.the_state.state = .running
  fresh : w.fresh puids = true
  length : puids.length = templates.length
  eq : w₀ = { w with
    workers := w.workers ++ newWorkers (w.the_state.g_uid.getD 0) puids templates }
  new : new_puids.Perm w₀.newPuids

/-- The moves of the system. -/
inductive Move (w : PGManager τ) : PGAction τ → PGManager τ → Prop where
  | stutter {a : PGAction τ} : Move w a w
  | request (p_uid tag : ℕ) (r : PGRequest τ) (hclient : p_uid ≠ w.puid) :
      Move w (.request p_uid tag r) { w with state_inq := w.state_inq ++ [r.message p_uid tag] }
  | tick (d : ℚ) (hd : 0 ≤ d) : Move w (.tick d) { w with now := w.now + d }
  | exits (puid : ℕ) (ecode : ℤ) : Move w (.exits puid ecode) (w.workerExits puid ecode)
  | take (msg : PGSignalMessage τ) (w₀ : PGManager τ) (hplace : w.place = .ready)
      (htaken : Taken w msg w₀) (hallowed : msg.signal ∈ w.the_state.state.allowed_sigs) :
      Move w .get { w₀ with place := .run msg }
  | refuse (msg : PGSignalMessage τ) (w₀ : PGManager τ) (hplace : w.place = .ready)
      (htaken : Taken w msg w₀) (hallowed : msg.signal ∉ w.the_state.state.allowed_sigs) :
      Move w .get (w₀.finish false
        { signal := .invalidRequest, current_state := some w.the_state.state, req := w₀.cur })
  | addTemplates (msg : PGSignalMessage τ) (hplace : w.place = .run msg)
      (hstate : w.the_state.state = .addTemplates) :
      Move w .step (w.goes { signal := .readyToStart }
        { state := .idle, p_templates := msg.payload.p_templates })
  | stopping (msg : PGSignalMessage τ) (hplace : w.place = .run msg)
      (hstate : w.the_state.state = .idle) (hrunning : w.cur_procs.get_running_p_uids ≠ []) :
      Move w .step { w with place := .stopping 0 w.cur_procs.get_running_p_uids msg }
  | stopAgain (timedOut : Bool) (phase : ℕ) (running_procs : List ℕ) (msg : PGSignalMessage τ)
      (hplace : w.place = .stopping phase running_procs msg)
      (hstate : w.the_state.state = .idle) :
      Move w (.joined timedOut) { w with place := .stopping (phase + 1) running_procs msg }
  | idleStart {a : PGAction τ} (msg : PGSignalMessage τ) (w₀ : PGManager τ)
      (hstopped : Stopped w msg w₀)
      (hsignal : msg.signal = .start) :
      Move w a (w₀.goes { signal := .readyToStart }
        { state := .start, p_templates := w.the_state.p_templates, exq := msg.payload.exq })
  | idleJoin {a : PGAction τ} (msg : PGSignalMessage τ) (w₀ : PGManager τ)
      (hstopped : Stopped w msg w₀)
      (hsignal : msg.signal = .stop ∨ msg.signal = .close) (hgroup : w.the_state.g_uid ≠ none) :
      Move w a (w₀.goes
        { signal := .joinFinal, tag := msg.tag, close := msg.signal = .close || msg.close }
        { w.the_state with state := .join, exq := false })
  | idleStays {a : PGAction τ} (msg : PGSignalMessage τ) (w₀ : PGManager τ)
      (hstopped : Stopped w msg w₀)
      (hstart : msg.signal ≠ .start)
      (hsignal : (msg.signal = .stop ∨ msg.signal = .close) → w.the_state.g_uid = none) :
      Move w a (w₀.receive { signal := .success, close := msg.signal = .close || msg.close }).succeed
  | created (msg : PGSignalMessage τ) (g_uid : ℕ) (puids : List ℕ) (hplace : w.place = .run msg)
      (hstate : w.the_state.state = .start) (hfresh : w.fresh puids)
      (hgroup : ∀ v ∈ w.workers, v.group ≠ g_uid)
      (hlength : puids.length = (expand w.the_state.p_templates).length) :
      Move w (.created g_uid puids) (goes
        { w with
          workers := w.workers ++ newWorkers g_uid puids (expand w.the_state.p_templates)
          cur_procs := (w.cur_procs.init_active_processes puids).add_guid g_uid }
        { signal := .startJoinThread }
        { state := .makeJoiner
          g_uid := some g_uid
          p_templates := w.the_state.p_templates
          p_templates_expanded := expand w.the_state.p_templates
          walltime_event := some g_uid
          exq := w.the_state.exq })
  | makeJoiner (msg : PGSignalMessage τ) (hplace : w.place = .run msg)
      (hstate : w.the_state.state = .makeJoiner) :
      Move w .step (goes
        { w with
          joiners := w.joiners ++
            [⟨w.the_state.g_uid, w.the_state.exq, w.the_state.walltime_event, [], .starting⟩] }
        { signal := .readyToRun }
        { w.the_state with state := .running, joiner_thread := some w.joiners.length })
  | runStop (msg : PGSignalMessage τ) (hplace : w.place = .run msg)
      (hstate : w.the_state.state = .running) (hsignal : msg.signal = .stop ∨ msg.signal = .close) :
      Move w .step (w.goes
        { signal := msg.signal, p_uid := msg.p_uid, payload := msg.payload, tag := msg.tag
          close := msg.signal = .close }
        { w.the_state with state := .idle, exq := false })
  | runJoin (msg : PGSignalMessage τ) (hplace : w.place = .run msg)
      (hstate : w.the_state.state = .running)
      (hsignal : msg.signal = .join ∨ msg.signal = .joinPoke) (halive : w.isAlive = true) :
      Move w .step (w.goes
        { signal := msg.signal, p_uid := msg.p_uid, payload := msg.payload, skip_reply := true
          tag := msg.tag }
        { w.the_state with state := .join })
  | runJoinFinal (msg : PGSignalMessage τ) (hplace : w.place = .run msg)
      (hstate : w.the_state.state = .running)
      (hsignal : msg.signal = .join ∨ msg.signal = .joinPoke) (hdead : w.isAlive = false) :
      Move w .step (w.goes
        { signal := .joinFinal, p_uid := msg.p_uid, payload := msg.payload
          skip_reply := w.the_state.g_uid ≠ none, tag := msg.tag }
        { w.the_state with state := .join })
  | runStopMaintaining (msg : PGSignalMessage τ) (hplace : w.place = .run msg)
      (hstate : w.the_state.state = .running) (hsignal : msg.signal = .stopMaintaining) :
      Move w .step (goes { w with restart := false }
        { signal := .startJoinThread, skip_reply := msg.skip_reply, payload := msg.payload
          close := msg.close }
        { w.the_state with state := .makeJoiner, exq := false })
  | runStays (msg : PGSignalMessage τ) (hplace : w.place = .run msg)
      (hstate : w.the_state.state = .running)
      (hsignal : msg.signal = .readyToRun ∨ msg.signal = .joinFinal) (halive : w.isAlive = true) :
      Move w .step (w.receive { signal := .success, skip_reply := msg.skip_reply }).succeed
  | runExit (msg : PGSignalMessage τ) (hplace : w.place = .run msg)
      (hstate : w.the_state.state = .running)
      (hsignal : msg.signal = .readyToRun ∨ msg.signal = .joinFinal) (hdead : w.isAlive = false)
      (hrestart : w.restart = false) :
      Move w .step (w.goes
        { signal := w.exitSignal, skip_reply := msg.skip_reply, payload := msg.payload
          close := msg.close }
        { w.the_state with state := .idle, exq := false })
  | runRestart (msg : PGSignalMessage τ) (hplace : w.place = .run msg)
      (hstate : w.the_state.state = .running)
      (hsignal : msg.signal = .readyToRun ∨ msg.signal = .joinFinal) (hdead : w.isAlive = false)
      (hrestart : w.restart = true) :
      Move w .step { w with place := .adding w.goneTemplates w.goneProcs msg }
  | added (gone_procs : List (ℕ × ℕ)) (msg : PGSignalMessage τ) (templates : List τ)
      (puids new_puids : List ℕ) (w₀ : PGManager τ) (h : PGProcessHistory)
      (hadds : Adds w gone_procs msg templates puids new_puids w₀)
      (hreplace : w.cur_procs.replace_and_archive_processes new_puids gone_procs = some h) :
      Move w (.added puids new_puids) (goes { w₀ with cur_procs := h }
        { signal := .startJoinThread, skip_reply := msg.skip_reply, payload := msg.payload
          close := msg.close }
        { w.the_state with state := .makeJoiner, exq := false })
  | addedFails (gone_procs : List (ℕ × ℕ)) (msg : PGSignalMessage τ) (templates : List τ)
      (puids new_puids : List ℕ) (w₀ : PGManager τ)
      (hadds : Adds w gone_procs msg templates puids new_puids w₀)
      (hreplace : w.cur_procs.replace_and_archive_processes new_puids gone_procs = none) :
      Move w (.added puids new_puids) (w₀.fail true)
  | joinBegin (msg : PGSignalMessage τ) (hplace : w.place = .run msg)
      (hstate : w.the_state.state = .join) : Move w .step (w.joinRun msg)
  | joinItem (payload : List (Option ℕ × PGReply)) (put_back : List JoinRequest)
      (msg : PGSignalMessage τ) (item : JoinRequest) (rest : List JoinRequest)
      (payload' : List (Option ℕ × PGReply)) (put_back' : List JoinRequest)
      (hplace : w.place = .joining payload put_back msg) (hstate : w.the_state.state = .join)
      (hpending : w.the_state.pending_replies = item :: rest)
      (hinspected : Inspected w item payload put_back payload' put_back') :
      Move w .step { w with
        the_state := { w.the_state with pending_replies := rest }
        place := .joining payload' put_back' msg }
  | joinEnd (payload : List (Option ℕ × PGReply)) (put_back : List JoinRequest)
      (msg : PGSignalMessage τ) (hplace : w.place = .joining payload put_back msg)
      (hstate : w.the_state.state = .join) (hpending : w.the_state.pending_replies = []) :
      Move w .step (w.goes
        { signal := .readyToRun, payload := { replies := payload }, skip_reply := msg.skip_reply
          tag := msg.tag, close := msg.close }
        { w.the_state with state := .running, pending_replies := put_back, exq := false })
  | joinedFails (timedOut : Bool) (phase : ℕ) (running_procs : List ℕ) (msg : PGSignalMessage τ)
      (hplace : w.place = .stopping phase running_procs msg)
      (hanswered : (stopRequest phase running_procs msg).answered w.workers timedOut = true)
      (hjoin : (stopRequest phase running_procs msg).multi_join
          (puidStatus w.workers timedOut running_procs) = none ∨
        ¬ phase < 2 ∧ (stopRequest phase running_procs msg).multi_join
          (puidStatus w.workers timedOut running_procs) = some none) :
      Move w (.joined timedOut) (w.fail true)
  | raises (hplace : (∃ msg, w.place = .run msg ∧ w.the_state.state = .start) ∨
        (∃ phase running_procs msg, w.place = .stopping phase running_procs msg) ∨
        ∃ templates gone_procs msg,
          w.place = .adding templates gone_procs msg ∧ templates ≠ []) :
      Move w .raises (w.fail true)
  | joinerMoves {a : PGAction τ} (i : ℕ) (j j' : Joiner) (hi : w.joiners[i]? = some j)
      (hj : JoinerMoves w j j') :
      Move w a (w.setJoiner i j')
  | joinerRecord {a : PGAction τ} (i : ℕ) (j : Joiner) (stat : List (ℕ × JoinStatus))
      (hi : w.joiners[i]? = some j) (hphase : j.phase = .returned stat) :
      Move w a (w.joinerRecord i j stat)
  | joinerEnds {a : PGAction τ} (i : ℕ) (j : Joiner) (expired : Bool) (hi : w.joiners[i]? = some j)
      (hphase : j.phase = .recorded expired) :
      Move w a (setJoiner
        { w with
          walltime_events :=
            if expired then w.walltime_events ++ j.event.toList else w.walltime_events }
        i { j with phase := .ended })

/-! ## Every step is a move -/

/-- The desired state is another one, and allows the signal. -/
theorem Move.settle {m : PGSignalMessage τ} {d : PGState τ} {s : BaseState} (s' : BaseState)
    (signal : PGSignals) (h : Move w a (w₀.goes m d)) (hs : w₀.the_state.state = s)
    (hd : d.state = s') (hm : m.signal = signal) (hne : s ≠ s') (herror : s ≠ .error)
    (hallowed : signal ∈ s'.allowed_sigs) : Move w a (w₀.settle m d) := by
  subst hs hd hm
  rw [PGManager.settle, if_neg (not_or.2 ⟨hne, herror⟩), if_pos hallowed]
  exact h

theorem Stopped.idleReturn (h : Stopped w msg w₀) (heq : w₀.the_state = w.the_state) :
    Move w a (w₀.idleReturn msg) := by
  have hstate : w₀.the_state.state = .idle := by
    rw [heq]
    cases h with
    | quiet _ hstate => exact hstate
    | joined _ _ _ _ _ hstate => exact hstate
  rw [PGManager.idleReturn]
  by_cases hstart : msg.signal = .start
  · rw [if_pos hstart]
    refine Move.settle .start .readyToStart ?_ hstate rfl rfl (by decide) (by decide) (by decide)
    rw [heq]
    exact .idleStart msg w₀ h hstart
  rw [if_neg hstart]
  by_cases hjoin : (msg.signal = .stop ∨ msg.signal = .close) ∧ w₀.the_state.g_uid ≠ none
  · rw [if_pos hjoin]
    refine Move.settle .join .joinFinal ?_ hstate rfl rfl (by decide) (by decide) (by decide)
    rw [heq] at hjoin ⊢
    exact .idleJoin msg w₀ h hjoin.1 hjoin.2
  · rw [if_neg hjoin, settle_of_eq hstate]
    rw [heq] at hjoin
    exact .idleStays msg w₀ h hstart fun hsignal => by_contra fun hgroup => hjoin ⟨hsignal, hgroup⟩

/-- An answer of all workers is a list of exit codes for all of them. -/
theorem multi_join_eq_some {r : JoinListRequest} {statuses : List (ℕ × JoinStatus)}
    {success : List (ℕ × ℤ)} (hall : r.join_all = true)
    (h : r.multi_join statuses = some (some success)) :
    success = get_multi_join_success_puids statuses ∧ success.length = r.puids.length := by
  rw [JoinListRequest.multi_join] at h
  split at h
  · exact nomatch h
  split at h
  · split at h
    · exact nomatch h
    next hlength =>
      obtain rfl := Option.some.inj (Option.some.inj h)
      rw [hall] at hlength
      exact ⟨rfl, by simpa using hlength⟩
  · split at h
    · exact nomatch h
    · exact nomatch h

theorem move_idleRun (hplace : w.place = .run msg) (hstate : w.the_state.state = .idle) :
    Move w .step (w.idleRun msg) := by
  rw [PGManager.idleRun]
  split
  next hrunning =>
    exact (Stopped.quiet hplace hstate (List.isEmpty_iff.1 hrunning)).idleReturn rfl
  next hrunning => exact .stopping msg hplace hstate fun h => hrunning (List.isEmpty_iff.2 h)

theorem move_idleJoined {phase : ℕ} {running_procs : List ℕ} {timedOut : Bool}
    (hplace : w.place = .stopping phase running_procs msg) (hstate : w.the_state.state = .idle)
    (hanswered : (stopRequest phase running_procs msg).answered w.workers timedOut = true) :
    Move w (.joined timedOut) (w.idleJoined phase running_procs msg timedOut) := by
  rw [PGManager.idleJoined]
  split
  next hjoin => exact .joinedFails timedOut phase running_procs msg hplace hanswered (Or.inl hjoin)
  next hjoin =>
    split
    next => exact .stopAgain timedOut phase running_procs msg hplace hstate
    next hphase =>
      exact .joinedFails timedOut phase running_procs msg hplace hanswered (Or.inr ⟨hphase, hjoin⟩)
  next success hsuccess =>
    have hall := multi_join_eq_some rfl hsuccess
    exact (Stopped.joined phase running_procs timedOut success hplace hstate hall.1
      hall.2).idleReturn rfl

theorem Placed.runningRun (h : w.Placed) (hplace : w.place = .run msg)
    (hstate : w.the_state.state = .running) : Move w .step (w.runningRun msg) := by
  rw [PGManager.runningRun]
  by_cases hstop : msg.signal = .stop ∨ msg.signal = .close
  · have hallowed : msg.signal ∈ BaseState.idle.allowed_sigs := by
      rcases hstop with hstop | hstop <;> rw [hstop] <;> decide
    rw [if_pos hstop]
    refine Move.settle .idle _ ?_ hstate rfl rfl (by decide) (by decide) hallowed
    exact .runStop msg hplace hstate hstop
  rw [if_neg hstop]
  by_cases hjoin : msg.signal = .join ∨ msg.signal = .joinPoke
  · rw [if_pos hjoin]
    by_cases halive : w.isAlive
    · have hallowed : msg.signal ∈ BaseState.join.allowed_sigs := by
        rcases hjoin with hjoin | hjoin <;> rw [hjoin] <;> decide
      rw [if_pos halive]
      refine Move.settle .join _ ?_ hstate rfl rfl (by decide) (by decide) hallowed
      exact .runJoin msg hplace hstate hjoin halive
    · rw [if_neg halive]
      refine Move.settle .join .joinFinal ?_ hstate rfl rfl (by decide) (by decide) (by decide)
      exact .runJoinFinal msg hplace hstate hjoin (Bool.eq_false_iff.2 halive)
  rw [if_neg hjoin]
  by_cases hmaintain : msg.signal = .stopMaintaining
  · rw [if_pos hmaintain]
    refine Move.settle .makeJoiner .startJoinThread ?_ hstate rfl rfl (by decide) (by decide)
      (by decide)
    exact .runStopMaintaining msg hplace hstate hmaintain
  rw [if_neg hmaintain]
  have hsignal : msg.signal = .readyToRun ∨ msg.signal = .joinFinal := by
    -- these are what is left of the signals that the state allows
    have hallowed : msg.signal ∈ w.the_state.state.allowed_sigs := by
      rw [Placed, hplace] at h
      exact h
    rw [hstate] at hallowed
    simp only [BaseState.allowed_sigs, List.mem_cons, List.not_mem_nil, or_false] at hallowed
    tauto
  by_cases halive : w.isAlive
  · rw [if_pos halive, settle_of_eq rfl]
    exact .runStays msg hplace hstate hsignal halive
  rw [if_neg halive]
  have hdead := Bool.eq_false_iff.2 halive
  by_cases hrestart : w.restart = false
  · have hallowed : w.exitSignal ∈ BaseState.idle.allowed_sigs := by
      rw [exitSignal]
      split_ifs <;> decide
    rw [if_pos (by rw [hrestart]; decide)]
    refine Move.settle .idle _ ?_ hstate rfl rfl (by decide) (by decide) hallowed
    exact .runExit msg hplace hstate hsignal hdead hrestart
  · have hrestart := eq_true_of_ne_false hrestart
    rw [if_neg (by rw [hrestart]; decide)]
    exact .runRestart msg hplace hstate hsignal hdead hrestart

theorem move_joinLoop {payload : List (Option ℕ × PGReply)} {put_back : List JoinRequest}
    (hplace : w.place = .joining payload put_back msg) (hstate : w.the_state.state = .join) :
    Move w .step (w.joinLoop payload put_back msg) := by
  rw [PGManager.joinLoop]
  split
  next hpending =>
    refine Move.settle .running .readyToRun ?_ hstate rfl rfl (by decide) (by decide) (by decide)
    exact .joinEnd payload put_back msg hplace hstate hpending
  next item rest hpending =>
    by_cases halive : w.isAlive
    · rw [if_pos halive]
      split
      next htimeout =>
        exact .joinItem payload put_back msg item rest _ _ hplace hstate hpending
          (.timeout halive htimeout.1 htimeout.2)
      next =>
        exact .joinItem payload put_back msg item rest _ _ hplace hstate hpending (.back halive)
    · rw [if_neg halive]
      exact .joinItem payload put_back msg item rest _ _ hplace hstate hpending
        (.success (Bool.eq_false_iff.2 halive))

theorem Placed.runnerStep (h : w.Placed) : Move w .step w.runnerStep := by
  rw [PGManager.runnerStep]
  split
  next msg hplace =>
    split
    next hstate => exact move_idleRun hplace hstate
    next hstate =>
      refine Move.settle .running .readyToRun ?_ hstate rfl rfl (by decide) (by decide) (by decide)
      exact .makeJoiner msg hplace hstate
    next hstate => exact h.runningRun hplace hstate
    next hstate => exact .joinBegin msg hplace hstate
    next hstate =>
      refine Move.settle .idle .readyToStart ?_ hstate rfl rfl (by decide) (by decide) (by decide)
      exact .addTemplates msg hplace hstate
    next => exact .stutter
    next => exact .stutter
  next payload put_back msg hplace =>
    rw [Placed, hplace] at h
    exact move_joinLoop hplace h
  next => exact .stutter

theorem move_dispatch (hplace : w.place = .ready)
    (htaken : Taken w msg { w₀ with client_msg := msg }) (heq : w₀.the_state = w.the_state) :
    Move w .get (w₀.dispatch msg) := by
  rw [dispatch]
  split
  next hallowed =>
    rw [heq] at hallowed
    exact .take msg { w₀ with client_msg := msg } hplace htaken hallowed
  next hallowed =>
    rw [heq] at hallowed
    have hmove := Move.refuse msg { w₀ with client_msg := msg } hplace htaken hallowed
    rwa [← heq] at hmove

theorem move_get (hplace : w.place = .ready) : Move w .get w.get := by
  rw [get]
  split
  next msg rest hinq => exact move_dispatch hplace (.request rest hinq) rfl
  next hinq =>
    split
    next hstate => exact move_dispatch hplace (.poke hinq hstate rfl) rfl
    next => exact .stutter

theorem move_joinerStep (i : ℕ) : Move w a (w.joinerStep i) := by
  rw [joinerStep]
  split
  next => exact .stutter
  next j hi =>
    split
    next hphase =>
      split
      next hnone =>
        exact .joinerMoves i j _ hi (.empty hphase (hnone.imp id fun h => List.isEmpty_iff.1 h))
      next => exact .joinerMoves i j _ hi (.snapshot hphase)
    next stat hphase => exact .joinerRecord i j stat hi hphase
    next expired hphase => exact .joinerEnds i j expired hi hphase
    next => exact .stutter
    next => exact .stutter

theorem move_joinerAnswered (i : ℕ) (timedOut : Bool) : Move w a (w.joinerAnswered i timedOut) := by
  rw [joinerAnswered]
  split
  next => exact .stutter
  next j hi =>
    split
    next flag hphase =>
      split
      next =>
        split
        next => exact .joinerMoves i j _ hi (.raised flag hphase)
        next =>
          by_cases hflag : flag = w.restart
          · rw [if_pos hflag]
            exact .joinerMoves i j _ hi (.returned timedOut (hflag ▸ hphase))
          · rw [if_neg hflag]
            exact .joinerMoves i j _ hi (.again flag hphase)
      next => exact .stutter
    next => exact .stutter

theorem move_joinerRaises (i : ℕ) : Move w a (w.joinerRaises i) := by
  rw [joinerRaises]
  split
  next => exact .stutter
  next j hi =>
    split
    next flag hphase => exact .joinerMoves i j _ hi (.raised flag hphase)
    next => exact .stutter

theorem move_request (p_uid tag : ℕ) (r : PGRequest τ) :
    Move w (.request p_uid tag r) (w.request p_uid tag r) := by
  by_cases hclient : p_uid = w.puid
  · cases r <;> simp only [request, if_pos hclient] <;> exact .stutter
  cases r with
  | stop_restart =>
    simp only [request, if_neg hclient]
    split
    · exact .request p_uid tag .stop_restart hclient
    · exact .stutter
  | _ =>
    simp only [request, if_neg hclient]
    exact .request p_uid tag _ hclient

theorem move_created (g_uid : ℕ) (puids : List ℕ) :
    Move w (.created g_uid puids) (w.exec (.created g_uid puids)) := by
  simp only [PGManager.exec]
  split
  next msg hplace hstate =>
    split
    next hcreated =>
      obtain ⟨hfresh, hgroup, hlength, -, -⟩ := hcreated
      refine Move.settle .makeJoiner .startJoinThread ?_ hstate rfl rfl (by decide) (by decide)
        (by decide)
      refine .created msg g_uid puids hplace hstate hfresh (fun v hv => ?_) hlength
      simpa using List.all_eq_true.1 hgroup v hv
    next => exact .stutter
  next => exact .stutter

theorem Placed.added (h : w.Placed) (puids new_puids : List ℕ) :
    Move w (.added puids new_puids) (w.exec (.added puids new_puids)) := by
  simp only [PGManager.exec]
  split
  next templates gone_procs msg hplace =>
    rw [Placed, hplace] at h
    split
    next hadded =>
      obtain ⟨hfresh, hlength, -, hnew⟩ := hadded
      rw [runningAdded]
      split
      next hreplace =>
        exact .addedFails gone_procs msg templates puids new_puids _
          ⟨hplace, h, hfresh, hlength, rfl, hnew⟩ hreplace
      next hist hreplace =>
        refine Move.settle .makeJoiner .startJoinThread ?_ h rfl rfl (by decide) (by decide)
          (by decide)
        exact .added gone_procs msg templates puids new_puids _ hist
          ⟨hplace, h, hfresh, hlength, rfl, hnew⟩ hreplace
    next => exact .stutter
  next => exact .stutter

theorem move_raises : Move w .raises (w.exec .raises) := by
  simp only [PGManager.exec]
  split
  next msg hplace hstate => exact .raises (Or.inl ⟨msg, hplace, hstate⟩)
  next hplace => exact .raises (Or.inr (Or.inl ⟨_, _, _, hplace⟩))
  next templates gone_procs msg hplace =>
    split
    next => exact .stutter
    next hne =>
      exact .raises (Or.inr (Or.inr ⟨_, _, _, hplace, fun h => hne (List.isEmpty_iff.2 h)⟩))
  next => exact .stutter

/-- **Inversion.**  A step is a move. -/
theorem Placed.exec (h : w.Placed) (a : PGAction τ) : Move w a (w.exec a) := by
  cases a with
  | request p_uid tag r => exact move_request p_uid tag r
  | tick d =>
    simp only [PGManager.exec]
    split
    next hd => exact .tick d hd
    next => exact .stutter
  | exits puid ecode => exact .exits puid ecode
  | get =>
    simp only [PGManager.exec]
    split
    next hplace => exact move_get hplace
    next => exact .stutter
  | step => exact h.runnerStep
  | created g_uid puids => exact move_created g_uid puids
  | added puids new_puids => exact h.added puids new_puids
  | joined =>
    simp only [PGManager.exec]
    split
    next phase running_procs msg hplace =>
      rw [Placed, hplace] at h
      split
      next hanswered => exact move_idleJoined hplace h hanswered
      next => exact .stutter
    next => exact .stutter
  | raises => exact move_raises
  | joinerStep i => exact move_joinerStep i
  | joinerAnswered i timedOut => exact move_joinerAnswered i timedOut
  | joinerRaises i => exact move_joinerRaises i

/-- `Running` comes back to `Idle` with no request. -/
theorem exitSignal_not_mem (w : PGManager τ) :
    w.exitSignal ∉ [PGSignals.start, .stop, .close] := by
  rw [exitSignal]
  split_ifs <;> decide

theorem exitSignal_ne_joinPoke (w : PGManager τ) : w.exitSignal ≠ .joinPoke := by
  rw [exitSignal]
  split_ifs <;> decide

/-! ## Places are kept -/

theorem Stopped.the_state (h : Stopped w msg w₀) : w₀.the_state = w.the_state := by
  cases h <;> rfl

theorem Stopped.state (h : Stopped w msg w₀) : w.the_state.state = .idle := by
  cases h with
  | quiet _ hstate => exact hstate
  | joined _ _ _ _ _ hstate => exact hstate

theorem Stopped.client_msg (h : Stopped w msg w₀) : w₀.client_msg = w.client_msg := by
  cases h <;> rfl

theorem Stopped.state_outq (h : Stopped w msg w₀) : w₀.state_outq = w.state_outq := by
  cases h <;> rfl

theorem Stopped.workers (h : Stopped w msg w₀) : w₀.workers = w.workers := by
  cases h <;> rfl

theorem Stopped.joiners (h : Stopped w msg w₀) : w₀.joiners = w.joiners := by
  cases h <;> rfl

theorem Taken.the_state (h : Taken w msg w₀) : w₀.the_state = w.the_state := by
  cases h <;> rfl

theorem Taken.client_msg (h : Taken w msg w₀) : w₀.client_msg = msg := by
  cases h <;> rfl

theorem Taken.state_outq (h : Taken w msg w₀) : w₀.state_outq = w.state_outq := by
  cases h <;> rfl

theorem Taken.place (h : Taken w msg w₀) : w₀.place = w.place := by
  cases h <;> rfl

/-- **Step lemma** for the places. -/
theorem Placed.move (h : w.Placed) (hmove : Move w a w') : w'.Placed := by
  cases hmove with
  | stutter => exact h
  | request => exact h
  | tick => exact h
  | exits => exact h
  | take msg w₀ _ htaken hallowed =>
    show msg.signal ∈ w₀.the_state.state.allowed_sigs
    rw [htaken.the_state]
    exact hallowed
  | refuse _ _ hplace htaken =>
    refine placed_finish ?_
    rw [htaken.the_state]
    rw [Placed, hplace] at h
    exact h
  | addTemplates => exact List.mem_of_elem_eq_true rfl
  | stopping _ _ hstate => exact hstate
  | stopAgain _ _ _ _ _ hstate => exact hstate
  | idleStart => exact List.mem_of_elem_eq_true rfl
  | idleJoin => exact List.mem_of_elem_eq_true rfl
  | idleStays _ w₀ hstopped =>
    refine placed_finish (Or.inl ?_)
    show w₀.the_state.state = .idle
    rw [hstopped.the_state, hstopped.state]
  | created => exact List.mem_of_elem_eq_true rfl
  | makeJoiner => exact List.mem_of_elem_eq_true rfl
  | runStop msg _ _ hsignal =>
    show msg.signal ∈ BaseState.idle.allowed_sigs
    rcases hsignal with hsignal | hsignal <;> rw [hsignal] <;> decide
  | runJoin msg _ _ hsignal =>
    show msg.signal ∈ BaseState.join.allowed_sigs
    rcases hsignal with hsignal | hsignal <;> rw [hsignal] <;> decide
  | runJoinFinal => exact List.mem_of_elem_eq_true rfl
  | runStopMaintaining => exact List.mem_of_elem_eq_true rfl
  | runStays _ _ hstate => exact placed_finish (Or.inr (Or.inl hstate))
  | runExit =>
    show w.exitSignal ∈ BaseState.idle.allowed_sigs
    rw [exitSignal]
    split_ifs <;> decide
  | runRestart _ _ hstate => exact hstate
  | added => exact List.mem_of_elem_eq_true rfl
  | addedFails => exact placed_fail _ _
  | joinBegin _ _ hstate => exact hstate
  | joinItem _ _ _ _ _ _ _ _ hstate => exact hstate
  | joinEnd => exact List.mem_of_elem_eq_true rfl
  | joinedFails => exact placed_fail _ _
  | raises => exact placed_fail _ _
  | joinerMoves => exact h
  | joinerRecord => exact h
  | joinerEnds => exact h

theorem placed_init (puid : ℕ) (restart ignore_error_on_exit : Bool) (walltime : Option ℚ) :
    (init puid restart ignore_error_on_exit walltime : PGManager τ).Placed :=
  Or.inr (Or.inr rfl)

/-- **Rule.**  What holds at the beginning and is kept by every move that meets the condition holds
after every run whose steps meet it. -/
theorem legal_invariant {ok : PGManager τ → PGAction τ → Prop} {I : PGManager τ → Prop}
    (hmove : ∀ w a w', w.Placed → I w → ok w a → Move w a w' → I w') {s : PGManager τ}
    (hplaced : s.Placed) (hs : I s) {actions : List (PGAction τ)}
    (hlegal : Runs.Legal exec ok s actions) : I (actions.foldl exec s) := by
  have hrun := hlegal.invariant (I := fun w => w.Placed ∧ I w) (fun w a hw hok =>
    ⟨hw.1.move (hw.1.exec a), hmove w a _ hw.1 hw.2 hok (hw.1.exec a)⟩) ⟨hplaced, hs⟩
  exact hrun.2

/-- What every move keeps holds after every run. -/
theorem run_invariant {I : PGManager τ → Prop}
    (hmove : ∀ w a w', w.Placed → I w → Move w a w' → I w') {s : PGManager τ} (hplaced : s.Placed)
    (hs : I s) (actions : List (PGAction τ)) :
    (actions.foldl exec s).Placed ∧ I (actions.foldl exec s) := by
  refine List.foldlRecOn (motive := fun w => w.Placed ∧ I w) actions exec ⟨hplaced, hs⟩ ?_
  intro w hw a _
  exact ⟨hw.1.move (hw.1.exec a), hmove w a _ hw.1 hw.2 (hw.1.exec a)⟩

end PGManager
