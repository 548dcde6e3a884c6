/-
# That stop and close of a process group take effect

A request to stop or to close goes from `Running` over `Idle`, which brings the workers down, to
`Join` and back to `Running`, and only if `Running` then finds that the joiner thread has ended, and
that there is no restart, it comes back to `Idle` and stays there, with the flag to close still on
the message.
-/
import DragonRuntime.ProcessGroupHistory

namespace PGManager

variable {τ : Type} {w w' : PGManager τ}

/-! ## What a request has to find -/

/-- The request in hand is one to stop or to close. -/
def Halts (w : PGManager τ) : Prop := w.client_msg.signal = .stop ∨ w.client_msg.signal = .close

/-- The condition: when a request to stop or to close is back in `Running`, the joiner thread has
ended and there is no restart; and the joins of such a request are answered. -/
def Heeded (w : PGManager τ) : PGAction τ → Prop
  | .step => w.Halts → ∀ msg, w.place = .run msg → w.the_state.state = .running →
    msg.signal = .readyToRun → w.isAlive = false ∧ w.restart = false
  | .raises => ¬ w.Halts
  | _ => True

/-- The state runner is through with the request in hand, and it was not too early for it, as it is
before the templates are there. -/
def Finished (w : PGManager τ) : Prop :=
  (w.place = .ready ∨ w.place = .left) ∧ w.the_state.state ≠ .addTemplates

/-- A request to stop has led to `Idle`, where no worker is running, and one to close has made the
manager stop serving. -/
structure TakesEffect (w : PGManager τ) : Prop where
  stop : w.client_msg.signal = .stop → w.Finished →
    w.the_state.state = .idle ∧ AllExited w.workers
  close : w.client_msg.signal = .close → w.Finished → w.stop_serving = true

/-! ## The chain of states -/

/-- The flag to close is on the message, if it has to be. -/
def Carries (w : PGManager τ) (msg : PGSignalMessage τ) : Prop :=
  w.client_msg.signal = .close → msg.close = true

/-- `Idle` has the request itself, or the message with which `Running` comes back. -/
def Idling (w : PGManager τ) (msg : PGSignalMessage τ) : Prop :=
  msg.signal = w.client_msg.signal ∨
    msg.signal ∉ [PGSignals.start, .stop, .close] ∧ w.Carries msg

/-- The end of the chain. -/
def Ended (w : PGManager τ) : Prop :=
  w.the_state.state = .addTemplates ∨ w.the_state.state = .idle ∧ AllExited w.workers ∧
    (w.client_msg.signal = .close → w.stop_serving = true)

/-- A message of the chain that the current state is to run. -/
def Running (w : PGManager τ) (msg : PGSignalMessage τ) : Prop :=
  w.the_state.state = .idle ∧ w.Idling msg ∨
    w.the_state.state = .running ∧
      (msg.signal = w.client_msg.signal ∨ msg.signal = .readyToRun ∧ w.Carries msg) ∨
    w.the_state.state = .join ∧ w.Carries msg

/-- Where a request to stop or to close can be. -/
structure Chain (w : PGManager τ) : Prop where
  run : ∀ msg, w.place = .run msg → w.Running msg
  stopping : ∀ phase running_procs msg, w.place = .stopping phase running_procs msg → w.Idling msg
  joining : ∀ payload put_back msg, w.place = .joining payload put_back msg → w.Carries msg
  adding : ∀ templates gone_procs msg, w.place ≠ .adding templates gone_procs msg
  ended : w.place = .ready ∨ w.place = .left → w.Ended

variable {msg : PGSignalMessage τ} {w₀ : PGManager τ}

theorem chain_of_run (hplace : w.place = .run msg) (h : w.Running msg) : w.Chain := by
  refine ⟨fun msg' h' => ?_, fun _ _ _ h' => ?_, fun _ _ _ h' => ?_, fun _ _ _ h' => ?_,
    fun h' => ?_⟩
  · obtain rfl := PGPlace.run.inj (hplace.symm.trans h')
    exact h
  · exact nomatch hplace.symm.trans h'
  · exact nomatch hplace.symm.trans h'
  · exact nomatch hplace.symm.trans h'
  · rcases h' with h' | h' <;> exact nomatch hplace.symm.trans h'

theorem chain_of_stopping {phase : ℕ} {running_procs : List ℕ}
    (hplace : w.place = .stopping phase running_procs msg) (h : w.Idling msg) : w.Chain := by
  refine ⟨fun _ h' => ?_, fun _ _ msg' h' => ?_, fun _ _ _ h' => ?_, fun _ _ _ h' => ?_,
    fun h' => ?_⟩
  · exact nomatch hplace.symm.trans h'
  · obtain ⟨-, -, rfl⟩ := PGPlace.stopping.inj (hplace.symm.trans h')
    exact h
  · exact nomatch hplace.symm.trans h'
  · exact nomatch hplace.symm.trans h'
  · rcases h' with h' | h' <;> exact nomatch hplace.symm.trans h'

theorem chain_of_joining {payload : List (Option ℕ × PGReply)} {put_back : List JoinRequest}
    (hplace : w.place = .joining payload put_back msg) (h : w.Carries msg) : w.Chain := by
  refine ⟨fun _ h' => ?_, fun _ _ _ h' => ?_, fun _ _ msg' h' => ?_, fun _ _ _ h' => ?_,
    fun h' => ?_⟩
  · exact nomatch hplace.symm.trans h'
  · exact nomatch hplace.symm.trans h'
  · obtain ⟨-, -, rfl⟩ := PGPlace.joining.inj (hplace.symm.trans h')
    exact h
  · exact nomatch hplace.symm.trans h'
  · rcases h' with h' | h' <;> exact nomatch hplace.symm.trans h'

theorem chain_of_ended (hplace : w.place = .ready ∨ w.place = .left) (h : w.Ended) : w.Chain := by
  refine ⟨fun _ h' => ?_, fun _ _ _ h' => ?_, fun _ _ _ h' => ?_, fun _ _ _ h' => ?_, fun _ => h⟩
  all_goals rcases hplace with hplace | hplace <;> exact nomatch hplace.symm.trans h'

/-- Steps that leave the state runner where it is. -/
theorem Chain.frame (h : w.Chain) (hplace : w'.place = w.place)
    (hstate : w'.the_state = w.the_state) (hclient : w'.client_msg = w.client_msg)
    (hserving : w'.stop_serving = w.stop_serving)
    (hworkers : AllExited w.workers → AllExited w'.workers) : w'.Chain where
  run msg h' := by
    rw [Running, Idling, Carries, hstate, hclient]
    exact h.run msg (hplace.symm.trans h')
  stopping phase running_procs msg h' := by
    rw [Idling, Carries, hclient]
    exact h.stopping phase running_procs msg (hplace.symm.trans h')
  joining payload put_back msg h' := by
    rw [Carries, hclient]
    exact h.joining payload put_back msg (hplace.symm.trans h')
  adding templates gone_procs msg h' := h.adding templates gone_procs msg (hplace.symm.trans h')
  ended h' := by
    rw [hplace] at h'
    rw [Ended, hstate, hclient, hserving]
    exact (h.ended h').imp id fun h => ⟨h.1, hworkers h.2.1, h.2.2⟩

/-- `Idle` is through with the workers. -/
theorem Chain.stopped (h : w.Chain) (hstopped : Stopped w msg w₀) : w.Idling msg := by
  cases hstopped with
  | quiet hplace hstate =>
    rcases h.run msg hplace with ⟨-, h⟩ | ⟨hstate', -⟩ | ⟨hstate', -⟩
    · exact h
    · exact nomatch hstate.symm.trans hstate'
    · exact nomatch hstate.symm.trans hstate'
  | joined _ _ _ _ hplace => exact h.stopping _ _ msg hplace

theorem Chain.running (h : w.Chain) (hplace : w.place = .run msg)
    (hstate : w.the_state.state = .running) :
    msg.signal = w.client_msg.signal ∨ msg.signal = .readyToRun ∧ w.Carries msg := by
  rcases h.run msg hplace with ⟨hstate', -⟩ | ⟨-, h⟩ | ⟨hstate', -⟩
  · exact nomatch hstate.symm.trans hstate'
  · exact h
  · exact nomatch hstate.symm.trans hstate'

theorem Chain.join (h : w.Chain) (hplace : w.place = .run msg) (hstate : w.the_state.state = .join) :
    w.Carries msg := by
  rcases h.run msg hplace with ⟨hstate', -⟩ | ⟨hstate', -⟩ | ⟨-, h⟩
  · exact nomatch hstate.symm.trans hstate'
  · exact nomatch hstate.symm.trans hstate'
  · exact h

theorem Idling.signal_ne (h : w.Idling msg) (hhalts : w.Halts) : msg.signal ≠ .start := by
  intro hstart
  rcases h with h | ⟨h, -⟩
  · rw [hstart] at h
    rcases hhalts with hhalts | hhalts <;> rw [hhalts] at h <;> exact nomatch h
  · rw [hstart] at h
    exact h List.mem_cons_self

/-- A signal that is neither of a request that halts nor of `Join`. -/
theorem Chain.running_signal (h : w.Chain) (hplace : w.place = .run msg)
    (hstate : w.the_state.state = .running) (hhalts : w.Halts) :
    msg.signal ∈ [PGSignals.stop, .close, .readyToRun] := by
  rcases h.running hplace hstate with h | ⟨h, -⟩
  · rcases hhalts with hhalts | hhalts <;> rw [h, hhalts] <;> decide
  · rw [h]
    decide

/-- `Running` goes on with what `Join` has returned. -/
theorem Chain.readyToRun (h : w.Chain) (hplace : w.place = .run msg)
    (hstate : w.the_state.state = .running) (hhalts : w.Halts)
    (hsignal : msg.signal = .readyToRun ∨ msg.signal = .joinFinal) :
    msg.signal = .readyToRun ∧ w.Carries msg := by
  rcases h.running hplace hstate with heq | h
  · rw [heq] at hsignal
    rcases hhalts with hhalts | hhalts <;> rw [hhalts] at hsignal <;>
      exact hsignal.elim nofun nofun
  · exact h

/-- There is no way to new workers. -/
theorem Chain.state_ne (h : w.Chain) (hplace : w.place = .run msg) :
    w.the_state.state ∉ [BaseState.start, .makeJoiner, .addTemplates] := by
  rcases h.run msg hplace with ⟨hstate, -⟩ | ⟨hstate, -⟩ | ⟨hstate, -⟩ <;> rw [hstate] <;> decide

theorem Stopped.halts (h : Stopped w msg w₀) : w₀.Halts ↔ w.Halts := by
  rw [Halts, Halts, h.client_msg]

/-- The message of a state that stays says whether the manager goes on to serve. -/
theorem succeed_receive_stop_serving (w : PGManager τ) {m : PGSignalMessage τ}
    (hm : m.close = true) : (w.receive m).succeed.stop_serving = true := by
  show closes _ _ = true
  have hclose : ({ m with payload := { m.payload with replies := [] } } :
    PGSignalMessage τ).close = true := hm
  rw [closes, hclose, Bool.or_true, Bool.true_or]

theorem succeed_receive_client_msg (w : PGManager τ) (m : PGSignalMessage τ) :
    (w.receive m).succeed.client_msg = w.client_msg := finish_client_msg _ _ _

/-- **Step lemma.**  A request to stop or to close that finds what it has to find stays in the
chain. -/
theorem Chain.move {a : PGAction τ} (hchain : w.Halts → w.Chain) (hw : w.Hist) (hplaced : w.Placed)
    (hheeded : Heeded w a) (hmove : Move w a w') (hhalts : w'.Halts) : w'.Chain := by
  cases hmove with
  | stutter => exact hchain hhalts
  | request => exact (hchain hhalts).frame rfl rfl rfl rfl id
  | tick => exact (hchain hhalts).frame rfl rfl rfl rfl id
  | exits puid ecode =>
    exact (hchain hhalts).frame rfl rfl rfl rfl fun hall => hall.exits puid ecode
  | take msg w₀ hplace htaken hallowed =>
    have hmsg : w₀.client_msg = msg := htaken.client_msg
    have hstate : w₀.the_state.state = w.the_state.state := by rw [htaken.the_state]
    refine chain_of_run rfl ?_
    rcases hplaced.ready hplace with h | h | h
    · exact Or.inl ⟨hstate.trans h, Or.inl (by rw [← hmsg])⟩
    · exact Or.inr (Or.inl ⟨hstate.trans h, Or.inl (by rw [← hmsg])⟩)
    · -- before the templates are there no such request is taken
      have hsignal : msg.signal = .stop ∨ msg.signal = .close := hmsg ▸ hhalts
      rw [h] at hallowed
      rcases hsignal with hsignal | hsignal <;> rw [hsignal] at hallowed <;>
        exact absurd hallowed (by decide)
  | refuse msg w₀ hplace htaken hallowed =>
    have hmsg : w₀.client_msg = msg := htaken.client_msg
    have hsignal : msg.signal = .stop ∨ msg.signal = .close := by
      rw [Halts, finish_client_msg, hmsg] at hhalts
      exact hhalts
    have hstate : w.the_state.state = .addTemplates := by
      rcases hplaced.ready hplace with h | h | h
      · rw [h] at hallowed
        rcases hsignal with hsignal | hsignal <;> rw [hsignal] at hallowed <;>
          exact absurd (by decide) hallowed
      · rw [h] at hallowed
        rcases hsignal with hsignal | hsignal <;> rw [hsignal] at hallowed <;>
          exact absurd (by decide) hallowed
      · exact h
    refine chain_of_ended (finish_place _ _ _) (Or.inl ?_)
    rw [finish_the_state, htaken.the_state]
    exact hstate
  | addTemplates _ hplace hstate =>
    exact absurd (by rw [hstate]; decide) ((hchain hhalts).state_ne hplace)
  | stopping msg hplace hstate =>
    rcases (hchain hhalts).run msg hplace with ⟨-, h⟩ | ⟨hstate', -⟩ | ⟨hstate', -⟩
    · exact chain_of_stopping rfl h
    · exact nomatch hstate.symm.trans hstate'
    · exact nomatch hstate.symm.trans hstate'
  | stopAgain _ _ _ msg hplace =>
    exact chain_of_stopping rfl ((hchain hhalts).stopping _ _ msg hplace)
  | idleStart _ _ hstopped hsignal =>
    have hhalts : w.Halts := hstopped.halts.1 hhalts
    exact absurd hsignal (((hchain hhalts).stopped hstopped).signal_ne hhalts)
  | idleJoin msg _ hstopped =>
    have hhalts : w.Halts := hstopped.halts.1 hhalts
    refine chain_of_run rfl (Or.inr (Or.inr ⟨rfl, fun hclose => ?_⟩))
    have hclose : w.client_msg.signal = .close := hstopped.client_msg ▸ hclose
    rcases (hchain hhalts).stopped hstopped with h | ⟨-, h⟩
    · show (decide (msg.signal = .close) || msg.close) = true
      rw [h, hclose]
      rfl
    · show (decide (msg.signal = .close) || msg.close) = true
      rw [h hclose, Bool.or_true]
  | idleStays msg w₀ hstopped =>
    have hhalts : w.Halts := by
      rwa [Halts, succeed_receive_client_msg, hstopped.client_msg] at hhalts
    obtain ⟨-, -, hworkers, hall⟩ := hw.stopped hstopped
    refine chain_of_ended (finish_place _ _ _) (Or.inr ⟨?_, ?_, fun hclose => ?_⟩)
    · rw [succeed, finish_the_state]
      show w₀.the_state.state = .idle
      rw [hstopped.the_state, hstopped.state]
    · rw [succeed, finish_workers]
      show AllExited w₀.workers
      rw [hworkers]
      exact hall
    · rw [succeed_receive_client_msg, hstopped.client_msg] at hclose
      refine succeed_receive_stop_serving w₀ ?_
      rcases (hchain hhalts).stopped hstopped with h | ⟨-, h⟩
      · show (decide (msg.signal = .close) || msg.close) = true
        rw [h, hclose]
        rfl
      · show (decide (msg.signal = .close) || msg.close) = true
        rw [h hclose, Bool.or_true]
  | created _ _ _ hplace hstate =>
    exact absurd (by rw [hstate]; decide) ((hchain hhalts).state_ne hplace)
  | makeJoiner _ hplace hstate =>
    exact absurd (by rw [hstate]; decide) ((hchain hhalts).state_ne hplace)
  | runStop _ hplace hstate hsignal =>
    refine chain_of_run rfl (Or.inl ⟨rfl, Or.inl ?_⟩)
    rcases (hchain hhalts).running hplace hstate with h | ⟨h, -⟩
    · exact h
    · rcases hsignal with hsignal | hsignal <;> exact nomatch hsignal.symm.trans h
  | runJoin _ hplace hstate hsignal | runJoinFinal _ hplace hstate hsignal =>
    have h := (hchain hhalts).running_signal hplace hstate hhalts
    rcases hsignal with hsignal | hsignal <;> rw [hsignal] at h <;> exact absurd h (by decide)
  | runStopMaintaining _ hplace hstate hsignal =>
    have h := (hchain hhalts).running_signal hplace hstate hhalts
    rw [hsignal] at h
    exact absurd h (by decide)
  | runStays msg hplace hstate hsignal halive =>
    have hhalts : w.Halts := by rwa [Halts, succeed, finish_client_msg] at hhalts
    obtain ⟨hready, -⟩ := (hchain hhalts).readyToRun hplace hstate hhalts hsignal
    obtain ⟨hdead, -⟩ := hheeded hhalts msg hplace hstate hready
    exact nomatch halive.symm.trans hdead
  | runExit _ hplace hstate hsignal =>
    obtain ⟨-, hcarries⟩ := (hchain hhalts).readyToRun hplace hstate hhalts hsignal
    exact chain_of_run rfl (Or.inl ⟨rfl, Or.inr ⟨exitSignal_not_mem w, hcarries⟩⟩)
  | runRestart msg hplace hstate hsignal _ hrestart =>
    obtain ⟨hready, -⟩ := (hchain hhalts).readyToRun hplace hstate hhalts hsignal
    obtain ⟨-, hrestart'⟩ := hheeded hhalts msg hplace hstate hready
    exact nomatch hrestart.symm.trans hrestart'
  | added _ _ _ _ _ _ _ hadds =>
    obtain rfl := hadds.eq
    exact absurd hadds.place ((hchain hhalts).adding _ _ _)
  | addedFails _ _ _ _ _ _ hadds hreplace =>
    exact absurd hreplace (hw.replace_ne_none hadds)
  | joinBegin _ hplace hstate =>
    exact chain_of_joining rfl ((hchain hhalts).join hplace hstate)
  | joinItem _ _ msg _ _ _ _ hplace =>
    exact chain_of_joining rfl ((hchain hhalts).joining _ _ msg hplace)
  | joinEnd _ _ msg hplace =>
    have h := (hchain hhalts).joining _ _ msg hplace
    exact chain_of_run rfl (Or.inr (Or.inl ⟨rfl, Or.inr ⟨rfl, h⟩⟩))
  | joinedFails _ _ _ _ hplace hanswered hjoin =>
    exact absurd hjoin (hw.not_joinedFails hplace hanswered)
  | raises =>
    rw [Halts, fail, finish_client_msg] at hhalts
    exact absurd hhalts hheeded
  | joinerMoves => exact (hchain hhalts).frame rfl rfl rfl rfl id
  | joinerRecord => exact (hchain hhalts).frame rfl rfl rfl rfl id
  | joinerEnds => exact (hchain hhalts).frame rfl rfl rfl rfl id

/-! ## Nothing runs again without a start -/

/-- The condition: no request to start is taken. -/
def NoStart (w : PGManager τ) : PGAction τ → Prop
  | .get => ∀ msg rest, w.state_inq = msg :: rest → msg.signal ≠ .start
  | _ => True

/-- Another request is at most in `Idle`. -/
structure Resting (w : PGManager τ) : Prop where
  run : ∀ msg, w.place = .run msg →
    w.the_state.state = .idle ∧ msg.signal ∉ [PGSignals.start, .stop, .close]
  stopping : ∀ phase running_procs msg, w.place = .stopping phase running_procs msg →
    msg.signal ∉ [PGSignals.start, .stop, .close]
  joining : ∀ payload put_back msg, w.place ≠ .joining payload put_back msg
  adding : ∀ templates gone_procs msg, w.place ≠ .adding templates gone_procs msg
  ready : w.place = .ready → w.the_state.state = .idle

/-- No worker is running, and none is about to. -/
structure Quiet (w : PGManager τ) : Prop where
  exited : AllExited w.workers
  state : w.the_state.state ≠ .addTemplates
  resting : ¬ w.Halts → w.Resting

theorem Resting.frame (h : w.Resting) (hplace : w'.place = w.place)
    (hstate : w'.the_state = w.the_state) : w'.Resting where
  run msg h' := by
    rw [hstate]
    exact h.run msg (hplace.symm.trans h')
  stopping phase running_procs msg h' :=
    h.stopping phase running_procs msg (hplace.symm.trans h')
  joining payload put_back msg h' := h.joining payload put_back msg (hplace.symm.trans h')
  adding templates gone_procs msg h' := h.adding templates gone_procs msg (hplace.symm.trans h')
  ready h' := by
    rw [hstate]
    exact h.ready (hplace.symm.trans h')

theorem Quiet.frame (h : w.Quiet) (hplace : w'.place = w.place)
    (hstate : w'.the_state = w.the_state) (hclient : w'.client_msg = w.client_msg)
    (hworkers : AllExited w'.workers) : w'.Quiet where
  exited := hworkers
  state := by
    rw [hstate]
    exact h.state
  resting hhalts := by
    rw [Halts, hclient] at hhalts
    exact (h.resting hhalts).frame hplace hstate

/-- Where the state runner has nothing more to do. -/
theorem resting_of_ended (hplace : w.place = .ready ∨ w.place = .left)
    (hstate : w.place = .ready → w.the_state.state = .idle) : w.Resting := by
  refine ⟨fun _ h' => ?_, fun _ _ _ h' => ?_, fun _ _ _ h' => ?_, fun _ _ _ h' => ?_, hstate⟩
  all_goals rcases hplace with hplace | hplace <;> exact nomatch hplace.symm.trans h'

section Quiet

variable (hq : w.Quiet) (hchain : w.Halts → w.Chain)
include hq hchain

variable {msg : PGSignalMessage τ}

theorem Quiet.state_ne (hplace : w.place = .run msg) :
    w.the_state.state ∉ [BaseState.start, .makeJoiner, .addTemplates] := by
  by_cases hhalts : w.Halts
  · exact (hchain hhalts).state_ne hplace
  · rw [((hq.resting hhalts).run msg hplace).1]
    decide

omit hchain in
theorem Quiet.halts (hplace : w.place = .run msg) (hstate : w.the_state.state ≠ .idle) :
    w.Halts := by
  by_contra hhalts
  exact hstate ((hq.resting hhalts).run msg hplace).1

theorem Quiet.adding {templates : List τ} {gone_procs : List (ℕ × ℕ)} :
    w.place ≠ .adding templates gone_procs msg := by
  by_cases hhalts : w.Halts
  · exact (hchain hhalts).adding _ _ _
  · exact (hq.resting hhalts).adding _ _ _

theorem Quiet.idle (hplace : w.place = .ready) : w.the_state.state = .idle := by
  by_cases hhalts : w.Halts
  · rcases (hchain hhalts).ended (Or.inl hplace) with h | ⟨h, -⟩
    · exact absurd h hq.state
    · exact h
  · exact (hq.resting hhalts).ready hplace

end Quiet

theorem Resting.stopped (h : w.Resting) (hstopped : Stopped w msg w₀) :
    msg.signal ∉ [PGSignals.start, .stop, .close] := by
  cases hstopped with
  | quiet hplace => exact (h.run msg hplace).2
  | joined _ _ _ _ hplace => exact h.stopping _ _ msg hplace

/-- **Step lemma.**  With no request to start, it stays quiet. -/
theorem Quiet.move {a : PGAction τ} (hq : w.Quiet) (hchain : w.Halts → w.Chain) (hw : w.Hist)
    (hstart : NoStart w a) (hmove : Move w a w') : w'.Quiet := by
  cases hmove with
  | stutter => exact hq
  | request => exact hq.frame rfl rfl rfl hq.exited
  | tick => exact hq.frame rfl rfl rfl hq.exited
  | exits puid ecode => exact hq.frame rfl rfl rfl (hq.exited.exits puid ecode)
  | take msg w₀ hplace htaken =>
    obtain ⟨-, hworkers, -⟩ := htaken.frame
    have hidle := hq.idle hchain hplace
    refine ⟨?_, ?_, fun hhalts => ⟨fun msg' h' => ?_, fun _ _ _ h' => ?_, fun _ _ _ h' => ?_,
      fun _ _ _ h' => ?_, fun h' => ?_⟩⟩
    · show AllExited w₀.workers
      rw [hworkers]
      exact hq.exited
    · show w₀.the_state.state ≠ .addTemplates
      rw [htaken.the_state]
      exact hq.state
    · obtain rfl := PGPlace.run.inj h'
      refine ⟨by rw [← hidle, ← htaken.the_state], ?_⟩
      have hhalts : ¬ (msg.signal = .stop ∨ msg.signal = .close) := by
        rwa [Halts, show w₀.client_msg = msg from htaken.client_msg] at hhalts
      have hne : msg.signal ≠ .start := by
        cases htaken with
        | request rest hinq => exact hstart msg rest hinq
        | poke _ hstate => exact nomatch hidle.symm.trans hstate
      simp only [List.mem_cons, List.not_mem_nil, or_false]
      tauto
    · exact nomatch h'
    · exact nomatch h'
    · exact nomatch h'
    · exact nomatch h'
  | refuse _ _ hplace htaken =>
    obtain ⟨-, hworkers, -⟩ := htaken.frame
    refine ⟨?_, ?_, fun _ => resting_of_ended (finish_place _ _ _) fun _ => ?_⟩
    · rw [finish_workers, hworkers]
      exact hq.exited
    · rw [finish_the_state, htaken.the_state]
      exact hq.state
    · rw [finish_the_state, htaken.the_state]
      exact hq.idle hchain hplace
  | addTemplates _ hplace hstate =>
    exact absurd (by rw [hstate]; decide) (hq.state_ne hchain hplace)
  | stopping msg hplace =>
    refine ⟨hq.exited, hq.state, fun hhalts => ⟨fun _ h' => ?_, fun _ _ msg' h' => ?_,
      fun _ _ _ h' => ?_, fun _ _ _ h' => ?_, fun h' => ?_⟩⟩
    · exact nomatch h'
    · obtain ⟨-, -, rfl⟩ := PGPlace.stopping.inj h'
      exact ((hq.resting hhalts).run msg hplace).2
    · exact nomatch h'
    · exact nomatch h'
    · exact nomatch h'
  | stopAgain _ _ _ msg hplace =>
    refine ⟨hq.exited, hq.state, fun hhalts => ⟨fun _ h' => ?_, fun _ _ msg' h' => ?_,
      fun _ _ _ h' => ?_, fun _ _ _ h' => ?_, fun h' => ?_⟩⟩
    · exact nomatch h'
    · obtain ⟨-, -, rfl⟩ := PGPlace.stopping.inj h'
      exact (hq.resting hhalts).stopping _ _ msg hplace
    · exact nomatch h'
    · exact nomatch h'
    · exact nomatch h'
  | idleStart _ _ hstopped hsignal =>
    exfalso
    by_cases hhalts : w.Halts
    · exact ((hchain hhalts).stopped hstopped).signal_ne hhalts hsignal
    · refine (hq.resting hhalts).stopped hstopped ?_
      rw [hsignal]
      decide
  | idleJoin _ w₀ hstopped hsignal =>
    obtain ⟨-, -, hworkers, -⟩ := hw.stopped hstopped
    refine ⟨?_, nofun, fun hhalts => absurd ?_ hhalts⟩
    · show AllExited w₀.workers
      rw [hworkers]
      exact hq.exited
    · refine hstopped.halts.2 ?_
      by_contra hhalts
      refine (hq.resting hhalts).stopped hstopped ?_
      rcases hsignal with hsignal | hsignal <;> rw [hsignal] <;> decide
  | idleStays msg w₀ hstopped =>
    obtain ⟨-, -, hworkers, -⟩ := hw.stopped hstopped
    have hstate : (w₀.receive { signal := .success
                                close := msg.signal = .close || msg.close }
        ).succeed.the_state.state = .idle := by
      rw [succeed, finish_the_state]
      show w₀.the_state.state = .idle
      rw [hstopped.the_state, hstopped.state]
    refine ⟨?_, ?_, fun _ => resting_of_ended (finish_place _ _ _) fun _ => hstate⟩
    · rw [succeed, finish_workers]
      show AllExited w₀.workers
      rw [hworkers]
      exact hq.exited
    · rw [hstate]
      decide
  | created _ _ _ hplace hstate =>
    exact absurd (by rw [hstate]; decide) (hq.state_ne hchain hplace)
  | makeJoiner _ hplace hstate =>
    exact absurd (by rw [hstate]; decide) (hq.state_ne hchain hplace)
  | runStop _ hplace hstate | runJoin _ hplace hstate | runJoinFinal _ hplace hstate
  | runStopMaintaining _ hplace hstate =>
    exact ⟨hq.exited, nofun,
      fun h => absurd (hq.halts hplace (by rw [hstate]; decide)) h⟩
  | runStays _ hplace hstate =>
    have hhalts := hq.halts hplace (by rw [hstate]; decide)
    refine ⟨?_, ?_, fun h => absurd ?_ h⟩
    · rw [succeed, finish_workers]
      exact hq.exited
    · rw [succeed, finish_the_state]
      exact hq.state
    · rwa [Halts, succeed_receive_client_msg]
  | runExit _ hplace hstate =>
    exact ⟨hq.exited, nofun,
      fun h => absurd (hq.halts hplace (by rw [hstate]; decide)) h⟩
  | runRestart _ hplace hstate =>
    exact ⟨hq.exited, hq.state,
      fun h => absurd (hq.halts hplace (by rw [hstate]; decide)) h⟩
  | added _ _ _ _ _ _ _ hadds =>
    exact absurd hadds.place (hq.adding hchain)
  | addedFails _ _ _ _ _ _ hadds =>
    exact absurd hadds.place (hq.adding hchain)
  | joinBegin _ hplace hstate =>
    exact ⟨hq.exited, hq.state,
      fun h => absurd (hq.halts hplace (by rw [hstate]; decide)) h⟩
  | joinItem _ _ _ _ _ _ _ hplace =>
    refine ⟨hq.exited, hq.state, fun hhalts => ?_⟩
    exact absurd hplace ((hq.resting hhalts).joining _ _ _)
  | joinEnd _ _ _ hplace =>
    refine ⟨hq.exited, nofun, fun hhalts => ?_⟩
    exact absurd hplace ((hq.resting hhalts).joining _ _ _)
  | joinedFails _ _ _ _ hplace hanswered hjoin =>
    exact absurd hjoin (hw.not_joinedFails hplace hanswered)
  | raises =>
    refine ⟨?_, ?_, fun _ => resting_of_ended (Or.inr (fail_place _ _)) fun h => ?_⟩
    · rw [fail_workers]
      exact hq.exited
    · rw [fail_the_state]
      exact nofun
    · exact nomatch (fail_place _ _).symm.trans h
  | joinerMoves => exact hq.frame rfl rfl rfl hq.exited
  | joinerRecord => exact hq.frame rfl rfl rfl hq.exited
  | joinerEnds => exact hq.frame rfl rfl rfl hq.exited

/-! ## Every run -/

theorem Chain.takesEffect (hchain : w.Halts → w.Chain) : w.TakesEffect where
  stop hsignal hfinished := by
    rcases (hchain (Or.inl hsignal)).ended hfinished.1 with h | ⟨hstate, hall, -⟩
    · exact absurd h hfinished.2
    · exact ⟨hstate, hall⟩
  close hsignal hfinished := by
    rcases (hchain (Or.inr hsignal)).ended hfinished.1 with h | ⟨-, -, hclose⟩
    · exact absurd h hfinished.2
    · exact hclose hsignal

/-- **Stop and close.**  In every run in which requests to stop and to close find what they have to
find, they take effect, and after a request to stop no worker runs until a request to start is
taken. -/
theorem takesEffect_of_heeded (puid : ℕ) (restart ignore_error_on_exit : Bool)
    (walltime : Option ℚ) (actions more : List (PGAction τ))
    (hactions : Runs.Legal exec Heeded (init puid restart ignore_error_on_exit walltime)
      (actions ++ more)) :
    (actions.foldl exec (init puid restart ignore_error_on_exit walltime)).TakesEffect ∧
      ((actions.foldl exec (init puid restart ignore_error_on_exit walltime)).Finished →
        (actions.foldl exec (init puid restart ignore_error_on_exit walltime)).client_msg.signal =
          .stop →
        Runs.Legal exec NoStart
          (actions.foldl exec (init puid restart ignore_error_on_exit walltime)) more →
        AllExited ((actions ++ more).foldl exec
          (init puid restart ignore_error_on_exit walltime)).workers) := by
  have hplaced := placed_init (τ := τ) puid restart ignore_error_on_exit walltime
  obtain ⟨hplaced', hw'⟩ := hist_run puid restart ignore_error_on_exit walltime actions
  obtain ⟨hlegal, hmore⟩ := Runs.legal_append.1 hactions
  obtain ⟨-, hchain⟩ := legal_invariant
    (I := fun w : PGManager τ => w.Hist ∧ (w.Halts → w.Chain))
    (fun w a w' hplaced hw hheeded hmove =>
      ⟨hw.1.move hplaced hmove, Chain.move hw.2 hw.1 hplaced hheeded hmove⟩)
    hplaced ⟨hist_init puid restart ignore_error_on_exit walltime,
      fun h => h.elim nofun nofun⟩ hlegal
  refine ⟨Chain.takesEffect hchain, fun hfinished hsignal hstart => ?_⟩
  have hall := ((Chain.takesEffect hchain).stop hsignal hfinished).2
  obtain ⟨-, -, hquiet⟩ := legal_invariant
    (I := fun w : PGManager τ => w.Hist ∧ (w.Halts → w.Chain) ∧ w.Quiet)
    (fun w a w' hplaced hw hok hmove =>
      ⟨hw.1.move hplaced hmove, Chain.move hw.2.1 hw.1 hplaced hok.1 hmove,
        hw.2.2.move hw.2.1 hw.1 hok.2 hmove⟩)
    hplaced' ⟨hw', hchain, hall, hfinished.2, fun h => absurd (Or.inl hsignal) h⟩
    (hmore.and hstart)
  rw [List.foldl_append]
  exact hquiet.exited

/-- A group of one worker is stopped, and its joiner thread ends in time. -/
def stopped : List (PGAction ℕ) :=
  [.request 7 1 (.add_processes [(1, 20)]), .get, .step, .step, .request 7 2 .start, .get, .step,
    .created 5 [10], .step, .step, .joinerStep 0, .request 7 3 (.stop 1), .get, .step, .step,
    .exits 10 0, .joinerAnswered 0 false, .joinerStep 0, .joinerStep 0, .joined false, .step, .step,
    .step, .step]

/-- Another client joins the group that was stopped. -/
def joinedLater : List (PGAction ℕ) := [.request 8 4 (.join none), .get, .step]

theorem takesEffect_of_heeded_stopped :
    (stopped.foldl exec (init 1 false true none)).TakesEffect ∧
      AllExited ((stopped ++ joinedLater).foldl exec (init 1 false true none)).workers := by
  have hnot : ∀ {w : PGManager ℕ}, w.client_msg.signal ∉ [PGSignals.stop, .close] →
      Heeded w .step := fun hne hhalts =>
    absurd (hhalts.elim (fun h => by rw [h]; decide) fun h => by rw [h]; decide) hne
  have hstate : ∀ {w : PGManager ℕ}, w.the_state.state ≠ .running → Heeded w .step :=
    fun hne _ _ _ h => absurd h hne
  have hlegal : Runs.Legal exec Heeded (init 1 false true none) (stopped ++ joinedLater) := by
    refine ⟨trivial, trivial, hnot (by decide), hnot (by decide), trivial, trivial,
      hnot (by decide), trivial, hnot (by decide), hnot (by decide), trivial, trivial, trivial, ?_,
      hstate (by decide), trivial, trivial, trivial, trivial, trivial, hstate (by decide),
      hstate (by decide), fun _ _ _ _ _ => by decide, hstate (by decide), trivial, trivial,
      hstate (by decide), trivial⟩
    -- `Running` has the request itself
    rintro - msg hplace - hsignal
    obtain rfl := PGPlace.run.inj hplace
    exact nomatch hsignal
  obtain ⟨heffect, hmore⟩ := takesEffect_of_heeded 1 false true none stopped joinedLater hlegal
  refine ⟨heffect, hmore ⟨Or.inl rfl, by decide⟩ rfl ⟨trivial, ?_, trivial, trivial⟩⟩
  intro msg rest hinq
  obtain ⟨rfl, -⟩ := List.cons.inj hinq
  exact nofun

/-- The joiner thread is still in its join when the request to stop is back in `Running`. -/
def stoppedEarly : List (PGAction ℕ) :=
  [.request 7 1 (.add_processes [(1, 20)]), .get, .step, .step, .request 7 2 .start, .get, .step,
    .created 5 [10], .step, .step, .joinerStep 0, .request 7 3 (.stop 1), .get, .step, .step,
    .exits 10 0, .joined false, .step, .step, .step]

/-- The state is `Running` once it is through with the request. -/
theorem not_takesEffect_stoppedEarly :
    ¬ (stoppedEarly.foldl exec (init 1 false true none)).TakesEffect := by
  intro h
  have hidle := (h.stop rfl ⟨Or.inl rfl, by decide⟩).1
  exact absurd hidle (by decide)

end PGManager
