/-
# That requests to a process group are answered exactly once

The state runner keeps an account of the requests it has taken: each has been answered, is among the
pending requests, or is the one in hand, to which an answer is owed until the end of its chain of
states.  A join in hand is not owed an answer any more once it is among the pending requests, and
the message of the chain says so, unless `Running` finds, when it looks at the joiner thread for the
second time, that the thread has ended.
-/
import DragonRuntime.ProcessGroupReplies

namespace PGManager

variable {τ : Type} {w w' w₀ : PGManager τ}

/-! ## Accounts of requests -/

/-- Each of the `n` requests has a reply, is pending, or is owed one. -/
def Covered (replies : List (Option ℕ × PGReply)) (pending : List JoinRequest)
    (owed : List (Option ℕ)) (n : ℕ) : Prop :=
  (replies.map (fun item => item.2.req) ++ pending.map JoinRequest.req ++ owed).Perm
    ((List.range n).map some)

section Covered

variable {replies : List (Option ℕ × PGReply)} {pending put_back : List JoinRequest}
  {item : JoinRequest} {owed : List (Option ℕ)} {n : ℕ}

theorem covered_iff_count : Covered replies pending owed n ↔ ∀ r,
    (replies.map fun item => item.2.req).count r + (pending.map JoinRequest.req).count r +
      owed.count r = ((List.range n).map some).count r := by
  simp only [Covered, List.perm_iff_count, List.count_append]

theorem Covered.reply {x : Option ℕ × PGReply} (h : Covered replies pending [x.2.req] n) :
    Covered (replies ++ [x]) pending [] n := by
  rw [covered_iff_count] at h ⊢
  intro r
  have hr := h r
  simp only [List.map_append, List.map_cons, List.map_nil, List.count_append, List.count_nil]
  omega

theorem Covered.take (h : Covered replies pending [] n) :
    Covered replies pending [some n] (n + 1) := by
  rw [covered_iff_count] at h ⊢
  intro r
  have hr := h r
  simp only [List.count_nil] at hr
  rw [List.range_succ, List.map_append, List.count_append, ← hr]
  rfl

/-- The join in hand becomes a pending request. -/
theorem Covered.queue (h : Covered replies pending [item.req] n) :
    Covered replies (pending ++ [item]) [] n := by
  rw [covered_iff_count] at h ⊢
  intro r
  have hr := h r
  simp only [List.map_append, List.map_cons, List.map_nil, List.count_append, List.count_nil]
  omega

theorem Covered.answer (h : Covered replies (item :: pending) owed n) {x : Option ℕ × PGReply}
    (hx : x.2.req = item.req) : Covered (replies ++ [x]) pending owed n := by
  rw [covered_iff_count] at h ⊢
  intro r
  have hr := h r
  simp only [List.map_cons, List.count_cons] at hr
  simp only [List.map_append, List.map_cons, List.map_nil, List.count_append, List.count_cons,
    List.count_nil, hx]
  omega

theorem Covered.back (h : Covered replies (item :: (pending ++ put_back)) owed n) :
    Covered replies (pending ++ (put_back ++ [item])) owed n := by
  rw [covered_iff_count] at h ⊢
  intro r
  have hr := h r
  simp only [List.map_cons, List.map_append, List.count_cons, List.count_append] at hr
  simp only [List.map_append, List.map_cons, List.map_nil, List.count_append, List.count_cons,
    List.count_nil]
  omega

theorem Covered.mem (h : Covered replies pending [] n) {r : ℕ} (hr : r < n) :
    some r ∈ replies.map (fun item => item.2.req) ++ pending.map JoinRequest.req := by
  have hmem : some r ∈ (List.range n).map some := List.mem_map_of_mem (List.mem_range.2 hr)
  rw [← h.mem_iff, List.append_nil] at hmem
  exact hmem

end Covered

/-! ## What requests have to find -/

/-- The group can be created: there is a template, and each has a member. -/
def Populated (w : PGManager τ) : Prop :=
  w.the_state.p_templates ≠ [] ∧ ∀ t ∈ w.the_state.p_templates, 0 < t.1

/-- The condition: a request that is taken is valid in the current state, and a start finds a group
that can be created; when `Running` comes from
`Join` to a joiner thread that has ended, the request in hand has not been answered or put among the
pending ones by `Join`, and there is no pending request, or there is a worker to restart; and where
a call raises, there is no pending request, and the last message from a state does not say that
there is no reply. -/
def Orderly (w : PGManager τ) : PGAction τ → Prop
  | .get => ∀ msg rest, w.place = .ready → w.state_inq = msg :: rest →
    msg.signal ∈ w.the_state.state.allowed_sigs ∧ (msg.signal = .start → w.Populated)
  | .step => ∀ msg, w.place = .run msg → w.the_state.state = .running →
    msg.signal = .readyToRun → w.isAlive = false →
      (∀ r, w.cur = some r → some r ∉ w.state_outq.map (fun item => item.2.req) ++
        w.the_state.pending_replies.map JoinRequest.req) ∧
        (w.restart = false → w.the_state.pending_replies = []) ∧
          (w.restart = true → w.goneTemplates ≠ [])
  | .raises => w.the_state.pending_replies = [] ∧
    (w.client_msg.p_uid = some w.puid ∨
      ∃ m, w.desired_state_msg = some m ∧ m.skip_reply = false)
  | _ => True

/-- Every request that was taken has been answered once or is pending, and once the state runner has
left its loop, on a request to close or an error, none is pending; none is left pending in `Idle`,
and none waits for an answer that global services do not give. -/
structure Answered (w : PGManager τ) : Prop where
  replies : ∀ item ∈ w.state_outq, Answers w.served w.now item
  pending : ∀ item ∈ w.the_state.pending_replies, IsOf w.served item
  once : w.place = .ready ∨ w.place = .left →
    Covered w.state_outq w.the_state.pending_replies [] w.served.length
  left : w.place = .left → w.the_state.pending_replies = [] ∧
    (w.client_msg.signal = .close ∨ w.the_state.state = .error)
  idle : w.place = .ready → w.the_state.state = .idle → w.the_state.pending_replies = []
  waits : ∀ templates gone_procs msg, w.place = .adding templates gone_procs msg → templates ≠ []
  starts : ∀ msg, w.place = .run msg → w.the_state.state = .start → w.Populated

/-! ## The invariant -/

/-- What is owed to the request in hand. -/
def owed (w : PGManager τ) : List (Option ℕ) := w.cur.toList.map some

/-- The flag to close comes from a request to close. -/
def Closing (w : PGManager τ) (msg : PGSignalMessage τ) : Prop :=
  msg.close = true ∨ msg.signal = .close → w.client_msg.signal = .close

/-- `Idle` has nothing pending, or it goes on to `Join`. -/
def Pending (w : PGManager τ) (msg : PGSignalMessage τ) : Prop :=
  w.the_state.pending_replies = [] ∨
    (msg.signal = .stop ∨ msg.signal = .close) ∧ w.the_state.g_uid ≠ none

/-- A reply is owed at the end of the chain, and will be given: or the joiner thread has ended. -/
structure Owes (w : PGManager τ) (msg : PGSignalMessage τ) : Prop where
  covered : Covered w.state_outq w.the_state.pending_replies w.owed w.served.length
  skip : w.cur ≠ none → w.the_state.state = .running ∧ msg.signal = .readyToRun ∨
    w.the_state.state = .join ∧ msg.signal = .joinFinal →
      msg.skip_reply = false ∨ w.isAlive = false

/-- No reply is owed, and none will be given. -/
structure Settled (w : PGManager τ) (msg : PGSignalMessage τ) : Prop where
  covered : Covered w.state_outq w.the_state.pending_replies [] w.served.length
  state : w.the_state.state = .running
  signal : msg.signal = .readyToRun
  skip : msg.skip_reply = true

/-- Before `run` of a state. -/
structure InRun (w : PGManager τ) (msg : PGSignalMessage τ) : Prop where
  owes : w.Owes msg ∨ w.Settled msg
  closing : w.Closing msg
  idle : w.the_state.state = .idle → w.Pending msg
  start : w.the_state.state = .start ∨ w.the_state.state = .addTemplates →
    w.the_state.pending_replies = []
  running : w.the_state.state = .running → msg.signal ≠ .joinFinal
  poke : w.cur ≠ none → msg.signal ≠ .joinPoke
  join : w.the_state.state = .join → msg.signal = .join → msg.skip_reply = true

/-- In the loop of `Join`: a join in hand is among the requests that it looks at. -/
structure InJoin (w : PGManager τ) (payload : List (Option ℕ × PGReply))
    (put_back : List JoinRequest) (msg : PGSignalMessage τ) : Prop where
  closing : w.Closing msg
  covered :
    Covered (w.state_outq ++ payload) (w.the_state.pending_replies ++ put_back) [] w.served.length ∧
        msg.skip_reply = true ∨
      Covered (w.state_outq ++ payload) (w.the_state.pending_replies ++ put_back) w.owed
          w.served.length ∧
        (w.cur ≠ none → msg.skip_reply = false ∨ w.isAlive = false)

/-- **Invariant.** -/
structure Balance (w : PGManager τ) : Prop where
  inq : ∀ m ∈ w.state_inq, m.p_uid ≠ some w.puid ∧ m.skip_reply = false ∧ m.close = false ∧
    m.signal ∉ [PGSignals.readyToRun, .joinFinal, .joinPoke]
  replies : ∀ item ∈ w.state_outq, Answers w.served w.now item
  serving : w.place ≠ .left → w.stop_serving = false
  hand : w.place ≠ .ready → w.place ≠ .left → (w.cur = none ↔ w.client_msg.p_uid = some w.puid)
  once : w.place = .ready ∨ w.place = .left →
    Covered w.state_outq w.the_state.pending_replies [] w.served.length
  left : w.place = .left → w.the_state.pending_replies = [] ∧
    (w.client_msg.signal = .close ∨ w.the_state.state = .error)
  idle : w.place = .ready → w.the_state.state = .idle → w.the_state.pending_replies = []
  first : w.place = .ready → w.the_state.state = .addTemplates →
    w.the_state.pending_replies = []
  run : ∀ msg, w.place = .run msg → w.InRun msg
  stopping : ∀ phase running_procs msg, w.place = .stopping phase running_procs msg →
    Covered w.state_outq w.the_state.pending_replies w.owed w.served.length ∧ w.Closing msg ∧
      w.Pending msg
  adding : ∀ templates gone_procs msg, w.place = .adding templates gone_procs msg →
    Covered w.state_outq w.the_state.pending_replies w.owed w.served.length ∧ w.Closing msg ∧
      templates ≠ []
  joining : ∀ payload put_back msg, w.place = .joining payload put_back msg →
    w.InJoin payload put_back msg

/-! ## Steps that leave the state runner where it is -/

/-- What the accounts are about is the same, and a joiner thread that has ended has not come back.
-/
structure SameAccounts (w w' : PGManager τ) : Prop where
  place : w'.place = w.place
  the_state : w'.the_state = w.the_state
  cur : w'.cur = w.cur
  client_msg : w'.client_msg = w.client_msg
  puid : w'.puid = w.puid
  served : w'.served = w.served
  state_outq : w'.state_outq = w.state_outq
  stop_serving : w'.stop_serving = w.stop_serving
  isAlive : w.isAlive = false → w'.isAlive = false

variable {msg m : PGSignalMessage τ} {payload : List (Option ℕ × PGReply)}
  {put_back : List JoinRequest}

theorem InRun.frame (h : w.InRun msg) (hsame : SameAccounts w w') : w'.InRun msg := by
  obtain ⟨-, hstate, hcur, hclient, -, hserved, houtq, -, halive⟩ := hsame
  refine ⟨h.owes.imp (fun h => ⟨?_, ?_⟩) fun h => ⟨?_, ?_, h.signal, h.skip⟩, ?_, ?_, ?_, ?_, ?_,
    ?_⟩
  · rw [owed, houtq, hstate, hcur, hserved]
    exact h.covered
  · rw [hcur, hstate]
    exact fun hne hor => (h.skip hne hor).imp id halive
  · rw [houtq, hstate, hserved]
    exact h.covered
  · rw [hstate]
    exact h.state
  · rw [Closing, hclient]
    exact h.closing
  · rw [Pending, hstate]
    exact h.idle
  · rw [hstate]
    exact h.start
  · rw [hstate]
    exact h.running
  · rw [hcur]
    exact h.poke
  · rw [hstate]
    exact h.join

theorem InJoin.frame (h : w.InJoin payload put_back msg) (hsame : SameAccounts w w') :
    w'.InJoin payload put_back msg := by
  obtain ⟨-, hstate, hcur, hclient, -, hserved, houtq, -, halive⟩ := hsame
  refine ⟨?_, ?_⟩
  · rw [Closing, hclient]
    exact h.closing
  · rw [owed, houtq, hstate, hcur, hserved]
    exact h.covered.imp id fun h => ⟨h.1, fun hne => (h.2 hne).imp id halive⟩

theorem Balance.frame (hw : w.Balance) (hsame : SameAccounts w w') (hnow : w.now ≤ w'.now)
    (hinq : ∀ m ∈ w'.state_inq, m.p_uid ≠ some w.puid ∧ m.skip_reply = false ∧ m.close = false ∧
      m.signal ∉ [PGSignals.readyToRun, .joinFinal, .joinPoke]) : w'.Balance := by
  have hsame' := hsame
  obtain ⟨hplace, hstate, hcur, hclient, hpuid, hserved, houtq, hserving, halive⟩ := hsame
  constructor
  · rw [hpuid]
    exact hinq
  · rw [houtq, hserved]
    exact fun item hitem => (hw.replies item hitem).later hnow
  · rw [hplace, hserving]
    exact hw.serving
  · rw [hplace, hcur, hclient, hpuid]
    exact hw.hand
  · rw [hplace, houtq, hstate, hserved]
    exact hw.once
  · rw [hplace, hstate, hclient]
    exact hw.left
  · rw [hplace, hstate]
    exact hw.idle
  · rw [hplace, hstate]
    exact hw.first
  · rw [hplace]
    exact fun msg h => (hw.run msg h).frame hsame'
  · rw [hplace, houtq, hstate, hserved, owed, hcur]
    intro phase running_procs msg h
    obtain ⟨hcovered, hclosing, hpending⟩ := hw.stopping phase running_procs msg h
    refine ⟨hcovered, ?_, ?_⟩
    · rw [Closing, hclient]
      exact hclosing
    · rw [Pending, hstate]
      exact hpending
  · rw [hplace, houtq, hstate, hserved, owed, hcur]
    intro templates gone_procs msg h
    obtain ⟨hcovered, hclosing, hne⟩ := hw.adding templates gone_procs msg h
    refine ⟨hcovered, ?_, hne⟩
    rw [Closing, hclient]
    exact hclosing
  · rw [hplace]
    exact fun payload put_back msg h => (hw.joining payload put_back msg h).frame hsame'

/-- A thread that has ended does not go on. -/
theorem isAlive_setJoiner {i : ℕ} {j j' : Joiner} (hi : w.joiners[i]? = some j)
    (hphase : j.phase ≠ .ended) (hstate : w'.the_state = w.the_state)
    (hjoiners : w'.joiners = w.joiners.set i j') (hdead : w.isAlive = false) :
    w'.isAlive = false := by
  rw [isAlive] at hdead ⊢
  rw [hstate, hjoiners]
  cases ht : w.the_state.joiner_thread with
  | none => rfl
  | some t =>
    rw [ht, Option.bind_some] at hdead
    rw [Option.bind_some]
    by_cases heq : i = t
    · obtain rfl := heq
      rw [hi, Option.any_some, decide_eq_true hphase] at hdead
      exact nomatch hdead
    · rw [List.getElem?_set_ne heq]
      exact hdead

theorem JoinerMoves.phase_ne {j j' : Joiner} (h : JoinerMoves w j j') : j.phase ≠ .ended := by
  cases h with
  | empty hphase => rw [hphase]; exact nofun
  | snapshot hphase => rw [hphase]; exact nofun
  | again _ hphase => rw [hphase]; exact nofun
  | returned _ hphase => rw [hphase]; exact nofun
  | raised _ hphase => rw [hphase]; exact nofun

/-! ## Steps of the state runner -/

/-- Nothing is put out, and the request in hand is the same. -/
structure SameOut (w w₀ : PGManager τ) : Prop where
  hand : SameHand w w₀
  puid : w₀.puid = w.puid
  state_outq : w₀.state_outq = w.state_outq
  stop_serving : w₀.stop_serving = w.stop_serving

theorem SameOut.refl (w : PGManager τ) : SameOut w w := ⟨.refl w, rfl, rfl, rfl⟩

/-- A state goes on to the next one, with nothing to put out. -/
theorem Balance.goes (hw : w.Balance) (hready : w.place ≠ .ready) (hleft : w.place ≠ .left)
    (hsame : SameOut w w₀) {d : PGState τ} (hreplies : m.payload.replies = [])
    (hrun : (w₀.goes m d).InRun { m with payload := { m.payload with replies := [] } }) :
    (w₀.goes m d).Balance := by
  obtain ⟨⟨hcur, hclient, hserved, hinq, hnow⟩, hpuid, houtq, hserving⟩ := hsame
  refine ⟨?_, ?_, fun _ => ?_, fun _ _ => ?_, fun h => ?_, nofun,
    nofun, nofun, fun msg h => ?_, fun _ _ _ h => (nomatch h),
    fun _ _ _ h => (nomatch h), fun _ _ _ h => nomatch h⟩
  · show ∀ m ∈ w₀.state_inq, m.p_uid ≠ some w₀.puid ∧ _
    rw [hinq, hpuid]
    exact hw.inq
  · show ∀ item ∈ w₀.state_outq ++ m.payload.replies, Answers w₀.served w₀.now item
    rw [hreplies, List.append_nil, houtq, hserved, hnow]
    exact hw.replies
  · exact hserving.trans (hw.serving hleft)
  · show w₀.cur = none ↔ w₀.client_msg.p_uid = some w₀.puid
    rw [hcur, hclient, hpuid]
    exact hw.hand hready hleft
  · exact h.elim nofun nofun
  · obtain rfl := PGPlace.run.inj h
    exact hrun

/-- The state runner is at the head of its loop, or has left it. -/
theorem balance_of_ended (hplace : w.place = .ready ∨ w.place = .left)
    (hinq : ∀ m ∈ w.state_inq, m.p_uid ≠ some w.puid ∧ m.skip_reply = false ∧ m.close = false ∧
      m.signal ∉ [PGSignals.readyToRun, .joinFinal, .joinPoke])
    (hreplies : ∀ item ∈ w.state_outq, Answers w.served w.now item)
    (hserving : w.place ≠ .left → w.stop_serving = false)
    (honce : Covered w.state_outq w.the_state.pending_replies [] w.served.length)
    (hleft : w.place = .left → w.the_state.pending_replies = [] ∧
      (w.client_msg.signal = .close ∨ w.the_state.state = .error))
    (hstate : w.the_state.state ≠ .running → w.the_state.pending_replies = []) : w.Balance := by
  refine ⟨hinq, hreplies, hserving, fun h h' => ?_, fun _ => honce, hleft, fun _ h => hstate ?_,
    fun _ h => hstate ?_, fun _ h => ?_, fun _ _ _ h => ?_, fun _ _ _ h => ?_, fun _ _ _ h => ?_⟩
  · exact hplace.elim (fun hplace => absurd hplace h) fun hplace => absurd hplace h'
  · rw [h]
    decide
  · rw [h]
    decide
  all_goals rcases hplace with hplace | hplace <;> exact nomatch hplace.symm.trans h

/-- Where the state runner is after a state that stays. -/
theorem succeed_receive_place (w : PGManager τ) (m : PGSignalMessage τ)
    (hserving : w.stop_serving = false) (hstate : w.the_state.state ≠ .error) :
    (w.receive m).succeed.place = (if m.close = true then .left else .ready) ∧
      (w.receive m).succeed.stop_serving = m.close := by
  have hcloses : (w.receive m).closes { m with payload := { m.payload with replies := [] } } =
      m.close := by
    show (w.stop_serving || m.close || decide (w.the_state.state = .error)) = m.close
    rw [hserving, decide_eq_false hstate, Bool.false_or, Bool.or_false]
  refine ⟨?_, hcloses⟩
  show (if (w.receive m).closes _ = true then PGPlace.left else PGPlace.ready) = _
  rw [hcloses]

/-- The reply to the request in hand, when it is owed. -/
theorem Held.answers (hheld : w.Held) {r : ℕ} (hr : w.cur = some r) {reply : PGReply}
    (htag : reply.tag = w.client_msg.tag) (hreq : reply.req = w.cur)
    (hsignal : reply.signal ≠ .joinTimeout) :
    Answers w.served w.now (w.client_msg.p_uid, reply) := by
  obtain ⟨t, -, hserved⟩ := hheld.cur r hr
  exact ⟨r, t, w.client_msg, hreq.trans hr, hserved, rfl, htag, fun h => absurd h hsignal⟩

theorem owed_of_none (hcur : w.cur = none) : w.owed = [] := by
  rw [owed, hcur]
  rfl

theorem owed_of_some {r : ℕ} (hcur : w.cur = some r) : w.owed = [w.cur] := by
  rw [owed, hcur]
  rfl

/-- **A state that stays**: the request in hand is answered if that is owed. -/
theorem Balance.succeed (hw : w.Balance) (hheld : w.Held) (hready : w.place ≠ .ready)
    (hleft : w.place ≠ .left) (hreplies : m.payload.replies = [])
    (hcovered : Covered w.state_outq w.the_state.pending_replies w.owed w.served.length ∧
        (w.cur ≠ none → m.skip_reply = false) ∨
      Covered w.state_outq w.the_state.pending_replies [] w.served.length ∧ m.skip_reply = true)
    (herror : w.the_state.state ≠ .error)
    (hclose : m.close = true → w.the_state.pending_replies = [] ∧ w.client_msg.signal = .close)
    (hpending : w.the_state.state ≠ .running → w.the_state.pending_replies = []) :
    (w.receive m).succeed.Balance := by
  have hhand := hw.hand hready hleft
  obtain ⟨hplace, hserving⟩ := succeed_receive_place w m (hw.serving hleft) herror
  have houtq := succeed_receive_state_outq_eq w hreplies
  have hstate : (w.receive m).succeed.the_state = w.the_state := finish_the_state _ _ _
  have hserved : (w.receive m).succeed.served = w.served := finish_served _ _ _
  have hnow : (w.receive m).succeed.now = w.now := finish_now _ _ _
  refine balance_of_ended ?_ ?_ ?_ (fun h => ?_) ?_ (fun h => ?_) ?_
  · rw [hplace]
    split
    · exact Or.inr rfl
    · exact Or.inl rfl
  · have hinq : (w.receive m).succeed.state_inq = w.state_inq := finish_state_inq _ _ _
    have hpuid : (w.receive m).succeed.puid = w.puid := finish_puid _ _ _
    rw [hinq, hpuid]
    exact hw.inq
  · rw [houtq, hserved, hnow]
    split
    next hneeded =>
      intro item hitem
      rcases List.mem_append.1 hitem with hitem | hitem
      · exact hw.replies item hitem
      · obtain rfl := List.mem_singleton.1 hitem
        obtain ⟨r, hr⟩ := Option.ne_none_iff_exists'.1 fun h => hneeded.1 (hhand.1 h)
        exact hheld.answers hr rfl rfl (by simp)
    next => exact hw.replies
  · rw [hplace] at h
    rw [hserving]
    by_contra hne
    exact h (if_pos (eq_true_of_ne_false hne))
  · rw [houtq, hstate, hserved]
    split
    next hneeded =>
      obtain ⟨r, hr⟩ := Option.ne_none_iff_exists'.1 fun h => hneeded.1 (hhand.1 h)
      rcases hcovered with ⟨h, -⟩ | ⟨-, h⟩
      · rw [owed_of_some hr] at h
        exact h.reply
      · exact nomatch hneeded.2.symm.trans h
    next hnot =>
      rcases hcovered with ⟨h, hskip⟩ | ⟨h, -⟩
      · by_cases hcur : w.cur = none
        · rw [owed_of_none hcur] at h
          exact h
        · exact absurd ⟨fun h => hcur (hhand.2 h), hskip hcur⟩ hnot
      · exact h
  · have hclient : (w.receive m).succeed.client_msg = w.client_msg := finish_client_msg _ _ _
    rw [hstate, hclient]
    by_cases hm : m.close = true
    · exact (hclose hm).imp id Or.inl
    · rw [hplace, if_neg hm] at h
      exact nomatch h
  · rw [hstate]
    exact hpending

/-- **A call that raises**: with nothing pending, the request in hand is answered. -/
theorem Balance.fail (hw : w.Balance) (hheld : w.Held) (hready : w.place ≠ .ready)
    (hleft : w.place ≠ .left)
    (hcovered : Covered w.state_outq w.the_state.pending_replies w.owed w.served.length)
    (hpending : w.the_state.pending_replies = [])
    (hlast : w.client_msg.p_uid = some w.puid ∨
      ∃ m, w.desired_state_msg = some m ∧ m.skip_reply = false) : (w.fail true).Balance := by
  have hhand := hw.hand hready hleft
  have hstate : (w.fail true).the_state = { state := .error } := fail_the_state w true
  have hserved : (w.fail true).served = w.served := finish_served _ _ _
  have hnow : (w.fail true).now = w.now := finish_now _ _ _
  have houtq : (w.fail true).state_outq =
      if w.client_msg.p_uid = some w.puid then w.state_outq
      else w.state_outq ++ [(w.client_msg.p_uid,
        { signal := .raiseException, p_uid := some w.puid, tag := w.client_msg.tag
          req := w.cur })] := by
    rw [PGManager.fail, PGManager.finish]
    cases hm : w.desired_state_msg with
    | none =>
      rcases hlast with h | ⟨m, h, -⟩
      · exact (if_pos h).symm
      · rw [hm] at h
        cases h
    | some m =>
      show (if (reply_needed { w with the_state := { state := .error } } m || !true) = true then _
        else w.state_outq) = _
      have hneeded : reply_needed { w with the_state := { state := .error } } m =
          (decide (w.client_msg.p_uid ≠ some w.puid) && !m.skip_reply) := rfl
      rw [hneeded, Bool.not_true, Bool.or_false]
      by_cases h : w.client_msg.p_uid = some w.puid
      · rw [decide_eq_false (not_not.2 h), if_pos h]
        rfl
      · obtain ⟨m', hm', hskip⟩ := hlast.resolve_left h
        obtain rfl := Option.some.inj (hm.symm.trans hm')
        rw [decide_eq_true h, hskip, if_neg h]
        rfl
  refine balance_of_ended (Or.inr (fail_place w true)) ?_ ?_ (fun h => ?_) ?_ (fun _ => ?_)
    fun _ => ?_
  · have hinq : (w.fail true).state_inq = w.state_inq := finish_state_inq _ _ _
    have hpuid : (w.fail true).puid = w.puid := finish_puid _ _ _
    rw [hinq, hpuid]
    exact hw.inq
  · rw [houtq, hserved, hnow]
    split
    next => exact hw.replies
    next hneeded =>
      intro item hitem
      rcases List.mem_append.1 hitem with hitem | hitem
      · exact hw.replies item hitem
      · obtain rfl := List.mem_singleton.1 hitem
        obtain ⟨r, hr⟩ := Option.ne_none_iff_exists'.1 fun h => hneeded (hhand.1 h)
        exact hheld.answers hr rfl rfl (by simp)
  · exact absurd (fail_place w true) h
  · rw [houtq, hstate, hserved]
    rw [hpending] at hcovered
    split
    next h =>
      rw [owed_of_none (hhand.2 h)] at hcovered
      exact hcovered
    next hneeded =>
      obtain ⟨r, hr⟩ := Option.ne_none_iff_exists'.1 fun h => hneeded (hhand.1 h)
      rw [owed_of_some hr] at hcovered
      exact hcovered.reply
  · rw [hstate]
    exact ⟨rfl, Or.inr rfl⟩
  · rw [hstate]

theorem Stopped.sameAccounts (h : Stopped w msg w₀) : SameAccounts w w₀ := by
  cases h <;> exact ⟨rfl, rfl, rfl, rfl, rfl, rfl, rfl, rfl, id⟩

/-- `Idle` is through with the workers. -/
theorem Balance.stopped (hw : w.Balance) (hstopped : Stopped w msg w₀) :
    w₀.Balance ∧ (w₀.place ≠ .ready ∧ w₀.place ≠ .left) ∧
      Covered w₀.state_outq w₀.the_state.pending_replies w₀.owed w₀.served.length ∧
        w₀.Closing msg ∧ w₀.Pending msg := by
  refine ⟨hw.frame hstopped.sameAccounts ?_ ?_, ?_⟩
  · rw [hstopped.sameHand.now]
  · rw [hstopped.sameHand.state_inq]
    exact hw.inq
  cases hstopped with
  | quiet hplace hstate =>
    have h := hw.run msg hplace
    rw [hplace]
    refine ⟨⟨nofun, nofun⟩, ?_, h.closing, h.idle hstate⟩
    rcases h.owes with h | h
    · exact h.covered
    · exact nomatch hstate.symm.trans h.state
  | joined _ _ _ _ hplace =>
    refine ⟨?_, hw.stopping _ _ msg hplace⟩
    rw [hplace]
    exact ⟨nofun, nofun⟩

theorem covered_goes {d : PGState τ} {owed : List (Option ℕ)} (hreplies : m.payload.replies = [])
    (h : Covered w.state_outq d.pending_replies owed w.served.length) :
    Covered (w.goes m d).state_outq (w.goes m d).the_state.pending_replies owed
      (w.goes m d).served.length := by
  show Covered (w.state_outq ++ m.payload.replies) d.pending_replies owed w.served.length
  rw [hreplies, List.append_nil]
  exact h

theorem InRun.covered (h : w.InRun msg) (hstate : w.the_state.state ≠ .running) :
    Covered w.state_outq w.the_state.pending_replies w.owed w.served.length := by
  rcases h.owes with h | h
  · exact h.covered
  · exact absurd h.state hstate

/-- `Running` has another message than the one from `Join`. -/
theorem InRun.covered_of_signal (h : w.InRun msg) (hsignal : msg.signal ≠ .readyToRun) :
    Covered w.state_outq w.the_state.pending_replies w.owed w.served.length := by
  rcases h.owes with h | h
  · exact h.covered
  · exact absurd h.signal hsignal

/-- `Running` has found that the joiner thread has ended. -/
theorem InRun.covered_of_orderly (h : w.InRun msg) (hheld : w.Held)
    (hnot : ∀ r, w.cur = some r → some r ∉ w.state_outq.map (fun item => item.2.req) ++
      w.the_state.pending_replies.map JoinRequest.req) :
    Covered w.state_outq w.the_state.pending_replies w.owed w.served.length := by
  rcases h.owes with h | h
  · exact h.covered
  · cases hcur : w.cur with
    | none =>
      rw [owed_of_none hcur]
      exact h.covered
    | some r =>
      obtain ⟨t, -, hserved⟩ := hheld.cur r hcur
      exact absurd (h.covered.mem (List.getElem?_eq_some_iff.1 hserved).1) (hnot r hcur)

theorem Balance.take (hw : w.Balance) (hplaced : w.Placed) (hplace : w.place = .ready)
    (htaken : Taken w msg w₀) : Balance { w₀ with place := .run msg } := by
  have hplaced := hplaced.ready hplace
  have honce := hw.once (Or.inl hplace)
  have hserving : w.stop_serving = false := hw.serving (by rw [hplace]; exact nofun)
  have hjoin : w.the_state.state ≠ .join := by
    rcases hplaced with h | h | h <;> rw [h] <;> decide
  have hstart : w.the_state.state = .start ∨ w.the_state.state = .addTemplates →
      w.the_state.pending_replies = [] := by
    rintro (h | h)
    · rcases hplaced with h' | h' | h' <;> exact nomatch h.symm.trans h'
    · exact hw.first hplace h
  cases htaken with
  | request _ hinq =>
    have hmem : msg ∈ w.state_inq := by
      rw [hinq]
      exact List.mem_cons_self
    obtain ⟨hpuid, hskip, hclose, hsignal⟩ := hw.inq msg hmem
    refine ⟨fun m hm => hw.inq m ?_, fun item hitem => (hw.replies item hitem).append _,
      fun _ => hserving, fun _ _ => ⟨nofun, fun h => absurd h hpuid⟩,
      fun h => h.elim nofun nofun, nofun,
      nofun, nofun, fun msg' h => ?_, fun _ _ _ h => (nomatch h),
      fun _ _ _ h => (nomatch h), fun _ _ _ h => nomatch h⟩
    · rw [hinq]
      exact List.mem_cons_of_mem _ hm
    · obtain rfl := PGPlace.run.inj h
      refine ⟨Or.inl ⟨?_, fun _ _ => Or.inl hskip⟩, fun h => h.elim (fun h => ?_) id,
        fun h => Or.inl (hw.idle hplace h), hstart, fun _ h => ?_, fun _ h => ?_,
        fun h => absurd h hjoin⟩
      · show Covered w.state_outq w.the_state.pending_replies [some w.served.length]
          (w.served ++ [(w.now, msg)]).length
        rw [List.length_append]
        exact honce.take
      · exact nomatch hclose.symm.trans h
      · rw [h] at hsignal
        exact absurd (by decide) hsignal
      · rw [h] at hsignal
        exact absurd (by decide) hsignal
  | poke _ hstate hmsg =>
    subst hmsg
    refine ⟨hw.inq, hw.replies, fun _ => hserving, fun _ _ => ⟨fun _ => rfl, fun _ => rfl⟩,
      fun h => h.elim nofun nofun, nofun,
      nofun, nofun, fun msg' h => ?_, fun _ _ _ h => (nomatch h),
      fun _ _ _ h => (nomatch h), fun _ _ _ h => nomatch h⟩
    obtain rfl := PGPlace.run.inj h
    exact ⟨Or.inl ⟨honce, fun h => absurd rfl h⟩,
      fun h => h.elim nofun nofun,
      fun h => (nomatch hstate.symm.trans h), hstart, fun _ h => (nomatch h),
      fun h => absurd rfl h, fun h => absurd h hjoin⟩

theorem balance_of_joining (hplace : w.place = .joining payload put_back msg)
    (hinq : ∀ m ∈ w.state_inq, m.p_uid ≠ some w.puid ∧ m.skip_reply = false ∧ m.close = false ∧
      m.signal ∉ [PGSignals.readyToRun, .joinFinal, .joinPoke])
    (hreplies : ∀ item ∈ w.state_outq, Answers w.served w.now item)
    (hserving : w.stop_serving = false) (hhand : w.cur = none ↔ w.client_msg.p_uid = some w.puid)
    (hjoin : w.InJoin payload put_back msg) : w.Balance := by
  refine ⟨hinq, hreplies, fun _ => hserving, fun _ _ => hhand, fun h => ?_, fun h => ?_, fun h => ?_,
    fun h => ?_, fun _ h => ?_, fun _ _ _ h => ?_, fun _ _ _ h => ?_, fun _ _ _ h => ?_⟩
  · exact h.elim (fun h => nomatch hplace.symm.trans h) fun h => nomatch hplace.symm.trans h
  · exact nomatch hplace.symm.trans h
  · exact nomatch hplace.symm.trans h
  · exact nomatch hplace.symm.trans h
  · exact nomatch hplace.symm.trans h
  · exact nomatch hplace.symm.trans h
  · exact nomatch hplace.symm.trans h
  · obtain ⟨rfl, rfl, rfl⟩ := PGPlace.joining.inj (hplace.symm.trans h)
    exact hjoin

theorem InJoin.inspected {payload' : List (Option ℕ × PGReply)} {put_back' : List JoinRequest}
    {item : JoinRequest} {rest : List JoinRequest} (h : w.InJoin payload put_back msg)
    (hpending : w.the_state.pending_replies = item :: rest)
    (hinspected : Inspected w item payload put_back payload' put_back') :
    InJoin { w with
      the_state := { w.the_state with pending_replies := rest }
      place := .joining payload' put_back' msg } payload' put_back' msg := by
  have hcovered : ∀ {owed : List (Option ℕ)}, Covered (w.state_outq ++ payload)
      (w.the_state.pending_replies ++ put_back) owed w.served.length →
        Covered (w.state_outq ++ payload') (rest ++ put_back') owed w.served.length := by
    intro owed hc
    rw [hpending] at hc
    cases hinspected with
    | timeout =>
      rw [← List.append_assoc]
      exact hc.answer rfl
    | back => exact hc.back
    | success =>
      rw [← List.append_assoc]
      exact hc.answer rfl
  refine ⟨h.closing, ?_⟩
  rcases h.covered with ⟨hc, hskip⟩ | ⟨hc, hskip⟩
  · exact Or.inl ⟨hcovered hc, hskip⟩
  · exact Or.inr ⟨hcovered hc, hskip⟩

/-- `Join` starts to look at the pending requests, with the join in hand among them. -/
theorem InRun.joinBegin (h : w.InRun msg) (hheld : w.Held) (hplaced : w.Placed)
    (hplace : w.place = .run msg) (hstate : w.the_state.state = .join) :
    (w.joinRun msg).InJoin [] [] msg := by
  have hcovered := h.covered (by rw [hstate]; decide)
  refine ⟨h.closing, ?_⟩
  show Covered (w.state_outq ++ []) ((w.the_state.pending_replies ++ _) ++ []) [] w.served.length ∧
      _ ∨ Covered (w.state_outq ++ []) ((w.the_state.pending_replies ++ _) ++ []) w.owed
        w.served.length ∧ _
  rw [List.append_nil, List.append_nil]
  by_cases hsignal : msg.signal = .join
  · rw [if_pos hsignal]
    obtain ⟨r, hr⟩ := Option.ne_none_iff_exists'.1
      (hheld.asked msg hplace (Or.inr hstate) hsignal).1
    rw [owed_of_some hr] at hcovered
    exact Or.inl ⟨hcovered.queue, h.join hstate hsignal⟩
  · rw [if_neg hsignal, List.append_nil]
    refine Or.inr ⟨hcovered, fun hcur => ?_⟩
    have hfinal : msg.signal = .joinFinal := by
      have hallowed := hplaced.allowed hplace
      rw [hstate] at hallowed
      have hpoke := h.poke hcur
      simp only [BaseState.allowed_sigs, List.mem_cons, List.not_mem_nil, or_false] at hallowed
      tauto
    rcases h.owes with h | h
    · exact h.skip hcur (Or.inr ⟨hstate, hfinal⟩)
    · cases hstate.symm.trans h.state

/-- **Step lemma.** -/
theorem Balance.move {a : PGAction τ} (hw : w.Balance) (hheld : w.Held) (hhist : w.Hist)
    (hplaced : w.Placed) (horderly : Orderly w a) (hmove : Move w a w') : w'.Balance := by
  have hbusy : ∀ {msg : PGSignalMessage τ}, w.place = .run msg →
      w.place ≠ .ready ∧ w.place ≠ .left := by
    intro msg hplace
    rw [hplace]
    exact ⟨nofun, nofun⟩
  cases hmove with
  | stutter => exact hw
  | request _ _ r hclient =>
    refine hw.frame ⟨rfl, rfl, rfl, rfl, rfl, rfl, rfl, rfl, id⟩ le_rfl fun m hm => ?_
    rcases List.mem_append.1 hm with hm | hm
    · exact hw.inq m hm
    · obtain rfl := List.mem_singleton.1 hm
      cases r <;> exact ⟨fun h => hclient (Option.some.inj h), rfl, rfl, by simp [PGRequest.message]⟩
  | tick d hd =>
    exact hw.frame ⟨rfl, rfl, rfl, rfl, rfl, rfl, rfl, rfl, id⟩ (le_add_of_nonneg_right hd) hw.inq
  | exits => exact hw.frame ⟨rfl, rfl, rfl, rfl, rfl, rfl, rfl, rfl, id⟩ le_rfl hw.inq
  | take _ _ hplace htaken => exact hw.take hplaced hplace htaken
  | refuse msg _ hplace htaken hallowed =>
    cases htaken with
    | request rest hinq => exact absurd (horderly msg rest hplace hinq).1 hallowed
    | poke _ hstate hmsg =>
      rw [hmsg, hstate] at hallowed
      exact absurd (List.mem_cons_of_mem _ (List.mem_cons_of_mem _ List.mem_cons_self)) hallowed
  | addTemplates msg hplace hstate =>
    have h := hw.run msg hplace
    have hcovered := h.covered (by rw [hstate]; decide)
    rw [h.start (Or.inr hstate)] at hcovered
    exact hw.goes (hbusy hplace).1 (hbusy hplace).2 (.refl w) rfl
      ⟨Or.inl ⟨covered_goes rfl hcovered, fun _ h => h.elim (fun h => nomatch h.1) fun h =>
        nomatch h.1⟩, fun h => h.elim nofun nofun,
        fun _ => Or.inl rfl, fun _ => rfl, nofun, fun _ h => (nomatch h),
        nofun⟩
  | stopping msg hplace hstate =>
    have h := hw.run msg hplace
    refine ⟨hw.inq, hw.replies, fun _ => hw.serving (hbusy hplace).2,
      fun _ _ => hw.hand (hbusy hplace).1 (hbusy hplace).2,
      fun h => h.elim nofun nofun, nofun,
      nofun, nofun, fun _ h => (nomatch h), fun _ _ msg' h' => ?_,
      fun _ _ _ h => (nomatch h), fun _ _ _ h => nomatch h⟩
    obtain ⟨-, -, rfl⟩ := PGPlace.stopping.inj h'
    exact ⟨h.covered (by rw [hstate]; decide), h.closing, h.idle hstate⟩
  | stopAgain _ phase running_procs msg hplace =>
    have hne : w.place ≠ .ready ∧ w.place ≠ .left := by
      rw [hplace]
      exact ⟨nofun, nofun⟩
    refine ⟨hw.inq, hw.replies, fun _ => hw.serving hne.2, fun _ _ => hw.hand hne.1 hne.2,
      fun h => h.elim nofun nofun, nofun,
      nofun, nofun, fun _ h => (nomatch h), fun _ _ msg' h' => ?_,
      fun _ _ _ h => (nomatch h), fun _ _ _ h => nomatch h⟩
    obtain ⟨-, -, rfl⟩ := PGPlace.stopping.inj h'
    exact hw.stopping phase running_procs msg hplace
  | idleStart _ w₀ hstopped hsignal =>
    obtain ⟨hw₀, hne, hcovered, -, hpending⟩ := hw.stopped hstopped
    have hnil : w₀.the_state.pending_replies = [] := by
      refine hpending.resolve_right fun h => ?_
      rw [hsignal] at h
      exact h.1.elim nofun nofun
    rw [hnil] at hcovered
    exact hw₀.goes hne.1 hne.2 (.refl w₀) rfl
      ⟨Or.inl ⟨covered_goes rfl hcovered, fun _ h => h.elim (fun h => nomatch h.1) fun h =>
        nomatch h.1⟩, fun h => h.elim nofun nofun,
        fun _ => Or.inl rfl, fun _ => rfl, nofun, fun _ h => (nomatch h),
        nofun⟩
  | idleJoin _ w₀ hstopped =>
    obtain ⟨hw₀, hne, hcovered, hclosing, -⟩ := hw.stopped hstopped
    rw [hstopped.the_state] at hcovered
    refine hw₀.goes hne.1 hne.2 (.refl w₀) rfl
      ⟨Or.inl ⟨covered_goes rfl hcovered, fun _ _ => Or.inl rfl⟩,
        fun h => h.elim (fun h => ?_) nofun, nofun,
        fun h => h.elim nofun nofun, nofun,
        fun _ h => (nomatch h), fun _ h => nomatch h⟩
    rcases Bool.or_eq_true _ _ ▸ h with h | h
    · exact hclosing (Or.inr (of_decide_eq_true h))
    · exact hclosing (Or.inl h)
  | idleStays _ w₀ hstopped _ hsignal =>
    obtain ⟨hw₀, hne, hcovered, hclosing, hpending⟩ := hw.stopped hstopped
    have hheld₀ := hheld.frame hstopped.sameHand hstopped.sameAccounts.place hstopped.the_state
    have hnil : w₀.the_state.pending_replies = [] := by
      refine hpending.resolve_right fun h => h.2 ?_
      rw [hstopped.the_state]
      exact hsignal h.1
    refine hw₀.succeed hheld₀ hne.1 hne.2 rfl (Or.inl ⟨hcovered, fun _ => rfl⟩) ?_
      (fun h => ⟨hnil, ?_⟩) fun _ => hnil
    · rw [hstopped.the_state, hstopped.state]
      decide
    · rcases Bool.or_eq_true _ _ ▸ h with h | h
      · exact hclosing (Or.inr (of_decide_eq_true h))
      · exact hclosing (Or.inl h)
  | created msg _ _ hplace hstate =>
    have h := hw.run msg hplace
    have hcovered := h.covered (by rw [hstate]; decide)
    rw [h.start (Or.inl hstate)] at hcovered
    refine hw.goes (hbusy hplace).1 (hbusy hplace).2 ?_ rfl ?_
    · exact ⟨⟨rfl, rfl, rfl, rfl, rfl⟩, rfl, rfl, rfl⟩
    · refine ⟨Or.inl ⟨covered_goes rfl ?_, fun _ h => h.elim (fun h => nomatch h.1) fun h =>
        nomatch h.1⟩, fun h => h.elim nofun nofun,
        nofun, fun h => h.elim nofun nofun,
        nofun, fun _ h => (nomatch h), nofun⟩
      exact hcovered
  | makeJoiner msg hplace hstate =>
    have hcovered := (hw.run msg hplace).covered (by rw [hstate]; decide)
    refine hw.goes (hbusy hplace).1 (hbusy hplace).2 ?_ rfl ?_
    · exact ⟨⟨rfl, rfl, rfl, rfl, rfl⟩, rfl, rfl, rfl⟩
    · refine ⟨Or.inl ⟨covered_goes rfl ?_, fun _ _ => Or.inl rfl⟩,
        fun h => h.elim nofun nofun, nofun,
        fun h => h.elim nofun nofun, fun _ h => (nomatch h),
        fun _ h => (nomatch h), nofun⟩
      exact hcovered
  | runStop msg hplace hstate hsignal =>
    have h := hw.run msg hplace
    have hgroup := hhist.grouped.g_uid (Or.inr (Or.inl hstate))
    have hcovered := h.covered_of_signal (by
      rcases hsignal with hsignal | hsignal <;> rw [hsignal] <;> decide)
    refine hw.goes (hbusy hplace).1 (hbusy hplace).2 (.refl w) (hheld.run msg hplace)
      ⟨Or.inl ⟨covered_goes (hheld.run msg hplace) hcovered, fun _ h => h.elim (fun h =>
        nomatch h.1) fun h => nomatch h.1⟩, fun hc => h.closing (Or.inr ?_),
        fun _ => Or.inr ⟨hsignal, hgroup⟩, fun h => h.elim nofun fun h =>
          (nomatch h), nofun, h.poke, nofun⟩
    exact hc.elim of_decide_eq_true id
  | runJoin msg hplace _ hsignal =>
    have h := hw.run msg hplace
    have hcovered := h.covered_of_signal (by
      rcases hsignal with hsignal | hsignal <;> rw [hsignal] <;> decide)
    refine hw.goes (hbusy hplace).1 (hbusy hplace).2 (.refl w) (hheld.run msg hplace)
      ⟨Or.inl ⟨covered_goes (hheld.run msg hplace) hcovered, fun _ h => ?_⟩,
        fun hc => hc.elim nofun fun hc => ?_, nofun,
        fun h => h.elim nofun nofun, nofun, h.poke,
        fun _ _ => rfl⟩
    · rcases h with ⟨h, -⟩ | ⟨-, h⟩
      · exact nomatch h
      · rcases hsignal with hsignal | hsignal <;> exact nomatch hsignal.symm.trans h
    · rcases hsignal with hsignal | hsignal <;> exact nomatch hsignal.symm.trans hc
  | runJoinFinal msg hplace _ hsignal hdead =>
    have h := hw.run msg hplace
    have hcovered := h.covered_of_signal (by
      rcases hsignal with hsignal | hsignal <;> rw [hsignal] <;> decide)
    exact hw.goes (hbusy hplace).1 (hbusy hplace).2 (.refl w) (hheld.run msg hplace)
      ⟨Or.inl ⟨covered_goes (hheld.run msg hplace) hcovered, fun _ _ => Or.inr hdead⟩,
        fun hc => hc.elim nofun nofun, nofun,
        fun h => h.elim nofun nofun, nofun,
        fun _ h => (nomatch h), fun _ h => nomatch h⟩
  | runStopMaintaining msg hplace _ hsignal =>
    have h := hw.run msg hplace
    have hcovered := h.covered_of_signal (by rw [hsignal]; decide)
    refine hw.goes (hbusy hplace).1 (hbusy hplace).2 ?_ (hheld.run msg hplace) ?_
    · exact ⟨⟨rfl, rfl, rfl, rfl, rfl⟩, rfl, rfl, rfl⟩
    · refine ⟨Or.inl ⟨covered_goes (hheld.run msg hplace) ?_, fun _ h => h.elim (fun h =>
        nomatch h.1) fun h => nomatch h.1⟩, fun hc => hc.elim (fun hc => h.closing (Or.inl hc))
          nofun, nofun, fun h => h.elim nofun
            nofun, nofun, fun _ h => (nomatch h), nofun⟩
      exact hcovered
  | runStays msg hplace hstate hsignal halive =>
    have h := hw.run msg hplace
    have hready := hsignal.resolve_right (h.running hstate)
    refine hw.succeed hheld (hbusy hplace).1 (hbusy hplace).2 rfl ?_ ?_ nofun
      fun hne => absurd hstate hne
    · rcases h.owes with h | h
      · refine Or.inl ⟨h.covered, fun hcur => ?_⟩
        refine (h.skip hcur (Or.inl ⟨hstate, hready⟩)).resolve_right fun hdead => ?_
        exact nomatch halive.symm.trans hdead
      · exact Or.inr ⟨h.covered, h.skip⟩
    · rw [hstate]
      decide
  | runExit msg hplace hstate hsignal hdead hrestart =>
    have h := hw.run msg hplace
    have hready := hsignal.resolve_right (h.running hstate)
    obtain ⟨hnot, hnil, -⟩ := horderly msg hplace hstate hready hdead
    have hcovered := h.covered_of_orderly hheld hnot
    refine hw.goes (hbusy hplace).1 (hbusy hplace).2 (.refl w) (hheld.run msg hplace)
      ⟨Or.inl ⟨covered_goes (hheld.run msg hplace) hcovered, fun _ h => h.elim (fun h =>
        nomatch h.1) fun h => nomatch h.1⟩, fun hc => hc.elim (fun hc => h.closing (Or.inl hc))
          fun hc => ?_, fun _ => Or.inl (hnil hrestart), fun h => h.elim nofun
            nofun, nofun, fun _ h => ?_, nofun⟩
    · exact absurd (by rw [show w.exitSignal = .close from hc]; decide) (exitSignal_not_mem w)
    · exact absurd h w.exitSignal_ne_joinPoke
  | runRestart msg hplace hstate hsignal hdead hrestart =>
    have h := hw.run msg hplace
    have hready := hsignal.resolve_right (h.running hstate)
    obtain ⟨hnot, -, hne⟩ := horderly msg hplace hstate hready hdead
    refine ⟨hw.inq, hw.replies, fun _ => hw.serving (hbusy hplace).2,
      fun _ _ => hw.hand (hbusy hplace).1 (hbusy hplace).2,
      fun h => h.elim nofun nofun, nofun,
      nofun, nofun, fun _ h => (nomatch h),
      fun _ _ _ h => (nomatch h), fun _ _ msg' h' => ?_, fun _ _ _ h => nomatch h⟩
    obtain ⟨rfl, -, rfl⟩ := PGPlace.adding.inj h'
    exact ⟨h.covered_of_orderly hheld hnot, h.closing, hne hrestart⟩
  | added gone_procs msg templates _ _ _ h hadds =>
    obtain rfl := hadds.eq
    have hplace := hadds.place
    obtain ⟨hcovered, hclosing, -⟩ := hw.adding templates gone_procs msg hplace
    have hreplies := hheld.adding templates gone_procs msg hplace
    refine hw.goes ?_ ?_ ?_ hreplies ?_
    · rw [hplace]
      exact nofun
    · rw [hplace]
      exact nofun
    · exact ⟨⟨rfl, rfl, rfl, rfl, rfl⟩, rfl, rfl, rfl⟩
    · refine ⟨Or.inl ⟨covered_goes hreplies ?_, fun _ h => h.elim (fun h => nomatch h.1)
        fun h => nomatch h.1⟩, fun hc => hc.elim (fun hc => hclosing (Or.inl hc)) fun hc =>
          (nomatch hc), nofun, fun h => h.elim nofun fun h =>
            (nomatch h), nofun, fun _ h => (nomatch h), nofun⟩
      exact hcovered
  | addedFails _ _ _ _ _ _ hadds hreplace =>
    exact absurd hreplace (hhist.replace_ne_none hadds)
  | joinBegin msg hplace hstate =>
    have hserving := hw.serving (hbusy hplace).2
    have hhand := hw.hand (hbusy hplace).1 (hbusy hplace).2
    exact balance_of_joining rfl hw.inq hw.replies hserving hhand
      ((hw.run msg hplace).joinBegin hheld hplaced hplace hstate)
  | joinItem payload put_back msg _ _ _ _ hplace _ hpending hinspected =>
    have hne : w.place ≠ .ready ∧ w.place ≠ .left := by
      rw [hplace]
      exact ⟨nofun, nofun⟩
    exact balance_of_joining rfl hw.inq hw.replies (hw.serving hne.2) (hw.hand hne.1 hne.2)
      ((hw.joining payload put_back msg hplace).inspected hpending hinspected)
  | joinEnd payload put_back msg hplace _ hpending =>
    have hne : w.place ≠ .ready ∧ w.place ≠ .left := by
      rw [hplace]
      exact ⟨nofun, nofun⟩
    have h := hw.joining payload put_back msg hplace
    have hcovered := h.covered
    rw [hpending, List.nil_append] at hcovered
    refine ⟨hw.inq, fun item hitem => ?_, fun _ => hw.serving hne.2, fun _ _ => hw.hand hne.1 hne.2,
      fun h => h.elim nofun nofun, nofun,
      nofun, nofun, fun msg' h' => ?_, fun _ _ _ h => (nomatch h),
      fun _ _ _ h => (nomatch h), fun _ _ _ h => nomatch h⟩
    · rcases List.mem_append.1 hitem with hitem | hitem
      · exact hw.replies item hitem
      · exact hheld.payload payload put_back msg hplace item hitem
    · obtain rfl := PGPlace.run.inj h'
      refine ⟨?_, fun hc => hc.elim (fun hc => h.closing (Or.inl hc)) nofun,
        nofun, fun h => h.elim nofun nofun,
        fun _ h => (nomatch h), fun _ h => (nomatch h), nofun⟩
      exact hcovered.elim (fun h => Or.inr ⟨h.1, rfl, rfl, h.2⟩) fun h =>
        Or.inl ⟨h.1, fun hcur _ => h.2 hcur⟩
  | joinedFails _ _ _ _ hplace hanswered hjoin =>
    exact absurd hjoin (hhist.not_joinedFails hplace hanswered)
  | raises hplace =>
    obtain ⟨hnil, hlast⟩ := horderly
    rcases hplace with ⟨msg, hplace, hstate⟩ | ⟨phase, running_procs, msg, hplace⟩ |
      ⟨templates, gone_procs, msg, hplace, -⟩
    · exact hw.fail hheld (hbusy hplace).1 (hbusy hplace).2
        ((hw.run msg hplace).covered (by rw [hstate]; decide)) hnil hlast
    · refine hw.fail hheld ?_ ?_ (hw.stopping phase running_procs msg hplace).1 hnil hlast
      · rw [hplace]
        exact nofun
      · rw [hplace]
        exact nofun
    · refine hw.fail hheld ?_ ?_ (hw.adding templates gone_procs msg hplace).1 hnil hlast
      · rw [hplace]
        exact nofun
      · rw [hplace]
        exact nofun
  | joinerMoves _ _ _ hi hj =>
    exact hw.frame ⟨rfl, rfl, rfl, rfl, rfl, rfl, rfl, rfl,
      isAlive_setJoiner hi hj.phase_ne rfl rfl⟩ le_rfl hw.inq
  | joinerRecord _ j _ hi hphase | joinerEnds _ j _ hi hphase =>
    have hne : j.phase ≠ .ended := by
      rw [hphase]
      exact nofun
    exact hw.frame ⟨rfl, rfl, rfl, rfl, rfl, rfl, rfl, rfl, isAlive_setJoiner hi hne rfl rfl⟩ le_rfl
      hw.inq

/-! ## Groups that are to be started -/

/-- **Invariant.**  A group that is to be started can be created. -/
structure Starts (w : PGManager τ) : Prop where
  run : ∀ msg, w.place = .run msg →
    w.the_state.state = .start ∨ w.the_state.state = .idle ∧ msg.signal = .start → w.Populated
  stopping : ∀ phase running_procs msg, w.place = .stopping phase running_procs msg →
    msg.signal = .start → w.Populated

theorem starts_goes {m : PGSignalMessage τ} {d : PGState τ} (hstart : d.state ≠ .start)
    (hidle : d.state = .idle → m.signal ≠ .start) : (w.goes m d).Starts := by
  refine ⟨fun msg' h hstate => ?_, fun _ _ _ h => nomatch h⟩
  obtain rfl := PGPlace.run.inj h
  exact hstate.elim (fun h => absurd h hstart) fun h => absurd h.2 (hidle h.1)

theorem starts_of_ended (hplace : w.place = .ready ∨ w.place = .left) : w.Starts := by
  refine ⟨fun _ h => ?_, fun _ _ _ h => ?_⟩
  all_goals rcases hplace with hplace | hplace <;> exact nomatch hplace.symm.trans h

theorem Starts.stopped (hs : w.Starts) (hstopped : Stopped w msg w₀) (hstart : msg.signal = .start) :
    w.Populated := by
  cases hstopped with
  | quiet hplace hstate => exact hs.run msg hplace (Or.inr ⟨hstate, hstart⟩)
  | joined _ _ _ _ hplace => exact hs.stopping _ _ msg hplace hstart

/-- **Step lemma.**  `Start` is entered from `Idle`, on a start. -/
theorem Starts.move {a : PGAction τ} (hs : w.Starts) (hplaced : w.Placed) (horderly : Orderly w a)
    (hmove : Move w a w') : w'.Starts := by
  cases hmove with
  | stutter | request | tick | exits | joinerMoves | joinerRecord | joinerEnds =>
    exact ⟨hs.run, hs.stopping⟩
  | take msg w₀ hplace htaken =>
    have hstate : ({ w₀ with place := .run msg } : PGManager τ).the_state = w.the_state :=
      htaken.the_state
    refine ⟨fun msg' h hstart => ?_, fun _ _ _ h => nomatch h⟩
    obtain rfl := PGPlace.run.inj h
    rw [Populated, hstate]
    rw [hstate] at hstart
    rcases hstart with hstart | ⟨-, hstart⟩
    · rcases hplaced.ready hplace with h | h | h <;> exact nomatch hstart.symm.trans h
    · cases htaken with
      | request rest hinq => exact (horderly msg rest hplace hinq).2 hstart
      | poke _ _ hmsg =>
        rw [hmsg] at hstart
        cases hstart
  | stopping msg hplace hstate =>
    refine ⟨fun _ h => (nomatch h), fun _ _ msg' h hstart => ?_⟩
    obtain ⟨-, -, rfl⟩ := PGPlace.stopping.inj h
    exact hs.run msg hplace (Or.inr ⟨hstate, hstart⟩)
  | stopAgain _ _ _ msg hplace =>
    refine ⟨fun _ h => (nomatch h), fun _ _ msg' h hstart => ?_⟩
    obtain ⟨-, -, rfl⟩ := PGPlace.stopping.inj h
    exact hs.stopping _ _ msg hplace hstart
  | idleStart msg _ hstopped hsignal =>
    exact ⟨fun _ _ _ => hs.stopped hstopped hsignal, fun _ _ _ h => nomatch h⟩
  | refuse | idleStays | runStays => exact starts_of_ended (finish_place _ _ _)
  | addedFails | joinedFails | raises => exact starts_of_ended (Or.inr (fail_place _ _))
  | addTemplates | idleJoin | created | makeJoiner | runJoin | runJoinFinal | runStopMaintaining |
      added | joinEnd => exact starts_goes nofun nofun
  | runStop msg _ _ hsignal =>
    refine starts_goes nofun fun _ hstart => ?_
    rcases hsignal with hsignal | hsignal <;> exact nomatch hsignal.symm.trans hstart
  | runExit =>
    refine starts_goes nofun fun _ hstart => ?_
    exact exitSignal_not_mem w (by rw [show w.exitSignal = .start from hstart]; decide)
  | runRestart | joinBegin | joinItem =>
    exact ⟨fun _ h => (nomatch h), fun _ _ _ h => nomatch h⟩

/-! ## Every run -/

theorem balance_init (puid : ℕ) (restart ignore_error_on_exit : Bool) (walltime : Option ℚ) :
    (init puid restart ignore_error_on_exit walltime : PGManager τ).Balance :=
  balance_of_ended (Or.inl rfl) (fun _ h => absurd h List.not_mem_nil)
    (fun _ h => absurd h List.not_mem_nil) (fun _ => rfl) (List.Perm.refl _)
    (nofun) fun _ => rfl

theorem Balance.answered (hw : w.Balance) (hheld : w.Held) (hs : w.Starts) : w.Answered where
  replies := hw.replies
  pending := hheld.pending
  once := hw.once
  left := hw.left
  idle := hw.idle
  waits templates gone_procs msg hplace := (hw.adding templates gone_procs msg hplace).2.2
  starts msg hplace hstate := hs.run msg hplace (Or.inl hstate)

/-- **Requests.**  In every run in which requests find what they have to find, each of them is
answered exactly once. -/
theorem answered_of_orderly (puid : ℕ) (restart ignore_error_on_exit : Bool) (walltime : Option ℚ)
    (actions : List (PGAction τ))
    (hactions : Runs.Legal exec Orderly (init puid restart ignore_error_on_exit walltime)
      actions) :
    (actions.foldl exec (init puid restart ignore_error_on_exit walltime)).Answered := by
  obtain ⟨-, hheld, hbalance, hstarts⟩ := legal_invariant
    (I := fun w : PGManager τ => w.Hist ∧ w.Held ∧ w.Balance ∧ w.Starts)
    (fun w a w' hplaced hw horderly hmove => ⟨hw.1.move hplaced hmove, hw.2.1.move hmove,
      hw.2.2.1.move hw.2.1 hw.1 hplaced horderly hmove, hw.2.2.2.move hplaced horderly hmove⟩)
    (placed_init puid restart ignore_error_on_exit walltime)
    ⟨hist_init puid restart ignore_error_on_exit walltime,
      held_init puid restart ignore_error_on_exit walltime,
      balance_init puid restart ignore_error_on_exit walltime, starts_of_ended (Or.inl rfl)⟩ hactions
  exact hbalance.answered hheld hstarts

/-- A group of one worker, which exits while a join is pending, is closed. -/
def closedAfterJoin : List (PGAction ℕ) :=
  [.request 7 1 (.add_processes [(1, 20)]), .get, .step, .step, .request 7 2 .start, .get, .step,
    .created 5 [10], .step, .step, .joinerStep 0, .request 8 3 (.join none), .get, .step, .step,
    .step, .step, .step, .exits 10 0, .joinerAnswered 0 false, .joinerStep 0, .joinerStep 0, .get,
    .step, .step, .step, .step, .step, .step, .request 7 4 (.close 1), .get, .step, .step, .step,
    .step, .step]

theorem answered_of_orderly_closedAfterJoin :
    (closedAfterJoin.foldl exec (init 1 false true none)).Answered ∧
      (closedAfterJoin.foldl exec (init 1 false true none)).state_outq.length = 4 := by
  have hget : ∀ {w : PGManager ℕ} (msg : PGSignalMessage ℕ) (rest : List (PGSignalMessage ℕ)),
      w.state_inq = msg :: rest → msg.signal ∈ w.the_state.state.allowed_sigs →
        (msg.signal = .start → w.Populated) → Orderly w .get := by
    intro w msg rest hinq hallowed hstart msg' rest' _ h
    obtain ⟨rfl, -⟩ := List.cons.inj (hinq.symm.trans h)
    exact ⟨hallowed, hstart⟩
  have hpoke : ∀ {w : PGManager ℕ}, w.state_inq = [] → Orderly w .get :=
    fun hinq _ _ _ h => nomatch hinq.symm.trans h
  have hstate : ∀ {w : PGManager ℕ}, w.the_state.state ≠ .running → Orderly w .step :=
    fun hne _ _ h => absurd h hne
  have halive : ∀ {w : PGManager ℕ}, w.isAlive = true → Orderly w .step :=
    fun halive _ _ _ _ hdead => nomatch halive.symm.trans hdead
  have hsignal : ∀ {w : PGManager ℕ} (msg : PGSignalMessage ℕ), w.place = .run msg →
      msg.signal ≠ .readyToRun → Orderly w .step := by
    intro w msg hplace hne msg' h _ hready
    obtain rfl := PGPlace.run.inj (hplace.symm.trans h)
    exact absurd hready hne
  have hended : ∀ {w : PGManager ℕ}, w.restart = false → w.the_state.pending_replies = [] →
      (w.cur.all fun r => decide (some r ∉ w.state_outq.map fun item => item.2.req)) = true →
        Orderly w .step := by
    intro w hrestart hpending hcur msg _ _ _ _
    refine ⟨fun r hr => ?_, fun _ => hpending, fun h => nomatch hrestart.symm.trans h⟩
    rw [hr, Option.all_some, decide_eq_true_eq] at hcur
    rw [hpending, List.map_nil, List.append_nil]
    exact hcur
  have hlegal : Runs.Legal exec Orderly (init 1 false true none) closedAfterJoin :=
    ⟨trivial, hget _ _ rfl (by decide) nofun, hstate (by decide), hstate (by decide), trivial,
      hget _ _ rfl (by decide) fun _ => ⟨by decide, by decide⟩, hstate (by decide), trivial,
      hstate (by decide),
      halive (by decide), trivial, trivial, hget _ _ rfl (by decide) nofun, halive (by decide),
      hstate (by decide), hstate (by decide), hstate (by decide), halive (by decide), trivial,
      trivial, trivial, trivial, hpoke rfl, hsignal _ rfl (by decide), hstate (by decide),
      hstate (by decide), hstate (by decide), hended rfl rfl (by decide), hstate (by decide),
      trivial, hget _ _ rfl (by decide) nofun, hstate (by decide), hstate (by decide),
      hstate (by decide), hended rfl rfl (by decide), hstate (by decide), trivial⟩
  exact ⟨answered_of_orderly 1 false true none closedAfterJoin hlegal, by decide⟩

/-- The joiner thread ends after `Join` has put a join among the pending requests. -/
def joinedTwice : List (PGAction ℕ) :=
  [.request 7 1 (.add_processes [(1, 20)]), .get, .step, .step, .request 7 2 .start, .get, .step,
    .created 5 [10], .step, .step, .joinerStep 0, .request 8 3 (.join none), .get, .step, .step,
    .step, .exits 10 0, .joinerAnswered 0 false, .joinerStep 0, .joinerStep 0, .step, .step, .step]

/-- The join has been answered, and is pending still. -/
theorem not_answered_joinedTwice :
    ¬ (joinedTwice.foldl exec (init 1 false true none)).Answered := by
  intro h
  have hlength := (h.once (Or.inl (by rfl))).length_eq
  exact absurd hlength (by decide)

end PGManager
