/-
# The requests behind the replies of a process group

The state runner answers a request with the last message from a state, or puts it among the pending
requests, of which `Join` answers each with a message of its own.  That such a reply belongs to a
request, is addressed to the one who has made it and has its tag, is kept by every step.
-/
import DragonRuntime.ProcessGroupHistory

namespace PGManager

variable {τ : Type} {w w' w₀ : PGManager τ} {served : List (ℚ × PGSignalMessage τ)} {now : ℚ}

/-! ## Requests and replies -/

/-- A pending request is a join that was taken, and its deadline is not before that of the join. -/
def IsOf (served : List (ℚ × PGSignalMessage τ)) (item : JoinRequest) : Prop :=
  ∃ (r : ℕ) (t : ℚ) (m : PGSignalMessage τ), item.req = some r ∧ served[r]? = some (t, m) ∧
    m.signal = .join ∧ item.requester = m.p_uid ∧ item.tag = m.tag ∧
      item.timeout = m.payload.timeout ∧ ∀ d, item.timeout = some d → t + d ≤ item.deadline

/-- A reply is one to a request that was taken: that a join has timed out is said only after its
deadline. -/
def Answers (served : List (ℚ × PGSignalMessage τ)) (now : ℚ) (item : Option ℕ × PGReply) : Prop :=
  ∃ (r : ℕ) (t : ℚ) (m : PGSignalMessage τ), item.2.req = some r ∧ served[r]? = some (t, m) ∧
    item.1 = m.p_uid ∧ item.2.tag = m.tag ∧
      (item.2.signal = .joinTimeout → m.signal = .join ∧
        ∃ d, m.payload.timeout = some d ∧ t + d < now)

theorem getElem?_append_of_eq {α : Type} {l : List α} {r : ℕ} {x : α} (h : l[r]? = some x)
    (more : List α) : (l ++ more)[r]? = some x := by
  obtain ⟨hlt, -⟩ := List.getElem?_eq_some_iff.1 h
  rw [List.getElem?_append_left hlt, h]

theorem IsOf.append {item : JoinRequest} (h : IsOf served item)
    (more : List (ℚ × PGSignalMessage τ)) : IsOf (served ++ more) item := by
  obtain ⟨r, t, m, hreq, hr, hrest⟩ := h
  exact ⟨r, t, m, hreq, getElem?_append_of_eq hr more, hrest⟩

theorem Answers.append {item : Option ℕ × PGReply} (h : Answers served now item)
    (more : List (ℚ × PGSignalMessage τ)) : Answers (served ++ more) now item := by
  obtain ⟨r, t, m, hreq, hr, hrest⟩ := h
  exact ⟨r, t, m, hreq, getElem?_append_of_eq hr more, hrest⟩

theorem Answers.later {item : Option ℕ × PGReply} (h : Answers served now item) {now' : ℚ}
    (hle : now ≤ now') : Answers served now' item := by
  obtain ⟨r, t, m, hreq, hr, huid, htag, htimeout⟩ := h
  refine ⟨r, t, m, hreq, hr, huid, htag, fun hsignal => ?_⟩
  obtain ⟨hjoin, d, hd, hlt⟩ := htimeout hsignal
  exact ⟨hjoin, d, hd, hlt.trans_le hle⟩

/-- What `Join` has for a request that it has looked at. -/
theorem IsOf.inspected {item : JoinRequest} (h : IsOf w.served item)
    {payload payload' : List (Option ℕ × PGReply)} {put_back put_back' : List JoinRequest}
    (hinspected : Inspected w item payload put_back payload' put_back')
    (hpayload : ∀ x ∈ payload, Answers w.served w.now x)
    (hput_back : ∀ x ∈ put_back, IsOf w.served x) :
    (∀ x ∈ payload', Answers w.served w.now x) ∧ ∀ x ∈ put_back', IsOf w.served x := by
  obtain ⟨r, t, m, hreq, hr, hjoin, huid, htag, htimeout, hdeadline⟩ := h
  cases hinspected with
  | timeout _ hsome hlt =>
    refine ⟨fun x hx => ?_, hput_back⟩
    rcases List.mem_append.1 hx with hx | hx
    · exact hpayload x hx
    · obtain rfl := List.mem_singleton.1 hx
      obtain ⟨d, hd⟩ := Option.ne_none_iff_exists'.1 hsome
      refine ⟨r, t, m, hreq, hr, huid, htag, fun _ => ⟨hjoin, d, ?_, ?_⟩⟩
      · rw [← htimeout, hd]
      · exact (hdeadline d hd).trans_lt hlt
  | back =>
    refine ⟨hpayload, fun x hx => ?_⟩
    rcases List.mem_append.1 hx with hx | hx
    · exact hput_back x hx
    · obtain rfl := List.mem_singleton.1 hx
      exact ⟨r, t, m, hreq, hr, hjoin, huid, htag, htimeout, hdeadline⟩
  | success =>
    refine ⟨fun x hx => ?_, hput_back⟩
    rcases List.mem_append.1 hx with hx | hx
    · exact hpayload x hx
    · obtain rfl := List.mem_singleton.1 hx
      exact ⟨r, t, m, hreq, hr, huid, htag, nofun⟩

/-! ## The request in hand -/

/-- The message that `Running` or `Join` has is the join that is in hand. -/
def InHand (w : PGManager τ) (msg : PGSignalMessage τ) : Prop :=
  w.cur ≠ none ∧ w.client_msg.signal = .join ∧ msg.p_uid = w.client_msg.p_uid ∧
    msg.tag = w.client_msg.tag ∧ msg.payload.timeout = w.client_msg.payload.timeout

/-- **Invariant.** -/
structure Held (w : PGManager τ) : Prop where
  cur : ∀ r, w.cur = some r → ∃ t, t ≤ w.now ∧ w.served[r]? = some (t, w.client_msg)
  inq : ∀ m ∈ w.state_inq, m.payload.replies = []
  run : ∀ msg, w.place = .run msg → msg.payload.replies = []
  adding : ∀ templates gone_procs msg, w.place = .adding templates gone_procs msg →
    msg.payload.replies = []
  asked : ∀ msg, w.place = .run msg → w.the_state.state = .running ∨ w.the_state.state = .join →
    msg.signal = .join → w.InHand msg
  pending : ∀ item ∈ w.the_state.pending_replies, IsOf w.served item
  put_back : ∀ payload put_back msg, w.place = .joining payload put_back msg →
    ∀ item ∈ put_back, IsOf w.served item
  payload : ∀ payload put_back msg, w.place = .joining payload put_back msg →
    ∀ item ∈ payload, Answers w.served w.now item

/-- The request in hand, the queue and the time are the same. -/
structure SameHand (w w₀ : PGManager τ) : Prop where
  cur : w₀.cur = w.cur
  client_msg : w₀.client_msg = w.client_msg
  served : w₀.served = w.served
  state_inq : w₀.state_inq = w.state_inq
  now : w₀.now = w.now

theorem SameHand.refl (w : PGManager τ) : SameHand w w := ⟨rfl, rfl, rfl, rfl, rfl⟩

variable {msg m : PGSignalMessage τ}

theorem Stopped.sameHand (h : Stopped w msg w₀) : SameHand w w₀ := by
  cases h <;> exact ⟨rfl, rfl, rfl, rfl, rfl⟩

/-- Steps that leave the state runner where it is. -/
theorem Held.frame (hw : w.Held) (hsame : SameHand w w') (hplace : w'.place = w.place)
    (hstate : w'.the_state = w.the_state) : w'.Held where
  cur := by
    rw [hsame.cur, hsame.now, hsame.served, hsame.client_msg]
    exact hw.cur
  inq := by
    rw [hsame.state_inq]
    exact hw.inq
  run := by
    rw [hplace]
    exact hw.run
  adding := by
    rw [hplace]
    exact hw.adding
  asked := by
    rw [hplace, hstate]
    intro msg hrun hrunning hsignal
    rw [InHand, hsame.cur, hsame.client_msg]
    exact hw.asked msg hrun hrunning hsignal
  pending := by
    rw [hstate, hsame.served]
    exact hw.pending
  put_back := by
    rw [hplace, hsame.served]
    exact hw.put_back
  payload := by
    rw [hplace, hsame.served, hsame.now]
    exact hw.payload

theorem Held.goes (hw : w.Held) (hsame : SameHand w w₀) {d : PGState τ}
    (hpending : ∀ item ∈ d.pending_replies, IsOf w.served item)
    (hasked : d.state = .running ∨ d.state = .join → m.signal = .join → w.InHand m) :
    (w₀.goes m d).Held where
  cur := by
    show ∀ r, w₀.cur = some r → ∃ t, t ≤ w₀.now ∧ w₀.served[r]? = some (t, w₀.client_msg)
    rw [hsame.cur, hsame.now, hsame.served, hsame.client_msg]
    exact hw.cur
  inq := by
    show ∀ m ∈ w₀.state_inq, m.payload.replies = []
    rw [hsame.state_inq]
    exact hw.inq
  run msg hplace := by
    obtain rfl := PGPlace.run.inj hplace
    rfl
  adding _ _ _ hplace := nomatch hplace
  asked msg hplace hrunning hsignal := by
    obtain rfl := PGPlace.run.inj hplace
    obtain ⟨hcur, hclient, huid, htag, htimeout⟩ := hasked hrunning hsignal
    refine ⟨hsame.cur ▸ hcur, ?_, ?_, ?_, ?_⟩ <;> show _ = _
    · exact hsame.client_msg ▸ hclient
    · exact hsame.client_msg ▸ huid
    · exact hsame.client_msg ▸ htag
    · exact hsame.client_msg ▸ htimeout
  pending := by
    show ∀ item ∈ d.pending_replies, IsOf w₀.served item
    rw [hsame.served]
    exact hpending
  put_back _ _ _ hplace := nomatch hplace
  payload _ _ _ hplace := nomatch hplace

/-- The state runner is through with the request. -/
theorem Held.finish (hw : w.Held) (hsame : SameHand w w₀) (valid : Bool) (reply : PGReply)
    (hpending : ∀ item ∈ w₀.the_state.pending_replies, IsOf w.served item) :
    (w₀.finish valid reply).Held := by
  have hplace := finish_place w₀ valid reply
  refine ⟨?_, ?_, fun _ h => ?_, fun _ _ _ h => ?_, fun _ h => ?_, ?_, fun _ _ _ h => ?_,
    fun _ _ _ h => ?_⟩
  · rw [finish_cur, finish_now, finish_served, finish_client_msg, hsame.cur, hsame.now,
      hsame.served, hsame.client_msg]
    exact hw.cur
  · rw [finish_state_inq, hsame.state_inq]
    exact hw.inq
  · rcases hplace with hplace | hplace <;> exact nomatch hplace.symm.trans h
  · rcases hplace with hplace | hplace <;> exact nomatch hplace.symm.trans h
  · rcases hplace with hplace | hplace <;> exact nomatch hplace.symm.trans h
  · rw [finish_the_state, finish_served, hsame.served]
    exact hpending
  · rcases hplace with hplace | hplace <;> exact nomatch hplace.symm.trans h
  · rcases hplace with hplace | hplace <;> exact nomatch hplace.symm.trans h

/-- A message that is taken, and becomes the request in hand. -/
theorem Held.taken (hw : w.Held) (htaken : Taken w msg w₀) :
    (∀ r, w₀.cur = some r → ∃ t, t ≤ w₀.now ∧ w₀.served[r]? = some (t, w₀.client_msg)) ∧
      (∀ m ∈ w₀.state_inq, m.payload.replies = []) ∧
        msg.payload.replies = [] ∧ (msg.signal = .join → w₀.InHand msg) ∧
          (∀ item ∈ w.the_state.pending_replies, IsOf w₀.served item) := by
  cases htaken with
  | request _ hinq =>
    have hmem : msg ∈ w.state_inq := by
      rw [hinq]
      exact List.mem_cons_self
    refine ⟨fun r hr => ?_, fun m hm => hw.inq m ?_, hw.inq msg hmem, fun hsignal => ?_,
      fun item hitem => (hw.pending item hitem).append _⟩
    · obtain rfl := Option.some.inj hr
      exact ⟨w.now, le_rfl, List.getElem?_concat_length⟩
    · rw [hinq]
      exact List.mem_cons_of_mem _ hm
    · exact ⟨Option.some_ne_none _, hsignal, rfl, rfl, rfl⟩
  | poke _ _ hmsg =>
    refine ⟨fun r hr => (nomatch hr), hw.inq, ?_, fun hsignal => ?_, hw.pending⟩
    · rw [hmsg]
    · rw [hmsg] at hsignal
      exact nomatch hsignal

/-- The pending request that `Join` makes of the join in hand. -/
theorem Held.isOf_inHand (hw : w.Held) (h : w.InHand msg) :
    IsOf w.served ⟨msg.p_uid, msg.payload.timeout, w.now + msg.payload.timeout.getD joinHorizon,
      msg.tag, w.cur⟩ := by
  obtain ⟨hcur, hclient, huid, htag, htimeout⟩ := h
  obtain ⟨r, hr⟩ := Option.ne_none_iff_exists'.1 hcur
  obtain ⟨t, ht, hserved⟩ := hw.cur r hr
  refine ⟨r, t, w.client_msg, hr, hserved, hclient, huid, htag, htimeout, fun d hd => ?_⟩
  show t + d ≤ w.now + msg.payload.timeout.getD joinHorizon
  have hd : msg.payload.timeout = some d := hd
  rw [hd, Option.getD_some]
  exact add_le_add_left ht d

theorem replies_message (p_uid tag : ℕ) (r : PGRequest τ) :
    (r.message p_uid tag).payload.replies = [] := by
  cases r <;> rfl

/-- **Step lemma.** -/
theorem Held.move {a : PGAction τ} (hw : w.Held) (hmove : Move w a w') : w'.Held := by
  cases hmove with
  | stutter => exact hw
  | request p_uid tag r =>
    refine ⟨hw.cur, fun m hm => ?_, hw.run, hw.adding, hw.asked, hw.pending, hw.put_back,
      hw.payload⟩
    rcases List.mem_append.1 hm with hm | hm
    · exact hw.inq m hm
    · obtain rfl := List.mem_singleton.1 hm
      exact replies_message p_uid tag r
  | tick d hd =>
    have hle : w.now ≤ w.now + d := le_add_of_nonneg_right hd
    refine ⟨fun r hr => ?_, hw.inq, hw.run, hw.adding, hw.asked, hw.pending, hw.put_back,
      fun payload put_back msg hplace item hitem => ?_⟩
    · obtain ⟨t, ht, hcur⟩ := hw.cur r hr
      exact ⟨t, ht.trans hle, hcur⟩
    · exact (hw.payload payload put_back msg hplace item hitem).later hle
  | exits => exact hw.frame ⟨rfl, rfl, rfl, rfl, rfl⟩ rfl rfl
  | take _ w₀ _ htaken =>
    obtain ⟨hcur, hinq, hreplies, hasked, hpending⟩ := hw.taken htaken
    refine ⟨hcur, hinq, fun msg' h => ?_, fun _ _ _ h => (nomatch h), fun msg' h _ hsignal => ?_,
      ?_, fun _ _ _ h => (nomatch h), fun _ _ _ h => nomatch h⟩
    · obtain rfl := PGPlace.run.inj h
      exact hreplies
    · obtain rfl := PGPlace.run.inj h
      exact hasked hsignal
    · show ∀ item ∈ w₀.the_state.pending_replies, IsOf w₀.served item
      rw [htaken.the_state]
      exact hpending
  | refuse _ w₀ hplace htaken =>
    obtain ⟨hcur, hinq, -, -, hpending⟩ := hw.taken htaken
    rw [← htaken.the_state] at hpending
    have hplace₀ : w₀.place = .ready := htaken.place.trans hplace
    refine Held.finish ⟨hcur, hinq, fun _ h => ?_, fun _ _ _ h => ?_, fun _ h => ?_, hpending,
      fun _ _ _ h => ?_, fun _ _ _ h => ?_⟩ (.refl w₀) _ _ hpending
    all_goals exact nomatch hplace₀.symm.trans h
  | addTemplates =>
    refine hw.goes (.refl w) ?_ fun _ h => nomatch h
    exact fun item h => absurd h List.not_mem_nil
  | stopping | stopAgain =>
    exact ⟨hw.cur, hw.inq, fun _ h => (nomatch h), fun _ _ _ h => (nomatch h),
      fun _ h => (nomatch h), hw.pending, fun _ _ _ h => (nomatch h), fun _ _ _ h => nomatch h⟩
  | idleStart _ _ hstopped =>
    refine hw.goes hstopped.sameHand ?_ fun _ h => nomatch h
    exact fun item h => absurd h List.not_mem_nil
  | idleJoin _ _ hstopped =>
    refine hw.goes hstopped.sameHand ?_ fun _ h => nomatch h
    exact hw.pending
  | idleStays _ w₀ hstopped =>
    obtain ⟨hcur, hclient, hserved, hinq, hnow⟩ := hstopped.sameHand
    refine hw.finish ?_ _ _ ?_
    · exact ⟨hcur, hclient, hserved, hinq, hnow⟩
    · show ∀ item ∈ w₀.the_state.pending_replies, IsOf w.served item
      rw [hstopped.the_state]
      exact hw.pending
  | created =>
    refine hw.goes ?_ ?_ ?_
    · exact ⟨rfl, rfl, rfl, rfl, rfl⟩
    · exact fun item h => absurd h List.not_mem_nil
    · exact fun _ h => nomatch h
  | makeJoiner =>
    refine hw.goes ?_ ?_ ?_
    · exact ⟨rfl, rfl, rfl, rfl, rfl⟩
    · exact hw.pending
    · exact fun _ h => nomatch h
  | runStop =>
    refine hw.goes (.refl w) ?_ fun h => h.elim nofun nofun
    exact hw.pending
  | runJoin msg hplace hstate =>
    refine hw.goes (.refl w) ?_ fun _ hsignal => ?_
    · exact hw.pending
    · exact hw.asked msg hplace (Or.inl hstate) hsignal
  | runJoinFinal =>
    refine hw.goes (.refl w) ?_ fun _ h => nomatch h
    exact hw.pending
  | runStopMaintaining =>
    refine hw.goes ?_ ?_ ?_
    · exact ⟨rfl, rfl, rfl, rfl, rfl⟩
    · exact hw.pending
    · exact fun _ h => nomatch h
  | runStays =>
    refine hw.finish ?_ _ _ ?_
    · exact ⟨rfl, rfl, rfl, rfl, rfl⟩
    · exact hw.pending
  | runExit =>
    refine hw.goes (.refl w) ?_ fun h => h.elim nofun nofun
    exact hw.pending
  | runRestart msg hplace =>
    refine ⟨hw.cur, hw.inq, fun _ h => (nomatch h), fun _ _ msg' h => ?_, fun _ h => (nomatch h),
      hw.pending, fun _ _ _ h => (nomatch h), fun _ _ _ h => nomatch h⟩
    obtain ⟨-, -, rfl⟩ := PGPlace.adding.inj h
    exact hw.run msg hplace
  | added _ _ _ _ _ _ h hadds =>
    obtain rfl := hadds.eq
    refine hw.goes ?_ ?_ ?_
    · exact ⟨rfl, rfl, rfl, rfl, rfl⟩
    · exact hw.pending
    · exact fun _ h => nomatch h
  | addedFails _ _ _ _ _ _ hadds =>
    obtain rfl := hadds.eq
    refine hw.finish ?_ _ _ fun item h => absurd h List.not_mem_nil
    exact ⟨rfl, rfl, rfl, rfl, rfl⟩
  | joinBegin msg hplace hstate =>
    refine ⟨hw.cur, hw.inq, fun _ h => (nomatch h), fun _ _ _ h => (nomatch h),
      fun _ h => (nomatch h), fun item hitem => ?_, fun payload put_back _ h item hitem => ?_,
      fun payload put_back _ h item hitem => ?_⟩
    · rcases List.mem_append.1 hitem with hitem | hitem
      · exact hw.pending item hitem
      · split at hitem
        next hsignal =>
          obtain rfl := List.mem_singleton.1 hitem
          exact hw.isOf_inHand (hw.asked msg hplace (Or.inr hstate) hsignal)
        next => exact absurd hitem List.not_mem_nil
    · obtain ⟨-, rfl, -⟩ := PGPlace.joining.inj h
      exact absurd hitem List.not_mem_nil
    · obtain ⟨rfl, -, -⟩ := PGPlace.joining.inj h
      exact absurd hitem List.not_mem_nil
  | joinItem payload put_back msg item _ _ _ hplace _ hpending hinspected =>
    have hitem := hw.pending item (by rw [hpending]; exact List.mem_cons_self)
    obtain ⟨hpayload', hput_back'⟩ := hitem.inspected hinspected
      (hw.payload payload put_back msg hplace) (hw.put_back payload put_back msg hplace)
    refine ⟨hw.cur, hw.inq, fun _ h => (nomatch h), fun _ _ _ h => (nomatch h),
      fun _ h => (nomatch h), fun x hx => ?_, fun _ _ _ h => ?_, fun _ _ _ h => ?_⟩
    · refine hw.pending x ?_
      rw [hpending]
      exact List.mem_cons_of_mem _ hx
    · obtain ⟨-, rfl, -⟩ := PGPlace.joining.inj h
      exact hput_back'
    · obtain ⟨rfl, -, -⟩ := PGPlace.joining.inj h
      exact hpayload'
  | joinEnd payload put_back msg hplace =>
    refine hw.goes (.refl w) ?_ fun _ h => nomatch h
    exact hw.put_back payload put_back msg hplace
  | joinedFails | raises =>
    refine hw.finish ?_ _ _ fun item h => absurd h List.not_mem_nil
    exact ⟨rfl, rfl, rfl, rfl, rfl⟩
  | joinerMoves => exact hw.frame ⟨rfl, rfl, rfl, rfl, rfl⟩ rfl rfl
  | joinerRecord => exact hw.frame ⟨rfl, rfl, rfl, rfl, rfl⟩ rfl rfl
  | joinerEnds => exact hw.frame ⟨rfl, rfl, rfl, rfl, rfl⟩ rfl rfl

theorem held_init (puid : ℕ) (restart ignore_error_on_exit : Bool) (walltime : Option ℚ) :
    (init puid restart ignore_error_on_exit walltime : PGManager τ).Held where
  cur _ h := nomatch h
  inq _ h := absurd h List.not_mem_nil
  run _ h := nomatch h
  adding _ _ _ h := nomatch h
  asked _ h := nomatch h
  pending _ h := absurd h List.not_mem_nil
  put_back _ _ _ h := nomatch h
  payload _ _ _ h := nomatch h

/-! ## What the state runner puts out -/

theorem finish_state_outq (w : PGManager τ) (valid : Bool) (reply : PGReply) :
    (w.finish valid reply).state_outq = w.state_outq ∨
      (w.finish valid reply).state_outq = w.state_outq ++ [(w.client_msg.p_uid, reply)] ∧
        ∃ m, w.desired_state_msg = some m ∧ (w.reply_needed m || !valid) = true := by
  rw [PGManager.finish]
  cases hm : w.desired_state_msg with
  | none => exact Or.inl rfl
  | some m =>
    show (if (w.reply_needed m || !valid) = true then _ else w.state_outq) = _ ∨
      (if (w.reply_needed m || !valid) = true then _ else w.state_outq) = _ ∧ _
    split
    next hneeded => exact Or.inr ⟨rfl, m, rfl, hneeded⟩
    next => exact Or.inl rfl

/-- With the message of a state that stays, it is that message that says whether there is one. -/
theorem succeed_receive_state_outq_eq (w : PGManager τ) (hreplies : m.payload.replies = []) :
    (w.receive m).succeed.state_outq =
      if w.client_msg.p_uid ≠ some w.puid ∧ m.skip_reply = false then
        w.state_outq ++ [(w.client_msg.p_uid,
          { signal := .success, p_uid := some w.puid, tag := w.client_msg.tag
            current_state := some w.the_state.state, req := w.cur })]
      else w.state_outq := by
  have hneeded : (w.receive m).reply_needed
      { m with payload := { m.payload with replies := [] } } =
        decide (w.client_msg.p_uid ≠ some w.puid ∧ m.skip_reply = false) := by
    show (decide (w.client_msg.p_uid ≠ some w.puid) && !m.skip_reply) = _
    cases m.skip_reply <;> simp
  show (if ((w.receive m).reply_needed { m with payload := { m.payload with replies := [] } } ||
      !true) = true then (w.state_outq ++ m.payload.replies) ++ _
    else w.state_outq ++ m.payload.replies) = _
  rw [hneeded, hreplies, List.append_nil, Bool.not_true, Bool.or_false]
  simp only [decide_eq_true_eq]
  rfl

theorem succeed_receive_state_outq (w : PGManager τ) (hreplies : m.payload.replies = []) :
    (w.receive m).succeed.state_outq = w.state_outq ∨
      (w.receive m).succeed.state_outq = w.state_outq ++ [(w.client_msg.p_uid,
        { signal := .success, p_uid := some w.puid, tag := w.client_msg.tag
          current_state := some w.the_state.state, req := w.cur })] ∧
        m.skip_reply = false ∧ w.client_msg.p_uid ≠ some w.puid := by
  rw [succeed_receive_state_outq_eq w hreplies]
  split
  next h => exact Or.inr ⟨rfl, h.2, h.1⟩
  next => exact Or.inl rfl

end PGManager
