/-
# The stream channels of a file-like interface (`src/lib/fli.c`)

An FLI is made with stream channels of its own, which are messages in its manager channel.  A send
handle that is not buffered takes one of them out of the manager channel, sends its messages to
it, deposits it in the main channel after its first send or when it is closed, and ends the stream
with an end marker.  A receive handle takes the stream channel out of the main channel, empties it
up to the end marker, and returns it to the manager channel when it is closed.

Conventions:

* `τ` are the FLI's own (internal) stream channels, `ε` those that a user supplies (external) and
  `ω` the calls that open a handle; each receive from or send to a channel is a step;
* a call that hands a stream channel on has an `StreamOutcome`: it may fail before its message was sent
  or received (a timeout, a full pool or channel), or after it (the stream channel cannot be
  attached to, a send handle not opened, a memory not freed);
* a handle whose close failed is still open and can be closed again; an open that failed leaves
  no handle to its caller;
* only the content of the internal stream channels is recorded, and of it only which message is
  the end marker.
-/
import DragonRuntime.Custody
import DragonRuntime.Runs

/-- How a call ends that sends or receives a stream channel. -/
inductive StreamOutcome : Type where
  | ok
  | failsBefore
  | failsAfter
  deriving DecidableEq

/-- A stream channel, with its type: `FLI_INTERNAL_STRM_CHANNEL` or `FLI_EXTERNAL_STRM_CHANNEL`. -/
inductive StreamCh (τ ε : Type*) : Type _ where
  | internal (t : τ)
  | external (e : ε)
  deriving DecidableEq

/-- A message in the main channel: a stream channel, or the data of a buffered send. -/
inductive MainMsg (τ ε : Type*) : Type _ where
  | stream (c : StreamCh τ ε)
  | data
  deriving DecidableEq

/-- A message in a stream channel. -/
inductive StreamMsg : Type where
  /-- `FLI_TERMINATOR`: the channel by which the receiver can cancel the stream -/
  | terminator
  | data
  /-- `FLI_EOT` -/
  | eot
  deriving DecidableEq

/-- Where a handle is. -/
inductive FliPhase (τ ε : Type*) : Type _ where
  | idle
  /-- in the open of a send handle, with a stream channel -/
  | opening (c : StreamCh τ ε) (term : Bool)
  /-- in the open of a send handle, after the termination channel was sent -/
  | priming (c : StreamCh τ ε)
  /-- an open send handle -/
  | sending (c : StreamCh τ ε) (numSends : ℕ) (deposited : Bool)
  /-- in a send, after its message -/
  | sent (c : StreamCh τ ε) (numSends : ℕ) (deposited : Bool)
  /-- in the close of a send handle, before the end marker -/
  | closing (c : StreamCh τ ε) (numSends : ℕ)
  /-- in the close of a send handle, after the end marker -/
  | ended
  /-- an open send handle for a buffered send -/
  | bufferedSending
  /-- in the open of a receive handle, with a stream channel -/
  | openingRecv (c : StreamCh τ ε)
  /-- an open receive handle; its channel handle may have been closed by a close that failed -/
  | receiving (c : StreamCh τ ε) (streamReceived opened : Bool)
  /-- in the close of a receive handle, before the stream channel is returned -/
  | returning (c : StreamCh τ ε)
  /-- an open receive handle for a buffered send -/
  | bufferedReceiving
  | closed
  /-- the open has failed -/
  | failed

namespace StreamCh

variable {τ ε : Type*}

def internal? : StreamCh τ ε → Option τ
  | .internal t => some t
  | .external _ => none

end StreamCh

def MainMsg.internal? {τ ε : Type*} : MainMsg τ ε → Option τ
  | .stream c => c.internal?
  | .data => none

namespace FliPhase

variable {τ ε : Type*}

/-- The internal stream channel that the handle has: it has not deposited it, or it has received
and not returned it. -/
def token : FliPhase τ ε → Option τ
  | .opening c _ | .priming c | .sending c _ false | .sent c _ false => c.internal?
  | .openingRecv c | .receiving c _ _ | .returning c => c.internal?
  | _ => none

/-- The internal stream channel that the handle may still send messages to. -/
def active : FliPhase τ ε → Option τ
  | .opening c _ | .priming c | .sending c _ _ | .sent c _ _ | .closing c _ => c.internal?
  | _ => none

/-- The internal stream channel whose end marker the handle has received. -/
def drained : FliPhase τ ε → Option τ
  | .receiving c true _ | .returning c => c.internal?
  | _ => none

/-- There is no handle, or it has been closed. -/
def out : FliPhase τ ε → Bool
  | .idle | .closed | .failed => true
  | _ => false

end FliPhase

/-- `FLI_DEFAULT_PRIMES` -/
def fliDefaultPrimes : ℕ := 1

/-- The channels of an FLI, and the handles `ω`. -/
structure FliState (τ ε ω : Type*) where
  hasMainCh : Bool
  mgr : List (StreamCh τ ε)
  main : List (MainMsg τ ε)
  content : τ → List StreamMsg
  phase : ω → FliPhase τ ε

namespace FliState

variable {τ ε ω : Type*} [DecidableEq τ] [DecidableEq ω]

/-- An FLI that was just made with these stream channels. -/
def init (hasMainCh : Bool) (strmChannels : List τ) : FliState τ ε ω :=
  ⟨hasMainCh, strmChannels.map .internal, [], fun _ => [], fun _ => .idle⟩

def setPhase (s : FliState τ ε ω) (w : ω) (phase : FliPhase τ ε) : FliState τ ε ω :=
  { s with phase := Function.update s.phase w phase }

/-- A message goes to the stream channel. -/
def append (s : FliState τ ε ω) (c : StreamCh τ ε) (msg : StreamMsg) : FliState τ ε ω :=
  match c with
  | .internal t => { s with content := Function.update s.content t (s.content t ++ [msg]) }
  | .external _ => s

/-- `_recv_stream_channel` from the manager channel. -/
def takeMgr (s : FliState τ ε ω) (o : StreamOutcome) : Option (StreamCh τ ε) × FliState τ ε ω :=
  match o, s.mgr with
  | .ok, c :: rest => (some c, { s with mgr := rest })
  | .failsAfter, _ :: rest => (none, { s with mgr := rest })
  | _, _ => (none, s)

/-- The stream channel of a send handle: the one from the manager channel, or else the one that
the user has supplied. -/
def openWith (s : FliState τ ε ω) (w : ω) (strmCh : Option ε) (term : Bool) :
    Option (StreamCh τ ε) → FliState τ ε ω
  | some c => s.setPhase w (.opening c term)
  | none =>
    match strmCh with
    | some e => s.setPhase w (.opening (.external e) term)
    | none => s.setPhase w .failed

/-- `dragon_fli_open_send_handle` up to the stream channel: if the user has supplied one, the
manager channel is tried once. -/
def openSend (s : FliState τ ε ω) (w : ω) (strmCh : Option ε) (term : Bool) (o : StreamOutcome) :
    FliState τ ε ω :=
  (s.takeMgr o).2.openWith w strmCh term (s.takeMgr o).1

/-- The rest of `dragon_fli_open_send_handle`, up to the deposit if there is a termination
channel. -/
def openRest (s : FliState τ ε ω) (w : ω) (c : StreamCh τ ε) (term : Bool) (o : StreamOutcome) :
    FliState τ ε ω :=
  match o, term with
  | .ok, false => s.setPhase w (.sending c 0 (!s.hasMainCh))
  | .ok, true => (s.append c .terminator).setPhase w (.priming c)
  | _, _ => s.setPhase w .failed

/-- `_send_stream_channel` to the main channel, which leads to the one or the other phase. -/
def deposit (s : FliState τ ε ω) (w : ω) (c : StreamCh τ ε) (o : StreamOutcome)
    (done undone : FliPhase τ ε) : FliState τ ε ω :=
  match o with
  | .ok => setPhase { s with main := s.main ++ [.stream c] } w done
  | .failsBefore => s.setPhase w undone
  | .failsAfter => setPhase { s with main := s.main ++ [.stream c] } w undone

/-- `_send_stream_channel_when_primed` in a send. -/
def whenPrimed (s : FliState τ ε ω) (w : ω) (c : StreamCh τ ε) (numSends : ℕ) (deposited : Bool)
    (o : StreamOutcome) : FliState τ ε ω :=
  if deposited = false ∧ numSends + 1 = fliDefaultPrimes then
    s.deposit w c o (.sending c (numSends + 1) true) (.sending c (numSends + 1) false)
  else s.setPhase w (.sending c (numSends + 1) deposited)

/-- `dragon_fli_open_recv_handle` up to the stream channel. -/
def openRecv (s : FliState τ ε ω) (w : ω) (o : StreamOutcome) : FliState τ ε ω :=
  match o, s.main with
  | .ok, .stream c :: rest => setPhase { s with main := rest } w (.openingRecv c)
  | .ok, .data :: rest => setPhase { s with main := rest } w .bufferedReceiving
  | .failsAfter, _ :: rest => setPhase { s with main := rest } w .failed
  | _, _ => s.setPhase w .failed

/-- `dragon_fli_open_recv_handle` with a stream channel of the user, which goes to the manager
channel. -/
def openRecvWith (s : FliState τ ε ω) (w : ω) (e : ε) (o : StreamOutcome) : FliState τ ε ω :=
  match o with
  | .ok => setPhase { s with mgr := s.mgr ++ [.external e] } w (.openingRecv (.external e))
  | .failsBefore => s.setPhase w .failed
  | .failsAfter => setPhase { s with mgr := s.mgr ++ [.external e] } w .failed

/-- A message is received from the stream channel.  A call that asked for more bytes than there
are takes the end marker without setting `stream_received`. -/
def recv (s : FliState τ ε ω) (w : ω) (c : StreamCh τ ε) (opened marks : Bool) :
    FliState τ ε ω :=
  match c with
  | .external _ => s.setPhase w (.receiving c marks opened)
  | .internal t =>
    match s.content t with
    | [] => s
    | msg :: rest =>
      setPhase { s with content := Function.update s.content t rest } w
        (.receiving c (marks && decide (msg = .eot)) opened)

/-- The end of `dragon_fli_close_recv_handle`: an internal stream channel is returned to the
manager channel. -/
def giveBack (s : FliState τ ε ω) (w : ω) (c : StreamCh τ ε) (o : StreamOutcome) (ends : Bool) :
    FliState τ ε ω :=
  match c, o with
  | .external _, _ => s.setPhase w (if ends then .closed else .receiving c true false)
  | .internal _, .ok =>
    setPhase { s with mgr := s.mgr ++ [c] } w
      (if ends then .closed else .receiving c true false)
  | .internal _, .failsBefore => s.setPhase w (.receiving c true false)
  | .internal _, .failsAfter =>
    setPhase { s with mgr := s.mgr ++ [c] } w (.receiving c true false)

/-- The steps of the handles. -/
inductive Step (ε ω : Type*) : Type _ where
  | openSend (w : ω) (strmCh : Option ε) (term : Bool) (o : StreamOutcome)
  | openRest (w : ω) (o : StreamOutcome)
  /-- the deposit after the termination channel was sent -/
  | openDeposit (w : ω) (o : StreamOutcome)
  /-- a send; with buffering its message is not sent yet -/
  | send (w : ω) (buffer : Bool) (o : StreamOutcome)
  | whenPrimed (w : ω) (o : StreamOutcome)
  | closeDeposit (w : ω) (o : StreamOutcome)
  /-- buffered bytes are sent by the close -/
  | closeBuffered (w : ω) (o : StreamOutcome)
  | closeEot (w : ω) (o : StreamOutcome)
  /-- the rest of the close of a send handle, which may fail -/
  | closeEnd (w : ω) (ok : Bool)
  /-- `STREAM_CHANNEL_IS_MAIN_FOR_BUFFERED_SEND` -/
  | openBufferedSend (w : ω)
  | sendBuffered (w : ω)
  | closeBufferedSend (w : ω)
  | openRecv (w : ω) (o : StreamOutcome)
  | openRecvWith (w : ω) (e : ε) (o : StreamOutcome)
  | openRecvRest (w : ω) (o : StreamOutcome)
  /-- a receive, or a turn of the loop of the close -/
  | recv (w : ω) (marks : Bool)
  /-- `dragon_chrecv_close` in the close of a receive handle -/
  | closeRecv (w : ω)
  | giveBack (w : ω) (o : StreamOutcome) (ends : Bool)
  | closeBufferedRecv (w : ω)

/-- A step of a handle; one that cannot be made changes nothing. -/
def exec (s : FliState τ ε ω) : Step ε ω → FliState τ ε ω
  | .openSend w strmCh term o =>
    match s.phase w with
    | .idle => s.openSend w strmCh term o
    | _ => s
  | .openRest w o =>
    match s.phase w with
    | .opening c term => s.openRest w c term o
    | _ => s
  | .openDeposit w o =>
    match s.phase w with
    | .priming c =>
      if s.hasMainCh then s.deposit w c o (.sending c 1 true) .failed
      else s.setPhase w (.sending c 1 true)
    | _ => s
  | .send w buffer o =>
    match s.phase w, o with
    | .sending c numSends deposited, .ok =>
      (if buffer then s else s.append c .data).setPhase w (.sent c numSends deposited)
    | .sending c _ _, .failsAfter => s.append c .data
    | _, _ => s
  | .whenPrimed w o =>
    match s.phase w with
    | .sent c numSends deposited => s.whenPrimed w c numSends deposited o
    | _ => s
  | .closeDeposit w o =>
    match s.phase w with
    | .sending c numSends true => s.setPhase w (.closing c numSends)
    | .sending c numSends false =>
      s.deposit w c o (.closing c numSends) (.sending c numSends false)
    | _ => s
  | .closeBuffered w o =>
    match s.phase w, o with
    | .closing c _, .ok => s.append c .data
    | .closing c numSends, .failsBefore => s.setPhase w (.sending c numSends true)
    | .closing c numSends, .failsAfter =>
      (s.append c .data).setPhase w (.sending c numSends true)
    | _, _ => s
  | .closeEot w o =>
    match s.phase w, o with
    | .closing c _, .ok => (s.append c .eot).setPhase w .ended
    | .closing c numSends, .failsBefore => s.setPhase w (.sending c numSends true)
    | .closing c numSends, .failsAfter =>
      (s.append c .eot).setPhase w (.sending c numSends true)
    | _, _ => s
  | .closeEnd w ok =>
    match s.phase w with
    | .ended => if ok then s.setPhase w .closed else s
    | _ => s
  | .openBufferedSend w =>
    match s.phase w with
    | .idle => s.setPhase w .bufferedSending
    | _ => s
  | .sendBuffered w =>
    match s.phase w with
    | .bufferedSending => { s with main := s.main ++ [.data] }
    | _ => s
  | .closeBufferedSend w =>
    match s.phase w with
    | .bufferedSending => s.setPhase w .closed
    | _ => s
  | .openRecv w o =>
    match s.phase w with
    | .idle => s.openRecv w o
    | _ => s
  | .openRecvWith w e o =>
    match s.phase w with
    | .idle => s.openRecvWith w e o
    | _ => s
  | .openRecvRest w o =>
    match s.phase w, o with
    | .openingRecv c, .ok => s.setPhase w (.receiving c false true)
    | .openingRecv _, _ => s.setPhase w .failed
    | _, _ => s
  | .recv w marks =>
    match s.phase w with
    | .receiving c false opened => s.recv w c opened marks
    | _ => s
  | .closeRecv w =>
    match s.phase w with
    | .receiving c true true => s.setPhase w (.returning c)
    | _ => s
  | .giveBack w o ends =>
    match s.phase w with
    | .returning c => s.giveBack w c o ends
    | _ => s
  | .closeBufferedRecv w =>
    match s.phase w with
    | .bufferedReceiving => s.setPhase w .closed
    | _ => s

end FliState

/-! ## Where the stream channels are -/

theorem FliPhase.token_of_drained {τ ε : Type*} {phase : FliPhase τ ε} {t : τ}
    (h : phase.drained = some t) : phase.token = some t := by
  cases phase with
  | receiving _ streamReceived =>
    cases streamReceived with
    | false => exact nomatch h
    | true => exact h
  | returning => exact h
  | _ => exact nomatch h

/-- The two channels that stream channels go through. -/
inductive FliQueue : Type where
  | mgr
  | main
  deriving DecidableEq

namespace FliState

variable {τ ε ω : Type*} [DecidableEq τ] [DecidableEq ω]

/-- The internal stream channels in the channels and with the handles. -/
def custody (s : FliState τ ε ω) : Custody FliQueue ω τ where
  queue
    | .mgr => s.mgr.filterMap StreamCh.internal?
    | .main => s.main.filterMap MainMsg.internal?
  hand w := (s.phase w).token

/-- A receiver is done with the stream channel: it has returned it, or has received the end
marker. -/
def Done (s : FliState τ ε ω) (t : τ) : Prop :=
  t ∈ s.custody.queue .mgr ∨ ∃ w, (s.phase w).drained = some t

/-- No handle will send to the stream channel. -/
def NoSender (s : FliState τ ε ω) (t : τ) : Prop := ∀ w, (s.phase w).active ≠ some t

structure Inv (tokens : Finset τ) (s : FliState τ ε ω) : Prop where
  exact : s.custody.Exact tokens
  one_sender : ∀ t w w', (s.phase w).active = some t → (s.phase w').active = some t → w = w'
  eot_last : ∀ t, .eot ∈ s.content t →
    (∃ l, s.content t = l ++ [.eot] ∧ .eot ∉ l) ∧ s.NoSender t
  done : ∀ t, s.Done t → s.content t = [] ∧ s.NoSender t

variable {s s' : FliState τ ε ω} {w : ω} {tokens : Finset τ} {t : τ}

omit [DecidableEq ω] in
theorem inv_init (hasMainCh : Bool) {strmChannels : List τ} (hnodup : strmChannels.Nodup) :
    Inv strmChannels.toFinset (init hasMainCh strmChannels : FliState τ ε ω) := by
  have hmgr : (init hasMainCh strmChannels : FliState τ ε ω).custody.queue .mgr
      = strmChannels := by
    show (strmChannels.map StreamCh.internal).filterMap StreamCh.internal? = strmChannels
    rw [List.filterMap_map]
    exact List.filterMap_some
  refine ⟨⟨?_, ?_, ?_⟩, ?_, ?_, ?_⟩
  · intro t ht
    refine ⟨.queued .mgr, ?_, ?_⟩
    · show t ∈ _
      rw [hmgr]
      exact List.mem_toFinset.mp ht
    · rintro (q | w) hp
      · cases q with
        | mgr => rfl
        | main => exact absurd hp List.not_mem_nil
      · cases hp
  · intro q
    cases q with
    | mgr =>
      rw [hmgr]
      exact hnodup
    | main => exact List.nodup_nil
  · rintro t (q | w) hp
    · cases q with
      | mgr =>
        rw [Custody.At, hmgr] at hp
        exact List.mem_toFinset.mpr hp
      | main => exact absurd hp List.not_mem_nil
    · cases hp
  · intro t w w' h
    cases h
  · exact fun t h => absurd h List.not_mem_nil
  · exact fun t _ => ⟨rfl, fun w h => by cases h⟩

omit [DecidableEq τ] in
theorem setPhase_phase (phase : FliPhase τ ε) (w₁ : ω) :
    (s.setPhase w phase).phase w₁ = if w₁ = w then phase else s.phase w₁ := by
  unfold setPhase
  by_cases hw : w₁ = w
  · subst hw
    rw [if_pos rfl]
    exact Function.update_self w₁ phase s.phase
  · rw [if_neg hw]
    exact Function.update_of_ne hw phase s.phase

omit [DecidableEq τ] in
theorem custody_setPhase (phase : FliPhase τ ε) :
    (s.setPhase w phase).custody = s.custody.setHand w phase.token := by
  unfold custody Custody.setHand
  congr 1
  funext w₁
  rw [setPhase_phase, Function.update_apply]
  by_cases hw : w₁ = w
  · rw [if_pos hw, if_pos hw]
  · rw [if_neg hw, if_neg hw]

section

omit [DecidableEq τ] [DecidableEq ω]

theorem custody_mgr (mgr : List (StreamCh τ ε)) :
    ({ s with mgr := mgr } : FliState τ ε ω).custody
      = s.custody.setQueue .mgr (mgr.filterMap StreamCh.internal?) := by
  unfold custody Custody.setQueue
  congr 1
  funext q
  cases q with
  | mgr => rfl
  | main => rfl

theorem custody_main (main : List (MainMsg τ ε)) :
    ({ s with main := main } : FliState τ ε ω).custody
      = s.custody.setQueue .main (main.filterMap MainMsg.internal?) := by
  unfold custody Custody.setQueue
  congr 1
  funext q
  cases q with
  | mgr => rfl
  | main => rfl

/-- Stream channels change places, and no handle becomes a sender. -/
theorem Inv.of_moves (h : Inv tokens s) (hexact : s'.custody.Exact tokens)
    (hcontent : s'.content = s.content)
    (hactive : ∀ w t, (s'.phase w).active = some t → (s.phase w).active = some t)
    (hdone : ∀ t, s'.Done t → s.Done t) : Inv tokens s' := by
  have hsender : ∀ t, s.NoSender t → s'.NoSender t :=
    fun t hno w hw => hno w (hactive w t hw)
  refine ⟨hexact, ?_, ?_, ?_⟩
  · intro t w w' hw hw'
    exact h.one_sender t w w' (hactive w t hw) (hactive w' t hw')
  · intro t hmem
    rw [hcontent] at hmem ⊢
    obtain ⟨hlast, hno⟩ := h.eot_last t hmem
    exact ⟨hlast, hsender t hno⟩
  · intro t ht
    rw [hcontent]
    obtain ⟨hnil, hno⟩ := h.done t (hdone t ht)
    exact ⟨hnil, hsender t hno⟩

end

variable {phase : FliPhase τ ε} {c : StreamCh τ ε} {numSends : ℕ} {o : StreamOutcome}

omit [DecidableEq τ] in
/-- A handle goes on with the stream channel it has. -/
theorem Inv.setPhase (h : Inv tokens s) (htoken : (s.phase w).token = phase.token)
    (hactive : ∀ t, phase.active = some t → (s.phase w).active = some t)
    (hdrained : ∀ t, phase.drained = some t → (s.phase w).drained = some t) :
    Inv tokens (s.setPhase w phase) := by
  have hcustody : (s.setPhase w phase).custody = s.custody := by
    rw [custody_setPhase, Custody.setHand_eq_self htoken]
  apply h.of_moves
  · rw [hcustody]
    exact h.exact
  · rfl
  · intro w₁ t hw₁
    rw [setPhase_phase] at hw₁
    split at hw₁
    · rename_i heq
      subst heq
      exact hactive t hw₁
    · exact hw₁
  · rintro t (hmem | ⟨w₁, hw₁⟩)
    · rw [hcustody] at hmem
      exact .inl hmem
    · rw [setPhase_phase] at hw₁
      split at hw₁
      · rename_i heq
        subst heq
        exact .inr ⟨w₁, hdrained t hw₁⟩
      · exact .inr ⟨w₁, hw₁⟩

section

omit [DecidableEq τ] [DecidableEq ω]

theorem Inv.of_custody_eq (h : Inv tokens s) (hcustody : s'.custody = s.custody)
    (hcontent : s'.content = s.content) (hphase : s'.phase = s.phase) : Inv tokens s' := by
  apply h.of_moves
  · rw [hcustody]
    exact h.exact
  · exact hcontent
  · intro w t hw
    rwa [hphase] at hw
  · intro t ht
    unfold Done at ht ⊢
    rwa [hcustody, hphase] at ht

/-- The other messages of the manager channel do not matter. -/
theorem Inv.mgr (h : Inv tokens s) {mgr : List (StreamCh τ ε)}
    (heq : mgr.filterMap StreamCh.internal? = s.mgr.filterMap StreamCh.internal?) :
    Inv tokens { s with mgr := mgr } := by
  refine h.of_custody_eq ?_ rfl rfl
  unfold custody
  simp only [heq]

/-- The other messages of the main channel do not matter. -/
theorem Inv.main (h : Inv tokens s) {main : List (MainMsg τ ε)}
    (heq : main.filterMap MainMsg.internal? = s.main.filterMap MainMsg.internal?) :
    Inv tokens { s with main := main } := by
  refine h.of_custody_eq ?_ rfl rfl
  unfold custody
  simp only [heq]

end

/-! ## What the steps do to a stream channel -/

/-- An internal stream channel goes from the manager channel to a send handle. -/
theorem Inv.takeMgr (h : Inv tokens s) {rest : List (StreamCh τ ε)}
    (hmgr : s.mgr = .internal t :: rest) (hw : s.phase w = .idle) (term : Bool) :
    Inv tokens (FliState.setPhase { s with mgr := rest } w (.opening (.internal t) term)) := by
  have hqueue : s.custody.queue .mgr = t :: rest.filterMap StreamCh.internal? := by
    show s.mgr.filterMap StreamCh.internal? = _
    rw [hmgr]
    rfl
  have htoken : s.custody.hand w = none := by
    show (s.phase w).token = none
    rw [hw]
    rfl
  have hmem : t ∈ s.custody.queue .mgr := by
    rw [hqueue]
    exact List.mem_cons_self
  obtain ⟨hnil, hno⟩ := h.done t (.inl hmem)
  have hexact : ((FliState.setPhase { s with mgr := rest } w
      (.opening (.internal t) term)).custody).Exact tokens := by
    rw [custody_setPhase, custody_mgr]
    exact h.exact.take hqueue htoken
  have hactive : ∀ w₁ t₁,
      ((FliState.setPhase { s with mgr := rest } w (.opening (.internal t) term)).phase w₁).active
        = some t₁ → (w₁ = w ∧ t₁ = t) ∨ (s.phase w₁).active = some t₁ := by
    intro w₁ t₁ hw₁
    rw [setPhase_phase] at hw₁
    split at hw₁
    · rename_i heq
      exact .inl ⟨heq, (Option.some.inj hw₁).symm⟩
    · exact .inr hw₁
  have hsender : ∀ t₁ ≠ t, s.NoSender t₁ →
      (FliState.setPhase { s with mgr := rest } w (.opening (.internal t) term)).NoSender t₁ := by
    intro t₁ hne hno₁ w₁ hw₁
    rcases hactive w₁ t₁ hw₁ with ⟨-, heq⟩ | hw₁
    · exact hne heq
    · exact hno₁ w₁ hw₁
  refine ⟨hexact, ?_, ?_, ?_⟩
  · intro t₁ w₁ w₂ hw₁ hw₂
    rcases hactive w₁ t₁ hw₁ with ⟨heq₁, ht₁⟩ | hold₁
    · rcases hactive w₂ t₁ hw₂ with ⟨heq₂, -⟩ | hold₂
      · exact heq₁.trans heq₂.symm
      · exact absurd (ht₁ ▸ hold₂) (hno w₂)
    · rcases hactive w₂ t₁ hw₂ with ⟨-, ht₁⟩ | hold₂
      · exact absurd (ht₁ ▸ hold₁) (hno w₁)
      · exact h.one_sender t₁ w₁ w₂ hold₁ hold₂
  · intro t₁ hmem₁
    by_cases heq : t₁ = t
    · subst heq
      have hmem₁ : StreamMsg.eot ∈ s.content t₁ := hmem₁
      rw [hnil] at hmem₁
      exact absurd hmem₁ List.not_mem_nil
    · obtain ⟨hlast, hno₁⟩ := h.eot_last t₁ hmem₁
      exact ⟨hlast, hsender t₁ heq hno₁⟩
  · -- the stream channel has left the manager channel, and no receiver has it
    intro t₁ ht₁
    have hat : (FliState.setPhase { s with mgr := rest } w
        (.opening (.internal t) term)).custody.At t (.held w) := by
      rw [custody_setPhase, Custody.at_setHand]
      exact .inl ⟨rfl, rfl⟩
    have hne : t₁ ≠ t := by
      rintro rfl
      rcases ht₁ with hmem₁ | ⟨w₁, hw₁⟩
      · cases hexact.place_eq (p := .queued .mgr) hmem₁ hat
      · injection hexact.place_eq (p := .held w₁) (FliPhase.token_of_drained hw₁) hat with heq
        rw [setPhase_phase, if_pos heq] at hw₁
        exact nomatch hw₁
    have hdone : s.Done t₁ := by
      rcases ht₁ with hmem₁ | ⟨w₁, hw₁⟩
      · refine .inl ?_
        rw [hqueue]
        exact List.mem_cons_of_mem _ hmem₁
      · rw [setPhase_phase] at hw₁
        split at hw₁
        · exact nomatch hw₁
        · exact .inr ⟨w₁, hw₁⟩
    obtain ⟨hnil₁, hno₁⟩ := h.done t₁ hdone
    exact ⟨hnil₁, hsender t₁ hne hno₁⟩

omit [DecidableEq τ] in
/-- A handle deposits its stream channel in the main channel. -/
theorem Inv.toMain (h : Inv tokens s) (htoken : (s.phase w).token = c.internal?)
    (hnone : phase.token = none)
    (hactive : ∀ t, phase.active = some t → (s.phase w).active = some t) :
    Inv tokens (FliState.setPhase { s with main := s.main ++ [.stream c] } w phase) := by
  have hdrained : ∀ t, phase.drained ≠ some t := by
    intro t ht
    rw [FliPhase.token_of_drained ht] at hnone
    exact Option.some_ne_none t hnone
  cases c with
  | external e =>
    have hmain : Inv tokens { s with main := s.main ++ [.stream (.external e)] } :=
      h.main (by rw [List.filterMap_append]; exact List.append_nil _)
    exact hmain.setPhase (htoken.trans hnone.symm) hactive fun t ht => absurd ht (hdrained t)
  | internal t₀ =>
    apply h.of_moves
    · rw [custody_setPhase, custody_main, hnone, List.filterMap_append]
      exact h.exact.put (q := FliQueue.main) htoken
    · rfl
    · intro w₁ t hw₁
      rw [setPhase_phase] at hw₁
      split at hw₁
      · rename_i heq
        subst heq
        exact hactive t hw₁
      · exact hw₁
    · rintro t (hmem | ⟨w₁, hw₁⟩)
      · exact .inl hmem
      · rw [setPhase_phase] at hw₁
        split at hw₁
        · exact absurd hw₁ (hdrained t)
        · exact .inr ⟨w₁, hw₁⟩

omit [DecidableEq τ] in
/-- A stream channel goes from the main channel to a receive handle. -/
theorem Inv.takeMain (h : Inv tokens s) {rest : List (MainMsg τ ε)}
    (hmain : s.main = .stream c :: rest) (hw : s.phase w = .idle) :
    Inv tokens (FliState.setPhase { s with main := rest } w (.openingRecv c)) := by
  have htoken : (s.phase w).token = none := by
    rw [hw]
    rfl
  cases c with
  | external =>
    have hrest : Inv tokens { s with main := rest } := h.main (by rw [hmain]; rfl)
    exact hrest.setPhase htoken (fun t ht => nomatch ht) fun t ht => nomatch ht
  | internal t₀ =>
    have hqueue : s.custody.queue .main = t₀ :: rest.filterMap MainMsg.internal? := by
      show s.main.filterMap MainMsg.internal? = _
      rw [hmain]
      rfl
    apply h.of_moves
    · rw [custody_setPhase, custody_main]
      exact h.exact.take hqueue htoken
    · rfl
    · intro w₁ t hw₁
      rw [setPhase_phase] at hw₁
      split at hw₁
      · exact nomatch hw₁
      · exact hw₁
    · rintro t (hmem | ⟨w₁, hw₁⟩)
      · exact .inl hmem
      · rw [setPhase_phase] at hw₁
        split at hw₁
        · exact nomatch hw₁
        · exact .inr ⟨w₁, hw₁⟩

omit [DecidableEq τ] in
/-- A receive handle that has received the end marker returns its stream channel. -/
theorem Inv.toMgr (h : Inv tokens s) (hw : s.phase w = .returning (.internal t)) :
    Inv tokens (FliState.setPhase { s with mgr := s.mgr ++ [.internal t] } w .closed) := by
  have htoken : s.custody.hand w = some t := by
    show (s.phase w).token = some t
    rw [hw]
    rfl
  apply h.of_moves
  · rw [custody_setPhase, custody_mgr, List.filterMap_append]
    exact h.exact.put (q := FliQueue.mgr) htoken
  · rfl
  · intro w₁ t₁ hw₁
    rw [setPhase_phase] at hw₁
    split at hw₁
    · exact nomatch hw₁
    · exact hw₁
  · rintro t₁ (hmem | ⟨w₁, hw₁⟩)
    · have hmem : t₁ ∈ (s.mgr ++ [StreamCh.internal t]).filterMap StreamCh.internal? := hmem
      rw [List.filterMap_append] at hmem
      rcases List.mem_append.mp hmem with hmem | hmem
      · exact .inl hmem
      · refine .inr ⟨w, ?_⟩
        rw [hw, List.mem_singleton.mp hmem]
        rfl
    · rw [setPhase_phase] at hw₁
      split at hw₁
      · exact nomatch hw₁
      · exact .inr ⟨w₁, hw₁⟩

omit [DecidableEq τ] [DecidableEq ω] in
/-- As long as a handle may send, the end marker is not in the stream channel. -/
theorem Inv.not_mem_eot (h : Inv tokens s) (hw : (s.phase w).active = some t) :
    StreamMsg.eot ∉ s.content t :=
  fun hmem => (h.eot_last t hmem).2 w hw

omit [DecidableEq ω] in
/-- A sender sends a message other than the end marker. -/
theorem Inv.append (h : Inv tokens s) {msg : StreamMsg} (hactive : (s.phase w).active = c.internal?)
    (hmsg : msg ≠ .eot) : Inv tokens (s.append c msg) := by
  cases c with
  | external => exact h
  | internal t =>
    have hcontent : ∀ t₁, (s.append (.internal t) msg).content t₁
        = if t₁ = t then s.content t ++ [msg] else s.content t₁ :=
      fun t₁ => Function.update_apply ..
    refine ⟨h.exact, h.one_sender, ?_, ?_⟩
    · intro t₁ hmem
      rw [hcontent] at hmem ⊢
      split at hmem
      · rcases List.mem_append.mp hmem with hmem | hmem
        · exact absurd hmem (h.not_mem_eot hactive)
        · exact absurd (List.mem_singleton.mp hmem).symm hmsg
      · rename_i hne
        rw [if_neg hne]
        exact h.eot_last t₁ hmem
    · intro t₁ ht₁
      obtain ⟨hnil, hno⟩ := h.done t₁ ht₁
      have hne : t₁ ≠ t := by
        rintro rfl
        exact hno w hactive
      rw [hcontent, if_neg hne]
      exact ⟨hnil, hno⟩

/-- A sender sends the end marker, and sends no more. -/
theorem Inv.appendEot (h : Inv tokens s) (hw : s.phase w = .closing c numSends) :
    Inv tokens ((s.append c .eot).setPhase w .ended) := by
  have hactive : (s.phase w).active = c.internal? := by
    rw [hw]
    rfl
  have htoken : (s.phase w).token = none := by
    rw [hw]
    rfl
  cases c with
  | external => exact h.setPhase htoken (fun t ht => nomatch ht) fun t ht => nomatch ht
  | internal t =>
    have hphase : ∀ w₁, ((s.append (.internal t) .eot).setPhase w .ended).phase w₁
        = if w₁ = w then .ended else s.phase w₁ := fun w₁ => setPhase_phase _ w₁
    have hcontent : ∀ t₁, ((s.append (.internal t) .eot).setPhase w .ended).content t₁
        = if t₁ = t then s.content t ++ [.eot] else s.content t₁ :=
      fun t₁ => Function.update_apply ..
    have hactive' : ∀ w₁ t₁,
        (((s.append (.internal t) .eot).setPhase w .ended).phase w₁).active = some t₁ →
          w₁ ≠ w ∧ (s.phase w₁).active = some t₁ := by
      intro w₁ t₁ hw₁
      rw [hphase] at hw₁
      split at hw₁
      · exact nomatch hw₁
      · rename_i hne
        exact ⟨hne, hw₁⟩
    refine ⟨?_, ?_, ?_, ?_⟩
    · rw [custody_setPhase, show FliPhase.ended.token = none from rfl,
        Custody.setHand_eq_self htoken]
      exact h.exact
    · intro t₁ w₁ w₂ hw₁ hw₂
      exact h.one_sender t₁ w₁ w₂ (hactive' w₁ t₁ hw₁).2 (hactive' w₂ t₁ hw₂).2
    · intro t₁ hmem
      rw [hcontent] at hmem ⊢
      split at hmem
      · rename_i heq
        subst heq
        rw [if_pos rfl]
        refine ⟨⟨s.content t₁, rfl, h.not_mem_eot hactive⟩, ?_⟩
        intro w₁ hw₁
        obtain ⟨hne, hw₁⟩ := hactive' w₁ t₁ hw₁
        exact hne (h.one_sender t₁ w₁ w hw₁ hactive)
      · rename_i hne
        rw [if_neg hne]
        obtain ⟨hlast, hno⟩ := h.eot_last t₁ hmem
        exact ⟨hlast, fun w₁ hw₁ => hno w₁ (hactive' w₁ t₁ hw₁).2⟩
    · intro t₁ ht₁
      have hdone : s.Done t₁ := by
        rcases ht₁ with hmem | ⟨w₁, hw₁⟩
        · exact .inl hmem
        · rw [hphase] at hw₁
          split at hw₁
          · exact nomatch hw₁
          · exact .inr ⟨w₁, hw₁⟩
      obtain ⟨hnil, hno⟩ := h.done t₁ hdone
      have hne : t₁ ≠ t := by
        rintro rfl
        exact hno w hactive
      rw [hcontent, if_neg hne]
      exact ⟨hnil, fun w₁ hw₁ => hno w₁ (hactive' w₁ t₁ hw₁).2⟩

/-- A receive handle takes a message out of its stream channel. -/
theorem Inv.recv (h : Inv tokens s) {opened : Bool} (hw : s.phase w = .receiving c false opened)
    (marks : Bool) : Inv tokens (s.recv w c opened marks) := by
  have htoken : (s.phase w).token = c.internal? := by
    rw [hw]
    rfl
  cases c with
  | external =>
    unfold FliState.recv
    apply h.setPhase
    · rw [htoken]
      rfl
    · exact fun t ht => nomatch ht
    · intro t ht
      cases marks with
      | false => exact nomatch ht
      | true => exact nomatch ht
  | internal t =>
    unfold FliState.recv
    split
    · rename_i heq
      cases heq
    · rename_i t' heq
      cases heq
      split
      · exact h
      rename_i msg rest hmsgs
      have hcontent : ∀ t₁, (Function.update s.content t rest) t₁
          = if t₁ = t then rest else s.content t₁ := fun t₁ => Function.update_apply ..
      have hactive : ∀ w₁ t₁,
          ((FliState.setPhase { s with content := Function.update s.content t rest } w
            (.receiving (.internal t) (marks && decide (msg = .eot)) opened)).phase w₁).active
              = some t₁ → (s.phase w₁).active = some t₁ := by
        intro w₁ t₁ hw₁
        rw [setPhase_phase] at hw₁
        split at hw₁
        · exact nomatch hw₁
        · exact hw₁
      refine ⟨?_, ?_, ?_, ?_⟩
      · rw [custody_setPhase]
        rw [Custody.setHand_eq_self]
        · exact h.exact
        · exact htoken
      · intro t₁ w₁ w₂ hw₁ hw₂
        exact h.one_sender t₁ w₁ w₂ (hactive w₁ t₁ hw₁) (hactive w₂ t₁ hw₂)
      · intro t₁ hmem
        change StreamMsg.eot ∈ Function.update s.content t rest t₁ at hmem
        show (∃ l, Function.update s.content t rest t₁ = l ++ [.eot] ∧ _) ∧ _
        rw [hcontent] at hmem ⊢
        split at hmem
        · rename_i heq
          subst heq
          rw [if_pos rfl]
          have hmem' : StreamMsg.eot ∈ s.content t₁ := by
            rw [hmsgs]
            exact List.mem_cons_of_mem _ hmem
          obtain ⟨⟨l, hl, hnot⟩, hno⟩ := h.eot_last t₁ hmem'
          refine ⟨?_, fun w₁ hw₁ => hno w₁ (hactive w₁ t₁ hw₁)⟩
          rw [hmsgs] at hl
          cases l with
          | nil =>
            injection hl with _ hl
            rw [hl] at hmem
            exact absurd hmem List.not_mem_nil
          | cons m l =>
            injection hl with _ hl
            exact ⟨l, hl, fun hm => hnot (List.mem_cons_of_mem _ hm)⟩
        · rename_i hne
          rw [if_neg hne]
          obtain ⟨hlast, hno⟩ := h.eot_last t₁ hmem
          exact ⟨hlast, fun w₁ hw₁ => hno w₁ (hactive w₁ t₁ hw₁)⟩
      · intro t₁ ht₁
        show Function.update s.content t rest t₁ = [] ∧ _
        rw [hcontent]
        by_cases hend : t₁ = t ∧ msg = .eot
        · -- the end marker is the last message of the stream
          obtain ⟨rfl, rfl⟩ := hend
          have hmem : StreamMsg.eot ∈ s.content t₁ := by
            rw [hmsgs]
            exact List.mem_cons_self
          obtain ⟨⟨l, hl, hnot⟩, hno⟩ := h.eot_last t₁ hmem
          rw [if_pos rfl]
          refine ⟨?_, fun w₁ hw₁ => hno w₁ (hactive w₁ t₁ hw₁)⟩
          rw [hmsgs] at hl
          cases l with
          | nil =>
            injection hl with _ hl
          | cons m l =>
            injection hl with hm hl
            exact absurd (hm ▸ List.mem_cons_self) hnot
        · have hdone : s.Done t₁ := by
            rcases ht₁ with hmem | ⟨w₁, hw₁⟩
            · exact .inl hmem
            · rw [setPhase_phase] at hw₁
              split at hw₁
              · by_cases hmsg : msg = .eot
                · rw [hmsg] at hw₁
                  cases marks with
                  | false => exact nomatch hw₁
                  | true => exact absurd ⟨(Option.some.inj hw₁).symm, hmsg⟩ hend
                · rw [decide_eq_false hmsg, Bool.and_false] at hw₁
                  exact nomatch hw₁
              · exact .inr ⟨w₁, hw₁⟩
          obtain ⟨hnil, hno⟩ := h.done t₁ hdone
          have hne : t₁ ≠ t := by
            rintro rfl
            rw [hmsgs] at hnil
            exact nomatch hnil
          rw [if_neg hne]
          exact ⟨hnil, fun w₁ hw₁ => hno w₁ (hactive w₁ t₁ hw₁)⟩

/-! ## Which steps keep the stream channels -/

/-- The step does not fail where an internal stream channel is lost or doubled by it. -/
def Careful (s : FliState τ ε ω) : Step ε ω → Prop
  | .openSend _ _ _ o =>
    match s.mgr with
    | .internal _ :: _ => o ≠ .failsAfter
    | _ => True
  | .openRest w o =>
    match s.phase w with
    | .opening (.internal _) _ => o = .ok ∧ s.hasMainCh = true
    | _ => True
  | .openDeposit w o =>
    match s.phase w with
    | .priming (.internal _) => o ≠ .failsBefore ∧ s.hasMainCh = true
    | _ => True
  | .whenPrimed w o =>
    match s.phase w with
    | .sent (.internal _) _ false => o ≠ .failsAfter
    | _ => True
  | .closeDeposit w o =>
    match s.phase w with
    | .sending (.internal _) _ false => o ≠ .failsAfter
    | _ => True
  | .closeEot w o =>
    match s.phase w with
    | .closing (.internal _) _ => o ≠ .failsAfter
    | _ => True
  | .openRecv _ o =>
    match s.main with
    | .stream (.internal _) :: _ => o ≠ .failsAfter
    | _ => True
  | .openRecvRest w o =>
    match s.phase w with
    | .openingRecv (.internal _) => o = .ok
    | _ => True
  | .giveBack w o ends =>
    match s.phase w with
    | .returning (.internal _) => o ≠ .failsAfter ∧ (o = .ok → ends = true)
    | _ => True
  | _ => True

omit [DecidableEq τ] in
/-- A handle without an internal stream channel. -/
theorem Inv.setPhase_none (h : Inv tokens s) (htoken : (s.phase w).token = none)
    (hnone : phase.token = none)
    (hactive : ∀ t, phase.active = some t → (s.phase w).active = some t) :
    Inv tokens (s.setPhase w phase) := by
  apply h.setPhase (htoken.trans hnone.symm) hactive
  intro t ht
  rw [FliPhase.token_of_drained ht] at hnone
  exact absurd hnone (Option.some_ne_none t)

omit [DecidableEq τ] in
/-- A handle that has no stream channel goes on without one. -/
theorem Inv.setPhase_inert (h : Inv tokens s) (htoken : (s.phase w).token = none)
    (hnone : phase.token = none) (hinactive : phase.active = none) :
    Inv tokens (s.setPhase w phase) := by
  apply h.setPhase_none htoken hnone
  intro t ht
  rw [hinactive] at ht
  exact nomatch ht

theorem Inv.openSend (h : Inv tokens s) (hw : s.phase w = .idle) (strmCh : Option ε) (term : Bool)
    (hcareful : s.Careful (.openSend w strmCh term o)) :
    Inv tokens (s.openSend w strmCh term o) := by
  have htoken : (s.phase w).token = none := by
    rw [hw]
    rfl
  -- without a stream channel of the manager channel
  have hmissed : ∀ s₁ : FliState τ ε ω, Inv tokens s₁ → s₁.phase = s.phase →
      Inv tokens (s₁.openWith w strmCh term none) := by
    intro s₁ h₁ hphase
    cases strmCh with
    | none => exact h₁.setPhase_inert (hphase ▸ htoken) rfl rfl
    | some e => exact h₁.setPhase_inert (hphase ▸ htoken) rfl rfl
  unfold FliState.openSend FliState.takeMgr
  cases o with
  | ok =>
    cases hmgr : s.mgr with
    | nil => exact hmissed s h rfl
    | cons c rest =>
      cases c with
      | internal => exact h.takeMgr hmgr hw term
      | external =>
        have hrest : Inv tokens { s with mgr := rest } := h.mgr (by rw [hmgr]; rfl)
        exact hrest.setPhase_inert htoken rfl rfl
  | failsBefore => exact hmissed s h rfl
  | failsAfter =>
    cases hmgr : s.mgr with
    | nil => exact hmissed s h rfl
    | cons c rest =>
      cases c with
      | internal =>
        delta Careful at hcareful
        simp only [hmgr] at hcareful
        exact absurd rfl hcareful
      | external => exact hmissed { s with mgr := rest } (h.mgr (by rw [hmgr]; rfl)) rfl

omit [DecidableEq τ] in
/-- A deposit that does not fail after its message, or that ends without a handle. -/
theorem Inv.deposit (h : Inv tokens s) {done undone : FliPhase τ ε}
    (htoken : (s.phase w).token = c.internal?) (hdone : done.token = none)
    (hactive : ∀ t, done.active = some t → (s.phase w).active = some t)
    (hundone : ∀ t, undone.active = some t → (s.phase w).active = some t)
    (hdrained : ∀ t, undone.drained ≠ some t)
    (hbefore : o = .failsBefore → undone.token = (s.phase w).token)
    (hafter : o = .failsAfter → undone.token = none) :
    Inv tokens (s.deposit w c o done undone) := by
  unfold FliState.deposit
  cases o with
  | ok => exact h.toMain htoken hdone hactive
  | failsBefore =>
    exact h.setPhase (hbefore rfl).symm hundone fun t ht => absurd ht (hdrained t)
  | failsAfter => exact h.toMain htoken (hafter rfl) hundone

omit [DecidableEq τ] in
theorem Inv.openRecv (h : Inv tokens s) (hw : s.phase w = .idle)
    (hcareful : s.Careful (.openRecv w o)) : Inv tokens (s.openRecv w o) := by
  have htoken : (s.phase w).token = none := by
    rw [hw]
    rfl
  have hfailed : ∀ s₁ : FliState τ ε ω, Inv tokens s₁ → s₁.phase = s.phase →
      Inv tokens (s₁.setPhase w .failed) :=
    fun s₁ h₁ hphase => h₁.setPhase_inert (hphase ▸ htoken) rfl rfl
  unfold FliState.openRecv
  cases o with
  | ok =>
    cases hmain : s.main with
    | nil => exact hfailed s h rfl
    | cons msg rest =>
      cases msg with
      | stream => exact h.takeMain hmain hw
      | data =>
        have hrest : Inv tokens { s with main := rest } := h.main (by rw [hmain]; rfl)
        exact hrest.setPhase_inert htoken rfl rfl
  | failsBefore =>
    exact hfailed s h rfl
  | failsAfter =>
    cases hmain : s.main with
    | nil => exact hfailed s h rfl
    | cons msg rest =>
      cases msg with
      | data => exact hfailed { s with main := rest } (h.main (by rw [hmain]; rfl)) rfl
      | stream c =>
        cases c with
        | external =>
          exact hfailed { s with main := rest } (h.main (by rw [hmain]; rfl)) rfl
        | internal =>
          delta Careful at hcareful
          simp only [hmain] at hcareful
          exact absurd rfl hcareful

omit [DecidableEq τ] in
theorem Inv.giveBack (h : Inv tokens s) (hw : s.phase w = .returning c) {ends : Bool}
    (hcareful : s.Careful (.giveBack w o ends)) : Inv tokens (s.giveBack w c o ends) := by
  unfold FliState.giveBack
  cases c with
  | external =>
    have htoken : (s.phase w).token = none := by
      rw [hw]
      rfl
    cases ends with
    | true => exact h.setPhase_inert htoken rfl rfl
    | false => exact h.setPhase_inert htoken rfl rfl
  | internal t =>
    delta Careful at hcareful
    simp only [hw] at hcareful
    cases o with
    | ok =>
      have hends : ends = true := hcareful.2 rfl
      subst hends
      exact h.toMgr hw
    | failsBefore =>
      apply h.setPhase
      · rw [hw]
        rfl
      · exact fun t ht => nomatch ht
      · intro t ht
        rw [hw]
        exact ht
    | failsAfter => exact absurd rfl hcareful.1

theorem Inv.openRest (h : Inv tokens s) {term : Bool} (hw : s.phase w = .opening c term)
    (hcareful : s.Careful (.openRest w o)) : Inv tokens (s.openRest w c term o) := by
  have htoken : (s.phase w).token = c.internal? := by
    rw [hw]
    rfl
  have hactive : (s.phase w).active = c.internal? := by
    rw [hw]
    rfl
  unfold FliState.openRest
  cases c with
  | internal t =>
    delta Careful at hcareful
    simp only [hw] at hcareful
    obtain ⟨rfl, hmain⟩ := hcareful
    cases term with
    | false =>
      rw [hmain]
      exact h.setPhase htoken (fun t ht => hactive.trans ht) fun t ht => nomatch ht
    | true =>
      have happend : Inv tokens (s.append (.internal t) .terminator) :=
        h.append hactive (by decide)
      exact happend.setPhase htoken (fun t ht => hactive.trans ht) fun t ht => nomatch ht
  | external =>
    have hnone : ∀ phase : FliPhase τ ε, phase.token = none → (∀ t, phase.active ≠ some t) →
        Inv tokens (s.setPhase w phase) :=
      fun phase hp ha => h.setPhase_none htoken hp fun t ht => absurd ht (ha t)
    cases o with
    | ok =>
      cases term with
      | false =>
        refine hnone _ ?_ fun t => nofun
        cases s.hasMainCh with
        | false => rfl
        | true => rfl
      | true => exact hnone _ rfl fun t => nofun
    | failsBefore => exact hnone _ rfl fun t => nofun
    | failsAfter => exact hnone _ rfl fun t => nofun

section

omit [DecidableEq τ]

theorem Inv.openDeposit (h : Inv tokens s) (hw : s.phase w = .priming c)
    (hcareful : s.Careful (.openDeposit w o)) :
    Inv tokens (if s.hasMainCh then s.deposit w c o (.sending c 1 true) .failed
      else s.setPhase w (.sending c 1 true)) := by
  have htoken : (s.phase w).token = c.internal? := by
    rw [hw]
    rfl
  have hactive : (s.phase w).active = c.internal? := by
    rw [hw]
    rfl
  delta Careful at hcareful
  simp only [hw] at hcareful
  split
  · refine h.deposit htoken rfl ?_ ?_ ?_ ?_ ?_
    · exact fun t ht => hactive.trans ht
    · exact fun t ht => nomatch ht
    · exact fun t => nofun
    · rintro rfl
      cases c with
      | internal => exact absurd rfl hcareful.1
      | external => exact htoken.symm
    · exact fun _ => rfl
  · rename_i hmain
    cases c with
    | internal => exact absurd hcareful.2 hmain
    | external => exact h.setPhase_inert htoken rfl rfl

theorem Inv.whenPrimed (h : Inv tokens s) {deposited : Bool}
    (hw : s.phase w = .sent c numSends deposited) (hcareful : s.Careful (.whenPrimed w o)) :
    Inv tokens (s.whenPrimed w c numSends deposited o) := by
  have hactive : (s.phase w).active = c.internal? := by
    rw [hw]
    rfl
  unfold FliState.whenPrimed
  split
  · rename_i hprimed
    obtain ⟨rfl, -⟩ := hprimed
    have htoken : (s.phase w).token = c.internal? := by
      rw [hw]
      rfl
    delta Careful at hcareful
    simp only [hw] at hcareful
    refine h.deposit htoken rfl ?_ ?_ ?_ ?_ ?_
    · exact fun t ht => hactive.trans ht
    · exact fun t ht => hactive.trans ht
    · exact fun t => nofun
    · exact fun _ => htoken.symm
    · rintro rfl
      cases c with
      | internal => exact absurd rfl hcareful
      | external => rfl
  · apply h.setPhase
    · rw [hw]
      cases deposited with
      | false => rfl
      | true => rfl
    · exact fun t ht => hactive.trans ht
    · exact fun t ht => nomatch ht

theorem Inv.closeDeposit (h : Inv tokens s) (hw : s.phase w = .sending c numSends false)
    (hcareful : s.Careful (.closeDeposit w o)) :
    Inv tokens (s.deposit w c o (.closing c numSends) (.sending c numSends false)) := by
  have htoken : (s.phase w).token = c.internal? := by
    rw [hw]
    rfl
  have hactive : (s.phase w).active = c.internal? := by
    rw [hw]
    rfl
  delta Careful at hcareful
  simp only [hw] at hcareful
  refine h.deposit htoken rfl ?_ ?_ ?_ ?_ ?_
  · exact fun t ht => hactive.trans ht
  · exact fun t ht => hactive.trans ht
  · exact fun t => nofun
  · exact fun _ => htoken.symm
  · rintro rfl
    cases c with
    | internal => exact absurd rfl hcareful
    | external => rfl

/-- A send handle goes back to where it was before the close. -/
theorem Inv.reopen (h : Inv tokens s) (hw : s.phase w = .closing c numSends) :
    Inv tokens (s.setPhase w (.sending c numSends true)) := by
  apply h.setPhase_none
  · rw [hw]
    rfl
  · rfl
  · intro t ht
    rw [hw]
    exact ht

end

theorem Inv.exec (h : Inv tokens s) {a : Step ε ω} (hcareful : s.Careful a) :
    Inv tokens (s.exec a) := by
  cases a with
  | openSend w strmCh term o =>
    simp only [FliState.exec]
    split
    · rename_i hw
      exact h.openSend hw strmCh term hcareful
    · exact h
  | openRest w o =>
    simp only [FliState.exec]
    split
    · rename_i c term hw
      exact h.openRest hw hcareful
    · exact h
  | openDeposit w o =>
    simp only [FliState.exec]
    split
    · rename_i c hw
      exact h.openDeposit hw hcareful
    · exact h
  | send w buffer o =>
    simp only [FliState.exec]
    split
    · rename_i c numSends deposited hw
      have hactive : (s.phase w).active = c.internal? := by
        rw [hw]
        rfl
      have hmsg : Inv tokens (if buffer then s else s.append c .data) := by
        split
        · exact h
        · exact h.append hactive (by decide)
      have hphase : (if buffer then s else s.append c .data).phase = s.phase := by
        split
        · rfl
        · cases c with
          | internal => rfl
          | external => rfl
      apply hmsg.setPhase
      · rw [hphase, hw]
        cases deposited with
        | false => rfl
        | true => rfl
      · intro t ht
        rw [hphase]
        exact hactive.trans ht
      · exact fun t ht => nomatch ht
    · rename_i c numSends deposited hw
      apply h.append (w := w) _ (by decide)
      rw [hw]
      rfl
    · exact h
  | whenPrimed w o =>
    simp only [FliState.exec]
    split
    · rename_i c numSends deposited hw
      exact h.whenPrimed hw hcareful
    · exact h
  | closeDeposit w o =>
    simp only [FliState.exec]
    split
    · rename_i c numSends hw
      apply h.setPhase_none
      · rw [hw]
        rfl
      · rfl
      · intro t ht
        rw [hw]
        exact ht
    · rename_i c numSends hw
      exact h.closeDeposit hw hcareful
    · exact h
  | closeBuffered w o =>
    simp only [FliState.exec]
    split
    · rename_i c numSends hw
      apply h.append (w := w) _ (by decide)
      rw [hw]
      rfl
    · rename_i c numSends hw
      exact h.reopen hw
    · rename_i c numSends hw
      have happend : Inv tokens (s.append c .data) := by
        apply h.append (w := w) _ (by decide)
        rw [hw]
        rfl
      apply happend.reopen
      cases c with
      | internal => exact hw
      | external => exact hw
    · exact h
  | closeEot w o =>
    simp only [FliState.exec]
    split
    · rename_i c numSends hw
      exact h.appendEot hw
    · rename_i c numSends hw
      exact h.reopen hw
    · rename_i c numSends hw
      delta Careful at hcareful
      simp only [hw] at hcareful
      cases c with
      | internal => exact absurd rfl hcareful
      | external => exact h.reopen hw
    · exact h
  | closeEnd w ok =>
    simp only [FliState.exec]
    split
    · rename_i hw
      split
      · exact h.setPhase_inert (by rw [hw]; rfl) rfl rfl
      · exact h
    · exact h
  | openBufferedSend w =>
    simp only [FliState.exec]
    split
    · rename_i hw
      exact h.setPhase_inert (by rw [hw]; rfl) rfl rfl
    · exact h
  | sendBuffered =>
    simp only [FliState.exec]
    split
    · exact h.main (by rw [List.filterMap_append]; exact List.append_nil _)
    · exact h
  | closeBufferedSend w =>
    simp only [FliState.exec]
    split
    · rename_i hw
      exact h.setPhase_inert (by rw [hw]; rfl) rfl rfl
    · exact h
  | openRecv w o =>
    simp only [FliState.exec]
    split
    · rename_i hw
      exact h.openRecv hw hcareful
    · exact h
  | openRecvWith w e o =>
    simp only [FliState.exec]
    split
    · rename_i hw
      have htoken : (s.phase w).token = none := by
        rw [hw]
        rfl
      have hmgr : Inv tokens { s with mgr := s.mgr ++ [.external e] } :=
        h.mgr (by rw [List.filterMap_append]; exact List.append_nil _)
      unfold FliState.openRecvWith
      cases o with
      | ok => exact hmgr.setPhase_inert htoken rfl rfl
      | failsBefore => exact h.setPhase_inert htoken rfl rfl
      | failsAfter => exact hmgr.setPhase_inert htoken rfl rfl
    · exact h
  | openRecvRest w o =>
    simp only [FliState.exec]
    split
    · rename_i c hw
      apply h.setPhase
      · rw [hw]
        rfl
      · exact fun t ht => nomatch ht
      · exact fun t ht => nomatch ht
    · rename_i c hw hok
      delta Careful at hcareful
      simp only [hw] at hcareful
      cases c with
      | internal => exact absurd hcareful hok
      | external =>
        exact h.setPhase_inert (by rw [hw]; rfl) rfl rfl
    · exact h
  | recv w marks =>
    simp only [FliState.exec]
    split
    · rename_i c opened hw
      exact h.recv hw marks
    · exact h
  | closeRecv w =>
    simp only [FliState.exec]
    split
    · rename_i c hw
      apply h.setPhase
      · rw [hw]
        rfl
      · exact fun t ht => nomatch ht
      · intro t ht
        rw [hw]
        exact ht
    · exact h
  | giveBack w o ends =>
    simp only [FliState.exec]
    split
    · rename_i c hw
      exact h.giveBack hw hcareful
    · exact h
  | closeBufferedRecv w =>
    simp only [FliState.exec]
    split
    · rename_i hw
      exact h.setPhase_inert (by rw [hw]; rfl) rfl rfl
    · exact h

/-! ## Conservation -/

/-- Each internal stream channel is in exactly one place, those in the manager channel are empty,
and when every handle has been closed and every deposited stream was received, all of them are in
the manager channel. -/
structure Kept (strmChannels : List τ) (s : FliState τ ε ω) : Prop where
  exact : s.custody.Exact strmChannels.toFinset
  empty : ∀ t, .internal t ∈ s.mgr → s.content t = []
  closed : (∀ w, (s.phase w).out = true) → s.main = [] →
    ∀ t ∈ strmChannels, .internal t ∈ s.mgr

omit [DecidableEq τ] [DecidableEq ω] in
theorem mem_queue_mgr_iff : t ∈ s.custody.queue .mgr ↔ .internal t ∈ s.mgr := by
  show t ∈ s.mgr.filterMap StreamCh.internal? ↔ _
  rw [List.mem_filterMap]
  constructor
  · rintro ⟨c, hc, heq⟩
    cases c with
    | internal =>
      cases heq
      exact hc
    | external => exact nomatch heq
  · intro hmem
    exact ⟨.internal t, hmem, rfl⟩

omit [DecidableEq τ] in
theorem FliPhase.token_of_out (h : phase.out = true) : phase.token = none := by
  cases phase with
  | idle => rfl
  | closed => rfl
  | failed => rfl
  | _ => exact nomatch h

omit [DecidableEq ω] in
theorem Inv.kept {strmChannels : List τ} (h : Inv strmChannels.toFinset s) :
    Kept strmChannels s where
  exact := h.exact
  empty t hmem := (h.done t (.inl (mem_queue_mgr_iff.mpr hmem))).1
  closed hout hmain t ht := by
    obtain ⟨p, hp, -⟩ := h.exact.unique t (List.mem_toFinset.mpr ht)
    cases p with
    | queued q =>
      cases q with
      | mgr => exact mem_queue_mgr_iff.mp hp
      | main =>
        have hp : t ∈ s.main.filterMap MainMsg.internal? := hp
        rw [hmain] at hp
        exact absurd hp List.not_mem_nil
    | held w =>
      have hp : (s.phase w).token = some t := hp
      rw [FliPhase.token_of_out (hout w)] at hp
      exact nomatch hp

/-- **Conservation of the stream channels.**  In a run of opens, sends, receives and closes in
any order in which no call fails where a stream channel is lost or doubled by it, the stream
channels are kept. -/
theorem kept_of_careful (hasMainCh : Bool) {strmChannels : List τ} (hnodup : strmChannels.Nodup)
    {steps : List (Step ε ω)}
    (hsteps : Runs.Legal exec Careful (init hasMainCh strmChannels) steps) :
    Kept strmChannels (steps.foldl exec (init hasMainCh strmChannels)) :=
  (hsteps.invariant (fun _ _ h hcareful => h.exec hcareful) (inv_init hasMainCh hnodup)).kept

/-- One stream is sent and received, and both handles are closed. -/
def oneStream : List (Step ℕ Bool) :=
  [.openSend false none false .ok, .openRest false .ok, .send false false .ok,
    .whenPrimed false .ok, .openRecv true .ok, .openRecvRest true .ok, .recv true true,
    .closeDeposit false .ok, .closeEot false .ok, .closeEnd false true, .recv true true,
    .closeRecv true, .giveBack true .ok true]

theorem kept_of_careful_oneStream :
    Kept [0] (oneStream.foldl exec (init true [0] : FliState ℕ ℕ Bool)) ∧
      (oneStream.foldl exec (init true [0] : FliState ℕ ℕ Bool)).mgr = [.internal 0] := by
  refine ⟨kept_of_careful true (List.nodup_singleton 0) ?_, rfl⟩
  have hok : StreamOutcome.ok ≠ .failsAfter := nofun
  exact ⟨hok, ⟨rfl, rfl⟩, trivial, hok, hok, rfl, trivial, trivial, hok, trivial, trivial, trivial,
    ⟨hok, fun _ => rfl⟩, trivial⟩

/-- The open of a send handle takes the stream channel out of the manager channel, and cannot make
a channel send handle for it. -/
def failedOpen : List (Step ℕ Bool) :=
  [.openSend false none false .ok, .openRest false .failsBefore]

/-- There is no handle, and the stream channel is not in the manager channel. -/
theorem not_kept_failedOpen :
    ¬ ∀ steps : List (Step ℕ Bool),
      Kept [0] (steps.foldl exec (init true [0] : FliState ℕ ℕ Bool)) := by
  intro h
  have hclosed := (h failedOpen).closed (by decide) rfl 0 List.mem_cons_self
  exact absurd hclosed List.not_mem_nil

end FliState
