/-
# The server of the TCP transport (`src/dragon/transport/tcp/server.py`, `util.py`)

The server puts each request that it reads on the queue of its key, and the task of the key handles
one after the other: a handler runs an operation on a channel in a worker thread and writes a
response, and what it raises is turned into an error response.

Conventions:

* what the operations of the channels library do is an outcome that comes with the step; the
  operation in the worker thread goes on if the waiting for it is ended;
* the texts of the error responses are left out;
* for every request that was handled, whether its message was deposited and what was written in
  response is recorded, and so are the requests that were read.
-/
import DragonRuntime.TcpDelivery

namespace TcpTransport

/-- What was raised: whether it is an `Exception`, and the `get_errno` of it. -/
structure Raised where
  isException : Bool
  errno : ℕ
  deriving DecidableEq

/-- `DRAGON_FAILURE`, for an exception without a code -/
def failure : ℕ := 8

def timedOut : ℕ := 9

/-- `EventType.CHANNEL_CLEANUP` -/
def channelCleanup : ℕ := 19

/-- What the operations on the channel do: each returns or raises. -/
structure Outcome where
  attach : Option Raised
  sendh : Option Raised
  notify_on_destroy : Option Raised
  openh : Option Raised
  create_msg : Option Raised
  send : Option Raised
  detach : Option Raised
  /-- `recv_msg` -/
  received : Except Raised (ℕ × ℕ × Bytes)
  /-- `poll_channel`, but for a clean-up event: `ok`, and the value and the code of the result -/
  polled : Except Raised (Bool × ℕ × ℕ)
  serialized_uid : Option Raised
  /-- the waiting for the worker thread is ended by a `CancelledError` -/
  interrupted : Bool

def Outcome.interruption (o : Outcome) : Option Raised :=
  if o.interrupted then some ⟨false, failure⟩ else none

/-- The open send handles of a server. -/
structure SendHandles (κ η : Type*) where
  send_handles : List (κ × η)
  cuid_to_send_handles : κ → Option (List (κ × η))

namespace SendHandles

variable {κ η : Type*} [DecidableEq κ] [DecidableEq η]

/-- `get_send_handle` -/
def getSendHandle (s : SendHandles κ η) (cuid : κ) (sendhid : η) (o : Outcome) :
    SendHandles κ η × Option Raised :=
  if (cuid, sendhid) ∈ s.send_handles then (s, none)
  else
    match o.sendh with
    | some e => (s, some e)
    | none =>
      match s.cuid_to_send_handles cuid with
      | some keys =>
        ({ send_handles := (cuid, sendhid) :: s.send_handles
           cuid_to_send_handles := Function.update s.cuid_to_send_handles cuid
            (some ((cuid, sendhid) :: keys)) }, o.openh)
      | none =>
        ({ send_handles := (cuid, sendhid) :: s.send_handles
           cuid_to_send_handles := Function.update s.cuid_to_send_handles cuid
            (some [(cuid, sendhid)]) }, o.notify_on_destroy.or o.openh)

/-- `del self._send_handles[key]` for each key; the error is a `KeyError`. -/
def delete (send_handles : List (κ × η)) : List (κ × η) → List (κ × η) × Option Raised
  | [] => (send_handles, none)
  | key :: keys =>
    if key ∈ send_handles then delete (send_handles.filter fun other => other ≠ key) keys
    else (send_handles, some ⟨true, failure⟩)

/-- `close_send_handles` -/
def closeSendHandles (s : SendHandles κ η) (cuid : κ) : SendHandles κ η × Option Raised :=
  match s.cuid_to_send_handles cuid with
  | none => (s, none)
  | some keys =>
    match delete s.send_handles keys with
    | (send_handles, some e) => ({ s with send_handles := send_handles }, some e)
    | (send_handles, none) =>
      ({ send_handles := send_handles
         cuid_to_send_handles := Function.update s.cuid_to_send_handles cuid none }, none)

end SendHandles

/-- What a function in the worker thread has done. -/
structure SendResult (κ η : Type*) where
  handles : SendHandles κ η
  deposited : Bool
  raised : Option Raised

section Handlers

variable {α κ σ η : Type*} [DecidableEq κ] [DecidableEq η] (cuid : σ → κ)

/-- `send_msg`; `detach` comes last, and what it raises replaces what was raised before. -/
def sendMsg (s : SendHandles κ η) (channel_sd : σ) (sendhid : η) (o : Outcome) :
    SendResult κ η :=
  match o.attach with
  | some e => ⟨s, false, some e⟩
  | none =>
    match s.getSendHandle (cuid channel_sd) sendhid o with
    | (handles, some e) => ⟨handles, false, o.detach.or (some e)⟩
    | (handles, none) =>
      match o.create_msg.or o.send with
      | some e => ⟨handles, false, o.detach.or (some e)⟩
      | none => ⟨handles, true, o.detach⟩

/-- What a handler has done. -/
structure Handled (κ η : Type*) where
  handles : SendHandles κ η
  deposited : Bool
  responses : List Response
  raised : Option Raised

def isDepositMode (mode : SendReturnMode) : Bool :=
  mode = .WHEN_DEPOSITED ∨ mode = .WHEN_RECEIVED

/-- The end of `handle_request` of a `SendRequest`: an `Exception` of `send_msg` is logged only. -/
def respondToSend (req : Request σ η) (mode : SendReturnMode) (interruption : Option Raised)
    (result : SendResult κ η) : Handled κ η :=
  match interruption.or result.raised with
  | some ⟨false, errno⟩ => ⟨result.handles, result.deposited, [], some ⟨false, errno⟩⟩
  | _ =>
    ⟨result.handles, result.deposited,
      if isDepositMode mode then [⟨req.seqno, .send⟩] else [], none⟩

/-- `handle_request` of a `SendRequest` -/
def handleSendRequest (s : SendHandles κ η) (req : Request σ η) (mode : SendReturnMode)
    (sendhid : η) (o : Outcome) : Handled κ η :=
  respondToSend req mode o.interruption (sendMsg cuid s req.channel_sd sendhid o)

/-- `handle_request` of a `RecvRequest` -/
def handleRecvRequest (s : SendHandles κ η) (req : Request σ η) (o : Outcome) : Handled κ η :=
  match o.interruption, o.received with
  | some e, _ | none, .error e => ⟨s, false, [], some e⟩
  | none, .ok (clientid, hints, msg_bytes) =>
    ⟨s, false, [⟨req.seqno, .recv clientid hints msg_bytes⟩], none⟩

/-- `poll_channel` with the mask of a clean-up event -/
def cleanup (s : SendHandles κ η) (channel_sd : σ) (o : Outcome) :
    SendHandles κ η × Option Raised :=
  match o.serialized_uid with
  | some e => (s, some e)
  | none => s.closeSendHandles (cuid channel_sd)

/-- `handle_request` of an `EventRequest` -/
def handleEventRequest (s : SendHandles κ η) (req : Request σ η) (mask : ℕ) (o : Outcome) :
    Handled κ η :=
  if mask = channelCleanup then
    ⟨(cleanup cuid s req.channel_sd o).1, false, [],
      o.interruption.or (cleanup cuid s req.channel_sd o).2⟩
  else
    match o.interruption, o.polled with
    | some e, _ | none, .error e => ⟨s, false, [], some e⟩
    | none, .ok (true, value, rc) => ⟨s, false, [⟨req.seqno, .event rc value⟩], none⟩
    | none, .ok (false, _, _) => ⟨s, false, [⟨req.seqno, .error timedOut⟩], none⟩

/-- `handle_request` -/
def handleRequest (s : SendHandles κ η) (req : Request σ η) (o : Outcome) : Handled κ η :=
  match req.kind with
  | .send mode sendhid => handleSendRequest cuid s req mode sendhid o
  | .recv => handleRecvRequest s req o
  | .event mask => handleEventRequest cuid s req mask o

/-- What the handler raises is turned into an `ErrorResponse`. -/
def Handled.orError (handled : Handled κ η) (seqno : ℕ) : Handled κ η :=
  match handled.raised with
  | none => handled
  | some e => { handled with responses := handled.responses ++ [⟨seqno, .error e.errno⟩] }

/-- The body of the loop of `process` -/
def processRequest (s : SendHandles κ η) (req : Request σ η) (o : Outcome) : Handled κ η :=
  (handleRequest cuid s req o).orError req.seqno

end Handlers

/-! ## The server -/

/-- What a key has beside the channel. -/
inductive RequestTag (η : Type*) : Type _ where
  | sendhid (sendhid : η)
  | RecvRequest
  | EventRequest
  deriving DecidableEq

def Request.key {σ η : Type*} (req : Request σ η) : σ × RequestTag η :=
  match req.kind with
  | .send _ sendhid => (req.channel_sd, .sendhid sendhid)
  | .recv => (req.channel_sd, .RecvRequest)
  | .event _ => (req.channel_sd, .EventRequest)

/-- The task of a key. -/
inductive ProcessTask (α σ η : Type*) : Type _ where
  /-- there is none, or it is done -/
  | none
  /-- at the queue -/
  | waiting
  | handling (req : Request σ η) (addr : α)

/-- A request that was handled. -/
structure Answer (α σ η : Type*) where
  req : Request σ η
  addr : α
  deposited : Bool
  responses : List Response

/-- The request that a task has taken. -/
def ProcessTask.items {α σ η : Type*} : ProcessTask α σ η → List (Request σ η × α)
  | .handling req addr => [(req, addr)]
  | _ => []

structure Server (α κ σ η : Type*) where
  handles : SendHandles κ η
  requests : σ × RequestTag η → List (Request σ η × α)
  process_tasks : σ × RequestTag η → ProcessTask α σ η
  /-- what was given to `write_response` -/
  responses : List (Response × α)
  reads : List (Request σ η × α)
  answers : List (Answer α σ η)

inductive ServerAction (α σ η : Type*) : Type _ where
  /-- `run` reads a request -/
  | read (req : Request σ η) (addr : α)
  /-- the task of a key takes a request from its queue -/
  | get (key : σ × RequestTag η)
  /-- the operation for the request of a key has ended -/
  | finish (key : σ × RequestTag η) (o : Outcome)
  /-- the task of a key was idle for too long -/
  | idle (key : σ × RequestTag η)

namespace Server

variable {α κ σ η : Type*} [DecidableEq κ] [DecidableEq σ] [DecidableEq η] (cuid : σ → κ)

def init : Server α κ σ η where
  handles := ⟨[], fun _ => none⟩
  requests := fun _ => []
  process_tasks := fun _ => .none
  responses := []
  reads := []
  answers := []

def setTask (s : Server α κ σ η) (key : σ × RequestTag η) (task : ProcessTask α σ η) :
    Server α κ σ η :=
  { s with process_tasks := Function.update s.process_tasks key task }

def setRequests (s : Server α κ σ η) (key : σ × RequestTag η) (items : List (Request σ η × α)) :
    Server α κ σ η :=
  { s with requests := Function.update s.requests key items }

/-- `_ensure_process_task` -/
def ensureProcessTask (s : Server α κ σ η) (key : σ × RequestTag η) : Server α κ σ η :=
  match s.process_tasks key with
  | .none => s.setTask key .waiting
  | _ => s

/-- The body of the loop of `run`. -/
def read (s : Server α κ σ η) (req : Request σ η) (addr : α) : Server α κ σ η :=
  ({ s with reads := s.reads ++ [(req, addr)] }.setRequests req.key
    (s.requests req.key ++ [(req, addr)])).ensureProcessTask req.key

/-- The end of a turn of `process`: what is no `Exception` ends the task. -/
def finish (s : Server α κ σ η) (key : σ × RequestTag η) (req : Request σ η) (addr : α)
    (handled : Handled κ η) : Server α κ σ η :=
  ({ s with
    handles := handled.handles
    responses := s.responses ++ handled.responses.map fun resp => (resp, addr)
    answers := s.answers ++ [⟨req, addr, handled.deposited, handled.responses⟩] } :
    Server α κ σ η).setTask key
      (match handled.raised with
        | some ⟨false, _⟩ => .none
        | _ => .waiting)

def exec (s : Server α κ σ η) (action : ServerAction α σ η) : Server α κ σ η :=
  match action with
  | .read req addr => s.read req addr
  | .get key =>
    match s.process_tasks key, s.requests key with
    | .waiting, (req, addr) :: rest => (s.setRequests key rest).setTask key (.handling req addr)
    | _, _ => s
  | .finish key o =>
    match s.process_tasks key with
    | .handling req addr => s.finish key req addr (processRequest cuid s.handles req o)
    | _ => s
  | .idle key =>
    match s.process_tasks key, s.requests key with
    | .waiting, [] => s.setTask key .none
    | _, _ => s

/-! ## The contract -/

/-- A request is answered at most once and with its own number; where the sender waits for the
deposit, with a `SendResponse` if and only if the message was deposited, and else with an error; a
`RecvRequest` and an `EventRequest` are answered. -/
structure Truthful (a : Answer α σ η) : Prop where
  once : a.responses.length ≤ 1
  own : ∀ resp ∈ a.responses, resp.seqno = a.req.seqno
  sent : ∀ mode sendhid, a.req.kind = .send mode sendhid → isDepositMode mode →
    if a.deposited then a.responses = [⟨a.req.seqno, .send⟩]
    else ∃ errno, a.responses = [⟨a.req.seqno, .error errno⟩]
  answered : (∀ mode sendhid, a.req.kind ≠ .send mode sendhid) → a.responses ≠ []

/-- All that was handled was answered truthfully, these answers are all that was written, a request
that was read is handled in the order of its key, and a queue with requests has a task. -/
structure Served (s : Server α κ σ η) : Prop where
  truthful : ∀ a ∈ s.answers, Truthful a
  written : s.responses = s.answers.flatMap fun a => a.responses.map fun resp => (resp, a.addr)
  order : ∀ key, s.reads.filter (fun item => item.1.key = key) =
    (s.answers.map fun a => (a.req, a.addr)).filter (fun item => item.1.key = key) ++
      (s.process_tasks key).items ++ s.requests key
  alive : ∀ key, s.requests key ≠ [] → s.process_tasks key ≠ .none

end Server

def raisedBy {β : Type*} : Except Raised β → Option Raised
  | .error e => some e
  | .ok _ => none

/-- What ends the operation for a request, if it does not return. -/
def operationRaised {κ σ η : Type*} [DecidableEq κ] [DecidableEq η] (cuid : σ → κ)
    (s : SendHandles κ η) (req : Request σ η) (o : Outcome) : Option Raised :=
  o.interruption.or
    (match req.kind with
      | .send _ sendhid => (sendMsg cuid s req.channel_sd sendhid o).raised
      | .recv => raisedBy o.received
      | .event mask =>
        if mask = channelCleanup then (cleanup cuid s req.channel_sd o).2
        else raisedBy o.polled)

/-- What is raised is not an `Exception`. -/
def EndsTask (raised : Option Raised) : Prop := ∃ errno, raised = some ⟨false, errno⟩

/-- The condition on the outcome for a request.  If the sender waits for the deposit, an `Exception`
is raised after it only, and what is no `Exception` before it only; and a clean-up event fails. -/
structure Answerable {κ σ η : Type*} [DecidableEq κ] [DecidableEq η] (cuid : σ → κ)
    (s : SendHandles κ η) (req : Request σ η) (o : Outcome) : Prop where
  failed : ∀ mode sendhid, req.kind = .send mode sendhid → isDepositMode mode →
    ∀ errno, operationRaised cuid s req o = some ⟨true, errno⟩ →
      (sendMsg cuid s req.channel_sd sendhid o).deposited
  ended : ∀ mode sendhid, req.kind = .send mode sendhid → isDepositMode mode →
    EndsTask (operationRaised cuid s req o) →
      ¬ (sendMsg cuid s req.channel_sd sendhid o).deposited
  cleanup : req.kind = .event channelCleanup → o.interrupted ∨ o.serialized_uid ≠ none

namespace SendHandles

variable {κ η : Type*} [DecidableEq κ] [DecidableEq η]

/-- The handles by channel are among the handles. -/
structure Indexed (s : SendHandles κ η) : Prop where
  nodup : ∀ cuid keys, s.cuid_to_send_handles cuid = some keys → keys.Nodup
  own : ∀ cuid keys, s.cuid_to_send_handles cuid = some keys → ∀ key ∈ keys, key.1 = cuid
  mem : ∀ cuid keys, s.cuid_to_send_handles cuid = some keys →
    ∀ key ∈ keys, key ∈ s.send_handles

variable {s : SendHandles κ η}

omit [DecidableEq η] in
theorem Indexed.insert (hs : s.Indexed) {cuid : κ} {sendhid : η}
    (hnew : (cuid, sendhid) ∉ s.send_handles) {keys : List (κ × η)}
    (hkeys : ∀ key ∈ keys, s.cuid_to_send_handles cuid = some keys) (hnodup : keys.Nodup) :
    (⟨(cuid, sendhid) :: s.send_handles, Function.update s.cuid_to_send_handles cuid
      (some ((cuid, sendhid) :: keys))⟩ : SendHandles κ η).Indexed := by
  have hold : ∀ c l, Function.update s.cuid_to_send_handles cuid
      (some ((cuid, sendhid) :: keys)) c = some l →
      (c = cuid ∧ l = (cuid, sendhid) :: keys) ∨ (c ≠ cuid ∧ s.cuid_to_send_handles c = some l) := by
    intro c l hl
    rcases eq_or_ne c cuid with rfl | hne
    · rw [Function.update_self] at hl
      exact Or.inl ⟨rfl, (Option.some.inj hl).symm⟩
    · rw [Function.update_of_ne hne] at hl
      exact Or.inr ⟨hne, hl⟩
  refine ⟨fun c l hl => ?_, fun c l hl key hkey => ?_, fun c l hl key hkey => ?_⟩
  · rcases hold c l hl with ⟨rfl, rfl⟩ | ⟨-, hl⟩
    · exact List.nodup_cons.mpr ⟨fun hmem => hnew (hs.mem _ _ (hkeys _ hmem) _ hmem), hnodup⟩
    · exact hs.nodup c l hl
  · rcases hold c l hl with ⟨rfl, rfl⟩ | ⟨-, hl⟩
    · rcases List.mem_cons.mp hkey with rfl | hmem
      · rfl
      · exact hs.own _ _ (hkeys _ hmem) _ hmem
    · exact hs.own c l hl key hkey
  · rcases hold c l hl with ⟨rfl, rfl⟩ | ⟨-, hl⟩
    · rcases List.mem_cons.mp hkey with rfl | hmem
      · exact List.mem_cons_self
      · exact List.mem_cons_of_mem _ (hs.mem _ _ (hkeys _ hmem) _ hmem)
    · exact List.mem_cons_of_mem _ (hs.mem c l hl key hkey)

theorem Indexed.getSendHandle (hs : s.Indexed) (cuid : κ) (sendhid : η) (o : Outcome) :
    (s.getSendHandle cuid sendhid o).1.Indexed := by
  unfold SendHandles.getSendHandle
  split
  · exact hs
  next hnew =>
    split
    · exact hs
    · split
      next keys hkeys => exact hs.insert hnew (fun _ _ => hkeys) (hs.nodup _ _ hkeys)
      next => exact hs.insert hnew nofun List.nodup_nil

theorem delete_eq {send_handles keys : List (κ × η)} (hmem : ∀ key ∈ keys, key ∈ send_handles)
    (hnodup : keys.Nodup) :
    delete send_handles keys = (send_handles.filter fun other => other ∉ keys, none) := by
  induction keys generalizing send_handles with
  | nil =>
    have hall : (send_handles.filter fun other => other ∉ ([] : List (κ × η))) = send_handles :=
      List.filter_eq_self.mpr fun other _ => by simp
    rw [hall]
    rfl
  | cons key keys ih =>
    obtain ⟨hnotin, hnodup⟩ := List.nodup_cons.mp hnodup
    rw [delete, if_pos (hmem key List.mem_cons_self), ih ?_ hnodup, List.filter_filter]
    · congr 1
      refine List.filter_congr fun other _ => ?_
      simp only [List.mem_cons, not_or, Bool.decide_and]
      exact Bool.and_comm _ _
    · intro other hother
      refine List.mem_filter.mpr ⟨hmem other (List.mem_cons_of_mem _ hother), ?_⟩
      exact decide_eq_true fun heq => hnotin (heq ▸ hother)

theorem closeSendHandles_raised (hs : s.Indexed) (cuid : κ) :
    (s.closeSendHandles cuid).2 = none := by
  unfold closeSendHandles
  split
  · rfl
  next keys hkeys => rw [delete_eq (hs.mem _ _ hkeys) (hs.nodup _ _ hkeys)]

theorem Indexed.closeSendHandles (hs : s.Indexed) (cuid : κ) :
    (s.closeSendHandles cuid).1.Indexed := by
  unfold SendHandles.closeSendHandles
  split
  · exact hs
  next keys hkeys =>
    rw [delete_eq (hs.mem _ _ hkeys) (hs.nodup _ _ hkeys)]
    have hold : ∀ c l, Function.update s.cuid_to_send_handles cuid none c = some l →
        c ≠ cuid ∧ s.cuid_to_send_handles c = some l := by
      intro c l hl
      rcases eq_or_ne c cuid with rfl | hne
      · rw [Function.update_self] at hl
        exact nomatch hl
      · rw [Function.update_of_ne hne] at hl
        exact ⟨hne, hl⟩
    refine ⟨fun c l hl => hs.nodup c l (hold c l hl).2, fun c l hl => hs.own c l (hold c l hl).2,
      fun c l hl key hkey => ?_⟩
    obtain ⟨hne, hl⟩ := hold c l hl
    refine List.mem_filter.mpr ⟨hs.mem c l hl key hkey, decide_eq_true fun hmem => ?_⟩
    exact hne ((hs.own c l hl key hkey).symm.trans (hs.own _ _ hkeys key hmem))

end SendHandles

section Handlers

variable {α κ σ η : Type*} [DecidableEq κ] [DecidableEq η] {cuid : σ → κ}

/-- Without an exception the message was deposited. -/
theorem sendMsg_deposited (s : SendHandles κ η) (channel_sd : σ) (sendhid : η) (o : Outcome)
    (h : (sendMsg cuid s channel_sd sendhid o).raised = none) :
    (sendMsg cuid s channel_sd sendhid o).deposited = true := by
  unfold sendMsg at h ⊢
  split at h
  next => exact nomatch h
  next =>
    split at h
    next =>
      cases hdetach : o.detach with
      | none => simp [hdetach] at h
      | some e => simp [hdetach] at h
    next =>
      split at h
      next =>
        cases hdetach : o.detach with
        | none => simp [hdetach] at h
        | some e => simp [hdetach] at h
      next => rfl

variable {s : SendHandles κ η} {mode : SendReturnMode} {o : Outcome} {req : Request σ η}
  {sendhid : η}

theorem sendMsg_indexed (hs : s.Indexed) (channel_sd : σ) (sendhid : η) (o : Outcome) :
    (sendMsg cuid s channel_sd sendhid o).handles.Indexed := by
  have hget := hs.getSendHandle (cuid channel_sd) sendhid o
  unfold sendMsg
  split
  · exact hs
  · split
    next heq => rw [heq] at hget; exact hget
    next heq =>
      rw [heq] at hget
      split
      · exact hget
      · exact hget

theorem cleanup_indexed (hs : s.Indexed) (channel_sd : σ) (o : Outcome) :
    (cleanup cuid s channel_sd o).1.Indexed := by
  unfold cleanup
  split
  · exact hs
  · exact hs.closeSendHandles _

theorem cleanup_raised (hs : s.Indexed) (channel_sd : σ) (o : Outcome) :
    (cleanup cuid s channel_sd o).2 = o.serialized_uid := by
  unfold cleanup
  cases huid : o.serialized_uid with
  | some e => rfl
  | none => exact SendHandles.closeSendHandles_raised hs _

omit [DecidableEq κ] [DecidableEq η] in
theorem orError_handles (handled : Handled κ η) (seqno : ℕ) :
    (handled.orError seqno).handles = handled.handles := by
  unfold Handled.orError
  split <;> rfl

theorem processRequest_indexed (hs : s.Indexed) (req : Request σ η) (o : Outcome) :
    (processRequest cuid s req o).handles.Indexed := by
  rw [processRequest, orError_handles]
  unfold handleRequest
  split
  · unfold handleSendRequest respondToSend
    split <;> exact sendMsg_indexed hs _ _ _
  · unfold handleRecvRequest
    split <;> exact hs
  · unfold handleEventRequest
    split
    · exact cleanup_indexed hs _ _
    · split <;> exact hs

/-- A `SendRequest` that is not ended by an exception that goes through. -/
theorem handleRequest_send (hkind : req.kind = .send mode sendhid)
    (hends : ¬ EndsTask (operationRaised cuid s req o)) :
    (handleRequest cuid s req o).raised = none ∧
      (handleRequest cuid s req o).responses =
        if isDepositMode mode then [⟨req.seqno, .send⟩] else [] := by
  rw [operationRaised, hkind] at hends
  rw [handleRequest, hkind]
  simp only [handleSendRequest, respondToSend]
  split
  next errno heq => exact absurd ⟨errno, heq⟩ hends
  next => exact ⟨rfl, rfl⟩

/-- What ends the operation goes through, but for an `Exception` of `send_msg`. -/
theorem handleRequest_raised (h : (∀ mode sendhid, req.kind ≠ .send mode sendhid) ∨
      EndsTask (operationRaised cuid s req o)) :
    (handleRequest cuid s req o).raised = operationRaised cuid s req o := by
  unfold operationRaised at h ⊢
  unfold handleRequest
  cases hkind : req.kind with
  | send mode sendhid =>
    rcases h with h | ⟨errno, herrno⟩
    · exact absurd hkind (h mode sendhid)
    · rw [hkind] at herrno
      simp only [handleSendRequest, respondToSend, herrno]
  | recv =>
    simp only [handleRecvRequest]
    cases o.interruption with
    | some e => rfl
    | none => cases o.received <;> rfl
  | event =>
    simp only [handleEventRequest]
    split
    · rfl
    · cases o.interruption with
      | some e => rfl
      | none =>
        cases o.polled with
        | error e => rfl
        | ok polled =>
          obtain ⟨ok, value, rc⟩ := polled
          cases ok <;> rfl

/-- A handler that raises has written nothing. -/
theorem handleRequest_responses (cuid : σ → κ) (h : (handleRequest cuid s req o).raised ≠ none) :
    (handleRequest cuid s req o).responses = [] := by
  unfold handleRequest at h ⊢
  cases hkind : req.kind with
  | send =>
    rw [hkind] at h
    simp only [handleSendRequest, respondToSend] at h ⊢
    split at h
    · rfl
    · exact absurd rfl h
  | recv =>
    rw [hkind] at h
    simp only [handleRecvRequest] at h ⊢
    split at h
    · rfl
    · rfl
    · exact absurd rfl h
  | event =>
    rw [hkind] at h
    simp only [handleEventRequest] at h ⊢
    split at h
    next hmask => rw [if_pos hmask]
    next hmask =>
      rw [if_neg hmask]
      split at h
      · rfl
      · rfl
      · exact absurd rfl h
      · exact absurd rfl h

/-- A handler that returns has answered, but for a clean-up event. -/
theorem handleRequest_answered (hkind : ∀ mode sendhid, req.kind ≠ .send mode sendhid)
    (h : (handleRequest cuid s req o).raised = none) :
    (req.kind = .event channelCleanup ∧ (handleRequest cuid s req o).responses = []) ∨
      (req.kind ≠ .event channelCleanup ∧
        ∃ body, (handleRequest cuid s req o).responses = [⟨req.seqno, body⟩]) := by
  unfold handleRequest at h ⊢
  cases hreq : req.kind with
  | send mode sendhid => exact absurd hreq (hkind mode sendhid)
  | recv =>
    rw [hreq] at h
    simp only [handleRecvRequest] at h ⊢
    split at h
    · exact nomatch h
    · exact nomatch h
    · exact Or.inr ⟨nofun, _, rfl⟩
  | event =>
    rw [hreq] at h
    simp only [handleEventRequest] at h ⊢
    split at h
    next hmask => exact Or.inl ⟨by rw [hmask], by rw [if_pos hmask]⟩
    next hmask =>
      rw [if_neg hmask]
      refine Or.inr ⟨fun heq => hmask (by cases heq; rfl), ?_⟩
      split at h
      · exact nomatch h
      · exact nomatch h
      · exact ⟨_, rfl⟩
      · exact ⟨_, rfl⟩

/-- What was raised is answered with an error, and else the answer is the one of the handler. -/
theorem processRequest_responses (cuid : σ → κ) (s : SendHandles κ η) (req : Request σ η)
    (o : Outcome) :
    (∀ e, (handleRequest cuid s req o).raised = some e →
      (processRequest cuid s req o).responses = [⟨req.seqno, .error e.errno⟩]) ∧
    ((handleRequest cuid s req o).raised = none →
      (processRequest cuid s req o).responses = (handleRequest cuid s req o).responses) := by
  constructor
  · intro e he
    have hne : (handleRequest cuid s req o).raised ≠ none := by
      rw [he]
      exact nofun
    have hempty := handleRequest_responses cuid hne
    simp only [processRequest, Handled.orError, he, hempty, List.nil_append]
  · intro hnone
    simp only [processRequest, Handled.orError, hnone]

theorem processRequest_raised (s : SendHandles κ η) (req : Request σ η) (o : Outcome) :
    (processRequest cuid s req o).raised = (handleRequest cuid s req o).raised := by
  unfold processRequest Handled.orError
  split <;> rfl

/-- The task ends if and only if the operation was ended by what is no `Exception`. -/
theorem endsTask_processRequest (s : SendHandles κ η) (req : Request σ η) (o : Outcome) :
    EndsTask (processRequest cuid s req o).raised ↔ EndsTask (operationRaised cuid s req o) := by
  rw [processRequest_raised]
  by_cases hends : EndsTask (operationRaised cuid s req o)
  · rw [handleRequest_raised (Or.inr hends)]
  · refine iff_of_false ?_ hends
    cases hkind : req.kind with
    | send =>
      rw [(handleRequest_send hkind hends).1]
      exact fun ⟨errno, herrno⟩ => nomatch herrno
    | recv | event =>
      rw [handleRequest_raised (Or.inl fun mode sendhid => by rw [hkind]; exact nofun)]
      exact hends

theorem processRequest_deposited (hkind : req.kind = .send mode sendhid) :
    (processRequest cuid s req o).deposited =
      (sendMsg cuid s req.channel_sd sendhid o).deposited := by
  have hhandled : (handleRequest cuid s req o).deposited =
      (sendMsg cuid s req.channel_sd sendhid o).deposited := by
    rw [handleRequest, hkind]
    simp only [handleSendRequest, respondToSend]
    split <;> rfl
  rw [← hhandled]
  unfold processRequest Handled.orError
  split <;> rfl

/-- The condition says that the message was deposited unless the task ends. -/
theorem Answerable.deposited_iff (h : Answerable cuid s req o)
    (hkind : req.kind = .send mode sendhid) (hmode : isDepositMode mode) :
    (sendMsg cuid s req.channel_sd sendhid o).deposited ↔
      ¬ EndsTask (operationRaised cuid s req o) := by
  refine ⟨fun hdeposited hends => h.ended mode sendhid hkind hmode hends hdeposited, fun hends => ?_⟩
  cases hop : operationRaised cuid s req o with
  | none =>
    rw [operationRaised, hkind, Option.or_eq_none_iff] at hop
    exact sendMsg_deposited s req.channel_sd sendhid o hop.2
  | some e =>
    obtain ⟨isException, errno⟩ := e
    cases isException with
    | true => exact h.failed mode sendhid hkind hmode errno hop
    | false => exact absurd ⟨errno, hop⟩ hends

/-- **Answers.**  A request is answered truthfully if and only if the outcome meets the condition.
-/
theorem truthful_iff (hs : s.Indexed) (req : Request σ η) (addr : α) (o : Outcome) :
    Server.Truthful ⟨req, addr, (processRequest cuid s req o).deposited,
      (processRequest cuid s req o).responses⟩ ↔ Answerable cuid s req o := by
  obtain ⟨hraised, hreturned⟩ := processRequest_responses cuid s req o
  by_cases hsend : ∃ mode sendhid, req.kind = .send mode sendhid
  · obtain ⟨mode, sendhid, hkind⟩ := hsend
    have hmode : ∀ mode' sendhid', req.kind = .send mode' sendhid' →
        mode' = mode ∧ sendhid' = sendhid := by
      intro mode' sendhid' hkind'
      rw [hkind] at hkind'
      cases hkind'
      exact ⟨rfl, rfl⟩
    have hcleanup : req.kind ≠ .event channelCleanup := by
      rw [hkind]
      exact nofun
    rw [processRequest_deposited hkind]
    by_cases hends : EndsTask (operationRaised cuid s req o)
    · -- the exception goes through, and the answer is an error
      obtain ⟨errno, herrno⟩ := hends
      have hresponses := hraised _ ((handleRequest_raised (Or.inr ⟨errno, herrno⟩)).trans herrno)
      rw [hresponses]
      constructor
      · intro h
        refine ⟨fun _ _ _ _ errno' herrno' => ?_, fun mode' sendhid' hkind' hdeposit _ => ?_,
          fun heq => absurd heq hcleanup⟩
        · rw [herrno] at herrno'
          cases herrno'
        · obtain ⟨rfl, rfl⟩ := hmode mode' sendhid' hkind'
          intro hdeposited
          have hsent := h.sent _ _ hkind hdeposit
          rw [if_pos hdeposited] at hsent
          cases hsent
      · intro h
        refine ⟨le_rfl, ?_, fun mode' sendhid' hkind' hdeposit => ?_, fun hne => ?_⟩
        · intro resp hresp
          rw [List.mem_singleton.mp hresp]
        · obtain ⟨rfl, rfl⟩ := hmode mode' sendhid' hkind'
          rw [if_neg (h.ended _ _ hkind hdeposit ⟨errno, herrno⟩)]
          exact ⟨errno, rfl⟩
        · exact absurd hkind (hne mode sendhid)
    · obtain ⟨hnone, hhandled⟩ := handleRequest_send hkind hends
      rw [hreturned hnone, hhandled]
      constructor
      · intro h
        refine ⟨fun mode' sendhid' hkind' hdeposit _ _ => ?_,
          fun _ _ _ _ hends' => absurd hends' hends, fun heq => absurd heq hcleanup⟩
        obtain ⟨rfl, rfl⟩ := hmode mode' sendhid' hkind'
        have hsent := h.sent _ _ hkind hdeposit
        by_contra hnot
        rw [if_neg hnot, if_pos hdeposit] at hsent
        obtain ⟨errno, herrno⟩ := hsent
        cases herrno
      · intro h
        refine ⟨?_, ?_, fun mode' sendhid' hkind' hdeposit => ?_, fun hne => ?_⟩
        · split
          · exact le_rfl
          · exact Nat.zero_le 1
        · intro resp hresp
          have hresp' : resp ∈ if isDepositMode mode then [⟨req.seqno, ResponseBody.send⟩]
            else ([] : List Response) := hresp
          split at hresp'
          · rw [List.mem_singleton.mp hresp']
          · exact nomatch hresp'
        · obtain ⟨rfl, rfl⟩ := hmode mode' sendhid' hkind'
          rw [if_pos ((h.deposited_iff hkind hdeposit).mpr hends), if_pos hdeposit]
        · exact absurd hkind (hne mode sendhid)
  · have hne : ∀ mode sendhid, req.kind ≠ .send mode sendhid := fun mode sendhid hkind =>
      hsend ⟨mode, sendhid, hkind⟩
    have hop : (handleRequest cuid s req o).raised = operationRaised cuid s req o :=
      handleRequest_raised (Or.inl hne)
    have hone : ∀ body, (processRequest cuid s req o).responses = [⟨req.seqno, body⟩] →
        Server.Truthful ⟨req, addr, (processRequest cuid s req o).deposited,
          (processRequest cuid s req o).responses⟩ := by
      intro body hbody
      rw [hbody]
      refine ⟨le_rfl, ?_, fun mode sendhid hkind => absurd hkind (hne mode sendhid), nofun⟩
      intro resp hresp
      rw [List.mem_singleton.mp hresp]
    have hcleanup : req.kind = .event channelCleanup → (operationRaised cuid s req o ≠ none ↔
        o.interrupted ∨ o.serialized_uid ≠ none) := by
      intro hkind
      rw [operationRaised, hkind]
      simp only [if_pos, cleanup_raised hs, Outcome.interruption]
      cases o.interrupted with
      | true => exact iff_of_true nofun (Or.inl rfl)
      | false => simp
    have hanswerable : Answerable cuid s req o ↔
        (req.kind = .event channelCleanup → operationRaised cuid s req o ≠ none) := by
      constructor
      · exact fun h hkind => (hcleanup hkind).mpr (h.cleanup hkind)
      · exact fun h => ⟨fun mode sendhid hkind => absurd hkind (hne mode sendhid),
          fun mode sendhid hkind => absurd hkind (hne mode sendhid),
          fun hkind => (hcleanup hkind).mp (h hkind)⟩
    rw [hanswerable]
    cases hoperation : operationRaised cuid s req o with
    | some e =>
      rw [hoperation] at hop
      exact iff_of_true (hone _ (hraised e hop)) fun _ => nofun
    | none =>
      rw [hoperation] at hop
      rcases handleRequest_answered hne hop with ⟨hkind, hempty⟩ | ⟨hkind, body, hbody⟩
      · refine iff_of_false (fun h => ?_) fun h => h hkind rfl
        exact h.answered hne ((hreturned hop).trans hempty)
      · exact iff_of_true (hone body ((hreturned hop).trans hbody)) fun heq => absurd heq hkind

end Handlers

namespace Server

variable {α κ σ η : Type*} [DecidableEq κ] [DecidableEq σ] [DecidableEq η] {cuid : σ → κ}

/-- The condition on a step: the outcome of the operation is answerable, and what is no `Exception`
is raised only if no other request waits in the queue of the key. -/
def Met (cuid : σ → κ) (s : Server α κ σ η) (action : ServerAction α σ η) : Prop :=
  ∀ key o req addr, action = .finish key o → s.process_tasks key = .handling req addr →
    Answerable cuid s.handles req o ∧
      (EndsTask (operationRaised cuid s.handles req o) → s.requests key = [])

/-- The requests of a key, in the order in which they were read. -/
def Ordered (s : Server α κ σ η) (key : σ × RequestTag η) : Prop :=
  s.reads.filter (fun item => item.1.key = key) =
    (s.answers.map fun a => (a.req, a.addr)).filter (fun item => item.1.key = key) ++
      (s.process_tasks key).items ++ s.requests key

/-- What every run keeps. -/
structure Kept (s : Server α κ σ η) : Prop where
  indexed : s.handles.Indexed
  tasks : ∀ key req addr, s.process_tasks key = .handling req addr → req.key = key
  queues : ∀ key, ∀ item ∈ s.requests key, item.1.key = key
  written : s.responses = s.answers.flatMap fun a => a.responses.map fun resp => (resp, a.addr)
  order : ∀ key, s.Ordered key

omit [DecidableEq κ] in
theorem kept_init : (init : Server α κ σ η).Kept where
  indexed := ⟨nofun, nofun, nofun⟩
  tasks := nofun
  queues := nofun
  written := rfl
  order := fun _ => rfl

namespace Kept

variable {s : Server α κ σ η}

omit [DecidableEq κ] in
/-- A task that is started, or stopped, with no request. -/
theorem setTask (hs : s.Kept) {key : σ × RequestTag η} {task : ProcessTask α σ η}
    (hold : (s.process_tasks key).items = []) (hnew : task = .none ∨ task = .waiting) :
    (s.setTask key task).Kept where
  indexed := hs.indexed
  tasks := by
    intro key' req addr htask
    rcases eq_or_ne key' key with rfl | hne
    · simp only [Server.setTask, Function.update_self] at htask
      rcases hnew with rfl | rfl <;> exact nomatch htask
    · simp only [Server.setTask, Function.update_of_ne hne] at htask
      exact hs.tasks key' req addr htask
  queues := hs.queues
  written := hs.written
  order := by
    intro key'
    have horder := hs.order key'
    rcases eq_or_ne key' key with rfl | hne
    · have hitems : task.items = [] := by rcases hnew with rfl | rfl <;> rfl
      simp only [Ordered, Server.setTask, Function.update_self, hitems]
      rw [Ordered, hold] at horder
      exact horder
    · simp only [Ordered, Server.setTask, Function.update_of_ne hne]
      exact horder

omit [DecidableEq κ] in
theorem read (hs : s.Kept) (req : Request σ η) (addr : α) : (s.read req addr).Kept := by
  have hput : ({ s with reads := s.reads ++ [(req, addr)] }.setRequests req.key
      (s.requests req.key ++ [(req, addr)])).Kept := by
    refine ⟨hs.indexed, hs.tasks, fun key item hitem => ?_, hs.written, fun key => ?_⟩
    · rcases eq_or_ne key req.key with rfl | hne
      · simp only [setRequests, Function.update_self] at hitem
        rcases List.mem_append.mp hitem with hitem | hitem
        · exact hs.queues _ item hitem
        · rw [List.mem_singleton.mp hitem]
      · simp only [setRequests, Function.update_of_ne hne] at hitem
        exact hs.queues key item hitem
    · have horder := hs.order key
      rw [Ordered] at horder
      simp only [Ordered, setRequests, List.filter_append, horder]
      rcases eq_or_ne key req.key with rfl | hne
      · rw [Function.update_self, List.filter_cons_of_pos (by simp), List.append_assoc]
        rfl
      · rw [Function.update_of_ne hne, List.filter_cons_of_neg (by simpa using hne.symm)]
        exact List.append_nil _
  show (Server.ensureProcessTask _ req.key).Kept
  unfold ensureProcessTask
  split
  next htask => exact hput.setTask (by rw [htask]; rfl) (Or.inr rfl)
  next => exact hput

omit [DecidableEq κ] in
/-- A request goes from the queue of its key to the task. -/
theorem get (hs : s.Kept) {key : σ × RequestTag η} {req : Request σ η} {addr : α}
    {rest : List (Request σ η × α)} (htask : s.process_tasks key = .waiting)
    (hqueue : s.requests key = (req, addr) :: rest) :
    ((s.setRequests key rest).setTask key (.handling req addr)).Kept where
  indexed := hs.indexed
  tasks := by
    intro key' req' addr' htask'
    rcases eq_or_ne key' key with rfl | hne
    · simp only [Server.setTask, Function.update_self] at htask'
      cases htask'
      exact hs.queues _ (req, addr) (by rw [hqueue]; exact List.mem_cons_self)
    · simp only [Server.setTask, Function.update_of_ne hne] at htask'
      exact hs.tasks key' req' addr' htask'
  queues := by
    intro key' item hitem
    rcases eq_or_ne key' key with rfl | hne
    · simp only [Server.setTask, setRequests, Function.update_self] at hitem
      exact hs.queues _ item (by rw [hqueue]; exact List.mem_cons_of_mem _ hitem)
    · simp only [Server.setTask, setRequests, Function.update_of_ne hne] at hitem
      exact hs.queues key' item hitem
  written := hs.written
  order := by
    intro key'
    have horder := hs.order key'
    rw [Ordered] at horder
    rcases eq_or_ne key' key with rfl | hne
    · simp only [Ordered, Server.setTask, setRequests, Function.update_self]
      rw [horder, htask, hqueue]
      simp only [ProcessTask.items, List.append_nil, List.append_assoc, List.singleton_append]
    · simp only [Ordered, Server.setTask, setRequests, Function.update_of_ne hne]
      exact horder

omit [DecidableEq κ] in
theorem finish (hs : s.Kept) {key : σ × RequestTag η} {req : Request σ η} {addr : α}
    (htask : s.process_tasks key = .handling req addr) {handled : Handled κ η}
    (hindexed : handled.handles.Indexed) : (s.finish key req addr handled).Kept := by
  have hkey := hs.tasks key req addr htask
  obtain ⟨task, hnew, hfinish⟩ : ∃ task, (task = .none ∨ task = .waiting) ∧
      s.finish key req addr handled = ({ s with
        handles := handled.handles
        responses := s.responses ++ handled.responses.map fun resp => (resp, addr)
        answers := s.answers ++ [⟨req, addr, handled.deposited, handled.responses⟩] } :
        Server α κ σ η).setTask key task := by
    refine ⟨_, ?_, rfl⟩
    split
    · exact Or.inl rfl
    · exact Or.inr rfl
  rw [hfinish]
  refine ⟨hindexed, fun key' req' addr' htask' => ?_, hs.queues, ?_, fun key' => ?_⟩
  · rcases eq_or_ne key' key with rfl | hne
    · simp only [Server.setTask, Function.update_self] at htask'
      rcases hnew with rfl | rfl <;> exact nomatch htask'
    · simp only [Server.setTask, Function.update_of_ne hne] at htask'
      exact hs.tasks key' req' addr' htask'
  · simp only [Server.setTask, List.flatMap_append, List.flatMap_singleton, ← hs.written]
  · have horder := hs.order key'
    rw [Ordered] at horder
    simp only [Ordered, Server.setTask, List.map_append, List.map_cons, List.map_nil,
      List.filter_append]
    rcases eq_or_ne key' key with rfl | hne
    · have hitems : task.items = [] := by rcases hnew with rfl | rfl <;> rfl
      rw [Function.update_self, hitems, horder, htask, List.filter_cons_of_pos (by simpa using hkey)]
      simp only [ProcessTask.items, List.filter_nil, List.append_nil]
    · have hother : req.key ≠ key' := by
        rw [hkey]
        exact hne.symm
      rw [Function.update_of_ne hne, List.filter_cons_of_neg (by simpa using hother),
        List.filter_nil, List.append_nil]
      exact horder

theorem exec (hs : s.Kept) (cuid : σ → κ) (action : ServerAction α σ η) :
    (s.exec cuid action).Kept := by
  cases action with
  | read req addr => exact hs.read req addr
  | get =>
    simp only [Server.exec]
    split
    next htask hqueue => exact hs.get htask hqueue
    next => exact hs
  | finish _ o =>
    simp only [Server.exec]
    split
    next req addr htask => exact hs.finish htask (processRequest_indexed hs.indexed req o)
    next => exact hs
  | idle =>
    simp only [Server.exec]
    split
    next htask hqueue => exact hs.setTask (by rw [htask]; rfl) (Or.inl rfl)
    next => exact hs

end Kept

variable {s : Server α κ σ η}

omit [DecidableEq κ] in
/-- The rest of what is served follows from what every run keeps. -/
theorem Kept.served_iff (hs : s.Kept) :
    s.Served ↔ (∀ a ∈ s.answers, Truthful a) ∧
      ∀ key, s.requests key ≠ [] → s.process_tasks key ≠ .none :=
  ⟨fun h => ⟨h.truthful, h.alive⟩, fun h => ⟨h.1, hs.written, hs.order, h.2⟩⟩

/-- A step that handles no request. -/
theorem Served.exec_of_ne_finish (hkept : s.Kept) (hs : s.Served) {action : ServerAction α σ η}
    (haction : ∀ key o, action ≠ .finish key o) : (s.exec cuid action).Served := by
  rw [(hkept.exec cuid action).served_iff]
  cases action with
  | finish key o => exact absurd rfl (haction key o)
  | read req addr =>
    have hanswers : (s.read req addr).answers = s.answers := by
      unfold read ensureProcessTask
      split <;> rfl
    have hrequests : (s.read req addr).requests =
        Function.update s.requests req.key (s.requests req.key ++ [(req, addr)]) := by
      unfold read ensureProcessTask
      split <;> rfl
    have htasks : (s.read req addr).process_tasks req.key ≠ .none ∧
        ∀ key, key ≠ req.key → (s.read req addr).process_tasks key = s.process_tasks key := by
      unfold read ensureProcessTask
      split
      next htask =>
        refine ⟨?_, fun key hne => ?_⟩
        · simp only [setTask, Function.update_self]
          exact nofun
        · simp only [setTask, Function.update_of_ne hne]
          rfl
      next htask => exact ⟨fun heq => htask heq, fun _ _ => rfl⟩
    refine ⟨?_, fun key hqueue => ?_⟩
    · show ∀ a ∈ (s.read req addr).answers, Truthful a
      rw [hanswers]
      exact hs.truthful
    · show (s.read req addr).process_tasks key ≠ .none
      have hqueue' : (s.read req addr).requests key ≠ [] := hqueue
      rcases eq_or_ne key req.key with rfl | hne
      · exact htasks.1
      · rw [htasks.2 key hne]
        rw [hrequests, Function.update_of_ne hne] at hqueue'
        exact hs.alive key hqueue'
  | get key =>
    simp only [Server.exec]
    split
    next req addr rest htask hqueue =>
      refine ⟨hs.truthful, fun key' hqueue' => ?_⟩
      rcases eq_or_ne key' key with rfl | hne
      · simp only [setTask, Function.update_self]
        exact nofun
      · simp only [setTask, setRequests, Function.update_of_ne hne] at hqueue' ⊢
        exact hs.alive key' hqueue'
    next => exact ⟨hs.truthful, hs.alive⟩
  | idle key =>
    simp only [Server.exec]
    split
    next htask hqueue =>
      refine ⟨hs.truthful, fun key' hqueue' => ?_⟩
      rcases eq_or_ne key' key with rfl | hne
      · exact absurd hqueue hqueue'
      · simp only [setTask, Function.update_of_ne hne]
        exact hs.alive key' hqueue'
    next => exact ⟨hs.truthful, hs.alive⟩

/-- **Step lemma.**  A step keeps what is served if and only if it meets the condition. -/
theorem served_exec_iff (hkept : s.Kept) (hs : s.Served) (action : ServerAction α σ η) :
    (s.exec cuid action).Served ↔ Met cuid s action := by
  have hother : (∀ key o, action ≠ .finish key o) →
      ((s.exec cuid action).Served ↔ Met cuid s action) := fun hne =>
    iff_of_true (hs.exec_of_ne_finish hkept hne) fun key o _ _ heq => absurd heq (hne key o)
  cases action with
  | read => exact hother fun _ _ => nofun
  | get => exact hother fun _ _ => nofun
  | idle => exact hother fun _ _ => nofun
  | finish key o =>
    have hmet : Met cuid s (.finish key o) ↔ ∀ req addr, s.process_tasks key = .handling req addr →
        Answerable cuid s.handles req o ∧
          (EndsTask (operationRaised cuid s.handles req o) → s.requests key = []) := by
      constructor
      · exact fun h req addr htask => h key o req addr rfl htask
      · intro h key' o' req addr heq htask
        cases heq
        exact h req addr htask
    rw [hmet, (hkept.exec cuid (.finish key o)).served_iff]
    simp only [Server.exec]
    split
    next req addr htask =>
      -- the answer is the last one, and the task of the key waits or has ended
      have hfinish : (∀ key', (s.finish key req addr
          (processRequest cuid s.handles req o)).requests key' ≠ [] →
            (s.finish key req addr (processRequest cuid s.handles req o)).process_tasks key' ≠
              .none) ↔
          (EndsTask (operationRaised cuid s.handles req o) → s.requests key = []) := by
        rw [← endsTask_processRequest]
        constructor
        · rintro halive ⟨errno, herrno⟩
          by_contra hqueue
          refine halive key hqueue ?_
          simp only [Server.finish, setTask, Function.update_self, herrno]
        · intro hends key' hqueue
          rcases eq_or_ne key' key with rfl | hne
          · simp only [Server.finish, setTask, Function.update_self]
            split
            next errno herrno => exact absurd (hends ⟨errno, herrno⟩) hqueue
            next => exact nofun
          · simp only [Server.finish, setTask, Function.update_of_ne hne]
            exact hs.alive key' hqueue
      rw [hfinish]
      have hanswers : (∀ a ∈ (s.finish key req addr
          (processRequest cuid s.handles req o)).answers, Truthful a) ↔
          Answerable cuid s.handles req o := by
        rw [← truthful_iff hkept.indexed req addr o]
        constructor
        · exact fun hall => hall _ (List.mem_append_right _ List.mem_cons_self)
        · intro hone a ha
          rcases List.mem_append.mp ha with ha | ha
          · exact hs.truthful a ha
          · rw [List.mem_singleton.mp ha]
            exact hone
      rw [hanswers]
      constructor
      · intro h req' addr' htask'
        rw [htask] at htask'
        cases htask'
        exact h
      · exact fun h => h req addr htask
    next hnone =>
      exact iff_of_true ⟨hs.truthful, hs.alive⟩ fun req addr htask =>
        absurd htask (hnone req addr)

/-- **Main statement.**  In every state of a run all that was handled was answered truthfully, once,
and no request is left behind, if and only if the run meets the condition. -/
theorem served_iff_met (cuid : σ → κ) (actions : List (ServerAction α σ η)) :
    (∀ pre, pre <+: actions → (pre.foldl (exec cuid) (init : Server α κ σ η)).Served) ↔
      Runs.Legal (exec cuid) (Met cuid) (init : Server α κ σ η) actions := by
  have hinit : (init : Server α κ σ η).Kept ∧ (init : Server α κ σ η).Served :=
    ⟨kept_init, kept_init.served_iff.mpr ⟨nofun, fun _ hqueue => absurd rfl hqueue⟩⟩
  have hstep : ∀ s : Server α κ σ η, ∀ action ∈ actions, s.Kept ∧ s.Served →
      ((s.exec cuid action).Kept ∧ (s.exec cuid action).Served ↔ Met cuid s action) := by
    intro s action _ hs
    rw [← served_exec_iff hs.1 hs.2 action]
    exact and_iff_right (hs.1.exec cuid action)
  rw [← Runs.forall_prefix_inv_iff_legal hstep hinit]
  refine forall_congr' fun pre => imp_congr_right fun _ => (and_iff_right ?_).symm
  exact List.foldlRecOn pre (exec cuid) kept_init fun s hs action _ => hs.exec cuid action

/-- A send whose channel is full until the timeout is answered as if the message was deposited. -/
theorem not_served_timeout :
    ¬ (∀ pre, pre <+: [ServerAction.read ⟨1, (), .send .WHEN_DEPOSITED ()⟩ 0, .get ((), .sendhid ()),
      .finish ((), .sendhid ()) {
        attach := none
        sendh := none
        notify_on_destroy := none
        openh := none
        create_msg := none
        send := some ⟨true, timedOut⟩
        detach := none
        received := .ok (0, 0, [])
        polled := .ok (true, 0, 0)
        serialized_uid := none
        interrupted := false }] →
      (pre.foldl (exec fun _ => ()) (init : Server ℕ Unit Unit Unit)).Served) := by
  intro hserved
  have hlast := (hserved _ (List.prefix_refl _)).truthful
    ⟨⟨1, (), .send .WHEN_DEPOSITED ()⟩, 0, false, [⟨1, .send⟩]⟩ List.mem_cons_self
  have hsent := hlast.sent .WHEN_DEPOSITED () rfl rfl
  obtain ⟨errno, herrno⟩ := hsent
  cases herrno

end Server

end TcpTransport
