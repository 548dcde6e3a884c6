/-
# The manager of a process group (`src/dragon/native/process_group.py`)

Clients of a process group send requests to a manager process.  Its state runner takes them from a
queue, and each takes the group through a chain of states, until a state asks to stay.  Beside it, a
joiner thread waits with global services for workers to exit and records their exit codes; that it
is not alive any more tells the state runner that workers have exited.

Conventions:

* a step is an action of the environment, of a joiner thread or of the state runner; the state
  runner makes a step with each `run` of a state, but for where `run` waits for global services
  (in `Idle`, `Start` and the restart of `Running`) and for the loop of `Join`, which looks at the
  joiner thread again for each request;
* global services answer a join from the exit codes of the workers at that moment, and never answer
  a request to add no workers to a group;
* Linux signals are left out, as a worker may exit at any moment; a patience is a number;
* the state that a message asks for is returned beside it;
* the requests that the state runner has taken are recorded with the time, and a reply or a pending
  request with the position of its request in this record.
-/
import DragonRuntime.Runs

inductive PGSignals : Type where
  | success
  | raiseException
  | addTemplates
  | readyToStart
  | start
  | invalidRequest
  | cleanIdle
  | walltimeExpired
  | processesExited
  | startJoinThread
  | readyToRun
  | join
  | joinTimeout
  | joinPoke
  | joinFinal
  | stop
  | close
  | stopMaintaining
  deriving DecidableEq

inductive BaseState : Type where
  | error
  | idle
  | start
  | makeJoiner
  | running
  | join
  | addTemplates
  deriving DecidableEq

/-- `allowed_sigs`: the state runner is gone before it could look at those of `Error`. -/
def BaseState.allowed_sigs : BaseState → List PGSignals
  | .error => []
  | .idle =>
    [.readyToStart, .start, .cleanIdle, .walltimeExpired, .processesExited, .join, .stop, .close]
  | .start => [.readyToStart]
  | .makeJoiner => [.startJoinThread]
  | .running => [.readyToRun, .join, .joinPoke, .joinFinal, .stop, .close, .stopMaintaining]
  | .join => [.join, .joinPoke, .joinFinal]
  | .addTemplates => [.addTemplates]

/-! ## The history of the workers -/

/-- `PGProcessHistory` -/
structure PGProcessHistory where
  active_nprocs : ℕ := 0
  active_processes : List (ℕ × Option ℤ) := []
  active_processes_inv_map : ℕ → Option ℕ := fun _ => none
  inactive_nprocs : ℕ := 0
  inactive_processes : List (ℕ × Option ℤ) := []
  guids : List ℕ := []
  archived : Bool := false

namespace PGProcessHistory

/-- A dictionary from the puids to their places. -/
def invMap (p_uids : List ℕ) (p : ℕ) : Option ℕ :=
  if p ∈ p_uids then some (p_uids.idxOf p) else none

def init_active_processes (h : PGProcessHistory) (p_uids : List ℕ) : PGProcessHistory :=
  { h with
    active_nprocs := p_uids.length
    active_processes := p_uids.map fun p => (p, none)
    active_processes_inv_map := invMap p_uids }

/-- The body of the loop of `replace_and_archive_processes`; the dictionary has every old puid, and
the list has every index. -/
def replace (h : PGProcessHistory) (old : ℕ × ℕ) (new_puid : ℕ) : PGProcessHistory :=
  { h with
    inactive_processes := h.inactive_processes ++ (h.active_processes[old.2]?).toList
    active_processes := h.active_processes.set old.2 (new_puid, none)
    active_processes_inv_map :=
      Function.update (Function.update h.active_processes_inv_map old.1 none) new_puid
        (some old.2) }

/-- Nothing, if the assertion fails. -/
def replace_and_archive_processes (h : PGProcessHistory) (new_puids : List ℕ)
    (old_puids_idx : List (ℕ × ℕ)) : Option PGProcessHistory :=
  if new_puids.length = old_puids_idx.length then
    some ((old_puids_idx.zip new_puids).foldl (fun h pair => h.replace pair.1 pair.2)
      { h with inactive_nprocs := h.inactive_nprocs + old_puids_idx.length })
  else none

def archive_active (h : PGProcessHistory) : PGProcessHistory :=
  { h with
    inactive_nprocs := h.inactive_nprocs + h.active_nprocs
    active_nprocs := 0
    inactive_processes := h.inactive_processes ++ h.active_processes
    active_processes := []
    active_processes_inv_map := fun _ => none
    archived := true }

def get_running_p_uids (h : PGProcessHistory) : List ℕ :=
  (h.active_processes.filter fun item => item.2 = none).map Prod.fst

/-- The body of the loop of `update_active_processes`: a puid that the dictionary does not have is
passed over. -/
def update (h : PGProcessHistory) (pair : ℕ × ℤ) : PGProcessHistory :=
  match h.active_processes_inv_map pair.1 with
  | none => h
  | some idx => { h with active_processes := h.active_processes.set idx (pair.1, some pair.2) }

def update_active_processes (h : PGProcessHistory) (puid_ecodes : List (ℕ × ℤ)) :
    PGProcessHistory :=
  puid_ecodes.foldl update h

def add_guid (h : PGProcessHistory) (guid : ℕ) : PGProcessHistory :=
  { h with guids := h.guids ++ [guid] }

end PGProcessHistory

/-! ## Joins at global services -/

/-- A worker, as global services know it. -/
structure PGWorker (τ : Type) where
  puid : ℕ
  group : ℕ
  template : τ
  ecode : Option ℤ

/-- An entry of `GSProcessJoinListResponse.puid_status`. -/
inductive JoinStatus : Type where
  | success (ecode : ℤ)
  | unknown
  | timeout
  | pending
  deriving DecidableEq

/-- The status of a worker in an answer, that is given because the time is up or not. -/
def joinStatus {τ : Type} (workers : List (PGWorker τ)) (timedOut : Bool) (puid : ℕ) : JoinStatus :=
  match workers.find? fun w => w.puid = puid with
  | none => .unknown
  | some w =>
    match w.ecode with
    | some c => .success c
    | none => if timedOut then .timeout else .pending

def puidStatus {τ : Type} (workers : List (PGWorker τ)) (timedOut : Bool) (puids : List ℕ) :
    List (ℕ × JoinStatus) :=
  puids.map fun p => (p, joinStatus workers timedOut p)

def get_multi_join_success_puids (statuses : List (ℕ × JoinStatus)) : List (ℕ × ℤ) :=
  statuses.filterMap fun s =>
    match s.2 with
    | .success c => some (s.1, c)
    | _ => none

def get_multi_join_failure_puids (statuses : List (ℕ × JoinStatus)) : List (ℕ × ℤ) :=
  (get_multi_join_success_puids statuses).filter fun s => s.2 ≠ 0

/-- The flag that both of them return with their list. -/
def timeoutFlag (statuses : List (ℕ × JoinStatus)) : Bool :=
  statuses.any fun s => s.2 = .timeout

/-- What a thread asks global services to wait for. -/
structure JoinListRequest where
  puids : List ℕ
  timeout : Option ℚ
  join_all : Bool
  return_on_bad_exit : Bool

namespace JoinListRequest

/-- Global services may answer, because the time is up or not (`handle_process_join_list`,
`handle_process_exit`). -/
def answered {τ : Type} (r : JoinListRequest) (workers : List (PGWorker τ)) (timedOut : Bool) :
    Bool :=
  if timedOut then r.timeout.isSome
  else
    (r.return_on_bad_exit &&
      !(get_multi_join_failure_puids (puidStatus workers timedOut r.puids)).isEmpty) ||
    (r.puids.all fun p => joinStatus workers timedOut p ≠ .pending) ||
    (!r.join_all && !(get_multi_join_success_puids (puidStatus workers timedOut r.puids)).isEmpty)

/-- What `multi_join` returns first, once global services have answered: nothing if it raises. -/
def multi_join (r : JoinListRequest) (statuses : List (ℕ × JoinStatus)) :
    Option (Option (List (ℕ × ℤ))) :=
  if r.puids.isEmpty then none
  else if !(get_multi_join_success_puids statuses).isEmpty then
    if r.join_all && (get_multi_join_success_puids statuses).length ≠ r.puids.length then some none
    else some (some (get_multi_join_success_puids statuses))
  else if timeoutFlag statuses then some none
  else none

end JoinListRequest

/-! ## States, messages and threads -/

/-- A request in `pending_replies`. -/
structure JoinRequest where
  requester : Option ℕ
  timeout : Option ℚ
  deadline : ℚ
  tag : Option ℕ
  req : Option ℕ

/-- `PGState` -/
structure PGState (τ : Type) where
  state : BaseState
  g_uid : Option ℕ := none
  p_templates : List (ℕ × τ) := []
  p_templates_expanded : List τ := []
  joiner_thread : Option ℕ := none
  walltime_event : Option ℕ := none
  pending_replies : List JoinRequest := []
  exq : Bool := false

/-- A message to a client, with the position of the request that it answers. -/
structure PGReply where
  signal : PGSignals
  p_uid : Option ℕ := none
  tag : Option ℕ := none
  current_state : Option BaseState := none
  req : Option ℕ := none
  deriving DecidableEq

/-- The keys of the payload of a message that the states read. -/
structure PGPayload (τ : Type) where
  patience : Option ℚ := none
  timeout : Option ℚ := none
  p_templates : List (ℕ × τ) := []
  exq : Bool := false
  replies : List (Option ℕ × PGReply) := []

/-- `PGSignalMessage` -/
structure PGSignalMessage (τ : Type) where
  signal : PGSignals
  p_uid : Option ℕ := none
  payload : PGPayload τ := {}
  tag : Option ℕ := none
  skip_reply : Bool := false
  close : Bool := false

/-- The requests that the manager passes on to its state runner. -/
inductive PGRequest (τ : Type) : Type where
  | add_processes (p_templates : List (ℕ × τ))
  | start
  | join (timeout : Option ℚ)
  | stop (patience : ℚ)
  | close (patience : ℚ)
  | stop_restart

/-- What the handler of a request puts into the queue of the state runner. -/
def PGRequest.message {τ : Type} (p_uid tag : ℕ) : PGRequest τ → PGSignalMessage τ
  | .add_processes p_templates =>
    { signal := .addTemplates, p_uid := some p_uid, tag := some tag
      payload := { p_templates := p_templates, exq := true } }
  | .start =>
    { signal := .start, p_uid := some p_uid, tag := some tag, payload := { exq := true } }
  | .join timeout =>
    { signal := .join, p_uid := some p_uid, tag := some tag, payload := { timeout := timeout } }
  | .stop patience =>
    { signal := .stop, p_uid := some p_uid, tag := some tag
      payload := { patience := some patience } }
  | .close patience =>
    { signal := .close, p_uid := some p_uid, tag := some tag
      payload := { patience := some patience } }
  | .stop_restart => { signal := .stopMaintaining, p_uid := some p_uid, tag := some tag }

/-- Where a joiner thread is in `_join_runner`. -/
inductive JoinerPhase : Type where
  | starting
  /-- in `multi_join` -/
  | waiting (cur_restart_flg : Bool)
  /-- out of the loop -/
  | returned (puid_stat : List (ℕ × JoinStatus))
  /-- at the end, where it sets the walltime event or does not -/
  | recorded (expired : Bool)
  | ended
  deriving DecidableEq

/-- A joiner thread, with what it was given and the puids it waits for. -/
structure Joiner where
  g_uid : Option ℕ
  exq : Bool
  event : Option ℕ
  active_puids : List ℕ
  phase : JoinerPhase

/-- Where the state runner is. -/
inductive PGPlace (τ : Type) : Type where
  /-- at the head of its loop -/
  | ready
  /-- before it calls `run` of the current state -/
  | run (signal_msg : PGSignalMessage τ)
  /-- in a `multi_join` of `Idle.run` -/
  | stopping (phase : ℕ) (running_procs : List ℕ) (signal_msg : PGSignalMessage τ)
  /-- in `group_create_add_to` of `Running.run` -/
  | adding (templates : List τ) (gone_procs : List (ℕ × ℕ)) (signal_msg : PGSignalMessage τ)
  /-- in the loop of `Join.run` -/
  | joining (payload : List (Option ℕ × PGReply)) (put_back : List JoinRequest)
      (signal_msg : PGSignalMessage τ)
  | left

/-- The manager and its surroundings. -/
structure PGManager (τ : Type) where
  puid : ℕ
  restart : Bool
  ignore_error_on_exit : Bool
  walltime : Option ℚ
  the_state : PGState τ := { state := .addTemplates }
  cur_procs : PGProcessHistory := {}
  state_inq : List (PGSignalMessage τ) := []
  state_outq : List (Option ℕ × PGReply) := []
  stop_serving : Bool := false
  place : PGPlace τ := .ready
  client_msg : PGSignalMessage τ := { signal := .joinPoke }
  desired_state_msg : Option (PGSignalMessage τ) := none
  joiners : List Joiner := []
  walltime_events : List ℕ := []
  exq : List (List ℤ) := []
  workers : List (PGWorker τ) := []
  now : ℚ := 0
  /-- the requests taken, with the time -/
  served : List (ℚ × PGSignalMessage τ) := []
  /-- the position of the request in hand -/
  cur : Option ℕ := none

inductive PGAction (τ : Type) : Type where
  | request (p_uid tag : ℕ) (r : PGRequest τ)
  | tick (d : ℚ)
  | exits (puid : ℕ) (ecode : ℤ)
  /-- the state runner takes a message -/
  | get
  /-- the state runner goes on by itself -/
  | step
  /-- the group is created -/
  | created (g_uid : ℕ) (puids : List ℕ)
  /-- workers are added to the group, and the set of the new ones is listed in an order -/
  | added (puids new_puids : List ℕ)
  /-- the join of `Idle` is answered -/
  | joined (timedOut : Bool)
  /-- the call that the state runner waits for raises -/
  | raises
  | joinerStep (i : ℕ)
  | joinerAnswered (i : ℕ) (timedOut : Bool)
  | joinerRaises (i : ℕ)

namespace PGManager

variable {τ : Type}

/-- `is_alive` of the joiner thread of the current state -/
def isAlive (w : PGManager τ) : Bool :=
  (w.the_state.joiner_thread.bind fun t => w.joiners[t]?).any fun j => j.phase ≠ .ended

/-! ## The state runner -/

/-- `_reply_needed` -/
def reply_needed (w : PGManager τ) (m : PGSignalMessage τ) : Bool :=
  w.client_msg.p_uid ≠ some w.puid && !m.skip_reply

/-- The last state message, or the error state, says to close. -/
def closes (w : PGManager τ) (m : PGSignalMessage τ) : Bool :=
  w.stop_serving || m.close || w.the_state.state = .error

/-- The end of the loop of `_state_runner`: without any message from a state so far it raises. -/
def finish (w : PGManager τ) (valid : Bool) (reply : PGReply) : PGManager τ :=
  match w.desired_state_msg with
  | none => { w with place := .left }
  | some m =>
    { w with
      stop_serving := w.closes m
      state_outq :=
        if w.reply_needed m || !valid then w.state_outq ++ [(w.client_msg.p_uid, reply)]
        else w.state_outq
      place := if w.closes m then .left else .ready }

def succeed (w : PGManager τ) : PGManager τ :=
  w.finish true
    { signal := .success, p_uid := some w.puid, tag := w.client_msg.tag
      current_state := some w.the_state.state, req := w.cur }

/-- An exception in the processing of a message. -/
def fail (w : PGManager τ) (valid : Bool) : PGManager τ :=
  finish { w with the_state := { state := .error } } valid
    { signal := .raiseException, p_uid := some w.puid, tag := w.client_msg.tag, req := w.cur }

/-- `_send_pending_replies`, and the message becomes the last one from a state. -/
def receive (w : PGManager τ) (m : PGSignalMessage τ) : PGManager τ :=
  { w with
    state_outq := w.state_outq ++ m.payload.replies
    desired_state_msg := some { m with payload := { m.payload with replies := [] } } }

/-- A state has returned the message `m`, with the desired state `d`. -/
def settle (w : PGManager τ) (m : PGSignalMessage τ) (d : PGState τ) : PGManager τ :=
  if w.the_state.state = d.state ∨ w.the_state.state = .error then (w.receive m).succeed
  else if m.signal ∈ d.state.allowed_sigs then
    { w.receive m with
      the_state := d
      place := .run { m with payload := { m.payload with replies := [] } } }
  else (w.receive m).fail false

/-- `AddTemplates.run` -/
def addTemplatesRun (w : PGManager τ) (msg : PGSignalMessage τ) : PGManager τ :=
  w.settle { signal := .readyToStart } { state := .idle, p_templates := msg.payload.p_templates }

/-- What `Idle.run` returns. -/
def idleReturn (w : PGManager τ) (msg : PGSignalMessage τ) : PGManager τ :=
  if msg.signal = .start then
    w.settle { signal := .readyToStart }
      { state := .start, p_templates := w.the_state.p_templates, exq := msg.payload.exq }
  else if (msg.signal = .stop ∨ msg.signal = .close) ∧ w.the_state.g_uid ≠ none then
    w.settle
      { signal := .joinFinal, tag := msg.tag, close := msg.signal = .close || msg.close }
      { w.the_state with state := .join, exq := false }
  else
    w.settle { signal := .success, close := msg.signal = .close || msg.close }
      { state := .idle, p_templates := w.the_state.p_templates }

/-- `Idle.run`, up to its first `multi_join` -/
def idleRun (w : PGManager τ) (msg : PGSignalMessage τ) : PGManager τ :=
  if w.cur_procs.get_running_p_uids.isEmpty then w.idleReturn msg
  else { w with place := .stopping 0 w.cur_procs.get_running_p_uids msg }

/-- `_DEFAULT_STOP_PATIENCE` -/
def defaultStopPatience : ℚ := 5

/-- The `multi_join` of a phase of `Idle.run`: there is no timeout in the third one. -/
def stopRequest (phase : ℕ) (running_procs : List ℕ) (msg : PGSignalMessage τ) :
    JoinListRequest where
  puids := running_procs
  timeout := if phase < 2 then some (msg.payload.patience.getD defaultStopPatience) else none
  join_all := true
  return_on_bad_exit := false

/-- `Idle.run`, from the answer to a `multi_join` on: the third phase takes any answer for a list
of exit codes. -/
def idleJoined (w : PGManager τ) (phase : ℕ) (running_procs : List ℕ) (msg : PGSignalMessage τ)
    (timedOut : Bool) : PGManager τ :=
  match (stopRequest phase running_procs msg).multi_join
      (puidStatus w.workers timedOut running_procs) with
  | none => w.fail true
  | some none =>
    if phase < 2 then { w with place := .stopping (phase + 1) running_procs msg } else w.fail true
  | some (some success) =>
    idleReturn
      { w with cur_procs := (w.cur_procs.update_active_processes success).archive_active } msg

/-- One template per process. -/
def expand (p_templates : List (ℕ × τ)) : List τ :=
  p_templates.flatMap fun t => List.replicate t.1 t.2

/-- Workers that global services create, one per template. -/
def newWorkers (group : ℕ) (puids : List ℕ) (templates : List τ) : List (PGWorker τ) :=
  (puids.zip templates).map fun pt => ⟨pt.1, group, pt.2, none⟩

/-- Global services can give these puids to new workers. -/
def fresh (w : PGManager τ) (puids : List ℕ) : Bool :=
  puids.Nodup && puids.all fun p => w.workers.all fun v => v.puid ≠ p

/-- `Start.run`, from the answer to `group_create` on -/
def startCreated (w : PGManager τ) (g_uid : ℕ) (puids : List ℕ) : PGManager τ :=
  settle
    { w with
      workers := w.workers ++ newWorkers g_uid puids (expand w.the_state.p_templates)
      cur_procs := (w.cur_procs.init_active_processes puids).add_guid g_uid }
    { signal := .startJoinThread }
    { state := .makeJoiner
      g_uid := some g_uid
      p_templates := w.the_state.p_templates
      p_templates_expanded := expand w.the_state.p_templates
      walltime_event := some g_uid
      exq := w.the_state.exq }

/-- `MakeJoiner.run` -/
def makeJoinerRun (w : PGManager τ) : PGManager τ :=
  settle
    { w with
      joiners := w.joiners ++
        [⟨w.the_state.g_uid, w.the_state.exq, w.the_state.walltime_event, [], .starting⟩] }
    { signal := .readyToRun }
    { w.the_state with state := .running, joiner_thread := some w.joiners.length }

/-- The workers of the active list that have exited, with their places. -/
def goneProcs (w : PGManager τ) : List (ℕ × ℕ) :=
  (w.cur_procs.active_processes.zipIdx.filter fun item => item.1.2 ≠ none).map fun item =>
    (item.1.1, item.2)

/-- Their templates: there is one for each place in the active list. -/
def goneTemplates (w : PGManager τ) : List τ :=
  w.goneProcs.filterMap fun gone => w.the_state.p_templates_expanded[gone.2]?

/-- The signal with which `Running.run` goes over to `Idle`. -/
def exitSignal (w : PGManager τ) : PGSignals :=
  if w.the_state.walltime_event.any fun e => e ∈ w.walltime_events then .walltimeExpired
  else if w.cur_procs.active_processes.any fun item => item.2.any fun c => 0 < c then
    .processesExited
  else .cleanIdle

/-- `Running.run`, up to `group_create_add_to` -/
def runningRun (w : PGManager τ) (msg : PGSignalMessage τ) : PGManager τ :=
  if msg.signal = .stop ∨ msg.signal = .close then
    w.settle
      { signal := msg.signal, p_uid := msg.p_uid, payload := msg.payload, tag := msg.tag
        close := msg.signal = .close }
      { w.the_state with state := .idle, exq := false }
  else if msg.signal = .join ∨ msg.signal = .joinPoke then
    if w.isAlive then
      w.settle
        { signal := msg.signal, p_uid := msg.p_uid, payload := msg.payload, skip_reply := true
          tag := msg.tag }
        { w.the_state with state := .join }
    else
      w.settle
        { signal := .joinFinal, p_uid := msg.p_uid, payload := msg.payload
          skip_reply := w.the_state.g_uid ≠ none, tag := msg.tag }
        { w.the_state with state := .join }
  else if msg.signal = .stopMaintaining then
    settle { w with restart := false }
      { signal := .startJoinThread, skip_reply := msg.skip_reply, payload := msg.payload
        close := msg.close }
      { w.the_state with state := .makeJoiner, exq := false }
  else if w.isAlive then
    w.settle { signal := .success, skip_reply := msg.skip_reply } w.the_state
  else if !w.restart then
    w.settle
      { signal := w.exitSignal, skip_reply := msg.skip_reply, payload := msg.payload
        close := msg.close }
      { w.the_state with state := .idle, exq := false }
  else { w with place := .adding w.goneTemplates w.goneProcs msg }

/-- The puids of the group that the history does not have. -/
def newPuids (w : PGManager τ) : List ℕ :=
  ((w.workers.filter fun v => some v.group = w.the_state.g_uid).map PGWorker.puid).filter fun p =>
    p ∉ w.cur_procs.active_processes.map Prod.fst ∧
      p ∉ w.cur_procs.inactive_processes.map Prod.fst

/-- `Running.run`, from the answer to `group_create_add_to` on, with the workers that it has
created in the table -/
def runningAdded (w : PGManager τ) (new_puids : List ℕ) (gone_procs : List (ℕ × ℕ))
    (msg : PGSignalMessage τ) : PGManager τ :=
  match w.cur_procs.replace_and_archive_processes new_puids gone_procs with
  | none => w.fail true
  | some h =>
    settle { w with cur_procs := h }
      { signal := .startJoinThread, skip_reply := msg.skip_reply, payload := msg.payload
        close := msg.close }
      { w.the_state with state := .makeJoiner, exq := false }

/-- The deadline of a join without a timeout is this many seconds away. -/
def joinHorizon : ℚ := 1000000000

/-- `Join.run`, up to its loop -/
def joinRun (w : PGManager τ) (msg : PGSignalMessage τ) : PGManager τ :=
  { w with
    the_state := { w.the_state with
      pending_replies := w.the_state.pending_replies ++
        if msg.signal = .join then
          [⟨msg.p_uid, msg.payload.timeout, w.now + msg.payload.timeout.getD joinHorizon, msg.tag,
            w.cur⟩]
        else [] }
    place := .joining [] [] msg }

/-- The loop of `Join.run`, and what it returns. -/
def joinLoop (w : PGManager τ) (payload : List (Option ℕ × PGReply)) (put_back : List JoinRequest)
    (msg : PGSignalMessage τ) : PGManager τ :=
  match w.the_state.pending_replies with
  | [] =>
    w.settle
      { signal := .readyToRun, payload := { replies := payload }, skip_reply := msg.skip_reply
        tag := msg.tag, close := msg.close }
      { w.the_state with state := .running, pending_replies := put_back, exq := false }
  | item :: rest =>
    { w with
      the_state := { w.the_state with pending_replies := rest }
      place :=
        if w.isAlive then
          if item.timeout ≠ none ∧ item.deadline < w.now then
            .joining
              (payload ++ [(item.requester, { signal := .joinTimeout, tag := item.tag
                                              req := item.req })]) put_back msg
          else .joining payload (put_back ++ [item]) msg
        else
          .joining
            (payload ++ [(item.requester, { signal := .success, tag := item.tag
                                            req := item.req })]) put_back msg }

/-- The state runner goes on, where it does not wait. -/
def runnerStep (w : PGManager τ) : PGManager τ :=
  match w.place with
  | .run msg =>
    match w.the_state.state with
    | .idle => w.idleRun msg
    | .makeJoiner => w.makeJoinerRun
    | .running => w.runningRun msg
    | .join => w.joinRun msg
    | .addTemplates => w.addTemplatesRun msg
    | .start | .error => w
  | .joining payload put_back msg => w.joinLoop payload put_back msg
  | _ => w

/-- A message is in hand: `_validate_signal`. -/
def dispatch (w : PGManager τ) (msg : PGSignalMessage τ) : PGManager τ :=
  if msg.signal ∈ w.the_state.state.allowed_sigs then
    { w with client_msg := msg, place := .run msg }
  else
    finish { w with client_msg := msg } false
      { signal := .invalidRequest, current_state := some w.the_state.state, req := w.cur }

/-- The head of the loop: where there is no message, one is made up while the group is running. -/
def get (w : PGManager τ) : PGManager τ :=
  match w.state_inq with
  | msg :: rest =>
    dispatch
      { w with
        state_inq := rest
        served := w.served ++ [(w.now, msg)]
        cur := some w.served.length } msg
  | [] =>
    if w.the_state.state = .running then
      dispatch { w with cur := none } { signal := .joinPoke, p_uid := some w.puid }
    else w

/-! ## The joiner threads -/

def setJoiner (w : PGManager τ) (i : ℕ) (j : Joiner) : PGManager τ :=
  { w with joiners := w.joiners.set i j }

/-- The `multi_join` of a joiner thread. -/
def joinerRequest (w : PGManager τ) (j : Joiner) (cur_restart_flg : Bool) : JoinListRequest where
  puids := j.active_puids
  timeout := w.walltime
  join_all := !cur_restart_flg
  return_on_bad_exit := !w.ignore_error_on_exit

/-- The exit codes are recorded, and an error is put into the queue for exceptions, which raises
where there is none. -/
def joinerRecord (w : PGManager τ) (i : ℕ) (j : Joiner) (stat : List (ℕ × JoinStatus)) :
    PGManager τ :=
  setJoiner
    { w with
      cur_procs :=
        (w.cur_procs.update_active_processes (get_multi_join_failure_puids stat)
          ).update_active_processes (get_multi_join_success_puids stat)
      exq :=
        if !w.ignore_error_on_exit && !(get_multi_join_failure_puids stat).isEmpty && j.exq then
          w.exq ++ [(get_multi_join_failure_puids stat).map Prod.snd]
        else w.exq }
    i
    { j with
      phase := .recorded (timeoutFlag stat && w.walltime.isSome &&
        !(!w.ignore_error_on_exit && !(get_multi_join_failure_puids stat).isEmpty && !j.exq)) }

/-- `_join_runner`, where it does not wait: with no puid to wait for, it ends with an exception or
without one. -/
def joinerStep (w : PGManager τ) (i : ℕ) : PGManager τ :=
  match w.joiners[i]? with
  | none => w
  | some j =>
    match j.phase with
    | .starting =>
      if j.g_uid = none ∨ w.cur_procs.get_running_p_uids.isEmpty then
        w.setJoiner i { j with phase := .ended }
      else
        w.setJoiner i
          { j with active_puids := w.cur_procs.get_running_p_uids, phase := .waiting w.restart }
    | .returned stat => w.joinerRecord i j stat
    | .recorded expired =>
      setJoiner
        { w with
          walltime_events :=
            if expired then w.walltime_events ++ j.event.toList else w.walltime_events }
        i { j with phase := .ended }
    | .waiting _ | .ended => w

/-- The join of a joiner thread is answered: it joins again if `restart` has changed. -/
def joinerAnswered (w : PGManager τ) (i : ℕ) (timedOut : Bool) : PGManager τ :=
  match w.joiners[i]? with
  | none => w
  | some j =>
    match j.phase with
    | .waiting flag =>
      if (w.joinerRequest j flag).answered w.workers timedOut then
        match (w.joinerRequest j flag).multi_join
            (puidStatus w.workers timedOut j.active_puids) with
        | none => w.setJoiner i { j with phase := .ended }
        | some _ =>
          w.setJoiner i
            { j with
              phase :=
                if flag = w.restart then .returned (puidStatus w.workers timedOut j.active_puids)
                else .waiting w.restart }
      else w
    | _ => w

def joinerRaises (w : PGManager τ) (i : ℕ) : PGManager τ :=
  match w.joiners[i]? with
  | none => w
  | some j =>
    match j.phase with
    | .waiting _ => w.setJoiner i { j with phase := .ended }
    | _ => w

/-! ## Steps -/

/-- A worker exits. -/
def workerExits (w : PGManager τ) (puid : ℕ) (ecode : ℤ) : PGManager τ :=
  { w with
    workers := w.workers.map fun v =>
      if v.puid = puid ∧ v.ecode = none then { v with ecode := some ecode } else v }

/-- A client is another process than the manager; `stop_restart` is answered right away where there
is no restart. -/
def request (w : PGManager τ) (p_uid tag : ℕ) (r : PGRequest τ) : PGManager τ :=
  if p_uid = w.puid then w
  else
    match r with
    | .stop_restart =>
      if w.restart then { w with state_inq := w.state_inq ++ [r.message p_uid tag] } else w
    | _ => { w with state_inq := w.state_inq ++ [r.message p_uid tag] }

def exec (w : PGManager τ) : PGAction τ → PGManager τ
  | .request p_uid tag r => w.request p_uid tag r
  | .tick d => if 0 ≤ d then { w with now := w.now + d } else w
  | .exits puid ecode => w.workerExits puid ecode
  | .get =>
    match w.place with
    | .ready => w.get
    | _ => w
  | .step => w.runnerStep
  | .created g_uid puids =>
    match w.place, w.the_state.state with
    | .run _, .start =>
      -- there is a template, and each has a member
      if w.fresh puids ∧ (w.workers.all fun v => v.group ≠ g_uid) ∧
          puids.length = (expand w.the_state.p_templates).length ∧ puids ≠ [] ∧
          (w.the_state.p_templates.all fun t => 0 < t.1) then
        w.startCreated g_uid puids
      else w
    | _, _ => w
  | .added puids new_puids =>
    match w.place with
    | .adding templates gone_procs msg =>
      if w.fresh puids ∧ puids.length = templates.length ∧ puids ≠ [] ∧
          new_puids.Perm
            (newPuids { w with
              workers := w.workers ++ newWorkers (w.the_state.g_uid.getD 0) puids templates }) then
        runningAdded { w with
            workers := w.workers ++ newWorkers (w.the_state.g_uid.getD 0) puids templates }
          new_puids gone_procs msg
      else w
    | _ => w
  | .joined timedOut =>
    match w.place with
    | .stopping phase running_procs msg =>
      if (stopRequest phase running_procs msg).answered w.workers timedOut then
        w.idleJoined phase running_procs msg timedOut
      else w
    | _ => w
  | .raises =>
    match w.place, w.the_state.state with
    | .run _, .start => w.fail true
    | .stopping _ _ _, _ => w.fail true
    -- there is no answer at all where nothing is to be added
    | .adding templates _ _, _ => if templates.isEmpty then w else w.fail true
    | _, _ => w
  | .joinerStep i => w.joinerStep i
  | .joinerAnswered i timedOut => w.joinerAnswered i timedOut
  | .joinerRaises i => w.joinerRaises i

/-- A manager with these properties. -/
def init (puid : ℕ) (restart ignore_error_on_exit : Bool) (walltime : Option ℚ) : PGManager τ :=
  { puid, restart, ignore_error_on_exit, walltime }

end PGManager
