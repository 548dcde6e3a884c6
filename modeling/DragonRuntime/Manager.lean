/-
# The manager of a distributed dictionary (`dragon/data/ddict/manager.py`)

A manager receives requests, performs each on its working set, and answers it; an
operation whose checkpoint or key is not there yet is deferred, and performed again
when a put arrives for its checkpoint id.

Conventions:

* a request is known by its number among the requests that the manager has received, which
  stands for its tag and its client;
* sending an answer does not fail.  Other exceptions (a full pool) are an input: a *fault*
  of the attempt to perform an operation, which raises before the working set changes;
* what an attempt does is that of one which compares no memory of a freed key; which
  attempts compare such memory is said by `Manager.handleMemory`;
* a request is processed to its end before the next one, also the turn of a batch put,
  which the code runs in a thread of its own.
-/
import DragonRuntime.WorkingSetCalls

open WorkingSet

/-! ## Answers, faults and operations -/

/-- The `DragonError` of an answer. -/
inductive AnswerCode : Type where
  | success
  | keyNotFound
  | checkpointRetired
  | memoryPoolFull
  | failure
  deriving DecidableEq, Repr

/-- What is sent after the response message. -/
inductive Payload : Type where
  | nothing
  | value (valList : ValList)
  | length (length : ℕ)
  | keys (keys : Finset KeyBytes)
  | values (values : Multiset ValList)
  | items (items : Dict KeyBytes ValList)

/-- A response: the number of the request, the code and the data. -/
structure Answer where
  ref : ℕ
  err : AnswerCode
  payload : Payload

/-- What an attempt to perform an operation meets. -/
inductive Fault : Type where
  | none
  /-- `DDictFullError` or `DragonFLIOutOfMemoryError`. -/
  | full
  /-- Any other exception. -/
  | unexpected
  /-- An exception after the answer: there is no memory for the new value of a
  `fetch_add`. -/
  | late
  deriving DecidableEq, Repr

/-- The exceptions that the operations tell apart. -/
inductive Raised : Type where
  | full
  | checkpointSync
  | other
  deriving DecidableEq, Repr

def DDictError.raised : DDictError → Raised
  | .checkpointSync => .checkpointSync
  | _ => .other

/-- The exception of a fault before the answer. -/
def Fault.raises : Fault → Option Raised
  | .none => Option.none
  | .full => some .full
  | .unexpected => some .other
  | .late => Option.none

/-- The operations that can be deferred. -/
inductive DictOp : Type where
  /-- `PutOp`; `freed` says that a `wait_for` has freed its key and its value. -/
  | put (tag clientId chkptId : ℕ) (persist : Bool) (key : KeyBytes) (valList : ValList)
      (waitFor freed : Bool)
  /-- `BPutOp`. -/
  | bput (tag clientId chkptId : ℕ) (key : KeyBytes) (valList : ValList)
  /-- `GetOp` without `fetch_add`. -/
  | get (tag clientId chkptId : ℕ) (key : KeyBytes)
  /-- `GetOp` with `fetch_add`. -/
  | fetchAdd (tag clientId chkptId : ℕ) (key : KeyBytes) (fetchAddVal : ℤ)
  /-- `PopOp`. -/
  | pop (tag clientId chkptId : ℕ) (key : KeyBytes)
  /-- `ClearOp`. -/
  | clear (tag clientId chkptId : ℕ)

namespace DictOp

def tag : DictOp → ℕ
  | put tag .. | bput tag .. | get tag .. | fetchAdd tag .. | pop tag .. | clear tag .. => tag

def chkptId : DictOp → ℕ
  | put _ _ chkptId .. | bput _ _ chkptId .. | get _ _ chkptId .. | fetchAdd _ _ chkptId ..
  | pop _ _ chkptId .. | clear _ _ chkptId => chkptId

end DictOp

/-- How `perform` ends: it returns `True`, it returns `False` with the operation as it is
then, or it raises. -/
inductive PerformResult : Type where
  | done
  | waits (op : DictOp)
  | raised

/-- The answers that an attempt to perform an operation sends, the working set after it,
and how it ends. -/
structure Outcome where
  answers : List Answer
  workingSet : WorkingSet
  result : PerformResult

/-- The answer of a `get` or a `pop`: the value, if the key is there. -/
def valueAnswer (tag : ℕ) : Option ValList → Answer
  | none => ⟨tag, .keyNotFound, .nothing⟩
  | some valList => ⟨tag, .success, .value valList⟩

/-! ## Performing an operation -/

/-- The `try` of `PutOp.perform` and `BPutOp.perform`: whether the operation was performed,
and whether it has freed its key and its value. -/
def putTry (fault : Fault) (ws : WorkingSet) (clientId chkptId : ℕ) (persist : Bool)
    (key : KeyBytes) (valList : ValList) (waitFor freed : Bool) :
    Except Raised (Bool × Bool) × WorkingSet :=
  match ws.put chkptId with
  | .error e => (.error e.raised, ws)
  | .ok (found, ws1) =>
    match fault.raises, found with
    | some raised, _ => (.error raised, ws)
    | none, none => (.ok (false, freed), ws1)
    | none, some chkpt =>
      -- memory that is freed has no hash, so it cannot be looked up
      if freed then (.error .other, ws1)
      else
        match putOpPerform ws clientId chkptId persist key valList waitFor with
        | (.error e, ws2) => (.error e.raised, ws2)
        | (.ok performed, ws2) => (.ok (performed, waitFor && decide (key ∈ chkpt.map)), ws2)

/-- `PutOp.perform`. -/
def putPerform (fault : Fault) (ws : WorkingSet) (tag clientId chkptId : ℕ) (persist : Bool)
    (key : KeyBytes) (valList : ValList) (waitFor freed : Bool) : Outcome :=
  match putTry fault ws clientId chkptId persist key valList waitFor freed with
  | (.ok (true, _), ws) => ⟨[⟨tag, .success, .nothing⟩], ws, .done⟩
  | (.ok (false, freed), ws) =>
    ⟨[], ws, .waits (.put tag clientId chkptId persist key valList waitFor freed)⟩
  | (.error .full, ws) => ⟨[⟨tag, .memoryPoolFull, .nothing⟩], ws, .done⟩
  | (.error .checkpointSync, ws) => ⟨[⟨tag, .checkpointRetired, .nothing⟩], ws, .done⟩
  | (.error .other, ws) => ⟨[⟨tag, .failure, .nothing⟩], ws, .raised⟩

/-- `BPutOp.perform`. -/
def bputPerform (fault : Fault) (ws : WorkingSet) (tag clientId chkptId : ℕ) (key : KeyBytes)
    (valList : ValList) : Outcome :=
  match putTry fault ws clientId chkptId false key valList false false with
  | (.ok (true, _), ws) => ⟨[⟨tag, .success, .nothing⟩], ws, .done⟩
  | (.ok (false, _), ws) => ⟨[], ws, .waits (.bput tag clientId chkptId key valList)⟩
  | (.error .full, ws) => ⟨[⟨tag, .memoryPoolFull, .nothing⟩], ws, .done⟩
  -- the handler reads `self._manager_id`, which the operation does not have
  | (.error .checkpointSync, ws) => ⟨[], ws, .raised⟩
  | (.error .other, ws) => ⟨[⟨tag, .failure, .nothing⟩], ws, .done⟩

/-- The code of the answer that the handlers of `GetOp.perform` send. -/
def Raised.code : Raised → AnswerCode
  | .full => .memoryPoolFull
  | .checkpointSync => .checkpointRetired
  | .other => .failure

/-- `GetOp.perform` without `fetch_add`.  After an exception the answer is sent with the
checkpoint id in the place of the checkpoint, and that raises. -/
def getPerform (deferredOps : Finset ℕ) (fault : Fault) (ws : WorkingSet)
    (tag clientId chkptId : ℕ) (key : KeyBytes) : Outcome :=
  match getOpPerform ws deferredOps chkptId key with
  | .error e => ⟨[⟨tag, e.raised.code, .nothing⟩], ws, .raised⟩
  | .ok value =>
    match fault.raises, value with
    | some raised, _ => ⟨[⟨tag, raised.code, .nothing⟩], ws, .raised⟩
    | none, none => ⟨[], ws, .waits (.get tag clientId chkptId key)⟩
    | none, some value =>
      ⟨[valueAnswer tag value], ws.updateWriterCheckpoint clientId chkptId, .done⟩

/-- `GetOp.perform` with `fetch_add`. -/
def fetchAddOpPerform (pickler : XPickler) (fault : Fault) (ws : WorkingSet)
    (tag clientId chkptId : ℕ) (key : KeyBytes) (fetchAddVal : ℤ) : Outcome :=
  match fetchAddPerform pickler ws clientId chkptId key fetchAddVal, fault.raises with
  | (.retired, ws1), _ => ⟨[⟨tag, .checkpointRetired, .nothing⟩], ws1, .raised⟩
  | _, some raised => ⟨[⟨tag, raised.code, .nothing⟩], ws, .raised⟩
  | (.deferred, ws1), none =>
    ⟨[], ws1, .waits (.fetchAdd tag clientId chkptId key fetchAddVal)⟩
  | (.failed, ws1), none => ⟨[⟨tag, .failure, .nothing⟩], ws1, .raised⟩
  | (.answered valList, ws1), none =>
    if fault = .late then
      ⟨[valueAnswer tag (some valList), ⟨tag, .failure, .nothing⟩],
        ws1.setValue chkptId key [], .raised⟩
    else ⟨[valueAnswer tag (some valList)], ws1, .done⟩
  | (.answeredThenFailed valList, ws1), none =>
    ⟨[valueAnswer tag (some valList), ⟨tag, .failure, .nothing⟩], ws1, .raised⟩

/-- `PopOp.perform`. -/
def popPerform (deferredOps : Finset ℕ) (fault : Fault) (ws : WorkingSet)
    (tag clientId chkptId : ℕ) (key : KeyBytes) : Outcome :=
  match popOpPerform ws deferredOps clientId chkptId key, fault.raises with
  -- the handler reads `self.key_mem`, which the operation does not have
  | (.error .checkpointSync, ws1), _ => ⟨[], ws1, .raised⟩
  | (.error _, ws1), _ => ⟨[⟨tag, .failure, .nothing⟩], ws1, .raised⟩
  | (.ok _, _), some _ => ⟨[⟨tag, .failure, .nothing⟩], ws, .raised⟩
  | (.ok false, ws1), none => ⟨[], ws1, .waits (.pop tag clientId chkptId key)⟩
  | (.ok true, ws1), none =>
    match getOpPerform ws deferredOps chkptId key with
    | .ok (some value) => ⟨[valueAnswer tag value], ws1, .done⟩
    | _ => ⟨[valueAnswer tag none], ws1, .done⟩

/-- `ClearOp.perform`. -/
def clearPerform (fault : Fault) (ws : WorkingSet) (tag clientId chkptId : ℕ) : Outcome :=
  match clearOpPerform ws clientId chkptId, fault.raises with
  -- the handler answers, and ends without a `return`
  | (.error .checkpointSync, ws1), _ =>
    ⟨[⟨tag, .checkpointRetired, .nothing⟩], ws1, .waits (.clear tag clientId chkptId)⟩
  | (.error _, ws1), _ => ⟨[⟨tag, .failure, .nothing⟩], ws1, .raised⟩
  | (.ok _, _), some _ => ⟨[⟨tag, .failure, .nothing⟩], ws, .raised⟩
  | (.ok false, ws1), none => ⟨[], ws1, .waits (.clear tag clientId chkptId)⟩
  | (.ok true, ws1), none => ⟨[⟨tag, .success, .nothing⟩], ws1, .done⟩

/-- `DictOp.perform`; `deferredOps` are the keys of the table that the working set has. -/
def DictOp.perform (pickler : XPickler) (deferredOps : Finset ℕ) (fault : Fault)
    (ws : WorkingSet) : DictOp → Outcome
  | put tag clientId chkptId persist key valList waitFor freed =>
    putPerform fault ws tag clientId chkptId persist key valList waitFor freed
  | bput tag clientId chkptId key valList =>
    bputPerform fault ws tag clientId chkptId key valList
  | get tag clientId chkptId key => getPerform deferredOps fault ws tag clientId chkptId key
  | fetchAdd tag clientId chkptId key fetchAddVal =>
    fetchAddOpPerform pickler fault ws tag clientId chkptId key fetchAddVal
  | pop tag clientId chkptId key => popPerform deferredOps fault ws tag clientId chkptId key
  | clear tag clientId chkptId => clearPerform fault ws tag clientId chkptId

/-! ## Items -/

/-- `items[k] = map[k]` for the given keys of a checkpoint. -/
def Checkpoint.addItems (chkpt : Checkpoint) (keys : List KeyBytes)
    (items : Dict KeyBytes ValList) : Dict KeyBytes ValList :=
  keys.foldl (fun items key =>
    match chkpt.map.lookup key with
    | some valList => items.insert key valList
    | none => items) items

/-- The loop of `WorkingSet._items`, over the ids from the oldest on. -/
def WorkingSet.itemsLoop (ws : WorkingSet) :
    List ℕ → Dict KeyBytes ValList → Except DDictError (Dict KeyBytes ValList)
  | [], items => .ok items
  | i :: is, items =>
    match ws.chkpts.lookup i with
    | none => .error .keyError
    | some chkpt =>
      -- `items.remove(k)`: a dictionary has no such method
      if items.keys.any fun key => key ∈ chkpt.deleted then .error .attributeError
      else if ws.waitForKeys then
        if chkpt.persist ⊆ chkpt.mapKeys then
          itemsLoop ws is
            (chkpt.addItems (chkpt.map.keys.filter fun key => key ∈ chkpt.persist) items)
        else .error .keyError
      else itemsLoop ws is (chkpt.addItems chkpt.map.keys items)

/-- `WorkingSet._items`. -/
def WorkingSet.items (ws : WorkingSet) (chkptId : ℕ) :
    Except DDictError (Dict KeyBytes ValList) :=
  if chkptId < ws.oldestChkptId then .error .checkpointSync
  else
    let chkptEnd := min chkptId ws.newestChkptId
    match ws.itemsLoop (List.range' ws.oldestChkptId (chkptEnd + 1 - ws.oldestChkptId)) ∅ with
    | .error e => .error e
    | .ok items =>
      match ws.chkpts.lookup chkptId with
      | some chkpt => .ok (chkpt.addItems chkpt.map.keys items)
      | none => .ok items

/-! ## The manager -/

/-- `Manager`: the working set, the operations that are deferred for each checkpoint id,
whether the working set has this very table (and not the empty one of
`WorkingSet.__setstate__`), the answers so far and the number of requests so far. -/
structure Manager where
  workingSet : WorkingSet
  deferredOps : Dict ℕ (List DictOp)
  shared : Bool
  answers : List Answer
  received : ℕ

/-- A request.  A `batchPut` is one turn of the loop of `Manager._batch_put`, whose answer
is sent after the last turn. -/
inductive Request : Type where
  | put (clientId chkptId : ℕ) (persist : Bool) (key : KeyBytes) (valList : ValList)
      (waitFor : Bool)
  | bput (clientId chkptId : ℕ) (key : KeyBytes) (valList : ValList)
  | batchPut (clientId chkptId : ℕ) (persist : Bool) (key : KeyBytes) (valList : ValList)
  | get (clientId chkptId : ℕ) (key : KeyBytes)
  | fetchAdd (clientId chkptId : ℕ) (key : KeyBytes) (fetchAddVal : ℤ)
  | pop (clientId chkptId : ℕ) (key : KeyBytes)
  | contains (clientId chkptId : ℕ) (key : KeyBytes)
  | length (clientId chkptId : ℕ)
  | keys (clientId chkptId : ℕ)
  | values (clientId chkptId : ℕ)
  | items (clientId chkptId : ℕ)
  | clear (clientId chkptId : ℕ)

/-- The faults that the processing of a request meets: when it is received, when the
operations that are deferred (by their tags) are performed before it, when it is performed
itself, and when the operations that are deferred are performed after it. -/
structure Faults where
  arrival : Fault
  before : ℕ → Fault
  own : Fault
  after : ℕ → Fault

/-- No faults. -/
def Faults.none : Faults := ⟨.none, fun _ => .none, .none, fun _ => .none⟩

namespace Manager

/-- A new manager. -/
def init (start workingSetSize : ℕ) (waitForKeys waitForWriters : Bool) : Manager :=
  { workingSet := WorkingSet.init start workingSetSize waitForKeys waitForWriters
    deferredOps := ∅
    shared := true
    answers := []
    received := 0 }

/-- The keys of the table of deferred operations that the working set has. -/
def deferredIds (m : Manager) : Finset ℕ := if m.shared then m.deferredOps.keys.toFinset else ∅

def send (m : Manager) (answers : List Answer) : Manager :=
  { m with answers := m.answers ++ answers }

/-- Perform an operation. -/
def perform (pickler : XPickler) (m : Manager) (fault : Fault) (op : DictOp) :
    PerformResult × Manager :=
  let outcome := op.perform pickler m.deferredIds fault m.workingSet
  (outcome.result, { m with
    workingSet := outcome.workingSet
    answers := m.answers ++ outcome.answers })

/-- `Manager._defer`. -/
def defer (m : Manager) (op : DictOp) : Manager :=
  { m with deferredOps :=
      m.deferredOps.insert op.chkptId ((m.deferredOps.lookup op.chkptId).getD [] ++ [op]) }

/-- The loop of `Manager._process_deferred_ops`, with what follows it: whether it raises.
When it raises, the operations that it has left over so far are in no table. -/
def processLoop (pickler : XPickler) (fault : ℕ → Fault) (chkptId : ℕ) :
    List DictOp → List DictOp → Manager → Bool × Manager
  | [], leftOvers, m =>
    if leftOvers.isEmpty then (false, { m with deferredOps := m.deferredOps.erase chkptId })
    else (false, { m with deferredOps := m.deferredOps.insert chkptId leftOvers })
  | op :: ops, leftOvers, m =>
    match perform pickler { m with deferredOps := m.deferredOps.insert chkptId ops }
      (fault op.tag) op with
    | (.done, m) => processLoop pickler fault chkptId ops leftOvers m
    | (.waits op, m) => processLoop pickler fault chkptId ops (leftOvers ++ [op]) m
    | (.raised, m) => (true, m)

/-- `Manager._process_deferred_ops`. -/
def processDeferredOps (pickler : XPickler) (fault : ℕ → Fault) (m : Manager) (chkptId : ℕ) :
    Bool × Manager :=
  match m.deferredOps.lookup chkptId with
  | none => (false, m)
  | some ops => processLoop pickler fault chkptId ops [] m

/-- The handler of a request that is performed at once or deferred: `Manager.get`,
`Manager.pop` and `Manager.clear`. -/
def performOrDefer (pickler : XPickler) (m : Manager) (fault : Fault) (op : DictOp) : Manager :=
  match m.perform pickler fault op with
  | (.waits op, m) => m.defer op
  | (_, m) => m

/-- The first part of the handlers of puts: advance to the checkpoint id if that is possible,
and if the checkpoint is there, perform the operations that were deferred for it. -/
def advanceAndProcess (pickler : XPickler) (faults : Faults) (m : Manager) (chkptId : ℕ) :
    Except DDictError (Bool × Manager) :=
  match m.workingSet.put chkptId with
  | .error e => .error e
  | .ok (none, ws) => .ok (false, { m with workingSet := ws })
  | .ok (some _, ws) =>
    .ok ({ m with workingSet := ws }.processDeferredOps pickler faults.before chkptId)

/-- The handler of a put: `onRaise` is what it sends when an exception reaches it. -/
def performPut (pickler : XPickler) (faults : Faults) (m : Manager) (tag : ℕ)
    (onRaise : List Answer) (op : DictOp) : Manager :=
  match faults.arrival with
  | .full => m.send [⟨tag, .memoryPoolFull, .nothing⟩]
  | .unexpected => m.send onRaise
  | _ =>
    match m.advanceAndProcess pickler faults op.chkptId with
    | .error _ => m.send [⟨tag, .checkpointRetired, .nothing⟩]
    | .ok (true, m) => m.send onRaise
    | .ok (false, m) =>
      match m.perform pickler faults.own op with
      | (.raised, m) => m.send onRaise
      | (.waits op, m) => m.defer op
      | (.done, m) =>
        match m.processDeferredOps pickler faults.after op.chkptId with
        | (true, m) => m.send onRaise
        | (false, m) => m

/-- `Manager.put`. -/
def put (pickler : XPickler) (faults : Faults) (m : Manager) (tag clientId chkptId : ℕ)
    (persist : Bool) (key : KeyBytes) (valList : ValList) (waitFor : Bool) : Manager :=
  m.performPut pickler faults tag [⟨tag, .failure, .nothing⟩]
    (.put tag clientId chkptId (persist && m.workingSet.waitForKeys) key valList waitFor false)

/-- `Manager._bput`.  Its handler of unexpected exceptions sends a message that it has not
made, and so sends nothing. -/
def bput (pickler : XPickler) (faults : Faults) (m : Manager) (tag clientId chkptId : ℕ)
    (key : KeyBytes) (valList : ValList) : Manager :=
  m.performPut pickler faults tag [] (.bput tag clientId chkptId key valList)

/-- One turn of the loop of `Manager._batch_put`. -/
def batchPut (pickler : XPickler) (faults : Faults) (m : Manager) (clientId chkptId : ℕ)
    (persist : Bool) (key : KeyBytes) (valList : ValList) : Manager :=
  match m.advanceAndProcess pickler faults chkptId with
  | .error _ => m
  | .ok (true, m) => m
  | .ok (false, m) =>
    match faults.own.raises, batchPutOpPerform m.workingSet clientId chkptId
      (persist && m.workingSet.waitForKeys) key valList with
    | some _, _ => m
    | none, (.error _, ws) => { m with workingSet := ws }
    | none, (.ok _, ws) =>
      ({ m with workingSet := ws }.processDeferredOps pickler faults.after chkptId).2

/-- `Manager.contains`. -/
def contains (m : Manager) (fault : Fault) (tag clientId chkptId : ℕ) (key : KeyBytes) :
    Manager :=
  match containsOpPerform m.workingSet m.deferredIds chkptId key, fault.raises with
  | .error .checkpointSync, _ => m.send [⟨tag, .checkpointRetired, .nothing⟩]
  | .error _, _ => m.send [⟨tag, .failure, .nothing⟩]
  | .ok _, some raised => m.send [⟨tag, raised.code, .nothing⟩]
  | .ok found, none =>
    { m with workingSet := m.workingSet.updateWriterCheckpoint clientId chkptId }.send
      [⟨tag, if found then .success else .keyNotFound, .nothing⟩]

/-- `Manager.get_length`. -/
def getLength (m : Manager) (fault : Fault) (tag clientId chkptId : ℕ) : Manager :=
  match lengthOpPerform m.workingSet chkptId, fault.raises with
  | .error .checkpointSync, _ => m.send [⟨tag, .checkpointRetired, .nothing⟩]
  | .error _, _ => m.send [⟨tag, .failure, .nothing⟩]
  | .ok _, some _ => m.send [⟨tag, .failure, .nothing⟩]
  | .ok length, none =>
    { m with workingSet := m.workingSet.updateWriterCheckpoint clientId chkptId }.send
      [⟨tag, .success, .length length⟩]

/-- `Manager.keys`.  Of its handlers the first reads `self.client_id`, which the manager does
not have, and the second calls `_send_dmsg_and_keys` with an argument too few. -/
def keys (m : Manager) (fault : Fault) (tag clientId chkptId : ℕ) : Manager :=
  let m := { m with workingSet := m.workingSet.updateWriterCheckpoint clientId chkptId }
  match keysOpPerform m.workingSet chkptId, fault.raises with
  | .error _, _ => m
  | .ok _, some _ => m
  | .ok keys, none => m.send [⟨tag, .success, .keys keys⟩]

/-- `Manager.values`.  The handler for retired checkpoints reads `self.client_id`, which the
manager does not have. -/
def values (m : Manager) (fault : Fault) (tag clientId chkptId : ℕ) : Manager :=
  let m := { m with workingSet := m.workingSet.updateWriterCheckpoint clientId chkptId }
  match m.workingSet.items chkptId, fault.raises with
  | .error .checkpointSync, _ => m
  | .error _, _ => m.send [⟨tag, .failure, .nothing⟩]
  | .ok _, some _ => m.send [⟨tag, .failure, .nothing⟩]
  | .ok items, none =>
    m.send [⟨tag, .success, .values (items.entries.map fun item => item.2)⟩]

/-- `Manager.items`.  Both its handlers read `self.client_id`, which the manager does not
have. -/
def items (m : Manager) (fault : Fault) (tag clientId chkptId : ℕ) : Manager :=
  let m := { m with workingSet := m.workingSet.updateWriterCheckpoint clientId chkptId }
  match m.workingSet.items chkptId, fault.raises with
  | .error _, _ => m
  | .ok _, some _ => m
  | .ok items, none => m.send [⟨tag, .success, .items items⟩]

/-- The handler of a request. -/
def handle (pickler : XPickler) (faults : Faults) (m : Manager) (tag : ℕ) : Request → Manager
  | .put clientId chkptId persist key valList waitFor =>
    m.put pickler faults tag clientId chkptId persist key valList waitFor
  | .bput clientId chkptId key valList => m.bput pickler faults tag clientId chkptId key valList
  | .batchPut clientId chkptId persist key valList =>
    m.batchPut pickler faults clientId chkptId persist key valList
  | .get clientId chkptId key =>
    m.performOrDefer pickler faults.own (.get tag clientId chkptId key)
  | .fetchAdd clientId chkptId key fetchAddVal =>
    m.performOrDefer pickler faults.own (.fetchAdd tag clientId chkptId key fetchAddVal)
  | .pop clientId chkptId key =>
    m.performOrDefer pickler faults.own (.pop tag clientId chkptId key)
  | .contains clientId chkptId key => m.contains faults.own tag clientId chkptId key
  | .length clientId chkptId => m.getLength faults.own tag clientId chkptId
  | .keys clientId chkptId => m.keys faults.own tag clientId chkptId
  | .values clientId chkptId => m.values faults.own tag clientId chkptId
  | .items clientId chkptId => m.items faults.own tag clientId chkptId
  | .clear clientId chkptId =>
    m.performOrDefer pickler faults.own (.clear tag clientId chkptId)

/-- Receive a request and process it. -/
def step (pickler : XPickler) (m : Manager) (request : Request × Faults) : Manager :=
  let m' := m.handle pickler request.2 m.received request.1
  match request.1 with
  | .batchPut .. => m'
  | _ => { m' with received := m.received + 1 }

end Manager
