/-
# The working set of a distributed dictionary (`dragon/data/ddict/manager.py`)

A manager keeps a window of checkpoints (`WorkingSet`).  A checkpoint has its own map and
the set of the keys of older checkpoints that are deleted in it; a key that it says
nothing about is looked up in the older checkpoints of the window.

Conventions:

* a key is its bytes, as the comparison of the memory that holds it, and a value is a list
  of byte strings; the memory of the keys, and where freed memory is compared, is that of
  `KeyMemory`;
* pools, the memory of the values, the locks, the messages and the copies of retired
  checkpoints on disk are left out;
* checkpoint ids are natural numbers, as in the messages;
* the working set is not read-only;
* an object that a Python function changes in place is returned changed.
-/
import Mathlib

/-- The bytes of a key. -/
abbrev KeyBytes : Type := List UInt8

/-- A value: the contents of its memory allocations. -/
abbrev ValList : Type := List (List UInt8)

/-- A Python dictionary. -/
abbrev Dict (K V : Type) : Type := AList fun _ : K => V

/-- The exceptions of the modelled functions. -/
inductive DDictError : Type where
  /-- `DDictCheckpointSyncError`. -/
  | checkpointSync
  /-- `DDictFutureCheckpointError`. -/
  | futureCheckpoint
  /-- `KeyError`. -/
  | keyError
  /-- `AttributeError`. -/
  | attributeError
  deriving DecidableEq, Repr

/-- `value_to_bytes`. -/
def valueToBytes (valueList : ValList) : List UInt8 := valueList.flatten

/-- `Checkpoint`; of `key_allocs` the model keeps the keys. -/
structure Checkpoint where
  id : ℕ
  map : Dict KeyBytes ValList
  keyAllocs : Finset KeyBytes
  deleted : Finset KeyBytes
  persist : Finset KeyBytes
  writers : Finset ℕ

namespace Checkpoint

/-- `Checkpoint.__init__`. -/
def init (id : ℕ) : Checkpoint := ⟨id, ∅, ∅, ∅, ∅, ∅⟩

/-- The keys of the map. -/
def mapKeys (chkpt : Checkpoint) : Finset KeyBytes := chkpt.map.keys.toFinset

/-- `Checkpoint.contains_key`: whether the key is there. -/
def containsKey (chkpt : Checkpoint) (key : KeyBytes) : Except DDictError Bool :=
  if key ∈ chkpt.map then
    if key ∈ chkpt.keyAllocs then .ok true else .error .keyError
  else .ok false

/-- `Checkpoint.contains_key_and_free`: a key that is not in the map gets its memory. -/
def containsKeyAndFree (chkpt : Checkpoint) (key : KeyBytes) :
    Except DDictError (Bool × Checkpoint) :=
  if key ∈ chkpt.map then
    if key ∈ chkpt.keyAllocs then .ok (true, chkpt) else .error .keyError
  else .ok (false, { chkpt with keyAllocs := insert key chkpt.keyAllocs })

/-- `Checkpoint.clear`. -/
def clear (chkpt : Checkpoint) : Checkpoint :=
  { chkpt with
    map := ∅
    keyAllocs := chkpt.keyAllocs \ chkpt.mapKeys
    deleted := ∅
    persist := ∅
    writers := ∅ }

/-- The part of `PutOp._perform` and `BatchPutOp._perform` after `contains_key_and_free`. -/
def store (chkpt : Checkpoint) (clientId : ℕ) (key : KeyBytes) (valList : ValList)
    (persist : Bool) : Checkpoint :=
  { chkpt with
    map := chkpt.map.insert key valList
    persist := if persist then insert key chkpt.persist else chkpt.persist
    deleted := chkpt.deleted.erase key
    writers := insert clientId chkpt.writers }

/-- The part of `Manager._send_dmsg_and_value` that takes the key out of the map when the
ownership is transferred. -/
def transferOwnership (chkpt : Checkpoint) (key : KeyBytes) : Checkpoint :=
  let chkpt := { chkpt with map := chkpt.map.erase key }
  if key ∉ chkpt.persist then { chkpt with keyAllocs := chkpt.keyAllocs.erase key }
  else
    { chkpt with
      deleted := insert key chkpt.deleted
      persist := chkpt.persist.erase key }

/-- One turn of the loop of `WorkingSet._retire_checkpoint`. -/
def copyKey (waitForKeys : Bool) (parent child : Checkpoint) (key : KeyBytes) : Checkpoint :=
  match parent.map.lookup key with
  | none => child
  | some valList =>
    if key ∉ child.map ∧ key ∉ child.deleted then
      { child with
        persist := if waitForKeys then insert key child.persist else child.persist
        map := child.map.insert key valList
        keyAllocs := insert key child.keyAllocs }
    else child

/-- The child after `WorkingSet._retire_checkpoint`. -/
def inherit (waitForKeys : Bool) (parent child : Checkpoint) : Checkpoint :=
  { parent.map.keys.foldl (copyKey waitForKeys parent) child with deleted := ∅ }

end Checkpoint

/-- `WorkingSet`, not read-only. -/
structure WorkingSet where
  chkpts : Dict ℕ Checkpoint
  nextId : ℕ
  workingSetSize : ℕ
  waitForKeys : Bool
  waitForWriters : Bool

namespace WorkingSet

/-- `WorkingSet.__init__`. -/
def init (start workingSetSize : ℕ) (waitForKeys waitForWriters : Bool) : WorkingSet :=
  { chkpts := (List.range' start workingSetSize).foldl
      (fun chkpts i => chkpts.insert i (Checkpoint.init i)) ∅
    nextId := start + workingSetSize
    workingSetSize := workingSetSize
    waitForKeys := waitForKeys
    waitForWriters := waitForWriters }

/-- `WorkingSet.newest_chkpt_id`: the maximum of the ids. -/
def newestChkptId (ws : WorkingSet) : ℕ := ws.chkpts.keys.foldr max 0

/-- `WorkingSet.oldest_chkpt_id`. -/
def oldestChkptId (ws : WorkingSet) : ℕ := ws.nextId - ws.workingSetSize

/-- The checkpoint object of an id in the window after a change. -/
def setChkpt (ws : WorkingSet) (id : ℕ) (chkpt : Checkpoint) : WorkingSet :=
  { ws with chkpts := ws.chkpts.insert id chkpt }

/-- The tests of `WorkingSet.advance` that keep the oldest checkpoint from retiring. -/
def mustWait (ws : WorkingSet) (parent child : Checkpoint) : Bool :=
  let parentNonPersistKeys := parent.mapKeys \ parent.persist
  let childNonPersistKeys := (child.mapKeys \ child.persist) \ parent.persist
  (ws.waitForKeys && decide ((parentNonPersistKeys \ childNonPersistKeys).card ≠ 0)) ||
    (ws.waitForWriters && decide ((parent.writers \ child.writers).card ≠ 0))

/-- `WorkingSet._retire_checkpoint` of the checkpoint `parent`. -/
def retireCheckpoint (ws : WorkingSet) (checkpoints : Dict ℕ Checkpoint) (idToRetire : ℕ)
    (parent child : Checkpoint) : Dict ℕ Checkpoint :=
  (checkpoints.insert (idToRetire + 1) (Checkpoint.inherit ws.waitForKeys parent child)).erase
    parent.id

/-- `WorkingSet.advance`. -/
def advance (ws : WorkingSet) : Except DDictError (Bool × WorkingSet) :=
  let checkpoints := ws.chkpts.insert ws.nextId (Checkpoint.init ws.nextId)
  if ws.chkpts.keys.length = ws.workingSetSize then
    let idToRetire := ws.nextId - ws.workingSetSize
    match checkpoints.lookup idToRetire, checkpoints.lookup (idToRetire + 1) with
    | some parent, some child =>
      if ws.mustWait parent child then .ok (false, ws)
      else
        .ok (true, { ws with
          chkpts := ws.retireCheckpoint checkpoints idToRetire parent child
          nextId := ws.nextId + 1 })
    | _, _ => .error .keyError
  else .ok (true, { ws with chkpts := checkpoints, nextId := ws.nextId + 1 })

/-- Whether `WorkingSet.get` waits for a checkpoint that does not exist yet; `deferredOps`
are the ids of the checkpoints with deferred operations. -/
def getWaits (ws : WorkingSet) (deferredOps : Finset ℕ) (key : KeyBytes) (chkptId : ℕ) :
    Except DDictError Bool :=
  if ws.newestChkptId < chkptId then
    match ws.chkpts.lookup ws.oldestChkptId with
    | none => .error .keyError
    | some oldest =>
      .ok (decide (key ∉ oldest.persist) && (decide (chkptId ∈ deferredOps) || ws.waitForKeys))
  else .ok false

/-- The loop of `WorkingSet.get`, over the ids from the newest on: `some none` to wait,
`some (some chkpt)` to return `chkpt`, and `none` at the end of the loop. -/
def getLoop (ws : WorkingSet) (key : KeyBytes) (chkptId : ℕ) :
    List ℕ → Except DDictError (Option (Option Checkpoint))
  | [] => .ok none
  | i :: is =>
    match ws.chkpts.lookup i with
    | none => .error .keyError
    | some chkpt =>
      if key ∈ chkpt.map then
        if ws.waitForKeys ∧ key ∉ chkpt.persist ∧ chkpt.id < chkptId then .ok (some none)
        else .ok (some (some chkpt))
      else if key ∈ chkpt.deleted then .ok (some (some chkpt))
      else getLoop ws key chkptId is

/-- What `WorkingSet.get` returns when the loop has not found the key. -/
def getDefault (ws : WorkingSet) (key : KeyBytes) (chkptId : ℕ) :
    Except DDictError (Option Checkpoint) :=
  match ws.chkpts.lookup ws.oldestChkptId, ws.chkpts.lookup chkptId with
  | none, _ => .error .keyError
  | some oldest, none => .ok (some oldest)
  | some oldest, some chkpt =>
    if ws.waitForKeys ∧ key ∉ oldest.map then .ok none else .ok (some chkpt)

/-- `WorkingSet.get`: the checkpoint for a key, or `none` to wait. -/
def get (ws : WorkingSet) (deferredOps : Finset ℕ) (key : KeyBytes) (chkptId : ℕ) :
    Except DDictError (Option Checkpoint) :=
  if chkptId < ws.oldestChkptId then .error .checkpointSync
  else
    match ws.getWaits deferredOps key chkptId with
    | .error e => .error e
    | .ok true => .ok none
    | .ok false =>
      let chkptStart := min chkptId ws.newestChkptId
      match ws.getLoop key chkptId
        (List.range' ws.oldestChkptId (chkptStart + 1 - ws.oldestChkptId)).reverse with
      | .error e => .error e
      | .ok (some found) => .ok found
      | .ok none => ws.getDefault key chkptId

/-- The loop of `WorkingSet.put`, which advances to a later checkpoint. -/
def putLoop (chkptId : ℕ) : ℕ → ℕ → WorkingSet → Except DDictError WorkingSet
  | 0, _, ws => .ok ws
  | fuel + 1, newest, ws =>
    if newest < chkptId then
      match ws.advance with
      | .error e => .error e
      | .ok (false, ws) => .ok ws
      | .ok (true, ws) => putLoop chkptId fuel (min (ws.nextId - 1) chkptId) ws
    else .ok ws

/-- `WorkingSet.put`: the checkpoint for a put, or `none` if it is not available yet.  The
loop makes at most one turn for each id from `next_id` to `chkptId`. -/
def put (ws : WorkingSet) (chkptId : ℕ) : Except DDictError (Option Checkpoint × WorkingSet) :=
  if chkptId < ws.oldestChkptId then .error .checkpointSync
  else
    match putLoop chkptId (chkptId + 1 - ws.nextId) ws.newestChkptId ws with
    | .error e => .error e
    | .ok ws => .ok (ws.chkpts.lookup chkptId, ws)

/-- The loop of `WorkingSet.access`. -/
def accessLoop (chkptId : ℕ) : ℕ → WorkingSet → Except DDictError WorkingSet
  | 0, ws => .ok ws
  | fuel + 1, ws =>
    if chkptId ∉ ws.chkpts then
      match ws.advance with
      | .error e => .error e
      | .ok (false, ws) => .ok ws
      | .ok (true, ws) => accessLoop chkptId fuel ws
    else .ok ws

/-- `WorkingSet.access`, with the same bound on its loop. -/
def access (ws : WorkingSet) (chkptId : ℕ) :
    Except DDictError (Option Checkpoint × WorkingSet) :=
  if chkptId < ws.oldestChkptId then .error .checkpointSync
  else
    match accessLoop chkptId (chkptId + 1 - ws.nextId) ws with
    | .error e => .error e
    | .ok ws => .ok (ws.chkpts.lookup chkptId, ws)

/-- The loop of `WorkingSet.keys`, over the ids from the oldest on. -/
def keysLoop (ws : WorkingSet) : List ℕ → Finset KeyBytes → Except DDictError (Finset KeyBytes)
  | [], keys => .ok keys
  | i :: is, keys =>
    match ws.chkpts.lookup i with
    | none => .error .keyError
    | some chkpt =>
      let keys := keys \ chkpt.deleted
      if ws.waitForKeys then keysLoop ws is (keys ∪ chkpt.persist)
      else keysLoop ws is (keys ∪ chkpt.mapKeys)

/-- `WorkingSet.keys`. -/
def keys (ws : WorkingSet) (chkptId : ℕ) : Except DDictError (Finset KeyBytes) :=
  if chkptId < ws.oldestChkptId then .error .checkpointSync
  else
    let chkptEnd := min chkptId ws.newestChkptId
    match ws.keysLoop (List.range' ws.oldestChkptId (chkptEnd + 1 - ws.oldestChkptId)) ∅ with
    | .error e => .error e
    | .ok keys =>
      match ws.chkpts.lookup chkptId with
      | some chkpt => .ok (keys ∪ chkpt.mapKeys)
      | none => .ok keys

/-- `WorkingSet.update_writer_checkpoint`. -/
def updateWriterCheckpoint (ws : WorkingSet) (clientId chkptId : ℕ) : WorkingSet :=
  let ids := List.range' ws.oldestChkptId (min chkptId ws.newestChkptId - ws.oldestChkptId)
  let wrote := ids.any fun i =>
    match ws.chkpts.lookup i with
    | some chkpt => clientId ∈ chkpt.writers
    | none => false
  if wrote then
    ids.foldl (fun ws i =>
      match ws.chkpts.lookup i with
      | some chkpt => ws.setChkpt i { chkpt with writers := insert clientId chkpt.writers }
      | none => ws) ws
  else ws

end WorkingSet

/-! ## The operations -/

/-- `PutOp._perform`: whether the operation was performed. -/
def putOpPerform (ws : WorkingSet) (clientId chkptId : ℕ) (persist : Bool) (key : KeyBytes)
    (valList : ValList) (waitFor : Bool) : Except DDictError Bool × WorkingSet :=
  match ws.put chkptId with
  | .error e => (.error e, ws)
  | .ok (none, ws) => (.ok false, ws)
  | .ok (some chkpt, ws) =>
    match chkpt.containsKeyAndFree key with
    | .error e => (.error e, ws)
    | .ok (found, chkpt) =>
      if waitFor then
        let rv := found && decide ((chkpt.map.lookup key).map valueToBytes
          = some (valueToBytes valList))
        (.ok rv, ws.setChkpt chkptId chkpt)
      else (.ok true, ws.setChkpt chkptId (chkpt.store clientId key valList persist))

/-- `BatchPutOp._perform`, which is never deferred. -/
def batchPutOpPerform (ws : WorkingSet) (clientId chkptId : ℕ) (persist : Bool)
    (key : KeyBytes) (valList : ValList) : Except DDictError Unit × WorkingSet :=
  match ws.put chkptId with
  | .error e => (.error e, ws)
  | .ok (none, ws) => (.error .futureCheckpoint, ws)
  | .ok (some chkpt, ws) =>
    match chkpt.containsKeyAndFree key with
    | .error e => (.error e, ws)
    | .ok (_, chkpt) => (.ok (), ws.setChkpt chkptId (chkpt.store clientId key valList persist))

/-- `PopOp.perform`: whether the operation was performed. -/
def popOpPerform (ws : WorkingSet) (deferredOps : Finset ℕ) (clientId chkptId : ℕ)
    (key : KeyBytes) : Except DDictError Bool × WorkingSet :=
  match ws.get deferredOps key chkptId with
  | .error e => (.error e, ws)
  | .ok none => (.ok false, ws)
  | .ok (some chkpt) =>
    match chkpt.containsKey key with
    | .error e => (.error e, ws)
    | .ok false => (.ok true, ws)
    | .ok true =>
      if ws.newestChkptId < chkptId then (.ok false, ws)
      else
        match ws.access chkptId with
        | .error e => (.error e, ws)
        | .ok (none, ws) => (.error .attributeError, ws)
        | .ok (some current, ws) =>
          let current := { current with writers := insert clientId current.writers }
          if chkpt.id < chkptId then
            (.ok true, ws.setChkpt chkptId
              { current with deleted := insert key current.deleted })
          else (.ok true, ws.setChkpt chkptId (current.transferOwnership key))

/-- `ClearOp.perform`: whether the operation was performed. -/
def clearOpPerform (ws : WorkingSet) (clientId chkptId : ℕ) :
    Except DDictError Bool × WorkingSet :=
  match ws.access chkptId with
  | .error e => (.error e, ws)
  | .ok (none, ws) => (.ok false, ws)
  | .ok (some chkpt, ws) =>
    (.ok true, (ws.setChkpt chkptId chkpt.clear).updateWriterCheckpoint clientId chkptId)

/-- `GetOp.perform` without `fetch_add`: `none` if the operation is deferred, and else the
value that is sent, if any. -/
def getOpPerform (ws : WorkingSet) (deferredOps : Finset ℕ) (chkptId : ℕ) (key : KeyBytes) :
    Except DDictError (Option (Option ValList)) :=
  match ws.get deferredOps key chkptId with
  | .error e => .error e
  | .ok none => .ok none
  | .ok (some chkpt) =>
    match chkpt.containsKey key with
    | .error e => .error e
    | .ok false => .ok (some none)
    | .ok true => .ok (some (chkpt.map.lookup key))

/-- `ContainsOp.perform`: whether the code that it sends is `SUCCESS`. -/
def containsOpPerform (ws : WorkingSet) (deferredOps : Finset ℕ) (chkptId : ℕ)
    (key : KeyBytes) : Except DDictError Bool :=
  match ws.get deferredOps key (if ws.newestChkptId < chkptId then ws.newestChkptId else chkptId)
    with
  | .error e => .error e
  | .ok none => .ok false
  | .ok (some chkpt) =>
    match chkpt.containsKey key with
    | .error e => .error e
    | .ok found =>
      if ws.newestChkptId < chkptId ∧ key ∉ chkpt.persist ∧ ws.waitForKeys then .ok false
      else .ok found

/-- `LengthOp.perform`. -/
def lengthOpPerform (ws : WorkingSet) (chkptId : ℕ) : Except DDictError ℕ :=
  (ws.keys chkptId).map Finset.card

/-- `KeysOp.perform`. -/
def keysOpPerform (ws : WorkingSet) (chkptId : ℕ) : Except DDictError (Finset KeyBytes) :=
  ws.keys chkptId
