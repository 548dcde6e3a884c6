/-
# The memory of the keys

`Checkpoint.deleted` and `Checkpoint.key_allocs` have no copies of their keys.  A tombstone
is the very memory that the map of an older checkpoint has for the key, and `wait_for`
leaves its own memory in `key_allocs`.  When such memory is freed (a pop of the key in
the older checkpoint, a clear, an advance, a `wait_for` that meets its key) the set and the
dictionary keep it, and the next comparison with it raises `DragonMemoryError`.

`KeyMemory` says which memory the keys of the working set are in.  `dictMemory` is what a
call does to it, and is `none` if the call compares memory that has been freed; the
definitions before it follow the calls of `WorkingSet` line by line.

Conventions:

* keys with equal hashes are equal, so that a lookup compares a key with itself only;
* what the thread of a checkpoint that retires frees is freed at once;
* a call has a number, which is that of the operation: a deferred operation that is tried
  again comes with the same number.
-/
import DragonRuntime.WorkingSetCalls
import DragonRuntime.Runs

open WorkingSet

/-! ## Where the keys are -/

/-- The memory of a key in `deleted`. -/
inductive TombstoneMemory : Type where
  /-- The map of this checkpoint has its key there. -/
  | mapped (chkptId : ℕ)
  /-- No map has it any more, and nothing frees it. -/
  | kept
  | freed
  deriving DecidableEq, Repr

/-- The memory of a key in `key_allocs`. -/
inductive AllocMemory : Type where
  /-- The dictionary's own. -/
  | own
  /-- The one that this `wait_for` has brought. -/
  | waiter (op : ℕ)
  | freed
  deriving DecidableEq, Repr

/-- The memory of the keys of the checkpoints, by checkpoint id. -/
structure KeyMemory where
  tombstone : ℕ → KeyBytes → TombstoneMemory
  alloc : ℕ → KeyBytes → AllocMemory

namespace KeyMemory

/-- The memory of a new working set. -/
def init : KeyMemory := ⟨fun _ _ => .kept, fun _ _ => .own⟩

/-- The memory of some keys of the map of a checkpoint becomes `memory`. -/
def remap (mem : KeyMemory) (chkptId : ℕ) (keys : KeyBytes → Bool) (memory : TombstoneMemory) :
    KeyMemory :=
  { mem with tombstone := fun i key =>
      if mem.tombstone i key = .mapped chkptId ∧ keys key then memory else mem.tombstone i key }

def setTombstone (mem : KeyMemory) (chkptId : ℕ) (key : KeyBytes) (memory : TombstoneMemory) :
    KeyMemory :=
  { mem with tombstone := fun i k =>
      if i = chkptId ∧ k = key then memory else mem.tombstone i k }

def setAllocs (mem : KeyMemory) (chkptId : ℕ) (keys : KeyBytes → Bool) (memory : AllocMemory) :
    KeyMemory :=
  { mem with alloc := fun i k => if i = chkptId ∧ keys k then memory else mem.alloc i k }

/-- Whether a lookup of a key in `deleted` compares memory that has been freed. -/
def deletedMeets (mem : KeyMemory) (chkptId : ℕ) (chkpt : Checkpoint) (key : KeyBytes) : Bool :=
  decide (key ∈ chkpt.deleted ∧ mem.tombstone chkptId key = .freed)

/-- Whether a lookup of a key in `key_allocs` does. -/
def allocMeets (mem : KeyMemory) (chkptId : ℕ) (key : KeyBytes) : Bool :=
  decide (mem.alloc chkptId key = .freed)

/-! ## Readers -/

/-- The loop of `WorkingSet.get`. -/
def getLoopMeets (mem : KeyMemory) (ws : WorkingSet) (key : KeyBytes) : List ℕ → Bool
  | [] => false
  | i :: is =>
    match ws.chkpts.lookup i with
    | none => false
    | some chkpt =>
      if key ∈ chkpt.map then false
      else if key ∈ chkpt.deleted then mem.deletedMeets i chkpt key
      else getLoopMeets mem ws key is

/-- `WorkingSet.get`. -/
def getMeets (mem : KeyMemory) (ws : WorkingSet) (deferredOps : Finset ℕ) (key : KeyBytes)
    (chkptId : ℕ) : Bool :=
  match ws.getWaits deferredOps key chkptId with
  | .ok false => mem.getLoopMeets ws key (List.range' ws.oldestChkptId
      (min chkptId ws.newestChkptId + 1 - ws.oldestChkptId)).reverse
  | _ => false

/-- `WorkingSet.get`, and `Checkpoint.contains_key` after it: `GetOp` and `ContainsOp`. -/
def lookupMeets (mem : KeyMemory) (ws : WorkingSet) (deferredOps : Finset ℕ) (key : KeyBytes)
    (chkptId : ℕ) : Bool :=
  mem.getMeets ws deferredOps key chkptId ||
    match ws.get deferredOps key chkptId with
    | .ok (some chkpt) => decide (key ∈ chkpt.map) && mem.allocMeets chkpt.id key
    | _ => false

/-- The loop of `WorkingSet.keys`, where the tombstones are taken out of the keys so far. -/
def keysLoopMeets (mem : KeyMemory) (ws : WorkingSet) : List ℕ → Finset KeyBytes → Bool
  | [], _ => false
  | i :: is, keys =>
    match ws.chkpts.lookup i with
    | none => false
    | some chkpt =>
      decide (∃ key ∈ keys, mem.deletedMeets i chkpt key = true) ||
        keysLoopMeets mem ws is
          (keys \ chkpt.deleted ∪ if ws.waitForKeys then chkpt.persist else chkpt.mapKeys)

/-- `WorkingSet.keys`. -/
def keysMeets (mem : KeyMemory) (ws : WorkingSet) (chkptId : ℕ) : Bool :=
  mem.keysLoopMeets ws (List.range' ws.oldestChkptId
    (min chkptId ws.newestChkptId + 1 - ws.oldestChkptId)) ∅

/-- `WorkingSet._items`, which hashes every tombstone. -/
def itemsMeets (mem : KeyMemory) (ws : WorkingSet) (chkptId : ℕ) : Bool :=
  (List.range' ws.oldestChkptId
      (min chkptId ws.newestChkptId + 1 - ws.oldestChkptId)).any fun i =>
    match ws.chkpts.lookup i with
    | none => false
    | some chkpt => decide (∃ key ∈ chkpt.deleted, mem.tombstone i key = .freed)

/-- What a reader returns, or `none` if it raises `DragonMemoryError` because it compares memory
that has been freed. -/
def answer {α : Type} (meets : Bool) (result : α) : Option α := if meets then none else some result

/-- `WorkingSet.get`. -/
def get (mem : KeyMemory) (ws : WorkingSet) (deferredOps : Finset ℕ) (key : KeyBytes)
    (chkptId : ℕ) : Option (Except DDictError (Option Checkpoint)) :=
  answer (mem.getMeets ws deferredOps key chkptId) (ws.get deferredOps key chkptId)

/-- `GetOp.perform` without `fetch_add`. -/
def getOp (mem : KeyMemory) (ws : WorkingSet) (deferredOps : Finset ℕ) (key : KeyBytes)
    (chkptId : ℕ) : Option (Except DDictError (Option (Option ValList))) :=
  answer (mem.lookupMeets ws deferredOps key chkptId) (getOpPerform ws deferredOps chkptId key)

/-- `ContainsOp.perform`. -/
def containsOp (mem : KeyMemory) (ws : WorkingSet) (deferredOps : Finset ℕ) (key : KeyBytes)
    (chkptId : ℕ) : Option (Except DDictError Bool) :=
  answer (mem.lookupMeets ws deferredOps key
      (if ws.newestChkptId < chkptId then ws.newestChkptId else chkptId))
    (containsOpPerform ws deferredOps chkptId key)

/-- `WorkingSet.keys`, which is `KeysOp.perform`. -/
def keys (mem : KeyMemory) (ws : WorkingSet) (chkptId : ℕ) :
    Option (Except DDictError (Finset KeyBytes)) :=
  answer (mem.keysMeets ws chkptId) (ws.keys chkptId)

/-- `LengthOp.perform`. -/
def lengthOp (mem : KeyMemory) (ws : WorkingSet) (chkptId : ℕ) : Option (Except DDictError ℕ) :=
  answer (mem.keysMeets ws chkptId) (lengthOpPerform ws chkptId)

/-- No reader of a key at a checkpoint compares memory that has been freed. -/
structure Live (mem : KeyMemory) (ws : WorkingSet) (deferredOps : Finset ℕ) (key : KeyBytes)
    (chkptId : ℕ) : Prop where
  get : mem.lookupMeets ws deferredOps key chkptId = false
  contains : mem.lookupMeets ws deferredOps key
    (if ws.newestChkptId < chkptId then ws.newestChkptId else chkptId) = false
  keys : mem.keysMeets ws chkptId = false

/-! ## Advances -/

/-- Whether the retirement of a checkpoint compares freed memory at one of its keys. -/
def retireMeets (mem : KeyMemory) (idToRetire : ℕ) (child : Checkpoint) (key : KeyBytes) : Bool :=
  mem.allocMeets idToRetire key ||
    decide (key ∉ child.map) && (mem.deletedMeets (idToRetire + 1) child key ||
      decide (key ∉ child.deleted) && mem.allocMeets (idToRetire + 1) key)

/-- `WorkingSet._retire_checkpoint`: the child takes over the keys about which it says nothing, and
the other keys of the parent are freed. -/
def retire (mem : KeyMemory) (idToRetire : ℕ) (child : Checkpoint) : KeyMemory :=
  (mem.remap idToRetire (fun key => decide (key ∉ child.map ∧ key ∉ child.deleted))
    (.mapped (idToRetire + 1))).remap idToRetire (fun _ => true) .freed

/-- `WorkingSet.advance`. -/
def advance (mem : KeyMemory) (ws : WorkingSet) : Option KeyMemory :=
  let checkpoints := ws.chkpts.insert ws.nextId (Checkpoint.init ws.nextId)
  if ws.chkpts.keys.length = ws.workingSetSize then
    let idToRetire := ws.nextId - ws.workingSetSize
    match checkpoints.lookup idToRetire, checkpoints.lookup (idToRetire + 1) with
    | some parent, some child =>
      if ws.mustWait parent child then some mem
      else if parent.map.keys.any (mem.retireMeets idToRetire child) then none
      else some (mem.retire idToRetire child)
    | _, _ => some mem
  else some mem

/-- The loop of `WorkingSet.put`. -/
def putLoop (chkptId : ℕ) : ℕ → ℕ → WorkingSet → KeyMemory → Option KeyMemory
  | 0, _, _, mem => some mem
  | fuel + 1, newest, ws, mem =>
    if newest < chkptId then
      match mem.advance ws, ws.advance with
      | some mem, .ok (true, ws) => putLoop chkptId fuel (min (ws.nextId - 1) chkptId) ws mem
      | mem, _ => mem
    else some mem

/-- `WorkingSet.put`: the memory and the working set after it. -/
def put (mem : KeyMemory) (ws : WorkingSet) (chkptId : ℕ) : Option (KeyMemory × WorkingSet) :=
  match ws.put chkptId with
  | .error _ => some (mem, ws)
  | .ok (_, ws') =>
    (putLoop chkptId (chkptId + 1 - ws.nextId) ws.newestChkptId ws mem).map fun mem => (mem, ws')

/-- The loop of `WorkingSet.access`. -/
def accessLoop (chkptId : ℕ) : ℕ → WorkingSet → KeyMemory → Option KeyMemory
  | 0, _, mem => some mem
  | fuel + 1, ws, mem =>
    if chkptId ∉ ws.chkpts then
      match mem.advance ws, ws.advance with
      | some mem, .ok (true, ws) => accessLoop chkptId fuel ws mem
      | mem, _ => mem
    else some mem

/-- `WorkingSet.access`. -/
def access (mem : KeyMemory) (ws : WorkingSet) (chkptId : ℕ) : Option (KeyMemory × WorkingSet) :=
  match ws.access chkptId with
  | .error _ => some (mem, ws)
  | .ok (_, ws') => (accessLoop chkptId (chkptId + 1 - ws.nextId) ws mem).map fun mem => (mem, ws')

/-! ## Operations -/

/-- `WorkingSet.check_for_key_existence_before_free`, which looks the key up in `key_allocs` of
every checkpoint that has it in its map. -/
def freeMeets (mem : KeyMemory) (ws : WorkingSet) (key : KeyBytes) : Bool :=
  ws.chkpts.entries.any fun entry => decide (key ∈ entry.2.map) && mem.allocMeets entry.1 key

/-- `PutOp._perform` and `BatchPutOp._perform` at the checkpoint that `WorkingSet.put` returns. -/
def store (mem : KeyMemory) (ws : WorkingSet) (op chkptId : ℕ) (key : KeyBytes) (waitFor : Bool) :
    Option KeyMemory :=
  match ws.chkpts.lookup chkptId with
  | none => some mem
  | some chkpt =>
    if !waitFor && mem.deletedMeets chkptId chkpt key then none
    else if key ∈ chkpt.map then
      if mem.freeMeets ws key then none
      -- a `wait_for` that is tried again frees the memory that it has brought
      else if waitFor && decide (mem.alloc chkptId key = .waiter op) then
        some (mem.setAllocs chkptId (fun k => decide (k = key)) .freed)
      else some mem
    else if mem.allocMeets chkptId key then none
    else if waitFor && decide (key ∉ chkpt.keyAllocs) then
      some (mem.setAllocs chkptId (fun k => decide (k = key)) (.waiter op))
    else some mem

/-- `GetOp.perform` with `fetch_add` at the checkpoint that `WorkingSet.put` returns. -/
def fetchAdd (mem : KeyMemory) (ws : WorkingSet) (chkptId : ℕ) (key : KeyBytes) :
    Option KeyMemory :=
  if (ws.chkpts.lookup chkptId).isSome && mem.allocMeets chkptId key then none else some mem

/-- The part of `PopOp.perform` after the key is found in the checkpoint `chkpt`. -/
def popFound (mem : KeyMemory) (ws : WorkingSet) (chkptId : ℕ) (key : KeyBytes)
    (chkpt : Checkpoint) : Option KeyMemory :=
  if chkpt.id < chkptId then some (mem.setTombstone chkptId key (.mapped chkpt.id))
  else if key ∉ chkpt.persist then
    if mem.freeMeets ws key then none
    else some ((mem.remap chkptId (fun k => decide (k = key)) .freed).setAllocs chkptId
      (fun k => decide (k = key)) .own)
  else if mem.deletedMeets chkptId chkpt key then none
  else
    let mem := mem.remap chkptId (fun k => decide (k = key)) .kept
    some (if key ∈ chkpt.deleted then mem else mem.setTombstone chkptId key .kept)

/-- `PopOp.perform`. -/
def pop (mem : KeyMemory) (ws : WorkingSet) (deferredOps : Finset ℕ) (chkptId : ℕ)
    (key : KeyBytes) : Option KeyMemory :=
  if mem.lookupMeets ws deferredOps key chkptId then none
  else
    match ws.get deferredOps key chkptId with
    | .ok (some chkpt) =>
      if key ∈ chkpt.map ∧ chkptId ≤ ws.newestChkptId then mem.popFound ws chkptId key chkpt
      else some mem
    | _ => some mem

/-- `Checkpoint.clear` of the checkpoint that `WorkingSet.access` returns. -/
def clear (mem : KeyMemory) (ws : WorkingSet) (chkptId : ℕ) : Option KeyMemory :=
  match ws.chkpts.lookup chkptId with
  | none => some mem
  | some chkpt =>
    if chkpt.map.keys.any (mem.allocMeets chkptId) then none
    else some ((mem.remap chkptId (fun key => decide (key ∈ chkpt.map)) .freed).setAllocs chkptId
      (fun key => decide (key ∈ chkpt.map)) .own)

end KeyMemory

/-! ## Calls -/

/-- The memory after a call with a number, or `none` if the call compares memory that has been
freed. -/
def dictMemory (ws : WorkingSet) (mem : KeyMemory) (op : ℕ) : DictCall → Option KeyMemory
  | .put _ chkptId _ key _ waitFor =>
    (mem.put ws chkptId).bind fun (mem, ws) => mem.store ws op chkptId key waitFor
  | .batchPut _ chkptId _ key _ =>
    (mem.put ws chkptId).bind fun (mem, ws) => mem.store ws op chkptId key false
  | .get deferredOps _ chkptId key =>
    if mem.lookupMeets ws deferredOps key chkptId then none else some mem
  | .fetchAdd _ chkptId key _ =>
    (mem.put ws chkptId).bind fun (mem, ws) => mem.fetchAdd ws chkptId key
  | .pop deferredOps _ chkptId key => mem.pop ws deferredOps chkptId key
  | .read _ _ => some mem
  | .clear _ chkptId => (mem.access ws chkptId).bind fun (mem, ws) => mem.clear ws chkptId
  | .access chkptId => (mem.access ws chkptId).map Prod.fst
  | .advance => mem.advance ws

/-- The working set and its memory after a call with a number. -/
def memoryStep (pickler : XPickler) :
    WorkingSet × KeyMemory → ℕ × DictCall → Option (WorkingSet × KeyMemory) :=
  Runs.shadowStep (fun ws call => dictStep pickler ws call.2)
    fun ws mem call => dictMemory ws mem call.1 call.2

/-- The working set and its memory after calls of which none compares freed memory. -/
def memoryRun (pickler : XPickler) (ws : WorkingSet) (mem : KeyMemory) (calls : List (ℕ × DictCall)) :
    Option (WorkingSet × KeyMemory) :=
  calls.foldlM (memoryStep pickler) (ws, mem)

section Runs

variable {pickler : XPickler} {ws : WorkingSet} {mem : KeyMemory} {s : WorkingSet × KeyMemory}
  {calls : List (ℕ × DictCall)}

theorem ws_of_memoryRun (hrun : memoryRun pickler ws mem calls = some s) :
    s.1 = (calls.map Prod.snd).foldl (dictStep pickler) ws := by
  rw [List.foldl_map]
  exact Runs.fst_of_shadow_run hrun

theorem exists_memoryRun_prefix {pre : List (ℕ × DictCall)}
    (hrun : (memoryRun pickler ws mem calls).isSome) (hpre : pre <+: calls) :
    ∃ s, memoryRun pickler ws mem pre = some s :=
  Runs.exists_shadow_prefix hrun hpre

end Runs
