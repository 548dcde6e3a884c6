/-
# Batch puts of a distributed dictionary (`Manager._batch_put` of `dragon/data/ddict/manager.py`)

A client streams keys, each followed by the pieces of its value.  The manager stores each
pair when its value is complete, counts it, and reports the count in its response; when a
turn of the loop fails it frees what it has received and answers with the count so far.

Conventions:

* the memory of a message is known by the place of the message in the stream;
* a value is a Python list of memories, which the map refers to: the list of the pair `n` of
  the stream, or a list that is not from the stream;
* the memory of keys, and of values that are not from the stream, is left out; that the memory
  of a tombstone has been freed shows in the exception that its comparison raises;
* where the working set has the checkpoint, what deferred operations and other clients do to
  it between the lines of the loop, and where exceptions are raised, are inputs;
* the map is the one of the checkpoint, and after it has retired the one of the checkpoint
  that inherits from it.
-/
import DragonRuntime.WorkingSet

namespace StreamedBatchPut

/-! ## Inputs -/

/-- A message of the stream, with its hint. -/
inductive StreamMsg : Type where
  | key (key : KeyBytes)
  | value (bytes : List UInt8)
  deriving DecidableEq, Repr

/-- The lists of the map: the list of a pair of the stream, or another one. -/
inductive ListObj : Type where
  | pair (n : ℕ)
  | other (n : ℕ)
  deriving DecidableEq, Repr

/-- What `WorkingSet.put` says of the checkpoint. -/
inductive Found : Type where
  | available
  | future
  | retired
  deriving DecidableEq, Repr

/-- The `DragonError` of a response. -/
inductive ResponseCode : Type where
  | success
  | memoryPoolFull
  | checkpointRetired
  | futureCheckpoint
  | failure
  | invalidOperation
  deriving DecidableEq, Repr

/-- The exceptions that the handlers of `_batch_put` tell apart. -/
inductive PutException : Type where
  | full
  | checkpointSync
  | futureCheckpoint
  | other
  deriving DecidableEq, Repr

/-- The code that the handler of an exception sends. -/
def PutException.code : PutException → ResponseCode
  | .full => .memoryPoolFull
  | .checkpointSync => .checkpointRetired
  | .futureCheckpoint => .futureCheckpoint
  | .other => .failure

/-- What another operation does to the map of the checkpoint. -/
inductive OtherOp : Type where
  /-- The value of a key is replaced, or a key is added. -/
  | put (key : KeyBytes) (valList : ℕ) (clientId : ℕ)
  /-- The value is handed over to a client. -/
  | pop (key : KeyBytes)
  | clear
  /-- The checkpoint retires; its successor has these keys itself. -/
  | retire (overwritten : List KeyBytes)
  deriving DecidableEq, Repr

/-- What a turn of the loop meets: what others do while it receives; what
`self._working_set.put` says, what the deferred operations do and whether they raise; what
`BatchPutOp._perform` meets before it assigns to the map, and whether the lines after the
assignment raise (the test of the key in `chkpt.deleted` compares it with the memory of
tombstones, which may have been freed); and, after the pair is counted, what the deferred
operations do, whether they raise, and whether the pool is full. -/
structure Turn where
  meanwhile : List OtherOp
  foundFirst : Found
  deferredFirst : List OtherOp
  raisedFirst : Option PutException
  foundPerform : Found
  raisedPerform : Option PutException
  raisedStored : Option PutException
  deferredLast : List OtherOp
  raisedLast : Option PutException
  poolFull : Bool

/-- The checkpoint before the request: its lists are not from the stream. -/
structure Before where
  map : Dict KeyBytes ListObj
  others : ∀ key n, map.lookup key ≠ some (.pair n)
  keyAllocs : Finset KeyBytes
  persist : Finset KeyBytes
  deleted : Finset KeyBytes
  writers : Finset ℕ

/-- A batch put request with its stream, and what its processing meets; `recvFault` is the
exception of the receive of a message, or of the end of the stream. -/
structure Request where
  clientId : ℕ
  persist : Bool
  readOnly : Bool
  before : Before
  poolFullFirst : Bool
  stream : List StreamMsg
  recvFault : ℕ → Option PutException
  turn : ℕ → Turn

/-! ## The state -/

/-- The checkpoint of the request, the lists of the pairs of the stream, the memory that has
been freed, and the count. -/
structure State where
  map : Dict KeyBytes ListObj
  keyAllocs : Finset KeyBytes
  persist : Finset KeyBytes
  deleted : Finset KeyBytes
  writers : Finset ℕ
  valList : ℕ → List ℕ
  freed : Finset ℕ
  numBatchPuts : ℕ
  /-- The stored pairs whose place another operation, or a later pair, has taken. -/
  displaced : Finset ℕ

/-- `DDBatchPutResponse`. -/
structure Response where
  err : ResponseCode
  numPuts : ℕ
  deriving DecidableEq, Repr

namespace State

/-- The state before the first turn. -/
def start (before : Before) : State where
  map := before.map
  keyAllocs := before.keyAllocs
  persist := before.persist
  deleted := before.deleted
  writers := before.writers
  valList := fun _ => []
  freed := ∅
  numBatchPuts := 0
  displaced := ∅

/-- The loop that pops the elements of a list and frees them. -/
def freeList (s : State) : ListObj → State
  | .pair n =>
    { s with
      valList := Function.update s.valList n []
      freed := s.freed ∪ (s.valList n).toFinset }
  | .other _ => s

/-- A list leaves the map. -/
def displace (s : State) : ListObj → State
  | .pair n => { s with displaced := insert n s.displaced }
  | .other _ => s

/-- The value of a key leaves the map and is freed. -/
def freeOld (s : State) (key : KeyBytes) : State :=
  match s.map.lookup key with
  | some oldVals => { s.freeList oldVals with map := s.map.erase key }.displace oldVals
  | none => s

/-- The assignment to the map of `PutOp._perform` and `BatchPutOp._perform`, and the mark of the
key. -/
def store (s : State) (key : KeyBytes) (valList : ListObj) (persist : Bool) : State :=
  { s with
    map := s.map.insert key valList
    keyAllocs := insert key s.keyAllocs
    persist := if persist then insert key s.persist else s.persist }

/-- The assignment to the map, and the lines after it. -/
def assign (s : State) (key : KeyBytes) (valList : ListObj) (persist : Bool) (clientId : ℕ) :
    State :=
  { s.store key valList persist with
    deleted := s.deleted.erase key
    writers := insert clientId s.writers }

/-- The part of `Manager._send_dmsg_and_value` that takes the key out of the map. -/
def transferOwnership (s : State) (key : KeyBytes) : State :=
  match s.map.lookup key with
  | none => s
  | some valList =>
    let s := { s with map := s.map.erase key }.displace valList
    if key ∉ s.persist then { s with keyAllocs := s.keyAllocs.erase key }
    else { s with deleted := insert key s.deleted, persist := s.persist.erase key }

/-- A key is removed, and its value freed. -/
def remove (s : State) (key : KeyBytes) : State :=
  { s.freeOld key with keyAllocs := s.keyAllocs.erase key }

/-- Another operation. -/
def other (s : State) : OtherOp → State
  | .put key valList clientId => (s.freeOld key).assign key (.other valList) false clientId
  | .pop key => s.transferOwnership key
  | .clear => { s.map.keys.foldl remove s with persist := ∅, deleted := ∅, writers := ∅ }
  | .retire overwritten => overwritten.foldl remove s

/-- Other operations, one after the other. -/
def others (s : State) (ops : List OtherOp) : State := ops.foldl other s

/-- `val_list.append(client_val_mem)`. -/
def append (s : State) (n pos : ℕ) : State :=
  { s with valList := Function.update s.valList n (s.valList n ++ [pos]) }

/-- `Manager._recover_mem` with the list of a pair: its memory is freed, and what is left of the
stream is received and freed. -/
def recoverMem (s : State) (n : ℕ) (left : List ℕ) : State :=
  { s.freeList (.pair n) with freed := (s.freeList (.pair n)).freed ∪ left.toFinset }

end State

/-! ## The loop -/

/-- `BatchPutOp._perform` up to the test of the key in `chkpt.deleted`. -/
def performStored (request : Request) (s : State) (n : ℕ) (key : KeyBytes) : State :=
  (s.freeOld key).store key (.pair n) request.persist

/-- `BatchPutOp.perform`: the pair is stored and counted. -/
def perform (request : Request) (s : State) (n : ℕ) (key : KeyBytes) : State :=
  { (s.freeOld key).assign key (.pair n) request.persist request.clientId with
    numBatchPuts := s.numBatchPuts + 1 }

namespace Turn

/-- What others and the deferred operations do before the pair is stored. -/
def opsBefore (turn : Turn) : List OtherOp :=
  match turn.foundFirst with
  | .available => turn.meanwhile ++ turn.deferredFirst
  | _ => turn.meanwhile

/-- The exception of `BatchPutOp._perform` before it assigns to the map. -/
def raisesPerform (turn : Turn) : Option PutException :=
  match turn.foundPerform with
  | .retired => some .checkpointSync
  | .future => some .futureCheckpoint
  | .available => turn.raisedPerform

/-- The exception of a turn before the pair is stored. -/
def raisesBefore (turn : Turn) : Option PutException :=
  match turn.foundFirst, turn.raisedFirst with
  | .retired, _ => some .checkpointSync
  | .available, some e => some e
  | _, _ => turn.raisesPerform

/-- The exception of a turn after the pair is counted. -/
def raisesAfter (turn : Turn) : Option PutException :=
  match turn.raisedLast with
  | some e => some e
  | none => if turn.poolFull then some .full else none

end Turn

/-- A turn of the loop after its pair has been received, and its exception. -/
def runTurn (request : Request) (s : State) (n : ℕ) (key : KeyBytes) :
    State × Option PutException :=
  match (request.turn n).raisesBefore with
  | some e => (s.others (request.turn n).opsBefore, some e)
  | none =>
    match (request.turn n).raisedStored with
    | some e => (performStored request (s.others (request.turn n).opsBefore) n key, some e)
    | none =>
      ((perform request (s.others (request.turn n).opsBefore) n key).others
        (request.turn n).deferredLast, (request.turn n).raisesAfter)

/-- The handler of an exception in the turn `n`, with what is left of the stream. -/
def answerError (s : State) (n pos : ℕ) (left : List StreamMsg) (e : PutException) :
    State × Response :=
  (s.recoverMem n (List.range' pos left.length), ⟨e.code, s.numBatchPuts⟩)

/-- The loop of `_batch_put` from the place `pos` of the stream on, in turn `n` with the key
`key`. -/
def loop (request : Request) : State → ℕ → ℕ → KeyBytes → List StreamMsg → State × Response
  | s, n, pos, key, [] =>
    match request.recvFault pos with
    | some e => answerError (s.others (request.turn n).meanwhile) n pos [] e
    | none =>
      -- a key that no value follows
      if s.valList n = [] then
        answerError (s.others (request.turn n).meanwhile) n pos [] .other
      else
        match runTurn request s n key with
        | (s, some e) => answerError s n pos [] e
        | (s, none) => (s, ⟨.success, s.numBatchPuts⟩)
  | s, n, pos, key, msg :: left =>
    match request.recvFault pos with
    | some e => answerError (s.others (request.turn n).meanwhile) n pos (msg :: left) e
    | none =>
      match msg with
      | .value _ => loop request (s.append n pos) n (pos + 1) key left
      | .key nextKey =>
        -- a key that no value follows
        if s.valList n = [] then
          answerError (s.others (request.turn n).meanwhile) n pos (msg :: left) .other
        else
          match runTurn request s n key with
          | (s, some e) => answerError s n (pos + 1) left e
          | (s, none) => loop request s (n + 1) (pos + 1) nextKey left

/-- `Manager._batch_put`, and its response.  When the pool is full at once, or the first
message is not a key, it ends with an exception and sends no response. -/
def batchPut (request : Request) : State × Option Response :=
  let s := State.start request.before
  if request.readOnly then
    ({ s with freed := (List.range request.stream.length).toFinset }, some ⟨.invalidOperation, 0⟩)
  else if request.poolFullFirst then (s, none)
  else
    match request.recvFault 0, request.stream with
    | none, .key key :: left =>
      ((loop request s 0 1 key left).1, some (loop request s 0 1 key left).2)
    | _, _ => (s, none)

/-! ## What the response says -/

/-- The places of the values that stand in front of the next key. -/
def leadingValues : ℕ → List StreamMsg → List ℕ
  | pos, .value _ :: msgs => pos :: leadingValues (pos + 1) msgs
  | _, _ => []

/-- The pairs of a stream: each key, with the memories of its value. -/
def pairsOf : ℕ → List StreamMsg → List (KeyBytes × List ℕ)
  | _, [] => []
  | pos, .key key :: msgs => (key, leadingValues (pos + 1) msgs) :: pairsOf (pos + 1) msgs
  | pos, .value _ :: msgs => pairsOf (pos + 1) msgs

/-- The pair `n` is in the map, with its complete value. -/
def InPlace (s : State) (n : ℕ) (pair : KeyBytes × List ℕ) : Prop :=
  s.map.lookup pair.1 = some (.pair n) ∧ s.valList n = pair.2 ∧ ∀ mem ∈ pair.2, mem ∉ s.freed

/-- The count that is reported is right for the pair `n`: a pair that is counted has been
stored and is in place, unless an operation after it has taken its place; one that is not
counted is not in the map. -/
def Accounts (s : State) (numPuts n : ℕ) (pair : KeyBytes × List ℕ) : Prop :=
  if n < numPuts then n ∈ s.displaced ∨ InPlace s n pair
  else ∀ key, s.map.lookup key ≠ some (.pair n)

/-- When the response is sent, the first `numPuts` pairs of the stream, and no others, are
stored with their complete values. -/
def Accounted (request : Request) : Prop :=
  ∀ response, (batchPut request).2 = some response →
    response.numPuts ≤ (pairsOf 0 request.stream).length ∧
    ∀ n pair, (pairsOf 0 request.stream)[n]? = some pair →
      Accounts (batchPut request).1 response.numPuts n pair

/-- The operation takes the place of the key. -/
def OtherOp.touches (key : KeyBytes) : OtherOp → Prop
  | .put key' _ _ => key' = key
  | .pop key' => key' = key
  | .clear => True
  | .retire overwritten => key ∈ overwritten

namespace Turn

/-- The turn stores its pair, and then `BatchPutOp._perform` raises before the pair is counted;
or, once it is counted, the pool is full or a deferred operation raises, while the pair is still
in the map. -/
def losesPair (turn : Turn) (key : KeyBytes) : Prop :=
  turn.raisesBefore = none ∧ (turn.raisedStored ≠ none ∨
    turn.raisesAfter ≠ none ∧ ¬ ∃ op ∈ turn.deferredLast, op.touches key)

/-- No exception is raised in the turn. -/
def passes (turn : Turn) : Prop :=
  turn.raisesBefore = none ∧ turn.raisedStored = none ∧ turn.raisesAfter = none

end Turn

/-- From the place `pos` of the stream on, a turn that is reached loses its pair; `hasValue`
says that a value has been received in turn `n`. -/
def losesFrom (request : Request) : ℕ → ℕ → KeyBytes → Bool → List StreamMsg → Prop
  | n, pos, key, hasValue, [] =>
    request.recvFault pos = none ∧ hasValue = true ∧ (request.turn n).losesPair key
  | n, pos, key, _, .value _ :: left =>
    request.recvFault pos = none ∧ losesFrom request n (pos + 1) key true left
  | n, pos, key, hasValue, .key nextKey :: left =>
    request.recvFault pos = none ∧ hasValue = true ∧
      ((request.turn n).losesPair key ∨
        ((request.turn n).passes ∧ losesFrom request (n + 1) (pos + 1) nextKey false left))

/-- A turn of the batch put loses its pair. -/
def Loses (request : Request) : Prop :=
  request.readOnly = false ∧ request.poolFullFirst = false ∧ request.recvFault 0 = none ∧
    ∃ key left, request.stream = .key key :: left ∧ losesFrom request 0 1 key false left

/-! ## The pairs of a stream -/

/-- The places of the values of a stream. -/
def valuePlaces : ℕ → List StreamMsg → List ℕ
  | _, [] => []
  | pos, .key _ :: msgs => valuePlaces (pos + 1) msgs
  | pos, .value _ :: msgs => pos :: valuePlaces (pos + 1) msgs

/-- The values belong to the key in front of them. -/
theorem leadingValues_append_pairsOf (msgs : List StreamMsg) (pos : ℕ) :
    leadingValues pos msgs ++ (pairsOf pos msgs).flatMap Prod.snd = valuePlaces pos msgs := by
  induction msgs generalizing pos with
  | nil => rfl
  | cons msg msgs ih =>
    cases msg with
    | key =>
      change [] ++ (leadingValues (pos + 1) msgs ++ _) = _
      rw [List.nil_append]
      exact ih (pos + 1)
    | value =>
      change pos :: (leadingValues (pos + 1) msgs ++ _) = _
      exact congrArg (pos :: ·) (ih (pos + 1))

variable {pos n : ℕ} {pair : KeyBytes × List ℕ} {pairs : List (KeyBytes × List ℕ)} {s : State}
  {key : KeyBytes}

theorem le_of_mem_valuePlaces {msgs : List StreamMsg} {place : ℕ} (h : place ∈ valuePlaces pos msgs) :
    pos ≤ place := by
  induction msgs generalizing pos with
  | nil => cases h
  | cons msg msgs ih =>
    cases msg with
    | key => exact Nat.le_of_succ_le (ih h)
    | value =>
      rcases List.mem_cons.mp h with rfl | h
      · exact le_rfl
      · exact Nat.le_of_succ_le (ih h)

theorem nodup_valuePlaces (msgs : List StreamMsg) (pos : ℕ) : (valuePlaces pos msgs).Nodup := by
  induction msgs generalizing pos with
  | nil => exact List.nodup_nil
  | cons msg msgs ih =>
    cases msg with
    | key => exact ih (pos + 1)
    | value =>
      refine List.nodup_cons.mpr ⟨fun h => ?_, ih (pos + 1)⟩
      exact absurd (le_of_mem_valuePlaces h) (Nat.not_succ_le_self pos)

/-- No memory belongs to two pairs. -/
theorem disjoint_pairs (hnodup : (pairs.flatMap Prod.snd).Nodup) {m : ℕ} {other : KeyBytes × List ℕ}
    (hn : pairs[n]? = some pair) (hm : pairs[m]? = some other) (hne : n ≠ m) {mem : ℕ}
    (hmem : mem ∈ pair.2) : mem ∉ other.2 := by
  intro hother
  rw [List.nodup_flatMap] at hnodup
  obtain ⟨hn', rfl⟩ := List.getElem?_eq_some_iff.mp hn
  obtain ⟨hm', rfl⟩ := List.getElem?_eq_some_iff.mp hm
  rcases Nat.lt_or_gt_of_ne hne with hlt | hlt
  · exact List.pairwise_iff_getElem.mp hnodup.2 n m hn' hm' hlt hmem hother
  · exact List.pairwise_iff_getElem.mp hnodup.2 m n hm' hn' hlt hother hmem

/-! ## What operations do to the map -/

/-- The places of the keys `keys` are taken, and nothing else of the map changes. -/
structure Touches (keys : KeyBytes → Prop) (s s' : State) : Prop where
  count : s'.numBatchPuts = s.numBatchPuts
  kept : ∀ key, ¬ keys key → s'.map.lookup key = s.map.lookup key
  fewer : ∀ key n, s'.map.lookup key = some (.pair n) →
    s.map.lookup key = some (.pair n) ∧ ¬ keys key
  displaced : ∀ n, n ∈ s'.displaced ↔
    n ∈ s.displaced ∨ ∃ key, keys key ∧ s.map.lookup key = some (.pair n)
  valList : ∀ n, s'.valList n = s.valList n ∨
    s'.valList n = [] ∧ ∃ key, keys key ∧ s.map.lookup key = some (.pair n)
  freed : ∀ mem ∈ s'.freed, mem ∈ s.freed ∨
    ∃ n key, keys key ∧ s.map.lookup key = some (.pair n) ∧ mem ∈ s.valList n

namespace Touches

variable {keys keys' : KeyBytes → Prop} {s s' s'' : State}

theorem refl (s : State) : Touches (fun _ => False) s s where
  count := rfl
  kept _ _ := rfl
  fewer _ _ h := ⟨h, not_false⟩
  displaced n := by simp only [false_and, exists_false, or_false]
  valList _ := Or.inl rfl
  freed _ h := Or.inl h

theorem trans (h : Touches keys s s') (h' : Touches keys' s' s'') :
    Touches (fun key => keys key ∨ keys' key) s s'' where
  count := h'.count.trans h.count
  kept key hkey := by
    rw [not_or] at hkey
    rw [h'.kept key hkey.2, h.kept key hkey.1]
  fewer key n hlookup := by
    obtain ⟨hlookup', hkey'⟩ := h'.fewer key n hlookup
    obtain ⟨hlookup, hkey⟩ := h.fewer key n hlookup'
    exact ⟨hlookup, not_or.mpr ⟨hkey, hkey'⟩⟩
  displaced n := by
    rw [h'.displaced, h.displaced]
    constructor
    · rintro ((hn | ⟨key, hkey, hlookup⟩) | ⟨key, hkey, hlookup⟩)
      · exact Or.inl hn
      · exact Or.inr ⟨key, Or.inl hkey, hlookup⟩
      · exact Or.inr ⟨key, Or.inr hkey, (h.fewer key n hlookup).1⟩
    · rintro (hn | ⟨key, hkey, hlookup⟩)
      · exact Or.inl (Or.inl hn)
      · -- the first operation takes the place, or the second one
        by_cases hfirst : keys key
        · exact Or.inl (Or.inr ⟨key, hfirst, hlookup⟩)
        · refine Or.inr ⟨key, hkey.resolve_left hfirst, ?_⟩
          rw [h.kept key hfirst]
          exact hlookup
  valList n := by
    rcases h'.valList n with hlist' | ⟨hlist', key, hkey, hlookup⟩
    · rcases h.valList n with hlist | ⟨hlist, key, hkey, hlookup⟩
      · exact Or.inl (hlist'.trans hlist)
      · exact Or.inr ⟨hlist'.trans hlist, key, Or.inl hkey, hlookup⟩
    · exact Or.inr ⟨hlist', key, Or.inr hkey, (h.fewer key n hlookup).1⟩
  freed mem hmem := by
    rcases h'.freed mem hmem with hmem | ⟨n, key, hkey, hlookup, hlist⟩
    · rcases h.freed mem hmem with hmem | ⟨n, key, hkey, hlookup, hlist⟩
      · exact Or.inl hmem
      · exact Or.inr ⟨n, key, Or.inl hkey, hlookup, hlist⟩
    · refine Or.inr ⟨n, key, Or.inr hkey, (h.fewer key n hlookup).1, ?_⟩
      rcases h.valList n with hsame | ⟨hnil, _⟩
      · rwa [← hsame]
      · rw [hnil] at hlist
        cases hlist

/-- The same keys, said differently. -/
theorem congr (h : Touches keys s s') (hkeys : ∀ key, keys key ↔ keys' key) :
    Touches keys' s s' := by
  have heq : keys = keys' := funext fun key => propext (hkeys key)
  rwa [← heq]

theorem foldl {α : Type} {f : State → α → State} {touched : α → KeyBytes → Prop}
    (hf : ∀ s a, Touches (touched a) s (f s a)) (as : List α) (s : State) :
    Touches (fun key => ∃ a ∈ as, touched a key) s (as.foldl f s) := by
  induction as generalizing s with
  | nil =>
    apply (refl s).congr
    intro key
    simp only [List.not_mem_nil, false_and, exists_false]
  | cons a as ih =>
    apply ((hf s a).trans (ih (f s a))).congr
    intro key
    simp only [List.mem_cons, exists_eq_or_imp]

end Touches

namespace State

/-- The key of a list is taken out of the map. -/
theorem erase_touches (s : State) {key : KeyBytes} {oldVals : ListObj}
    (hlookup : s.map.lookup key = some oldVals) :
    Touches (· = key) s ({ s with map := s.map.erase key }.displace oldVals) := by
  have hmap : ∀ key', key' ≠ key → (s.map.erase key).lookup key' = s.map.lookup key' :=
    fun key' hne => AList.lookup_erase_ne hne
  have hfewer : ∀ key' n, (s.map.erase key).lookup key' = some (.pair n) →
      s.map.lookup key' = some (.pair n) ∧ ¬ key' = key := by
    intro key' n h
    by_cases hkey : key' = key
    · rw [hkey, AList.lookup_erase] at h
      cases h
    · exact ⟨hmap key' hkey ▸ h, hkey⟩
  cases oldVals with
  | pair n =>
    refine ⟨rfl, hmap, hfewer, fun m => ?_, fun m => Or.inl rfl, fun mem hmem => Or.inl hmem⟩
    change m ∈ insert n s.displaced ↔ _
    simp only [Finset.mem_insert, exists_eq_left, hlookup, Option.some.injEq,
      ListObj.pair.injEq]
    rw [or_comm, eq_comm]
  | other =>
    refine ⟨rfl, hmap, hfewer, fun m => ?_, fun m => Or.inl rfl, fun mem hmem => Or.inl hmem⟩
    change m ∈ s.displaced ↔ _
    simp only [exists_eq_left, hlookup, Option.some.injEq, reduceCtorEq, or_false]

theorem freeOld_touches (s : State) (key : KeyBytes) : Touches (· = key) s (s.freeOld key) := by
  rw [freeOld]
  split
  next oldVals hlookup =>
    have h := s.erase_touches hlookup
    cases oldVals with
    | pair n =>
      refine ⟨h.count, h.kept, h.fewer, h.displaced, fun m => ?_, fun mem hmem => ?_⟩
      · change Function.update s.valList n [] m = s.valList m ∨
          Function.update s.valList n [] m = [] ∧ _
        by_cases hm : m = n
        · refine Or.inr ⟨?_, key, rfl, hm ▸ hlookup⟩
          rw [hm, Function.update_self]
        · exact Or.inl (Function.update_of_ne hm [] s.valList)
      · rcases Finset.mem_union.mp hmem with hmem | hmem
        · exact Or.inl hmem
        · exact Or.inr ⟨n, key, rfl, hlookup, List.mem_toFinset.mp hmem⟩
    | other => exact h
  next hlookup =>
    refine ⟨rfl, fun _ _ => rfl, fun key' n h => ⟨h, ?_⟩, fun n => ?_, fun _ => Or.inl rfl,
      fun _ h => Or.inl h⟩
    · rintro rfl
      rw [hlookup] at h
      cases h
    · simp only [exists_eq_left, hlookup, reduceCtorEq, or_false]

theorem remove_touches (s : State) (key : KeyBytes) : Touches (· = key) s (s.remove key) := by
  have h := s.freeOld_touches key
  exact ⟨h.count, h.kept, h.fewer, h.displaced, h.valList, h.freed⟩

theorem transferOwnership_touches (s : State) (key : KeyBytes) :
    Touches (· = key) s (s.transferOwnership key) := by
  rcases hlookup : s.map.lookup key with _ | valList
  · have h := s.freeOld_touches key
    rw [freeOld, hlookup] at h
    rw [transferOwnership, hlookup]
    exact h
  · have h := s.erase_touches hlookup
    rw [transferOwnership, hlookup]
    simp only []
    split
    · exact ⟨h.count, h.kept, h.fewer, h.displaced, h.valList, h.freed⟩
    · exact ⟨h.count, h.kept, h.fewer, h.displaced, h.valList, h.freed⟩

theorem other_touches (s : State) (op : OtherOp) :
    Touches (fun key => op.touches key) s (s.other op) := by
  cases op with
  | put key valList =>
    have h := s.freeOld_touches key
    have hmap : ∀ key', key' ≠ key →
        ((s.freeOld key).map.insert key (.other valList)).lookup key' = s.map.lookup key' := by
      intro key' hne
      rw [AList.lookup_insert_ne hne]
      exact h.kept key' hne
    refine Touches.congr ⟨h.count, hmap, fun key' n hlookup => ?_, h.displaced, h.valList,
      h.freed⟩ fun key' => eq_comm
    by_cases hkey : key' = key
    · rw [hkey] at hlookup
      change ((s.freeOld key).map.insert key (.other valList)).lookup key = _ at hlookup
      rw [AList.lookup_insert] at hlookup
      cases hlookup
    · exact ⟨hmap key' hkey ▸ hlookup, hkey⟩
  | pop key => exact (s.transferOwnership_touches key).congr fun key' => eq_comm
  | clear =>
    have h := Touches.foldl remove_touches s.map.keys s
    have hmem : ∀ key n, s.map.lookup key = some (.pair n) → ∃ a ∈ s.map.keys, key = a := by
      intro key n hlookup
      exact ⟨key, AList.mem_keys.mpr (AList.lookup_isSome.mp (by rw [hlookup]; rfl)), rfl⟩
    refine ⟨h.count, fun _ hkey => absurd trivial hkey, fun key n hlookup => ?_, fun n => ?_,
      fun n => ?_, fun mem hfreed => ?_⟩
    · obtain ⟨hlookup, hkey⟩ := h.fewer key n hlookup
      exact absurd (hmem key n hlookup) hkey
    · refine (h.displaced n).trans (or_congr_right ⟨?_, ?_⟩)
      · rintro ⟨key, _, hlookup⟩
        exact ⟨key, trivial, hlookup⟩
      · rintro ⟨key, _, hlookup⟩
        exact ⟨key, hmem key n hlookup, hlookup⟩
    · rcases h.valList n with hsame | ⟨hnil, key, _, hlookup⟩
      · exact Or.inl hsame
      · exact Or.inr ⟨hnil, key, trivial, hlookup⟩
    · rcases h.freed mem hfreed with hold | ⟨n, key, _, hlookup, hlist⟩
      · exact Or.inl hold
      · exact Or.inr ⟨n, key, trivial, hlookup, hlist⟩
  | retire overwritten =>
    apply (Touches.foldl remove_touches overwritten s).congr
    intro key
    simp only [OtherOp.touches, exists_eq_right']

theorem others_touches (s : State) (ops : List OtherOp) :
    Touches (fun key => ∃ op ∈ ops, op.touches key) s (s.others ops) :=
  Touches.foldl other_touches ops s

end State

/-! ## The books of the loop -/

/-- After `n` pairs have been stored: they are in place or have lost their place, and nothing of
the later pairs is in the map or freed. -/
structure Books (pairs : List (KeyBytes × List ℕ)) (s : State) (n : ℕ) : Prop where
  count : s.numBatchPuts = n
  placed : ∀ key m, s.map.lookup key = some (.pair m) → m < n
  displaced : ∀ m ∈ s.displaced, m < n
  owned : ∀ m, ∀ mem ∈ s.valList m, ∃ pair, pairs[m]? = some pair ∧ mem ∈ pair.2
  stored : ∀ m < n, ∀ pair, pairs[m]? = some pair → m ∈ s.displaced ∨ InPlace s m pair
  unfreed : ∀ m, n ≤ m → ∀ pair, pairs[m]? = some pair → ∀ mem ∈ pair.2, mem ∉ s.freed

namespace Books

variable {pairs : List (KeyBytes × List ℕ)} {s s' : State} {n : ℕ}

/-- Operations that take places in the map keep the books. -/
theorem touches (hnodup : (pairs.flatMap Prod.snd).Nodup) (h : Books pairs s n)
    {keys : KeyBytes → Prop} (ht : Touches keys s s') : Books pairs s' n where
  count := ht.count.trans h.count
  placed key m hlookup := h.placed key m (ht.fewer key m hlookup).1
  displaced m hm := by
    rcases (ht.displaced m).mp hm with hm | ⟨key, _, hlookup⟩
    · exact h.displaced m hm
    · exact h.placed key m hlookup
  owned m mem hmem := by
    rcases ht.valList m with hsame | ⟨hnil, _⟩
    · exact h.owned m mem (hsame ▸ hmem)
    · rw [hnil] at hmem
      cases hmem
  stored m hm pair hpair := by
    rcases h.stored m hm pair hpair with hgone | ⟨hlookup, hlist, hunfreed⟩
    · exact Or.inl ((ht.displaced m).mpr (Or.inl hgone))
    · -- the pair loses its place, or it is not touched at all
      by_cases htaken : ∃ key, keys key ∧ s.map.lookup key = some (.pair m)
      · exact Or.inl ((ht.displaced m).mpr (Or.inr htaken))
      · refine Or.inr ⟨?_, ?_, fun mem hmem hfreed => ?_⟩
        · rw [ht.kept pair.1 fun hkey => htaken ⟨pair.1, hkey, hlookup⟩]
          exact hlookup
        · rcases ht.valList m with hsame | ⟨_, htouched⟩
          · exact hsame.trans hlist
          · exact absurd htouched htaken
        · rcases ht.freed mem hfreed with hold | ⟨m', key, hkey, hlookup', hmem'⟩
          · exact hunfreed mem hmem hold
          · obtain ⟨other, hother, hmem'⟩ := h.owned m' mem hmem'
            refine disjoint_pairs hnodup hpair hother (fun hne => ?_) hmem hmem'
            exact htaken ⟨key, hkey, hne ▸ hlookup'⟩
  unfreed m hm pair hpair mem hmem hfreed := by
    rcases ht.freed mem hfreed with hold | ⟨m', key, _, hlookup', hmem'⟩
    · exact h.unfreed m hm pair hpair mem hmem hold
    · obtain ⟨other, hother, hmem'⟩ := h.owned m' mem hmem'
      have hlt := h.placed key m' hlookup'
      exact disjoint_pairs hnodup hpair hother (by omega) hmem hmem'

/-- A pair is stored and counted. -/
theorem perform (hnodup : (pairs.flatMap Prod.snd).Nodup) (request : Request)
    (h : Books pairs s n) {key : KeyBytes} (hpair : pairs[n]? = some (key, s.valList n)) :
    Books pairs (perform request s n key) (n + 1) ∧
      (∀ key', (StreamedBatchPut.perform request s n key).map.lookup key' = some (.pair n) ↔
        key' = key) ∧
      n ∉ (StreamedBatchPut.perform request s n key).displaced ∧
      ∀ m, s.valList m = [] → (StreamedBatchPut.perform request s n key).valList m = [] := by
  have ht := s.freeOld_touches key
  have hfree := h.touches hnodup ht
  have hlist : (s.freeOld key).valList n = s.valList n := by
    rcases ht.valList n with hsame | ⟨_, key', _, hlookup⟩
    · exact hsame
    · exact absurd (h.placed key' n hlookup) (lt_irrefl n)
  have hself : (StreamedBatchPut.perform request s n key).map.lookup key = some (.pair n) :=
    AList.lookup_insert _
  have hothers : ∀ key', key' ≠ key →
      (StreamedBatchPut.perform request s n key).map.lookup key' = (s.freeOld key).map.lookup key' :=
    fun key' hne => AList.lookup_insert_ne hne
  refine ⟨⟨?_, fun key' m hlookup => ?_, fun m hm => ?_, hfree.owned, fun m hm pair hpair' => ?_,
    fun m hm => hfree.unfreed m (by omega)⟩, fun key' => ⟨fun hlookup => ?_, ?_⟩, fun hn => ?_,
    fun m hm => ?_⟩
  · exact congrArg (· + 1) h.count
  · by_cases hkey : key' = key
    · rw [hkey, hself] at hlookup
      have hm : n = m := by simpa using hlookup
      omega
    · rw [hothers key' hkey] at hlookup
      exact (hfree.placed key' m hlookup).trans (Nat.lt_succ_self n)
  · exact (hfree.displaced m hm).trans (Nat.lt_succ_self n)
  · rcases Nat.lt_succ_iff_lt_or_eq.mp hm with hm | rfl
    · rcases hfree.stored m hm pair hpair' with hgone | ⟨hlookup, hplace⟩
      · exact Or.inl hgone
      · refine Or.inr ⟨?_, hplace⟩
        rw [hothers pair.1 (ht.fewer pair.1 m hlookup).2]
        exact hlookup
    · obtain rfl : (key, s.valList m) = pair := Option.some.inj (hpair.symm.trans hpair')
      exact Or.inr ⟨hself, hlist, hfree.unfreed m le_rfl _ hpair⟩
  · by_contra hkey
    rw [hothers key' hkey] at hlookup
    exact absurd (hfree.placed key' n hlookup) (lt_irrefl n)
  · rintro rfl
    exact hself
  · exact absurd (hfree.displaced n hn) (lt_irrefl n)
  · rcases ht.valList m with hsame | ⟨hnil, _⟩
    · exact hsame.trans hm
    · exact hnil

variable {pair : KeyBytes × List ℕ}

/-- The books after the list of the pair `n` has been freed. -/
theorem recoverMem (hnodup : (pairs.flatMap Prod.snd).Nodup) {c : ℕ} (h : Books pairs s c)
    {left : List ℕ} (hleft : ∀ m < c, ∀ pair, pairs[m]? = some pair → ∀ mem ∈ pair.2, mem ∉ left)
    {m : ℕ} (hm : m ≠ n ∨ c ≤ m) (hpair : pairs[m]? = some pair) :
    Accounts (s.recoverMem n left) c m pair := by
  rw [Accounts]
  split
  next hlt =>
    have hne : m ≠ n := hm.resolve_right (not_le.mpr hlt)
    rcases h.stored m hlt pair hpair with hgone | ⟨hlookup, hlist, hunfreed⟩
    · exact Or.inl hgone
    · refine Or.inr ⟨hlookup, ?_, fun mem hmem hfreed => ?_⟩
      · exact (Function.update_of_ne hne [] s.valList).trans hlist
      · rcases Finset.mem_union.mp hfreed with hfreed | hfreed
        · rcases Finset.mem_union.mp hfreed with hfreed | hfreed
          · exact hunfreed mem hmem hfreed
          · obtain ⟨other, hother, hmem'⟩ := h.owned n mem (List.mem_toFinset.mp hfreed)
            exact disjoint_pairs hnodup hpair hother hne hmem hmem'
        · exact hleft m hlt pair hpair mem hmem (List.mem_toFinset.mp hfreed)
  next hlt =>
    intro key hlookup
    exact hlt (h.placed key m hlookup)

/-- A pair whose list has been freed is accounted for only if it has lost its place. -/
theorem accounts_freed_iff {c : ℕ} (hn : n < c) {left : List ℕ} (hne : pair.2 ≠ []) :
    Accounts (s.recoverMem n left) c n pair ↔ n ∈ s.displaced := by
  rw [Accounts, if_pos hn]
  constructor
  · rintro (hgone | ⟨_, hlist, _⟩)
    · exact hgone
    · have hnil : (s.recoverMem n left).valList n = [] := by
        change Function.update s.valList n [] n = []
        rw [Function.update_self]
      exact absurd (hlist.symm.trans hnil) hne
  · exact Or.inl

/-- The response of a turn that has not failed. -/
theorem accounts (h : Books pairs s n) {m : ℕ} (hpair : pairs[m]? = some pair) :
    Accounts s n m pair := by
  rw [Accounts]
  split
  next hlt => exact h.stored m hlt pair hpair
  next hlt => exact fun key hlookup => hlt (h.placed key m hlookup)

end Books

/-! ## A turn -/

theorem runTurn_raises (hnodup : (pairs.flatMap Prod.snd).Nodup) (request : Request)
    (h : Books pairs s n) (key : KeyBytes) {e : PutException}
    (hraises : (request.turn n).raisesBefore = some e) :
    (runTurn request s n key).2 = some e ∧ Books pairs (runTurn request s n key).1 n := by
  rw [runTurn, hraises]
  exact ⟨rfl, h.touches hnodup (s.others_touches _)⟩

theorem runTurn_stores (hnodup : (pairs.flatMap Prod.snd).Nodup) (request : Request)
    (h : Books pairs s n) (hpair : pairs[n]? = some (key, s.valList n))
    (hraises : (request.turn n).raisesBefore = none)
    (hstored : (request.turn n).raisedStored = none) :
    (runTurn request s n key).2 = (request.turn n).raisesAfter ∧
      Books pairs (runTurn request s n key).1 (n + 1) ∧
      (n ∈ (runTurn request s n key).1.displaced ↔
        ∃ op ∈ (request.turn n).deferredLast, op.touches key) ∧
      ∀ m, s.valList m = [] → (runTurn request s n key).1.valList m = [] := by
  have ht := s.others_touches (request.turn n).opsBefore
  have hbefore := h.touches hnodup ht
  have hlist : (s.others (request.turn n).opsBefore).valList n = s.valList n := by
    rcases ht.valList n with hsame | ⟨_, key', _, hlookup⟩
    · exact hsame
    · exact absurd (h.placed key' n hlookup) (lt_irrefl n)
  obtain ⟨hbooks, hlookup, hhere, hnil⟩ := hbefore.perform hnodup request (hlist.symm ▸ hpair)
  have ht' := (perform request (s.others (request.turn n).opsBefore) n key).others_touches
    (request.turn n).deferredLast
  rw [runTurn, hraises, hstored]
  refine ⟨rfl, hbooks.touches hnodup ht', ?_, fun m hm => ?_⟩
  · rw [ht'.displaced n]
    constructor
    · rintro (hgone | ⟨key', hkey', hlookup'⟩)
      · exact absurd hgone hhere
      · -- the pair is in the map under its own key only
        rwa [(hlookup key').mp hlookup'] at hkey'
    · intro htouched
      exact Or.inr ⟨key, htouched, (hlookup key).mpr rfl⟩
  · have hnil' : (s.others (request.turn n).opsBefore).valList m = [] := by
      rcases ht.valList m with hsame | ⟨hnil, _⟩
      · exact hsame.trans hm
      · exact hnil
    rcases ht'.valList m with hsame | ⟨hnil'', _⟩
    · exact hsame.trans (hnil m hnil')
    · exact hnil''

/-! ## The loop -/

/-- The response is right for every pair. -/
def Right (pairs : List (KeyBytes × List ℕ)) (answer : State × Response) : Prop :=
  answer.2.numPuts ≤ pairs.length ∧
    ∀ m pair, pairs[m]? = some pair → Accounts answer.1 answer.2.numPuts m pair

/-- What the loop has when it goes on at place `pos`, in turn `n`. -/
structure Going (pairs : List (KeyBytes × List ℕ)) (s : State) (n pos : ℕ) (key : KeyBytes)
    (msgs : List StreamMsg) : Prop where
  books : Books pairs s n
  current : pairs[n]? = some (key, s.valList n ++ leadingValues pos msgs)
  later : pairs.drop (n + 1) = pairsOf pos msgs
  fresh : ∀ m, n < m → s.valList m = []
  before : ∀ m < n, ∀ pair, pairs[m]? = some pair → ∀ mem ∈ pair.2, mem < pos
  received : ∀ mem ∈ s.valList n, mem < pos

variable {pairs : List (KeyBytes × List ℕ)}

theorem length_of_getElem? (h : pairs[n]? = some pair) : n < pairs.length :=
  (List.getElem?_eq_some_iff.mp h).1

/-- The handler of an exception before the pair is stored answers right. -/
theorem right_answerError (hnodup : (pairs.flatMap Prod.snd).Nodup) (h : Books pairs s n)
    (hlt : n < pairs.length)
    (hbefore : ∀ m < n, ∀ pair, pairs[m]? = some pair → ∀ mem ∈ pair.2, mem < pos)
    (left : List StreamMsg) (e : PutException) : Right pairs (answerError s n pos left e) := by
  refine ⟨?_, fun m pair hpair => ?_⟩
  · exact h.count.trans_le hlt.le
  · rw [answerError, h.count]
    apply h.recoverMem hnodup _ _ hpair
    · intro m hm pair hpair mem hmem hleft
      have := hbefore m hm pair hpair mem hmem
      have := (List.mem_range'_1.mp hleft).1
      omega
    · by_cases hmn : m = n
      · exact Or.inr (by omega)
      · exact Or.inl hmn

/-- The handler of an exception after the pair is stored answers right only if the pair has lost
its place. -/
theorem right_answerError_iff (hnodup : (pairs.flatMap Prod.snd).Nodup) (h : Books pairs s (n + 1))
    (hpair : pairs[n]? = some pair) (hne : pair.2 ≠ [])
    (hbefore : ∀ m < n + 1, ∀ pair, pairs[m]? = some pair → ∀ mem ∈ pair.2, mem < pos)
    (left : List StreamMsg) (e : PutException) :
    Right pairs (answerError s n pos left e) ↔ n ∈ s.displaced := by
  rw [Right, answerError, h.count]
  constructor
  · rintro ⟨_, hall⟩
    exact (Books.accounts_freed_iff (Nat.lt_succ_self n) hne).mp (hall n pair hpair)
  · intro hgone
    refine ⟨length_of_getElem? hpair, fun m pair' hpair' => ?_⟩
    by_cases hmn : m = n
    · subst hmn
      obtain rfl : pair = pair' := Option.some.inj (hpair.symm.trans hpair')
      exact (Books.accounts_freed_iff (Nat.lt_succ_self m) hne).mpr hgone
    · apply h.recoverMem hnodup _ (Or.inl hmn) hpair'
      intro m hm pair hpair mem hmem hleft
      have := hbefore m hm pair hpair mem hmem
      have := (List.mem_range'_1.mp hleft).1
      omega

/-- When `BatchPutOp._perform` raises after the pair is stored, the pair is not counted, and the
map keeps it with the list that the handler has emptied. -/
theorem not_right_runTurn_stored (hnodup : (pairs.flatMap Prod.snd).Nodup) (request : Request)
    (h : Books pairs s n) (hpair : pairs[n]? = some (key, s.valList n))
    (hraises : (request.turn n).raisesBefore = none) {e : PutException}
    (hstored : (request.turn n).raisedStored = some e) :
    (runTurn request s n key).2 = some e ∧ ∀ pos left,
      ¬ Right pairs (answerError (runTurn request s n key).1 n pos left e) := by
  have hbooks := (h.touches hnodup (s.others_touches (request.turn n).opsBefore)).touches hnodup
    (State.freeOld_touches _ key)
  rw [runTurn, hraises, hstored]
  refine ⟨rfl, fun pos left hright => ?_⟩
  have haccounts := hright.2 n _ hpair
  have hcount : (answerError (performStored request (s.others (request.turn n).opsBefore) n key)
      n pos left e).2.numPuts = n := hbooks.count
  rw [Accounts, hcount, if_neg (lt_irrefl n)] at haccounts
  exact haccounts key (AList.lookup_insert _)

/-- A turn with a complete pair: an error is answered right unless the turn loses its pair, and
else the loop goes on. -/
theorem runTurn_cases (hnodup : (pairs.flatMap Prod.snd).Nodup) (request : Request)
    (h : Books pairs s n) (hpair : pairs[n]? = some (key, s.valList n)) (hne : s.valList n ≠ [])
    (hfresh : ∀ m, n < m → s.valList m = [])
    (hbefore : ∀ m < n + 1, ∀ pair, pairs[m]? = some pair → ∀ mem ∈ pair.2, mem < pos) :
    (∃ e, (runTurn request s n key).2 = some e ∧ ∀ left,
      Right pairs (answerError (runTurn request s n key).1 n pos left e) ↔
        ¬ (request.turn n).losesPair key) ∧ ¬ (request.turn n).passes ∨
    (runTurn request s n key).2 = none ∧ (request.turn n).passes ∧
      ¬ (request.turn n).losesPair key ∧
      Books pairs (runTurn request s n key).1 (n + 1) ∧
      ∀ m, n < m → (runTurn request s n key).1.valList m = [] := by
  have hlt := length_of_getElem? hpair
  rcases hraises : (request.turn n).raisesBefore with _ | e
  · rcases hstored : (request.turn n).raisedStored with _ | e
    · obtain ⟨hafter, hbooks, hgone, hnil⟩ :=
        runTurn_stores hnodup request h hpair hraises hstored
      rcases hraises' : (request.turn n).raisesAfter with _ | e
      · refine Or.inr ⟨hafter.trans hraises', ⟨hraises, hstored, hraises'⟩, fun hloses => ?_,
          hbooks, fun m hm => hnil m (hfresh m hm)⟩
        rcases hloses.2 with hperform | hlast
        · exact hperform hstored
        · exact hlast.1 hraises'
      · refine Or.inl ⟨⟨e, hafter.trans hraises', fun left => ?_⟩, fun hpasses => ?_⟩
        · rw [right_answerError_iff hnodup hbooks hpair hne hbefore, hgone, Turn.losesPair,
            hraises, hstored, hraises']
          simp only [ne_eq, reduceCtorEq, not_true_eq_false, not_false_eq_true, true_and,
            false_or, not_not]
        · exact absurd (hraises'.symm.trans hpasses.2.2) (Option.some_ne_none e)
    · obtain ⟨hafter, hwrong⟩ := not_right_runTurn_stored hnodup request h hpair hraises hstored
      refine Or.inl ⟨⟨e, hafter, fun left => ?_⟩, fun hpasses => ?_⟩
      · refine iff_of_false (hwrong pos left) (not_not.mpr ⟨hraises, Or.inl ?_⟩)
        rw [hstored]
        exact Option.some_ne_none e
      · exact absurd (hstored.symm.trans hpasses.2.1) (Option.some_ne_none e)
  · obtain ⟨hafter, hbooks⟩ := runTurn_raises hnodup request h key hraises
    refine Or.inl ⟨⟨e, hafter, fun left => ?_⟩, fun hpasses => ?_⟩
    · refine iff_of_true ?_ fun hloses => ?_
      · exact right_answerError hnodup hbooks hlt (fun m hm => hbefore m (by omega)) left e
      · rw [Turn.losesPair, hraises] at hloses
        cases hloses.1
    · rw [Turn.passes, hraises] at hpasses
      cases hpasses.1

/-- The memory of the pairs up to `n` stands in front of `pos`. -/
theorem Going.before_succ {msgs : List StreamMsg} (h : Going pairs s n pos key msgs)
    (hpair : pairs[n]? = some (key, s.valList n)) :
    ∀ m < n + 1, ∀ pair, pairs[m]? = some pair → ∀ mem ∈ pair.2, mem < pos := by
  intro m hm pair hpair' mem hmem
  rcases Nat.lt_succ_iff_lt_or_eq.mp hm with hm | rfl
  · exact h.before m hm pair hpair' mem hmem
  · obtain rfl : (key, s.valList m) = pair := Option.some.inj (hpair.symm.trans hpair')
    exact h.received mem hmem

theorem Going.value {bytes : List UInt8} {left : List StreamMsg}
    (h : Going pairs s n pos key (.value bytes :: left)) :
    Going pairs (s.append n pos) n (pos + 1) key left := by
  have hself : (s.append n pos).valList n = s.valList n ++ [pos] := Function.update_self _ _ _
  have hothers : ∀ m, m ≠ n → (s.append n pos).valList m = s.valList m :=
    fun m hm => Function.update_of_ne hm _ _
  have hcurrent : pairs[n]? = some (key, (s.valList n ++ [pos]) ++ leadingValues (pos + 1) left) := by
    rw [List.append_assoc]
    exact h.current
  refine ⟨⟨h.books.count, h.books.placed, h.books.displaced, fun m mem hmem => ?_,
    fun m hm pair hpair => ?_, h.books.unfreed⟩, ?_, h.later, fun m hm => ?_, fun m hm pair hpair mem
    hmem => ?_, fun mem hmem => ?_⟩
  · by_cases hm : m = n
    · subst hm
      refine ⟨_, hcurrent, ?_⟩
      rw [hself] at hmem
      exact List.mem_append_left _ hmem
    · rw [hothers m hm] at hmem
      exact h.books.owned m mem hmem
  · rcases h.books.stored m hm pair hpair with hgone | ⟨hlookup, hlist, hunfreed⟩
    · exact Or.inl hgone
    · exact Or.inr ⟨hlookup, (hothers m hm.ne).trans hlist, hunfreed⟩
  · rw [hself]
    exact hcurrent
  · exact (hothers m hm.ne').trans (h.fresh m hm)
  · exact (h.before m hm pair hpair mem hmem).trans (Nat.lt_succ_self pos)
  · rw [hself] at hmem
    rcases List.mem_append.mp hmem with hmem | hmem
    · exact (h.received mem hmem).trans (Nat.lt_succ_self pos)
    · exact Nat.lt_succ_of_le (List.mem_singleton.mp hmem).le

/-- The next key has been received, and the turn has passed. -/
theorem Going.next {s' : State} {nextKey : KeyBytes} {left : List StreamMsg}
    (h : Going pairs s n pos key (.key nextKey :: left))
    (hpair : pairs[n]? = some (key, s.valList n)) (hbooks : Books pairs s' (n + 1))
    (hnil : ∀ m, n < m → s'.valList m = []) : Going pairs s' (n + 1) (pos + 1) nextKey left := by
  have hdrop : pairs.drop (n + 1) =
      (nextKey, leadingValues (pos + 1) left) :: pairsOf (pos + 1) left := h.later
  refine ⟨hbooks, ?_, ?_, fun m hm => hnil m (by omega), fun m hm pair hpair' mem hmem => ?_,
    fun mem hmem => ?_⟩
  · rw [hnil (n + 1) (Nat.lt_succ_self n), List.nil_append]
    have hhead := congrArg (fun l => l[0]?) hdrop
    rw [List.getElem?_drop] at hhead
    exact hhead
  · have htail := congrArg List.tail hdrop
    rw [List.tail_drop] at htail
    exact htail
  · exact (h.before_succ hpair m hm pair hpair' mem hmem).trans (Nat.lt_succ_self pos)
  · rw [hnil (n + 1) (Nat.lt_succ_self n)] at hmem
    cases hmem

/-- **The loop.**  It answers right exactly if no turn loses its pair. -/
theorem right_loop_iff (hnodup : (pairs.flatMap Prod.snd).Nodup) (request : Request)
    (msgs : List StreamMsg) (h : Going pairs s n pos key msgs) :
    Right pairs (loop request s n pos key msgs) ↔
      ¬ losesFrom request n pos key (decide (s.valList n ≠ [])) msgs := by
  have hlt := length_of_getElem? h.current
  have hmeanwhile := h.books.touches hnodup (s.others_touches (request.turn n).meanwhile)
  -- an exception while the pair is received, or a key without a value
  have herror := right_answerError hnodup hmeanwhile hlt h.before
  induction msgs generalizing s n pos key with
  | nil =>
    have hpair : pairs[n]? = some (key, s.valList n) := by
      rw [h.current]
      exact congrArg (fun valList => some (key, valList)) (List.append_nil _)
    rw [loop, losesFrom]
    rcases hfault : request.recvFault pos with _ | e
    · by_cases hnil : s.valList n = []
      · simp only [hnil, if_true, ne_eq, not_true_eq_false, decide_false, Bool.false_eq_true,
          false_and, and_false, not_false_eq_true, iff_true]
        exact herror [] .other
      · simp only [ne_eq, hnil, not_false_eq_true, decide_true, true_and]
        rcases hrun : runTurn request s n key with ⟨s', err⟩
        have hcases := runTurn_cases hnodup request h.books hpair hnil h.fresh
          (h.before_succ hpair)
        rw [hrun] at hcases
        rcases hcases with ⟨⟨e, rfl, hright⟩, _⟩ | ⟨rfl, _, hloses, hbooks, _⟩
        · exact hright []
        · refine iff_of_true ⟨?_, fun m pair hpair' => ?_⟩ hloses
          · exact hbooks.count.trans_le hlt
          · have haccounts := hbooks.accounts hpair'
            rw [← hbooks.count] at haccounts
            exact haccounts
    · simp only [reduceCtorEq, false_and, not_false_eq_true, iff_true]
      exact herror [] e
  | cons msg left ih =>
    rw [loop.eq_def]
    simp only []
    rcases hfault : request.recvFault pos with _ | e
    · cases msg with
      | value =>
        have hgoing := h.value
        have hih := ih hgoing (length_of_getElem? hgoing.current)
          (hgoing.books.touches hnodup (State.others_touches _ _))
        simp only [losesFrom, hfault, true_and]
        have hself : (s.append n pos).valList n ≠ [] := by
          change Function.update s.valList n (s.valList n ++ [pos]) n ≠ []
          rw [Function.update_self]
          exact List.append_ne_nil_of_right_ne_nil _ (List.cons_ne_nil _ _)
        simp only [hself, ne_eq, not_false_eq_true, decide_true] at hih
        apply hih
        exact right_answerError hnodup
          (hgoing.books.touches hnodup (State.others_touches _ _))
          (length_of_getElem? hgoing.current) hgoing.before
      | key nextKey =>
        have hpair : pairs[n]? = some (key, s.valList n) := by
          rw [h.current]
          exact congrArg (fun valList => some (key, valList)) (List.append_nil _)
        by_cases hnil : s.valList n = []
        · simp only [losesFrom, hnil, if_true, ne_eq, not_true_eq_false, decide_false,
            Bool.false_eq_true, false_and, and_false, not_false_eq_true, iff_true]
          exact herror (.key nextKey :: left) .other
        · simp only [losesFrom, hfault, ne_eq, hnil, not_false_eq_true,
            decide_true, true_and]
          rcases hrun : runTurn request s n key with ⟨s', err⟩
          have hbefore : ∀ m < n + 1, ∀ pair, pairs[m]? = some pair →
              ∀ mem ∈ pair.2, mem < pos + 1 := fun m hm pair hpair' mem hmem =>
            (h.before_succ hpair m hm pair hpair' mem hmem).trans (Nat.lt_succ_self pos)
          have hcases := runTurn_cases hnodup request h.books hpair hnil h.fresh hbefore
          rw [hrun] at hcases
          rcases hcases with ⟨⟨e, rfl, hright⟩, hpasses⟩ | ⟨rfl, hpasses, hloses, hbooks, hnext⟩
          · simp only [hpasses, false_and, or_false]
            exact hright left
          · have hgoing := h.next hpair hbooks hnext
            have hih := ih hgoing (length_of_getElem? hgoing.current)
              (hgoing.books.touches hnodup (State.others_touches _ _))
              (right_answerError hnodup
                (hgoing.books.touches hnodup (State.others_touches _ _))
                (length_of_getElem? hgoing.current) hgoing.before)
            have hfirst : decide (s'.valList (n + 1) ≠ []) = false :=
              decide_eq_false (not_not.mpr (hnext (n + 1) (Nat.lt_succ_self n)))
            rw [hfirst] at hih
            simp only [if_false, hloses, hpasses, false_or, true_and]
            exact hih
    · refine iff_of_true (herror (msg :: left) e) fun hloses => ?_
      cases msg with
      | value => exact absurd (hfault.symm.trans hloses.1) (Option.some_ne_none e)
      | key => exact absurd (hfault.symm.trans hloses.1) (Option.some_ne_none e)

/-! ## The batch put -/

theorem books_start (before : Before) (pairs : List (KeyBytes × List ℕ)) :
    Books pairs (State.start before) 0 where
  count := rfl
  placed key m hlookup := absurd hlookup (before.others key m)
  displaced m hm := absurd hm (Finset.notMem_empty m)
  owned _ _ hmem := absurd hmem List.not_mem_nil
  stored m hm := absurd hm (Nat.not_lt_zero m)
  unfreed _ _ _ _ mem _ := Finset.notMem_empty mem

/-- **The count of a batch put.**  For every stream and every point at which the pool is full,
the checkpoint is retired or in the future, or another exception is raised, the reported count
is right if and only if no turn, after it has stored its pair, meets an exception in
`BatchPutOp._perform`, or a full pool or an exception of a deferred operation while the pair is
still in the map. -/
theorem accounted_iff_not_loses (request : Request) : Accounted request ↔ ¬ Loses request := by
  have hnodup : ((pairsOf 0 request.stream).flatMap Prod.snd).Nodup := by
    have hsplit := leadingValues_append_pairsOf request.stream 0
    have hall := nodup_valuePlaces request.stream 0
    rw [← hsplit] at hall
    exact hall.of_append_right
  have hstart := books_start request.before (pairsOf 0 request.stream)
  by_cases hreadOnly : request.readOnly = true
  · refine iff_of_true (fun response hresponse => ?_) fun hloses => ?_
    · rw [batchPut, if_pos hreadOnly] at hresponse ⊢
      obtain rfl := Option.some.inj hresponse
      refine ⟨Nat.zero_le _, fun n pair _ => ?_⟩
      rw [Accounts, if_neg (Nat.not_lt_zero n)]
      exact fun key => request.before.others key n
    · exact absurd (hloses.1.symm.trans hreadOnly) Bool.false_ne_true
  · have hreadOnly' : request.readOnly = false := Bool.not_eq_true _ ▸ hreadOnly
    by_cases hfull : request.poolFullFirst = true
    · refine iff_of_true (fun response hresponse => ?_) fun hloses => ?_
      · rw [batchPut, if_neg hreadOnly, if_pos hfull] at hresponse
        cases hresponse
      · exact absurd (hloses.2.1.symm.trans hfull) Bool.false_ne_true
    · have hfull' : request.poolFullFirst = false := Bool.not_eq_true _ ▸ hfull
      rw [Accounted, Loses, batchPut, if_neg hreadOnly, if_neg hfull]
      rcases hfault : request.recvFault 0 with _ | e
      · match hstream : request.stream with
        | [] =>
          simp only [reduceCtorEq, false_and, exists_false, and_false, not_false_eq_true,
            false_imp_iff, implies_true]
        | .value bytes :: left =>
          simp only [reduceCtorEq, false_and, exists_false, and_false, not_false_eq_true,
            false_imp_iff, implies_true, List.cons.injEq]
        | .key key :: left =>
          have hgoing : Going (pairsOf 0 request.stream) (State.start request.before) 0 1 key
              left := by
            rw [hstream]
            refine ⟨books_start request.before _, rfl, rfl, fun _ _ => rfl,
              fun m hm => absurd hm (Nat.not_lt_zero m), fun mem hmem => absurd hmem ?_⟩
            exact List.not_mem_nil
          have hloop := right_loop_iff hnodup request left hgoing
          have hnil : decide ((State.start request.before).valList 0 ≠ []) = false := rfl
          rw [hnil] at hloop
          rw [hstream] at hloop
          simp only [Option.some.injEq, forall_eq', hreadOnly', hfull', true_and,
            List.cons.injEq, StreamMsg.key.injEq]
          refine hloop.trans (not_congr ⟨fun hloses => ⟨key, left, ⟨rfl, rfl⟩, hloses⟩, ?_⟩)
          rintro ⟨_, _, ⟨rfl, rfl⟩, hloses⟩
          exact hloses
      · simp only [reduceCtorEq, false_and, and_false, not_false_eq_true, false_imp_iff,
          implies_true]

/-- A turn in which nothing happens; at its end the pool may be full. -/
def quietTurn (poolFull : Bool) : Turn where
  meanwhile := []
  foundFirst := .available
  deferredFirst := []
  raisedFirst := none
  foundPerform := .available
  raisedPerform := none
  raisedStored := none
  deferredLast := []
  raisedLast := none
  poolFull := poolFull

/-- One pair is put in an empty checkpoint; then the pool may be full. -/
def onePair (poolFull : Bool) : Request where
  clientId := 0
  persist := false
  readOnly := false
  before :=
    { map := ∅
      others := fun key n h => by cases h
      keyAllocs := ∅
      persist := ∅
      deleted := ∅
      writers := ∅ }
  poolFullFirst := false
  stream := [.key [1], .value [2]]
  recvFault := fun _ => none
  turn := fun _ => quietTurn poolFull

theorem accounted_onePair : Accounted (onePair false) ∧
    (batchPut (onePair false)).2 = some ⟨.success, 1⟩ := by
  refine ⟨(accounted_iff_not_loses (onePair false)).mpr fun hloses => ?_, by decide⟩
  obtain ⟨_, _, _, key, left, hstream, hturn⟩ := hloses
  obtain ⟨rfl, rfl⟩ : [1] = key ∧ [StreamMsg.value [2]] = left := by
    simpa [onePair] using hstream
  have hpair : (quietTurn false).losesPair [1] := hturn.2.2.2
  rcases hpair.2 with hstored | hlast
  · exact hstored rfl
  · exact hlast.1 rfl

/-- The put of one pair into a pool that is full after it: the response counts one pair, whose
memory has been freed. -/
theorem not_accounted_onePair :
    (batchPut (onePair true)).2 = some ⟨.memoryPoolFull, 1⟩ ∧
      (batchPut (onePair true)).1.map.lookup [1] = some (.pair 0) ∧
      (batchPut (onePair true)).1.valList 0 = [] ∧ 1 ∈ (batchPut (onePair true)).1.freed ∧
      ¬ Accounted (onePair true) := by
  have hresponse : (batchPut (onePair true)).2 = some ⟨.memoryPoolFull, 1⟩ := by decide
  refine ⟨hresponse, by decide, by decide, by decide, fun haccounted => ?_⟩
  have haccounts := (haccounted _ hresponse).2 0 ([1], [1]) (by decide)
  rw [Accounts, if_pos (by decide)] at haccounts
  rcases haccounts with hgone | ⟨_, hlist, _⟩
  · exact absurd hgone (by decide)
  · exact absurd hlist (by decide)

-- a tombstone whose memory has been freed: no pair is counted, and the map has one
example :
    let raises := { quietTurn false with raisedStored := some .other }
    let request := { onePair false with turn := fun _ => raises }
    (batchPut request).2 = some ⟨.failure, 0⟩ ∧
      (batchPut request).1.map.lookup [1] = some (.pair 0) := by
  decide

end StreamedBatchPut
