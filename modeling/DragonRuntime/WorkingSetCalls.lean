/-
# Calls on a working set

All the operations of a client on the working set of a manager, `fetch_add` included, as
one type of calls (`DictCall`) with one step function.

Seen from one key, a checkpoint is a value, a tombstone and a mark of persistence
(`KeyView`).  Every call first advances the window, possibly several times or not at all,
and then changes one checkpoint or none (`WindowInv.dictStep_cases`).
-/
import DragonRuntime.WorkingSetWindow

open WorkingSet

/-! ## `fetch_add` -/

/-- `XPickler` on the values of `fetch_add`: the Python objects, with what raises as
`none`.  `add` is `value += fetch_add_val`. -/
structure XPickler where
  Obj : Type
  loads : List UInt8 → Option Obj
  add : Obj → ℤ → Option Obj
  dumps : Obj → Option (List UInt8)
  /-- The integer `0`. -/
  zero : Obj
  zeroBytes : List UInt8
  dumps_zero : dumps zero = some zeroBytes

/-- `XPickler` on integers and strings: four bytes with the type, and then the four bytes of
an integer or what `XStringPickler` dumps. -/
def XPickler.scalars : XPickler where
  Obj := ℤ ⊕ List UInt8
  loads
    | 2 :: 0 :: 0 :: 0 :: a :: b :: c :: d :: _ =>
      let n := a.toNat + 256 * b.toNat + 65536 * c.toNat + 16777216 * d.toNat
      some (.inl (if n < 2147483648 then (n : ℤ) else (n : ℤ) - 4294967296))
    | 1 :: 0 :: 0 :: 0 :: text => some (.inr text)
    | _ => none
  add
    | .inl value, fetchAddVal => some (.inl (value + fetchAddVal))
    | .inr _, _ => none
  dumps
    | .inl value =>
      if -2147483648 ≤ value ∧ value < 2147483648 then
        let n := (value % 4294967296).toNat
        some [2, 0, 0, 0, .ofNat n, .ofNat (n / 256), .ofNat (n / 65536), .ofNat (n / 16777216)]
      else none
    | .inr text => some (1 :: 0 :: 0 :: 0 :: text)
  zero := .inl 0
  zeroBytes := [2, 0, 0, 0, 0, 0, 0, 0]
  dumps_zero := by decide

/-- How `GetOp.perform` with `fetch_add` ends. -/
inductive FetchAddResult : Type where
  /-- The checkpoint is not available yet. -/
  | deferred
  /-- `DDictCheckpointSyncError`. -/
  | retired
  /-- An exception before the answer. -/
  | failed
  /-- The value that is sent. -/
  | answered (valList : ValList)
  /-- The value that is sent, and an exception after it. -/
  | answeredThenFailed (valList : ValList)

/-- The checkpoint of a `fetch_add` when the answer is sent: a key that is not there starts
with zero and persists. -/
def Checkpoint.fetchAddStart (pickler : XPickler) (chkpt : Checkpoint) (key : KeyBytes) :
    Checkpoint :=
  if key ∈ chkpt.map then chkpt
  else
    { chkpt with
      persist := insert key chkpt.persist
      map := chkpt.map.insert key [pickler.zeroBytes]
      keyAllocs := insert key chkpt.keyAllocs }

/-- Replace the value list of a key in the checkpoint with id `chkptId`. -/
def WorkingSet.setValue (ws : WorkingSet) (chkptId : ℕ) (key : KeyBytes) (valList : ValList) :
    WorkingSet :=
  match ws.chkpts.lookup chkptId with
  | some chkpt => ws.setChkpt chkptId { chkpt with map := chkpt.map.insert key valList }
  | none => ws

/-- `GetOp.perform` with `fetch_add`. -/
def fetchAddPerform (pickler : XPickler) (ws : WorkingSet) (clientId chkptId : ℕ)
    (key : KeyBytes) (fetchAddVal : ℤ) : FetchAddResult × WorkingSet :=
  match ws.put chkptId with
  | .error _ => (.retired, ws)
  | .ok (none, ws) => (.deferred, ws)
  | .ok (some chkpt, ws) =>
    match chkpt.containsKey key with
    | .error _ => (.failed, ws)
    | .ok found =>
      let value := if found then pickler.loads (valueToBytes ((chkpt.map.lookup key).getD []))
        else some pickler.zero
      match value with
      | none => (.failed, ws)
      | some value =>
        let chkpt := chkpt.fetchAddStart pickler key
        let oldValueList := (chkpt.map.lookup key).getD []
        let ws := (ws.setChkpt chkptId chkpt).updateWriterCheckpoint clientId chkptId
        match pickler.add value fetchAddVal with
        | none => (.answeredThenFailed oldValueList, ws)
        | some value =>
          -- the old value is freed before the new one is pickled
          match pickler.dumps value with
          | none => (.answeredThenFailed oldValueList, ws.setValue chkptId key [])
          | some bytes => (.answered oldValueList, ws.setValue chkptId key [bytes])

/-! ## Calls -/

/-- A call of a client.  `deferredOps` are the ids of the checkpoints with deferred
operations at the time of the call. -/
inductive DictCall : Type where
  | put (clientId chkptId : ℕ) (persist : Bool) (key : KeyBytes) (valList : ValList)
      (waitFor : Bool)
  | batchPut (clientId chkptId : ℕ) (persist : Bool) (key : KeyBytes) (valList : ValList)
  | get (deferredOps : Finset ℕ) (clientId chkptId : ℕ) (key : KeyBytes)
  | fetchAdd (clientId chkptId : ℕ) (key : KeyBytes) (fetchAddVal : ℤ)
  | pop (deferredOps : Finset ℕ) (clientId chkptId : ℕ) (key : KeyBytes)
  /-- `contains`, `length`, `keys`, `values` and `items`, which are never deferred. -/
  | read (clientId chkptId : ℕ)
  | clear (clientId chkptId : ℕ)
  | access (chkptId : ℕ)
  | advance

/-- The working set after a call. -/
def dictStep (pickler : XPickler) (ws : WorkingSet) : DictCall → WorkingSet
  | .put clientId chkptId persist key valList waitFor =>
    (putOpPerform ws clientId chkptId persist key valList waitFor).2
  | .batchPut clientId chkptId persist key valList =>
    (batchPutOpPerform ws clientId chkptId persist key valList).2
  | .get deferredOps clientId chkptId key =>
    match getOpPerform ws deferredOps chkptId key with
    | .ok (some _) => ws.updateWriterCheckpoint clientId chkptId
    | _ => ws
  | .fetchAdd clientId chkptId key fetchAddVal =>
    (fetchAddPerform pickler ws clientId chkptId key fetchAddVal).2
  | .pop deferredOps clientId chkptId key =>
    (popOpPerform ws deferredOps clientId chkptId key).2
  | .read clientId chkptId => ws.updateWriterCheckpoint clientId chkptId
  | .clear clientId chkptId => (clearOpPerform ws clientId chkptId).2
  | .access chkptId =>
    match ws.access chkptId with
    | .error _ => ws
    | .ok (_, ws) => ws
  | .advance =>
    match ws.advance with
    | .error _ => ws
    | .ok (_, ws) => ws

/-! ## Advances -/

/-- The working set has advanced, possibly several times. -/
inductive Advances : WorkingSet → WorkingSet → Prop where
  | refl (ws : WorkingSet) : Advances ws ws
  | step {ws ws1 ws2 : WorkingSet} (hrun : ws.advance = .ok (true, ws1))
      (hrest : Advances ws1 ws2) : Advances ws ws2

section Advances

variable {size : ℕ} {waitForKeys : Bool} {ws ws' ws1 : WorkingSet}

/-- **Invariant rule** for advances. -/
theorem Advances.invariant {I : WorkingSet → Prop} (hadv : Advances ws ws')
    (h : WindowInv size waitForKeys ws) (hI : I ws)
    (hstep : ∀ ws ws1 parent child, WindowInv size waitForKeys ws → Advanced ws ws1 parent child →
      I ws → I ws1) :
    WindowInv size waitForKeys ws' ∧ I ws' := by
  induction hadv with
  | refl ws => exact ⟨h, hI⟩
  | step hrun hrest ih =>
    rcases h.advance_cases with hrefuse | ⟨ws2, parent, child, hrun', hadv⟩
    · rw [hrefuse] at hrun
      cases hrun
    · rw [hrun'] at hrun
      cases hrun
      exact ih (h.advanced hadv) (hstep _ _ parent child h hadv hI)

theorem Advances.eq_of_refused (hadv : Advances ws ws')
    (hrefuse : ws.advance = .ok (false, ws)) : ws' = ws := by
  cases hadv with
  | refl => rfl
  | step hrun _ =>
    rw [hrefuse] at hrun
    cases hrun

theorem WindowInv.advances (h : WindowInv size waitForKeys ws) (hadv : Advances ws ws') :
    WindowInv size waitForKeys ws' :=
  (hadv.invariant (I := fun _ => True) h trivial fun _ _ _ _ _ _ _ => trivial).1

theorem putLoop_advances {chkptId fuel newest : ℕ}
    (hrun : putLoop chkptId fuel newest ws = .ok ws') : Advances ws ws' := by
  induction fuel generalizing ws newest with
  | zero =>
    cases hrun
    exact Advances.refl _
  | succ fuel ih =>
    rw [putLoop] at hrun
    split at hrun
    · split at hrun
      · cases hrun
      · rename_i ws2 hadv
        cases hrun
        unfold WorkingSet.advance at hadv
        simp only at hadv
        split at hadv
        · split at hadv
          · split at hadv
            · cases hadv
              exact Advances.refl _
            · cases hadv
          · cases hadv
        · cases hadv
      · rename_i ws2 hadv
        exact Advances.step hadv (ih hrun)
    · cases hrun
      exact Advances.refl _

/-- **`WorkingSet.put`**: it refuses an id that is too old, and else advances; it does not
advance when the id is in the window. -/
theorem WindowInv.put_cases (h : WindowInv size waitForKeys ws) (chkptId : ℕ) :
    chkptId < ws.oldestChkptId ∧ ws.put chkptId = .error .checkpointSync ∨
    ws.oldestChkptId ≤ chkptId ∧ ∃ ws', Advances ws ws' ∧
      ws.put chkptId = .ok (ws'.chkpts.lookup chkptId, ws') ∧
      (chkptId < ws.nextId → ws' = ws) ∧
      (ws'.nextId ≤ chkptId → ws'.advance = .ok (false, ws')) ∧
      ws'.nextId ≤ max ws.nextId (chkptId + 1) := by
  have hpos := h.size_pos
  have hle := h.size_le
  have holdest := h.oldest_eq
  unfold WorkingSet.put
  by_cases hold : chkptId < ws.oldestChkptId
  · rw [if_pos hold]
    exact Or.inl ⟨hold, rfl⟩
  · rw [if_neg hold]
    have hnewest : ws.newestChkptId < chkptId ↔ ws.nextId ≤ chkptId := by
      rw [h.newest_eq]
      omega
    obtain ⟨ws', hloop, hinv, hmax, hend⟩ := h.putLoop hnewest le_rfl
    refine Or.inr ⟨not_lt.mp hold, ws', putLoop_advances hloop, ?_, ?_, hend, hmax⟩
    · rw [hloop]
    · intro hlt
      rw [show chkptId + 1 - ws.nextId = 0 by omega] at hloop
      cases hloop
      rfl

end Advances

/-! ## One key of a checkpoint -/

/-- What a checkpoint has for a key: its value, whether it is deleted, whether it
persists. -/
structure KeyView where
  value : Option ValList
  deleted : Bool
  persist : Bool

def Checkpoint.keyView (chkpt : Checkpoint) (key : KeyBytes) : KeyView :=
  ⟨chkpt.map.lookup key, decide (key ∈ chkpt.deleted), decide (key ∈ chkpt.persist)⟩

/-- What the checkpoint with id `i` has for a key. -/
def keyViewAt (ws : WorkingSet) (key : KeyBytes) (i : ℕ) : Option KeyView :=
  (ws.chkpts.lookup i).map fun chkpt => chkpt.keyView key

/-- A key that is new in a checkpoint. -/
def KeyView.empty : KeyView := ⟨none, false, false⟩

section Views

variable {size : ℕ} {waitForKeys : Bool} {ws ws1 : WorkingSet} {chkpt chkpt' : Checkpoint}
  {c : ℕ} {key : KeyBytes}

theorem keyViewAt_of_lookup {i : ℕ} (hlookup : ws.chkpts.lookup i = some chkpt) :
    keyViewAt ws key i = some (chkpt.keyView key) := by
  unfold keyViewAt
  rw [hlookup]
  rfl

theorem WindowInv.keyViewAt_isSome (h : WindowInv size waitForKeys ws) (key : KeyBytes) (i : ℕ) :
    (keyViewAt ws key i).isSome ↔ ws.oldestChkptId ≤ i ∧ i < ws.nextId := by
  unfold keyViewAt
  rw [Option.isSome_map, AList.lookup_isSome, h.mem_iff, h.oldest_eq]

theorem keyViewAt_setChkpt (ws : WorkingSet) (c : ℕ) (chkpt : Checkpoint) (key : KeyBytes) (i : ℕ) :
    keyViewAt (ws.setChkpt c chkpt) key i
      = if i = c then some (chkpt.keyView key) else keyViewAt ws key i := by
  unfold keyViewAt WorkingSet.setChkpt
  by_cases hi : i = c
  · subst hi
    rw [if_pos rfl, AList.lookup_insert]
    rfl
  · rw [if_neg hi, AList.lookup_insert_ne hi]

theorem keyViewAt_setChkpt_same (hlookup : ws.chkpts.lookup c = some chkpt)
    (hsame : chkpt'.keyView key = chkpt.keyView key) (i : ℕ) :
    keyViewAt (ws.setChkpt c chkpt') key i = keyViewAt ws key i := by
  rw [keyViewAt_setChkpt]
  by_cases hi : i = c
  · rw [if_pos hi, hi, keyViewAt_of_lookup hlookup, hsame]
  · rw [if_neg hi]

/-- The two working sets have the same window and the same keys. -/
structure SameKeys (ws ws' : WorkingSet) : Prop where
  nextId_eq : ws'.nextId = ws.nextId
  size_eq : ws'.workingSetSize = ws.workingSetSize
  view_eq : ∀ key i, keyViewAt ws' key i = keyViewAt ws key i

theorem SameKeys.refl (ws : WorkingSet) : SameKeys ws ws := ⟨rfl, rfl, fun _ _ => rfl⟩

theorem SameKeys.trans {ws2 : WorkingSet} (h : SameKeys ws ws1) (h' : SameKeys ws1 ws2) :
    SameKeys ws ws2 :=
  ⟨h'.nextId_eq.trans h.nextId_eq, h'.size_eq.trans h.size_eq,
    fun key i => (h'.view_eq key i).trans (h.view_eq key i)⟩

theorem SameKeys.oldest_eq (h : SameKeys ws ws1) : ws1.oldestChkptId = ws.oldestChkptId := by
  unfold WorkingSet.oldestChkptId
  rw [h.nextId_eq, h.size_eq]

theorem sameKeys_setChkpt (hlookup : ws.chkpts.lookup c = some chkpt)
    (hsame : ∀ key, chkpt'.keyView key = chkpt.keyView key) :
    SameKeys ws (ws.setChkpt c chkpt') :=
  ⟨rfl, rfl, fun key i => keyViewAt_setChkpt_same hlookup (hsame key) i⟩

theorem sameKeys_updateWriterCheckpoint (ws : WorkingSet) (clientId chkptId : ℕ) :
    SameKeys ws (ws.updateWriterCheckpoint clientId chkptId) := by
  have hfold : ∀ (ids : List ℕ) (ws : WorkingSet), SameKeys ws (ids.foldl (fun ws i =>
        match ws.chkpts.lookup i with
        | some chkpt => ws.setChkpt i { chkpt with writers := insert clientId chkpt.writers }
        | none => ws) ws) := by
    intro ids
    induction ids with
    | nil => exact fun ws => SameKeys.refl ws
    | cons i ids ih =>
      intro ws
      rw [List.foldl_cons]
      refine SameKeys.trans ?_ (ih _)
      cases hlookup : ws.chkpts.lookup i with
      | none => exact SameKeys.refl ws
      | some chkpt => exact sameKeys_setChkpt hlookup fun _ => rfl
  unfold WorkingSet.updateWriterCheckpoint
  simp only
  split
  · exact hfold _ ws
  · exact SameKeys.refl ws

theorem containsKeyAndFree_frame {found : Bool}
    (hrun : chkpt.containsKeyAndFree key = .ok (found, chkpt')) :
    chkpt'.map = chkpt.map ∧ chkpt'.deleted = chkpt.deleted ∧ chkpt'.persist = chkpt.persist ∧
      chkpt'.writers = chkpt.writers := by
  unfold Checkpoint.containsKeyAndFree at hrun
  split at hrun
  · split at hrun
    · cases hrun
      exact ⟨rfl, rfl, rfl, rfl⟩
    · cases hrun
  · cases hrun
    exact ⟨rfl, rfl, rfl, rfl⟩

/-- Storing a key, after `contains_key_and_free`. -/
theorem keyView_store {found : Bool}
    (hrun : chkpt.containsKeyAndFree key = .ok (found, chkpt')) (clientId : ℕ) (valList : ValList)
    (persist : Bool) (k : KeyBytes) :
    (chkpt'.store clientId key valList persist).keyView k
      = if k = key then ⟨some valList, false, persist || (chkpt.keyView key).persist⟩
        else chkpt.keyView k := by
  obtain ⟨hmap, hdeleted, hpersist, -⟩ := containsKeyAndFree_frame hrun
  unfold Checkpoint.keyView Checkpoint.store
  simp only [hmap, hdeleted, hpersist]
  by_cases hk : k = key
  · subst hk
    rw [if_pos rfl, AList.lookup_insert]
    cases persist with
    | false => simp
    | true => simp
  · rw [if_neg hk, AList.lookup_insert_ne hk]
    cases persist with
    | false => simp [hk]
    | true => simp [hk]

theorem Checkpoint.Sound.exists_containsKeyAndFree (hsound : chkpt.Sound c) (key : KeyBytes) :
    ∃ chkpt', chkpt.containsKeyAndFree key = .ok (decide (key ∈ chkpt.map), chkpt') := by
  unfold Checkpoint.containsKeyAndFree
  by_cases hkey : key ∈ chkpt.map
  · rw [if_pos hkey, if_pos (hsound.allocs key hkey), decide_eq_true hkey]
    exact ⟨chkpt, rfl⟩
  · rw [if_neg hkey, decide_eq_false hkey]
    exact ⟨_, rfl⟩

/-! ## What the calls change -/

/-- The keys of checkpoint `c` have become `view`, and nothing else has changed. -/
structure ChangesAt (ws ws' : WorkingSet) (c : ℕ) (view : KeyBytes → KeyView) : Prop where
  nextId_eq : ws'.nextId = ws.nextId
  size_eq : ws'.workingSetSize = ws.workingSetSize
  view_eq : ∀ key i, keyViewAt ws' key i = if i = c then some (view key) else keyViewAt ws key i

theorem ChangesAt.oldest_eq {view : KeyBytes → KeyView} (h : ChangesAt ws ws1 c view) :
    ws1.oldestChkptId = ws.oldestChkptId := by
  unfold WorkingSet.oldestChkptId
  rw [h.nextId_eq, h.size_eq]

theorem changesAt_setChkpt (ws : WorkingSet) (c : ℕ) (chkpt : Checkpoint) :
    ChangesAt ws (ws.setChkpt c chkpt) c chkpt.keyView :=
  ⟨rfl, rfl, fun key i => keyViewAt_setChkpt ws c chkpt key i⟩

theorem ChangesAt.congr {view view' : KeyBytes → KeyView} (h : ChangesAt ws ws1 c view)
    (heq : ∀ key, view key = view' key) : ChangesAt ws ws1 c view' := by
  refine ⟨h.nextId_eq, h.size_eq, ?_⟩
  intro key i
  rw [h.view_eq, heq]

theorem ChangesAt.sameKeys {view : KeyBytes → KeyView} {ws2 : WorkingSet}
    (h : ChangesAt ws ws1 c view) (h' : SameKeys ws1 ws2) : ChangesAt ws ws2 c view :=
  ⟨h'.nextId_eq.trans h.nextId_eq, h'.size_eq.trans h.size_eq,
    fun key i => (h'.view_eq key i).trans (h.view_eq key i)⟩

/-- The keys of a checkpoint in which one key has changed. -/
def Checkpoint.viewWith (chkpt : Checkpoint) (key : KeyBytes) (view : KeyView) (k : KeyBytes) :
    KeyView :=
  if k = key then view else chkpt.keyView k

theorem putOp_stores (hput : ws.put c = .ok (some chkpt, ws1)) (hsound : chkpt.Sound c)
    (clientId : ℕ) (persist : Bool) (key : KeyBytes) (valList : ValList) :
    ∃ ws', putOpPerform ws clientId c persist key valList false = (.ok true, ws') ∧
      ChangesAt ws1 ws' c (chkpt.viewWith key
        ⟨some valList, false, persist || (chkpt.keyView key).persist⟩) := by
  obtain ⟨chkpt', hrun⟩ := hsound.exists_containsKeyAndFree key
  unfold putOpPerform
  rw [hput]
  simp only [hrun]
  refine ⟨_, rfl, (changesAt_setChkpt ws1 c _).congr ?_⟩
  exact fun k => keyView_store hrun clientId valList persist k

theorem putOp_waitFor (hput : ws.put c = .ok (some chkpt, ws1)) (hsound : chkpt.Sound c)
    (hlookup : ws1.chkpts.lookup c = some chkpt) (clientId : ℕ) (persist : Bool)
    (key : KeyBytes) (valList : ValList) :
    SameKeys ws1 (putOpPerform ws clientId c persist key valList true).2 := by
  obtain ⟨chkpt', hrun⟩ := hsound.exists_containsKeyAndFree key
  unfold putOpPerform
  rw [hput]
  simp only [hrun, if_true]
  refine sameKeys_setChkpt hlookup ?_
  obtain ⟨hmap, hdeleted, hpersist, -⟩ := containsKeyAndFree_frame hrun
  intro k
  unfold Checkpoint.keyView
  rw [hmap, hdeleted, hpersist]

theorem batchPutOp_stores (hput : ws.put c = .ok (some chkpt, ws1)) (hsound : chkpt.Sound c)
    (clientId : ℕ) (persist : Bool) (key : KeyBytes) (valList : ValList) :
    ∃ ws', batchPutOpPerform ws clientId c persist key valList = (.ok (), ws') ∧
      ChangesAt ws1 ws' c (chkpt.viewWith key
        ⟨some valList, false, persist || (chkpt.keyView key).persist⟩) := by
  obtain ⟨chkpt', hrun⟩ := hsound.exists_containsKeyAndFree key
  unfold batchPutOpPerform
  rw [hput]
  simp only [hrun]
  refine ⟨_, rfl, (changesAt_setChkpt ws1 c _).congr ?_⟩
  exact fun k => keyView_store hrun clientId valList persist k

theorem clearOp_empties (haccess : ws.access c = .ok (some chkpt, ws1)) (clientId : ℕ) :
    ∃ ws', clearOpPerform ws clientId c = (.ok true, ws') ∧
      ChangesAt ws1 ws' c fun _ => KeyView.empty := by
  unfold clearOpPerform
  rw [haccess]
  refine ⟨_, rfl, ChangesAt.sameKeys ?_ (sameKeys_updateWriterCheckpoint _ clientId c)⟩
  exact (changesAt_setChkpt ws1 c chkpt.clear).congr fun _ => rfl

theorem ChangesAt.trans {view view' : KeyBytes → KeyView} {ws2 : WorkingSet}
    (h : ChangesAt ws ws1 c view) (h' : ChangesAt ws1 ws2 c view') : ChangesAt ws ws2 c view' := by
  refine ⟨h'.nextId_eq.trans h.nextId_eq, h'.size_eq.trans h.size_eq, ?_⟩
  intro key i
  rw [h'.view_eq, h.view_eq]
  by_cases hi : i = c
  · rw [if_pos hi, if_pos hi]
  · rw [if_neg hi, if_neg hi, if_neg hi]

theorem changesAt_setValue {view : KeyBytes → KeyView} (h : ChangesAt ws ws1 c view)
    (key : KeyBytes) (valList : ValList) :
    ChangesAt ws (ws1.setValue c key valList) c fun k =>
      if k = key then ⟨some valList, (view key).deleted, (view key).persist⟩ else view k := by
  have hview : ∀ k, keyViewAt ws1 k c = some (view k) := by
    intro k
    rw [h.view_eq, if_pos rfl]
  cases hlookup : ws1.chkpts.lookup c with
  | none =>
    have hnone := hview key
    unfold keyViewAt at hnone
    rw [hlookup] at hnone
    cases hnone
  | some chkpt =>
    have hchkpt : ∀ k, chkpt.keyView k = view k := by
      intro k
      have hk := hview k
      rw [keyViewAt_of_lookup hlookup] at hk
      exact Option.some.inj hk
    unfold WorkingSet.setValue
    rw [hlookup]
    refine h.trans ((changesAt_setChkpt ws1 c _).congr ?_)
    intro k
    rw [← hchkpt, ← hchkpt]
    unfold Checkpoint.keyView
    by_cases hk : k = key
    · subst hk
      rw [if_pos rfl, AList.lookup_insert]
    · rw [if_neg hk, AList.lookup_insert_ne hk]

/-- The keys of a checkpoint when the answer of a `fetch_add` is sent. -/
theorem keyView_fetchAddStart (pickler : XPickler) (chkpt : Checkpoint) (key : KeyBytes) :
    ∃ valList, ∀ k, (chkpt.fetchAddStart pickler key).keyView k = chkpt.viewWith key
      ⟨some valList, (chkpt.keyView key).deleted,
        (chkpt.keyView key).persist || (chkpt.keyView key).value.isNone⟩ k := by
  unfold Checkpoint.fetchAddStart Checkpoint.viewWith Checkpoint.keyView
  by_cases hkey : key ∈ chkpt.map
  · obtain ⟨valList, hlookup⟩ := Option.isSome_iff_exists.mp (AList.lookup_isSome.mpr hkey)
    refine ⟨valList, ?_⟩
    intro k
    rw [if_pos hkey]
    by_cases hk : k = key
    · subst hk
      rw [if_pos rfl, hlookup]
      simp
    · rw [if_neg hk]
  · refine ⟨[pickler.zeroBytes], ?_⟩
    intro k
    rw [if_neg hkey]
    by_cases hk : k = key
    · subst hk
      rw [if_pos rfl, AList.lookup_insert, AList.lookup_eq_none.mpr hkey]
      simp
    · rw [if_neg hk, AList.lookup_insert_ne hk]
      simp [hk]

/-- A `fetch_add` that finds its checkpoint fails on a value that it cannot read, and else
leaves a value for the key, whatever happens after its answer. -/
theorem fetchAdd_stores (pickler : XPickler) (hput : ws.put c = .ok (some chkpt, ws1))
    (hsound : chkpt.Sound c) (clientId : ℕ) (key : KeyBytes) (fetchAddVal : ℤ) :
    fetchAddPerform pickler ws clientId c key fetchAddVal = (.failed, ws1) ∧ key ∈ chkpt.map ∨
    ∃ result ws' valList, fetchAddPerform pickler ws clientId c key fetchAddVal = (result, ws') ∧
      ChangesAt ws1 ws' c (chkpt.viewWith key ⟨some valList, (chkpt.keyView key).deleted,
        (chkpt.keyView key).persist || (chkpt.keyView key).value.isNone⟩) := by
  obtain ⟨first, hfirst⟩ := keyView_fetchAddStart pickler chkpt key
  have hstart : ChangesAt ws1 ((ws1.setChkpt c (chkpt.fetchAddStart pickler key)).updateWriterCheckpoint
      clientId c) c (chkpt.viewWith key ⟨some first, (chkpt.keyView key).deleted,
        (chkpt.keyView key).persist || (chkpt.keyView key).value.isNone⟩) :=
    ((changesAt_setChkpt ws1 c _).congr hfirst).sameKeys (sameKeys_updateWriterCheckpoint _ _ _)
  have hset : ∀ valList, ChangesAt ws1
      (((ws1.setChkpt c (chkpt.fetchAddStart pickler key)).updateWriterCheckpoint
        clientId c).setValue c key valList) c (chkpt.viewWith key ⟨some valList,
          (chkpt.keyView key).deleted,
          (chkpt.keyView key).persist || (chkpt.keyView key).value.isNone⟩) := by
    intro valList
    refine (changesAt_setValue hstart key valList).congr ?_
    intro k
    unfold Checkpoint.viewWith
    by_cases hk : k = key
    · rw [if_pos hk, if_pos hk, if_pos rfl]
    · rw [if_neg hk, if_neg hk, if_neg hk]
  unfold fetchAddPerform
  rw [hput]
  simp only [hsound.containsKey_eq]
  split
  · rename_i hvalue
    refine Or.inl ⟨rfl, ?_⟩
    by_contra hkey
    rw [if_neg (by simpa using hkey)] at hvalue
    cases hvalue
  · right
    split
    · exact ⟨_, _, first, rfl, hstart⟩
    · split
      · exact ⟨_, _, [], rfl, hset []⟩
      · rename_i bytes hbytes
        exact ⟨_, _, [bytes], rfl, hset [bytes]⟩

/-- A key of the checkpoint itself is found there. -/
theorem WindowInv.get_of_mem (h : WindowInv size waitForKeys ws) (deferredOps : Finset ℕ)
    (hlookup : ws.chkpts.lookup c = some chkpt) (hkey : key ∈ chkpt.map) :
    ws.get deferredOps key c = .ok (some chkpt) := by
  have hpos := h.size_pos
  have hle := h.size_le
  have holdest := h.oldest_eq
  have hnewest := h.newest_eq
  have hmem : c ∈ ws.chkpts := by
    rw [← AList.lookup_isSome, hlookup]
    rfl
  obtain ⟨h1, h2⟩ := (h.mem_iff c).mp hmem
  have hwaits : ws.getWaits deferredOps key c = .ok false := by
    unfold WorkingSet.getWaits
    rw [if_neg (by omega)]
  unfold WorkingSet.get
  rw [if_neg (by omega), hwaits]
  simp only
  rw [min_eq_left (by omega), show c + 1 - ws.oldestChkptId = c - ws.oldestChkptId + 1 by omega,
    List.range'_1_concat, List.reverse_append, List.reverse_singleton, List.singleton_append,
    show ws.oldestChkptId + (c - ws.oldestChkptId) = c by omega, WorkingSet.getLoop, hlookup]
  simp only
  have hid := (h.sound c chkpt hlookup).id_eq
  rw [if_pos hkey, if_neg (by omega)]

theorem getLoop_lookup {chkptId : ℕ} {ids : List ℕ}
    (hrun : ws.getLoop key chkptId ids = .ok (some (some chkpt))) :
    ∃ i ∈ ids, ws.chkpts.lookup i = some chkpt := by
  induction ids with
  | nil => cases hrun
  | cons i ids ih =>
    rw [WorkingSet.getLoop] at hrun
    split at hrun
    · cases hrun
    · rename_i found hlookup
      split at hrun
      · split at hrun
        · cases hrun
        · cases hrun
          exact ⟨i, List.mem_cons_self, hlookup⟩
      · split at hrun
        · cases hrun
          exact ⟨i, List.mem_cons_self, hlookup⟩
        · obtain ⟨j, hj, hfound⟩ := ih hrun
          exact ⟨j, List.mem_cons_of_mem _ hj, hfound⟩

theorem getDefault_lookup (hrun : ws.getDefault key c = .ok (some chkpt)) :
    ws.chkpts.lookup ws.oldestChkptId = some chkpt ∨ ws.chkpts.lookup c = some chkpt := by
  unfold WorkingSet.getDefault at hrun
  split at hrun
  · cases hrun
  · rename_i oldest holdest _
    cases hrun
    exact Or.inl holdest
  · rename_i oldest found _ hfound
    split at hrun
    · cases hrun
    · cases hrun
      exact Or.inr hfound

/-- `WorkingSet.get` returns a checkpoint of the window that is not newer than the id. -/
theorem get_lookup {deferredOps : Finset ℕ}
    (hrun : ws.get deferredOps key c = .ok (some chkpt)) :
    ws.oldestChkptId ≤ c ∧ ∃ i ≤ c, ws.chkpts.lookup i = some chkpt := by
  unfold WorkingSet.get at hrun
  by_cases hold : c < ws.oldestChkptId
  · rw [if_pos hold] at hrun
    cases hrun
  · rw [if_neg hold] at hrun
    refine ⟨not_lt.mp hold, ?_⟩
    split at hrun
    · cases hrun
    · cases hrun
    · simp only at hrun
      split at hrun
      · cases hrun
      · rename_i found hloop
        cases hrun
        obtain ⟨i, hi, hlookup⟩ := getLoop_lookup hloop
        rw [List.mem_reverse, List.mem_range'_1] at hi
        exact ⟨i, by omega, hlookup⟩
      · rcases getDefault_lookup hrun with hlookup | hlookup
        · exact ⟨ws.oldestChkptId, not_lt.mp hold, hlookup⟩
        · exact ⟨c, le_rfl, hlookup⟩

/-- `PopOp.perform` answers `SUCCESS`. -/
def popSucceeds (ws : WorkingSet) (deferredOps : Finset ℕ) (chkptId : ℕ) (key : KeyBytes) :
    Bool :=
  match ws.get deferredOps key chkptId with
  | .ok (some chkpt) =>
    match chkpt.containsKey key with
    | .ok found => found && decide (chkptId ≤ ws.newestChkptId)
    | .error _ => false
  | _ => false

/-- The keys of a checkpoint after a pop: a key of the checkpoint itself is taken out, and
leaves a tombstone if it persists; a key of an older checkpoint gets a tombstone. -/
def Checkpoint.popView (chkpt : Checkpoint) (key : KeyBytes) : KeyView :=
  if key ∈ chkpt.map then
    ⟨none, (chkpt.keyView key).persist || (chkpt.keyView key).deleted, false⟩
  else ⟨none, true, (chkpt.keyView key).persist⟩

theorem keyView_transferOwnership (hkey : key ∈ chkpt.map) (k : KeyBytes) :
    (chkpt.transferOwnership key).keyView k = chkpt.viewWith key (chkpt.popView key) k := by
  unfold Checkpoint.transferOwnership Checkpoint.viewWith Checkpoint.popView
  rw [if_pos hkey]
  by_cases hk : k = key
  · subst hk
    rw [if_pos rfl]
    by_cases hpersist : k ∈ chkpt.persist
    · simp [Checkpoint.keyView, hpersist]
    · simp [Checkpoint.keyView, hpersist]
  · rw [if_neg hk]
    by_cases hpersist : key ∈ chkpt.persist
    · simp [Checkpoint.keyView, hpersist, hk, AList.lookup_erase_ne hk]
    · simp [Checkpoint.keyView, hpersist, AList.lookup_erase_ne hk]

/-- **`PopOp.perform`** leaves the keys alone, or answers `SUCCESS` and changes the key in
the checkpoint of the pop. -/
theorem WindowInv.popOp_cases (h : WindowInv size waitForKeys ws) (deferredOps : Finset ℕ)
    (clientId c : ℕ) (key : KeyBytes) :
    popSucceeds ws deferredOps c key = false ∧
      (popOpPerform ws deferredOps clientId c key).2 = ws ∨
    popSucceeds ws deferredOps c key = true ∧ ∃ chkpt chkpt', ws.chkpts.lookup c = some chkpt ∧
      popOpPerform ws deferredOps clientId c key = (.ok true, ws.setChkpt c chkpt') ∧
      chkpt'.writers = insert clientId chkpt.writers ∧
      ∀ k, chkpt'.keyView k = chkpt.viewWith key (chkpt.popView key) k := by
  have hpos := h.size_pos
  have hle := h.size_le
  have hnewest := h.newest_eq
  unfold popOpPerform popSucceeds
  rcases hget : ws.get deferredOps key c with e | (_ | found)
  · exact Or.inl ⟨rfl, rfl⟩
  · exact Or.inl ⟨rfl, rfl⟩
  · simp only
    obtain ⟨hold, i, hic, hfound⟩ := get_lookup hget
    have hid := (h.sound i found hfound).id_eq
    rw [(h.sound i found hfound).containsKey_eq]
    by_cases hkey : key ∈ found.map
    · rw [decide_eq_true hkey]
      simp only [Bool.true_and]
      by_cases hnew : ws.newestChkptId < c
      · rw [if_pos hnew]
        exact Or.inl ⟨by simpa using hnew, rfl⟩
      · rw [if_neg hnew]
        refine Or.inr ⟨by simpa using hnew, ?_⟩
        obtain ⟨current, hcurrent⟩ := h.lookup_of_mem (i := c) (by rw [← h.oldest_eq]; exact hold)
          (by omega)
        have haccess : ws.access c = .ok (some current, ws) := by
          rcases h.put_cases c with ⟨hlt, -⟩ | ⟨-, ws', -, hrun, hsame, -⟩
          · omega
          · rw [h.access_eq_put, hrun, hsame (by omega), hcurrent]
        rw [haccess]
        simp only
        by_cases hearlier : found.id < c
        · -- found in an earlier checkpoint, so not in this one
          have hnot : key ∉ current.map := by
            intro hin
            rw [h.get_of_mem deferredOps hcurrent hin] at hget
            cases hget
            have := (h.sound c _ hcurrent).id_eq
            omega
          rw [if_pos hearlier]
          refine ⟨current, _, hcurrent, rfl, rfl, ?_⟩
          intro k
          unfold Checkpoint.viewWith Checkpoint.popView
          rw [if_neg hnot]
          by_cases hk : k = key
          · subst hk
            simp [Checkpoint.keyView, AList.lookup_eq_none.mpr hnot]
          · simp [Checkpoint.keyView, hk]
        · have hsame : i = c := by omega
          subst hsame
          rw [hfound] at hcurrent
          cases hcurrent
          rw [if_neg hearlier]
          have hkeys : key ∈ ({ found with
              writers := insert clientId found.writers } : Checkpoint).map := hkey
          refine ⟨found, _, hfound, rfl, ?_, fun k => keyView_transferOwnership hkeys k⟩
          unfold Checkpoint.transferOwnership
          simp only
          split
          · rfl
          · rfl
    · rw [decide_eq_false hkey]
      exact Or.inl ⟨rfl, rfl⟩

end Views

/-! ## What an advance changes -/

/-- What a key is in the checkpoint with id `i`; nothing outside the window. -/
def viewAt (ws : WorkingSet) (key : KeyBytes) (i : ℕ) : KeyView :=
  (keyViewAt ws key i).getD KeyView.empty

/-- A key of the child after the retirement of the parent. -/
def KeyView.inherit (waitForKeys : Bool) (parent child : KeyView) : KeyView :=
  if child.value.isSome ∨ child.deleted = true ∨ parent.value = none then
    ⟨child.value, false, child.persist⟩
  else ⟨parent.value, false, child.persist || waitForKeys⟩

section AdvanceViews

variable {size : ℕ} {waitForKeys : Bool} {ws ws' : WorkingSet} {parent child chkpt : Checkpoint}
  {key : KeyBytes} {c : ℕ}

/-- **A key of the child** after a retirement. -/
theorem keyView_inherit (waitForKeys : Bool) (parent child : Checkpoint) (key : KeyBytes) :
    (Checkpoint.inherit waitForKeys parent child).keyView key
      = KeyView.inherit waitForKeys (parent.keyView key) (child.keyView key) := by
  have hlookup := Checkpoint.lookup_inherit waitForKeys parent child key
  have hdeleted : key ∉ (Checkpoint.inherit waitForKeys parent child).deleted :=
    Finset.notMem_empty key
  unfold KeyView.inherit Checkpoint.keyView
  simp only [AList.lookup_isSome, AList.lookup_eq_none, decide_eq_true_eq]
  by_cases hkept : key ∈ child.map ∨ key ∈ child.deleted ∨ key ∉ parent.map
  · rw [if_pos hkept, hlookup, decide_eq_false hdeleted,
      decide_eq_decide.mpr (Checkpoint.persist_inherit_of_kept waitForKeys hkept)]
    congr 1
    by_cases hchild : key ∈ child.map
    · rw [if_pos hchild]
    · rw [if_neg hchild, AList.lookup_eq_none.mpr hchild]
      rcases hkept with hmem | hmem | hmem
      · exact absurd hmem hchild
      · rw [if_pos hmem]
      · rw [AList.lookup_eq_none.mpr hmem, ite_self]
  · rw [if_neg hkept]
    rw [not_or, not_or, not_not] at hkept
    obtain ⟨hchild, hdel, hparent⟩ := hkept
    rw [hlookup, if_neg hchild, if_neg hdel, decide_eq_false hdeleted,
      decide_eq_decide.mpr
        (Checkpoint.persist_inherit_of_taken waitForKeys hparent hchild hdel)]
    congr 1
    rw [Bool.decide_or, Bool.decide_eq_true]

theorem viewAt_of_lookup (hlookup : ws.chkpts.lookup c = some chkpt) (key : KeyBytes) :
    viewAt ws key c = chkpt.keyView key := by
  unfold viewAt
  rw [keyViewAt_of_lookup hlookup]
  rfl

/-- A new working set has no keys. -/
theorem viewAt_init (start size : ℕ) (waitForKeys waitForWriters : Bool) (key : KeyBytes) (i : ℕ) :
    viewAt (WorkingSet.init start size waitForKeys waitForWriters) key i = KeyView.empty := by
  unfold viewAt keyViewAt
  rw [lookup_init]
  split
  · rfl
  · rfl

theorem SameKeys.viewAt_eq (h : SameKeys ws ws') (key : KeyBytes) (i : ℕ) :
    viewAt ws' key i = viewAt ws key i := by
  unfold viewAt
  rw [h.view_eq]

theorem ChangesAt.viewAt_eq {view : KeyBytes → KeyView} (h : ChangesAt ws ws' c view)
    (key : KeyBytes) (i : ℕ) :
    viewAt ws' key i = if i = c then view key else viewAt ws key i := by
  unfold viewAt
  rw [h.view_eq]
  by_cases hi : i = c
  · rw [if_pos hi, if_pos hi]
    rfl
  · rw [if_neg hi, if_neg hi]

/-- The checkpoint that an advance adds has no keys, as if it were not there. -/
theorem WindowInv.viewAt_insert (h : WindowInv size waitForKeys ws) (key : KeyBytes) (i : ℕ) :
    viewAt ws key i = (((ws.chkpts.insert ws.nextId (Checkpoint.init ws.nextId)).lookup i).map
      fun chkpt => chkpt.keyView key).getD KeyView.empty := by
  unfold viewAt keyViewAt
  by_cases hi : i = ws.nextId
  · have hout : ws.chkpts.lookup ws.nextId = none := by
      rw [AList.lookup_eq_none, h.mem_iff]
      omega
    rw [hi, hout, AList.lookup_insert]
    rfl
  · rw [AList.lookup_insert_ne hi]

theorem Advanced.viewAt_child (h : WindowInv size waitForKeys ws)
    (hadv : Advanced ws ws' parent child) (key : KeyBytes) :
    viewAt ws key (ws.oldestChkptId + 1) = child.keyView key := by
  rw [h.viewAt_insert, hadv.child_eq]
  rfl

/-- With `wait_for_keys`, a key that does not persist is in the child when its checkpoint
retires. -/
theorem Advanced.persistent_view (h : WindowInv size true ws)
    (hadv : Advanced ws ws' parent child)
    (hvalue : (viewAt ws key ws.oldestChkptId).value.isSome)
    (hpersist : (viewAt ws key ws.oldestChkptId).persist = false) :
    (viewAt ws key (ws.oldestChkptId + 1)).value.isSome := by
  rw [hadv.viewAt_child h]
  rw [viewAt_of_lookup hadv.parent_eq] at hvalue hpersist
  refine AList.lookup_isSome.mpr (hadv.persistent h.waitForKeys_eq key ?_ ?_)
  · exact AList.lookup_isSome.mp hvalue
  · exact of_decide_eq_false hpersist

/-- **An advance** merges the two oldest checkpoints, key by key. -/
theorem Advanced.viewAt_eq (h : WindowInv size waitForKeys ws)
    (hadv : Advanced ws ws' parent child) (key : KeyBytes) {i : ℕ} (hi : ws.oldestChkptId < i) :
    viewAt ws' key i = if i = ws.oldestChkptId + 1 then
        KeyView.inherit waitForKeys (viewAt ws key ws.oldestChkptId)
          (viewAt ws key (ws.oldestChkptId + 1))
      else viewAt ws key i := by
  by_cases hchild : i = ws.oldestChkptId + 1
  · subst hchild
    rw [if_pos rfl, viewAt_of_lookup hadv.lookup_child, keyView_inherit, h.waitForKeys_eq,
      viewAt_of_lookup hadv.parent_eq, hadv.viewAt_child h]
  · rw [if_neg hchild, h.viewAt_insert]
    unfold viewAt keyViewAt
    rw [hadv.lookup_other i (by omega) hchild]

theorem WindowInv.viewAt_outside (h : WindowInv size waitForKeys ws) (key : KeyBytes) {i : ℕ}
    (hi : i < ws.oldestChkptId ∨ ws.nextId ≤ i) : viewAt ws key i = KeyView.empty := by
  have holdest := h.oldest_eq
  have hout : ws.chkpts.lookup i = none := by
    rw [AList.lookup_eq_none, h.mem_iff]
    omega
  unfold viewAt keyViewAt
  rw [hout]
  rfl

end AdvanceViews

/-! ## One call -/

/-- The checkpoint id of a call. -/
def DictCall.chkptId? : DictCall → Option ℕ
  | .put _ chkptId _ _ _ _ => some chkptId
  | .batchPut _ chkptId _ _ _ => some chkptId
  | .get _ _ chkptId _ => some chkptId
  | .fetchAdd _ chkptId _ _ => some chkptId
  | .pop _ _ chkptId _ => some chkptId
  | .read _ chkptId => some chkptId
  | .clear _ chkptId => some chkptId
  | .access chkptId => some chkptId
  | .advance => none

/-- The call turns the keys of its checkpoint `chkpt`, with id `c`, into `view`. -/
def DictCall.Changes (call : DictCall) (c : ℕ) (chkpt : Checkpoint) (view : KeyBytes → KeyView) :
    Prop :=
  match call with
  | .put _ chkptId persist key valList waitFor =>
    chkptId = c ∧ waitFor = false ∧ view = chkpt.viewWith key
      ⟨some valList, false, persist || (chkpt.keyView key).persist⟩
  | .batchPut _ chkptId persist key valList =>
    chkptId = c ∧ view = chkpt.viewWith key
      ⟨some valList, false, persist || (chkpt.keyView key).persist⟩
  | .fetchAdd _ chkptId key _ =>
    chkptId = c ∧ ∃ valList, view = chkpt.viewWith key ⟨some valList,
      (chkpt.keyView key).deleted,
      (chkpt.keyView key).persist || (chkpt.keyView key).value.isNone⟩
  | .pop _ _ chkptId key => chkptId = c ∧ view = chkpt.viewWith key (chkpt.popView key)
  | .clear _ chkptId => chkptId = c ∧ view = fun _ => KeyView.empty
  | _ => False

/-- The call changes no key in `ws`: its checkpoint does not exist, or it finds nothing to
do there. -/
def DictCall.Idle (call : DictCall) (ws : WorkingSet) : Prop :=
  match call with
  | .put _ chkptId _ _ _ waitFor => waitFor = false → ws.chkpts.lookup chkptId = none
  | .batchPut _ chkptId _ _ _ => ws.chkpts.lookup chkptId = none
  | .fetchAdd _ chkptId key _ =>
    ws.chkpts.lookup chkptId = none ∨ (viewAt ws key chkptId).value.isSome
  | .pop deferredOps _ chkptId key => popSucceeds ws deferredOps chkptId key = false
  | .clear _ chkptId => ws.chkpts.lookup chkptId = none
  | _ => True

section Calls

variable {size : ℕ} {waitForKeys : Bool} {ws ws' : WorkingSet} {chkpt : Checkpoint}
  {key : KeyBytes} {c : ℕ}

theorem Checkpoint.Sound.fetchAddStart (hsound : chkpt.Sound c) (pickler : XPickler)
    (key : KeyBytes) : (chkpt.fetchAddStart pickler key).Sound c := by
  unfold Checkpoint.fetchAddStart
  split
  · exact hsound
  · refine ⟨hsound.id_eq, ?_⟩
    intro k hk
    rcases (AList.mem_insert _).mp hk with rfl | hk
    · exact Finset.mem_insert_self _ _
    · exact Finset.mem_insert_of_mem (hsound.allocs k hk)

theorem WindowInv.setValue (h : WindowInv size waitForKeys ws) {valList : ValList}
    (hkey : ∀ chkpt, ws.chkpts.lookup c = some chkpt → key ∈ chkpt.keyAllocs) :
    WindowInv size waitForKeys (ws.setValue c key valList) := by
  unfold WorkingSet.setValue
  cases hlookup : ws.chkpts.lookup c with
  | none => exact h
  | some chkpt =>
    have hsound := h.sound c chkpt hlookup
    refine h.setChkpt ?_ ⟨hsound.id_eq, ?_⟩
    · rw [← AList.lookup_isSome, hlookup]
      rfl
    · intro k hk
      rcases (AList.mem_insert _).mp hk with rfl | hk
      · exact hkey chkpt hlookup
      · exact hsound.allocs k hk

theorem keyAllocs_updateWriterCheckpoint (ws : WorkingSet) (clientId chkptId i : ℕ) :
    ((ws.updateWriterCheckpoint clientId chkptId).chkpts.lookup i).map Checkpoint.keyAllocs
      = (ws.chkpts.lookup i).map Checkpoint.keyAllocs := by
  have hfold : ∀ (ids : List ℕ) (ws : WorkingSet), ((ids.foldl (fun ws i =>
        match ws.chkpts.lookup i with
        | some chkpt => ws.setChkpt i { chkpt with writers := insert clientId chkpt.writers }
        | none => ws) ws).chkpts.lookup i).map Checkpoint.keyAllocs
      = (ws.chkpts.lookup i).map Checkpoint.keyAllocs := by
    intro ids
    induction ids with
    | nil => exact fun ws => rfl
    | cons j ids ih =>
      intro ws
      rw [List.foldl_cons, ih]
      cases hlookup : ws.chkpts.lookup j with
      | none => rfl
      | some chkpt =>
        unfold WorkingSet.setChkpt
        by_cases hij : i = j
        · subst hij
          rw [AList.lookup_insert, hlookup]
          rfl
        · rw [AList.lookup_insert_ne hij]
  unfold WorkingSet.updateWriterCheckpoint
  simp only
  split
  · exact hfold _ ws
  · rfl

theorem WindowInv.fetchAdd (h : WindowInv size waitForKeys ws) (pickler : XPickler)
    (clientId c : ℕ) (key : KeyBytes) (fetchAddVal : ℤ) :
    WindowInv size waitForKeys (fetchAddPerform pickler ws clientId c key fetchAddVal).2 := by
  unfold fetchAddPerform
  split
  · exact h
  · rename_i ws1 hrun
    exact (h.of_put hrun).1
  · rename_i chkpt ws1 hrun
    obtain ⟨hinv, hchkpt⟩ := h.of_put hrun
    obtain ⟨hmem, hsound⟩ := hchkpt chkpt rfl
    simp only [hsound.containsKey_eq]
    have hstart := hsound.fetchAddStart pickler key
    have hinv2 := (hinv.setChkpt hmem hstart).updateWriterCheckpoint clientId c
    have hkey : key ∈ (chkpt.fetchAddStart pickler key).keyAllocs := by
      refine hstart.allocs key ?_
      unfold Checkpoint.fetchAddStart
      split
      · assumption
      · exact (AList.mem_insert _).mpr (Or.inl rfl)
    have hset : ∀ valList, WindowInv size waitForKeys
        (((ws1.setChkpt c (chkpt.fetchAddStart pickler key)).updateWriterCheckpoint
          clientId c).setValue c key valList) := by
      intro valList
      refine hinv2.setValue ?_
      intro chkpt' hlookup
      have hallocs := keyAllocs_updateWriterCheckpoint
        (ws1.setChkpt c (chkpt.fetchAddStart pickler key)) clientId c c
      rw [hlookup] at hallocs
      unfold WorkingSet.setChkpt at hallocs
      rw [AList.lookup_insert] at hallocs
      rw [Option.some.inj hallocs]
      exact hkey
    split
    · exact hinv
    · split
      · exact hinv2
      · split
        · exact hset []
        · exact hset _

/-- **Step lemma.**  Every call keeps the window. -/
theorem WindowInv.dictCall (h : WindowInv size waitForKeys ws) (pickler : XPickler)
    (call : DictCall) : WindowInv size waitForKeys (dictStep pickler ws call) := by
  cases call with
  | put => exact h.putOp ..
  | batchPut => exact h.batchPutOp ..
  | get =>
    unfold dictStep
    simp only
    split
    · exact h.updateWriterCheckpoint ..
    · exact h
  | fetchAdd => exact h.fetchAdd ..
  | pop => exact h.popOp ..
  | read => exact h.updateWriterCheckpoint ..
  | clear => exact h.clearOp ..
  | access chkptId =>
    unfold dictStep
    simp only [h.access_eq_put]
    split
    · exact h
    · rename_i found ws' hrun
      exact (h.of_put hrun).1
  | advance =>
    unfold dictStep
    rcases h.advance_cases with hrun | ⟨ws', parent, child, hrun, hadv⟩
    · simp only [hrun]
      exact h
    · simp only [hrun]
      exact h.advanced hadv

/-- **Run lemma.** -/
theorem windowInv_calls (pickler : XPickler) (start : ℕ) {size : ℕ} (hsize : 0 < size)
    (waitForKeys waitForWriters : Bool) (calls : List DictCall) :
    WindowInv size waitForKeys (calls.foldl (dictStep pickler)
      (WorkingSet.init start size waitForKeys waitForWriters)) := by
  exact List.foldlRecOn calls (dictStep pickler)
    (windowInv_init start hsize waitForKeys waitForWriters) fun ws h call _ =>
      h.dictCall pickler call

/-- A call that looks for its checkpoint with `put` or `access` advances, and finds what
there is. -/
theorem WindowInv.put_found (h : WindowInv size waitForKeys ws) (c : ℕ) :
    ∃ ws1, Advances ws ws1 ∧ (c < ws.nextId → ws1 = ws) ∧
      (ws.put c = .error .checkpointSync ∧ ws1 = ws ∧ ws1.chkpts.lookup c = none ∨
        ws.put c = .ok (ws1.chkpts.lookup c, ws1)) := by
  rcases h.put_cases c with ⟨hold, hrun⟩ | ⟨hold, ws1, hadv, hrun, hsame, -, -⟩
  · refine ⟨ws, Advances.refl ws, fun _ => rfl, Or.inl ⟨hrun, rfl, ?_⟩⟩
    have holdest := h.oldest_eq
    rw [AList.lookup_eq_none, h.mem_iff]
    omega
  · exact ⟨ws1, hadv, hsame, Or.inr hrun⟩

/-- **What a call does**: it advances, and then changes the keys of one checkpoint or of
none.  It does not advance when its checkpoint id is before the end of the window. -/
theorem WindowInv.dictStep_cases (h : WindowInv size waitForKeys ws) (pickler : XPickler)
    (call : DictCall) :
    ∃ ws1, Advances ws ws1 ∧ (∀ c, call.chkptId? = some c → c < ws.nextId → ws1 = ws) ∧
      (call.Idle ws1 ∧ SameKeys ws1 (dictStep pickler ws call) ∨
        ∃ c chkpt view, ws.put c = .ok (some chkpt, ws1) ∧ ws1.chkpts.lookup c = some chkpt ∧
          call.Changes c chkpt view ∧ ChangesAt ws1 (dictStep pickler ws call) c view) := by
  have hstay : ∀ {c ws1}, (c < ws.nextId → ws1 = ws) →
      ∀ c', some c = some c' → c' < ws.nextId → ws1 = ws := by
    rintro c ws1 hsame c' ⟨⟩
    exact hsame
  cases call with
  | put clientId c persist key valList waitFor =>
    obtain ⟨ws1, hadv, hsame, hput⟩ := h.put_found c
    refine ⟨ws1, hadv, hstay hsame, ?_⟩
    unfold dictStep
    rcases hput with ⟨hrun, rfl, hnone⟩ | hrun
    · refine Or.inl ⟨fun _ => hnone, ?_⟩
      unfold putOpPerform
      simp only [hrun]
      exact SameKeys.refl _
    · cases hlookup : ws1.chkpts.lookup c with
      | none =>
        refine Or.inl ⟨fun _ => hlookup, ?_⟩
        unfold putOpPerform
        simp only [hrun, hlookup]
        exact SameKeys.refl _
      | some chkpt =>
        rw [hlookup] at hrun
        have hsound := (h.advances hadv).sound c chkpt hlookup
        cases waitFor with
        | true =>
          exact Or.inl ⟨nofun,
            putOp_waitFor hrun hsound hlookup clientId persist key valList⟩
        | false =>
          obtain ⟨ws2, hperform, hchanges⟩ :=
            putOp_stores hrun hsound clientId persist key valList
          refine Or.inr ⟨c, chkpt, _, hrun, hlookup, ⟨rfl, rfl, rfl⟩, ?_⟩
          simp only [hperform]
          exact hchanges
  | batchPut clientId c persist key valList =>
    obtain ⟨ws1, hadv, hsame, hput⟩ := h.put_found c
    refine ⟨ws1, hadv, hstay hsame, ?_⟩
    unfold dictStep
    rcases hput with ⟨hrun, rfl, hnone⟩ | hrun
    · refine Or.inl ⟨hnone, ?_⟩
      unfold batchPutOpPerform
      simp only [hrun]
      exact SameKeys.refl _
    · cases hlookup : ws1.chkpts.lookup c with
      | none =>
        refine Or.inl ⟨hlookup, ?_⟩
        unfold batchPutOpPerform
        simp only [hrun, hlookup]
        exact SameKeys.refl _
      | some chkpt =>
        rw [hlookup] at hrun
        have hsound := (h.advances hadv).sound c chkpt hlookup
        obtain ⟨ws2, hperform, hchanges⟩ :=
          batchPutOp_stores hrun hsound clientId persist key valList
        refine Or.inr ⟨c, chkpt, _, hrun, hlookup, ⟨rfl, rfl⟩, ?_⟩
        simp only [hperform]
        exact hchanges
  | get _ clientId c =>
    refine ⟨ws, Advances.refl ws, fun _ _ _ => rfl, Or.inl ⟨trivial, ?_⟩⟩
    unfold dictStep
    simp only
    split
    · exact sameKeys_updateWriterCheckpoint ws clientId c
    · exact SameKeys.refl ws
  | fetchAdd clientId c key fetchAddVal =>
    obtain ⟨ws1, hadv, hsame, hput⟩ := h.put_found c
    refine ⟨ws1, hadv, hstay hsame, ?_⟩
    unfold dictStep
    rcases hput with ⟨hrun, rfl, hnone⟩ | hrun
    · refine Or.inl ⟨Or.inl hnone, ?_⟩
      unfold fetchAddPerform
      simp only [hrun]
      exact SameKeys.refl _
    · cases hlookup : ws1.chkpts.lookup c with
      | none =>
        refine Or.inl ⟨Or.inl hlookup, ?_⟩
        unfold fetchAddPerform
        simp only [hrun, hlookup]
        exact SameKeys.refl _
      | some chkpt =>
        rw [hlookup] at hrun
        have hsound := (h.advances hadv).sound c chkpt hlookup
        rcases fetchAdd_stores pickler hrun hsound clientId key fetchAddVal with
          ⟨hperform, hkey⟩ | ⟨result, ws2, valList, hperform, hchanges⟩
        · simp only [hperform]
          refine Or.inl ⟨Or.inr ?_, SameKeys.refl ws1⟩
          rw [viewAt_of_lookup hlookup]
          exact AList.lookup_isSome.mpr hkey
        · simp only [hperform]
          exact Or.inr ⟨c, chkpt, _, hrun, hlookup, ⟨rfl, valList, rfl⟩, hchanges⟩
  | pop deferredOps clientId c key =>
    refine ⟨ws, Advances.refl ws, fun _ _ _ => rfl, ?_⟩
    unfold dictStep
    rcases h.popOp_cases deferredOps clientId c key with
      ⟨hfails, hperform⟩ | ⟨-, chkpt, chkpt', hlookup, hperform, -, hview⟩
    · simp only [hperform]
      exact Or.inl ⟨hfails, SameKeys.refl ws⟩
    · have hrun : ws.put c = .ok (some chkpt, ws) := by
        obtain ⟨ws1, -, hsame, ⟨-, rfl, hnone⟩ | hrun⟩ := h.put_found c
        · rw [hlookup] at hnone
          cases hnone
        · have hmem := (h.mem_iff c).mp (AList.lookup_isSome.mp (by rw [hlookup]; rfl))
          rw [hrun, hsame hmem.2, hlookup]
      refine Or.inr ⟨c, chkpt, _, hrun, hlookup, ⟨rfl, rfl⟩, ?_⟩
      simp only [hperform]
      exact (changesAt_setChkpt ws c chkpt').congr hview
  | read clientId c =>
    exact ⟨ws, Advances.refl ws, fun _ _ _ => rfl,
      Or.inl ⟨trivial, sameKeys_updateWriterCheckpoint ws clientId c⟩⟩
  | clear clientId c =>
    obtain ⟨ws1, hadv, hsame, hput⟩ := h.put_found c
    refine ⟨ws1, hadv, hstay hsame, ?_⟩
    rw [← h.access_eq_put] at hput
    unfold dictStep
    rcases hput with ⟨hrun, rfl, hnone⟩ | hrun
    · refine Or.inl ⟨hnone, ?_⟩
      unfold clearOpPerform
      simp only [hrun]
      exact SameKeys.refl _
    · cases hlookup : ws1.chkpts.lookup c with
      | none =>
        refine Or.inl ⟨hlookup, ?_⟩
        unfold clearOpPerform
        simp only [hrun, hlookup]
        exact SameKeys.refl _
      | some chkpt =>
        rw [hlookup] at hrun
        obtain ⟨ws2, hperform, hchanges⟩ := clearOp_empties hrun clientId
        rw [h.access_eq_put] at hrun
        refine Or.inr ⟨c, chkpt, _, hrun, hlookup, ⟨rfl, rfl⟩, ?_⟩
        simp only [hperform]
        exact hchanges
  | access c =>
    obtain ⟨ws1, hadv, hsame, hput⟩ := h.put_found c
    refine ⟨ws1, hadv, hstay hsame, Or.inl ⟨trivial, ?_⟩⟩
    rw [← h.access_eq_put] at hput
    unfold dictStep
    rcases hput with ⟨hrun, rfl, -⟩ | hrun
    · simp only [hrun]
      exact SameKeys.refl _
    · simp only [hrun]
      exact SameKeys.refl _
  | advance =>
    unfold dictStep
    rcases h.advance_cases with hrun | ⟨ws1, parent, child, hrun, -⟩
    · refine ⟨ws, Advances.refl ws, nofun, Or.inl ⟨trivial, ?_⟩⟩
      simp only [hrun]
      exact SameKeys.refl ws
    · refine ⟨ws1, Advances.step hrun (Advances.refl ws1), nofun, Or.inl ⟨trivial, ?_⟩⟩
      simp only [hrun]
      exact SameKeys.refl ws1

end Calls
