/-
# Waiting for a value (`PutOp` with `waitFor` in `dragon/data/ddict/manager.py`)

A `wait_for` is a put that stores nothing: it is performed when the value of its key is the
one that it waits for, and else it is deferred and performed again at every put for its
checkpoint.  A manager that receives puts for one checkpoint and a `wait_for` among them is
followed here.  An attempt that finds no key leaves the key in `key_allocs`, and one that finds
another value frees the key and the value of the operation, so that the next attempt raises:
the `wait_for` is right iff the value is there when it arrives, or is another one and no put
follows (`manager_wait_for_iff`).
-/
import DragonRuntime.ManagerSteps

open WorkingSet

/-- The bytes that are stored for the key at the checkpoint. -/
def WorkingSet.storedBytes (ws : WorkingSet) (chkptId : ℕ) (key : KeyBytes) :
    Option (List UInt8) :=
  (ws.chkpts.lookup chkptId).bind fun chkpt => (chkpt.map.lookup key).map valueToBytes

/-- Whether an attempt to perform the operation frees its key and its value: it is a `wait_for`
that finds its key (`contains_key_and_free` and the loop of `PutOp._perform`).  When they are
freed already, the lookup of the key raises first. -/
def DictOp.frees (ws : WorkingSet) : DictOp → Bool
  | .put _ _ chkptId _ key _ true false =>
    match ws.put chkptId with
    | .ok (some chkpt, _) => decide (key ∈ chkpt.map)
    | _ => false
  | _ => false

/-- How often the attempts to perform the operation free its key and its value, when they find
these working sets one after another. -/
def DictOp.freesOver (pickler : XPickler) : DictOp → List WorkingSet → ℕ
  | _, [] => 0
  | op, ws :: later =>
    (op.frees ws).toNat +
      match (op.perform pickler ∅ .none ws).result with
      | .waits op' => op'.freesOver pickler later
      | _ => 0

/-- The data of a put, and the request for a checkpoint. -/
structure PutRequest where
  clientId : ℕ
  persist : Bool
  key : KeyBytes
  valList : ValList

def PutRequest.request (chkptId : ℕ) (put : PutRequest) : Request × Faults :=
  (.put put.clientId chkptId put.persist put.key put.valList false, Faults.none)

/-- A `wait_for` that manager `m` receives, with the manager after it and after the later
requests. -/
structure WaitsFor (pickler : XPickler) (m waiting : Manager) (clientId chkptId : ℕ)
    (key : KeyBytes) (valList : ValList) (later : List (Request × Faults)) : Prop where
  /-- it is answered at the first attempt that finds its value -/
  answered : (∃ pre, pre <+: later ∧
      (pre.foldl (Manager.step pickler) waiting).workingSet.storedBytes chkptId key
        = some (valueToBytes valList)) →
    ((later.foldl (Manager.step pickler) waiting).answers.drop m.answers.length).filter
      (fun answer => decide (answer.ref = m.received)) = [⟨m.received, .success, .nothing⟩]
  /-- and at none before -/
  unanswered : (∀ pre, pre <+: later →
      (pre.foldl (Manager.step pickler) waiting).workingSet.storedBytes chkptId key
        ≠ some (valueToBytes valList)) →
    ((later.foldl (Manager.step pickler) waiting).answers.drop m.answers.length).filter
      (fun answer => decide (answer.ref = m.received)) = []
  /-- its attempts free its key and its value at most once -/
  freed : ∀ found, (DictOp.put m.received clientId chkptId false key valList true false).freesOver
    pickler found ≤ 1
  /-- and they leave the map and `key_allocs` with the same keys -/
  keySets : ∀ chkpt, (later.foldl (Manager.step pickler) waiting).workingSet.chkpts.lookup chkptId
    = some chkpt → chkpt.keyAllocs = chkpt.mapKeys

/-- The value that puts leave for a key that had `value`. -/
def valueAfter (key : KeyBytes) (value : Option ValList) (puts : List PutRequest) : Option ValList :=
  puts.foldl (fun value put => if put.key = key then some put.valList else value) value

/-- No checkpoint has a key or a writer. -/
def WorkingSet.Blank (ws : WorkingSet) : Prop :=
  ∀ i chkpt, ws.chkpts.lookup i = some chkpt →
    chkpt.map = ∅ ∧ chkpt.keyAllocs = ∅ ∧ chkpt.writers = ∅

section WaitFor

variable {size : ℕ} {waitForKeys : Bool} {pickler : XPickler} {m : Manager} {ws ws1 : WorkingSet}
  {chkpt : Checkpoint} {c tag clientId : ℕ} {persist : Bool} {key : KeyBytes} {valList : ValList}

/-! ## The attempts -/

/-- A `wait_for` that waits after an attempt has its memory freed if this attempt frees it or it
was freed before. -/
theorem waits_freed {freed : Bool} {op' : DictOp}
    (hwaits : (putPerform .none ws tag clientId c persist key valList true freed).result
      = .waits op') :
    ∃ freed', op' = .put tag clientId c persist key valList true freed' ∧
      (DictOp.frees ws (.put tag clientId c persist key valList true freed) || freed) ≤ freed' := by
  unfold putPerform putTry at hwaits
  cases hput : ws.put c with
  | error e =>
    rw [hput] at hwaits
    cases e <;> cases hwaits
  | ok found =>
    obtain ⟨found, ws1⟩ := found
    simp only [hput, Fault.raises] at hwaits
    cases freed with
    | true =>
      cases found with
      | none =>
        cases hwaits
        exact ⟨true, rfl, le_rfl⟩
      | some chkpt => cases hwaits
    | false =>
      cases found with
      | none =>
        cases hwaits
        refine ⟨false, rfl, ?_⟩
        simp [DictOp.frees, hput]
      | some chkpt =>
        generalize putOpPerform ws clientId c persist key valList true = run at hwaits
        obtain ⟨e | performed, ws2⟩ := run
        · cases e <;> cases hwaits
        · cases performed with
          | true => cases hwaits
          | false =>
            cases hwaits
            refine ⟨_, rfl, ?_⟩
            simp [DictOp.frees, hput]

/-- **The memory of a `wait_for` is freed at most once**, whatever its attempts find. -/
theorem freesOver_le (pickler : XPickler) (tag clientId c : ℕ) (persist : Bool) (key : KeyBytes)
    (valList : ValList) (found : List WorkingSet) :
    ∀ freed, (DictOp.put tag clientId c persist key valList true freed).freesOver pickler found
      ≤ (!freed).toNat := by
  induction found with
  | nil =>
    intro freed
    exact Nat.zero_le _
  | cons ws later ih =>
    intro freed
    rw [DictOp.freesOver]
    -- memory that is freed is not freed again
    have hown : (DictOp.frees ws (.put tag clientId c persist key valList true freed)).toNat
        ≤ (!freed).toNat := by
      cases freed with
      | true => exact le_rfl
      | false => exact Bool.toNat_le _
    cases hresult : ((DictOp.put tag clientId c persist key valList true freed).perform pickler ∅
        .none ws).result with
    | done => exact hown
    | raised => exact hown
    | waits op' =>
      obtain ⟨freed', rfl, hfreed⟩ := waits_freed hresult
      have hlater := ih freed'
      simp only
      generalize DictOp.frees ws (.put tag clientId c persist key valList true freed) = frees
        at hown hfreed
      revert hown hfreed hlater
      cases frees <;> cases freed <;> cases freed' <;> simp
      omega

/-! ## A new working set -/

theorem blank_init (start size : ℕ) (waitForKeys waitForWriters : Bool) :
    (WorkingSet.init start size waitForKeys waitForWriters).Blank := by
  intro i chkpt hlookup
  rw [lookup_init] at hlookup
  split at hlookup
  · cases hlookup
    exact ⟨rfl, rfl, rfl⟩
  · cases hlookup

/-- A checkpoint of the window, or the one that an advance adds. -/
theorem WorkingSet.Blank.lookup_insert (hblank : ws.Blank) {i : ℕ}
    (hlookup : (ws.chkpts.insert ws.nextId (Checkpoint.init ws.nextId)).lookup i = some chkpt) :
    chkpt.map = ∅ ∧ chkpt.keyAllocs = ∅ ∧ chkpt.writers = ∅ := by
  by_cases hi : i = ws.nextId
  · rw [hi, AList.lookup_insert] at hlookup
    cases hlookup
    exact ⟨rfl, rfl, rfl⟩
  · rw [AList.lookup_insert_ne hi] at hlookup
    exact hblank i chkpt hlookup

theorem WorkingSet.Blank.advanced {parent child : Checkpoint} (hblank : ws.Blank)
    (hadv : Advanced ws ws1 parent child) : ws1.Blank := by
  intro i chkpt hlookup
  by_cases hparent : i = ws.oldestChkptId
  · rw [hparent, hadv.lookup_parent] at hlookup
    cases hlookup
  · by_cases hchild : i = ws.oldestChkptId + 1
    · -- the child inherits nothing from an empty parent
      rw [hchild, hadv.lookup_child] at hlookup
      cases hlookup
      have hempty := (hblank _ _ hadv.parent_eq).1
      unfold Checkpoint.inherit
      rw [hempty]
      have hheir : child.map = ∅ ∧ child.keyAllocs = ∅ ∧ child.writers = ∅ :=
        hblank.lookup_insert hadv.child_eq
      exact hheir
    · rw [hadv.lookup_other i hparent hchild] at hlookup
      exact hblank.lookup_insert hlookup

/-- Nothing keeps a checkpoint without keys and writers from retiring. -/
theorem WorkingSet.Blank.not_refused (hblank : ws.Blank) : ws.advance ≠ .ok (false, ws) := by
  intro hrefuse
  unfold WorkingSet.advance at hrefuse
  simp only at hrefuse
  split at hrefuse
  · split at hrefuse
    · rename_i parent child hparent hchild
      obtain ⟨hmap, -, hwriters⟩ := hblank.lookup_insert hparent
      have hgo : ws.mustWait parent child = false := by
        unfold WorkingSet.mustWait Checkpoint.mapKeys
        simp [hmap, hwriters]
      rw [hgo] at hrefuse
      cases hrefuse
    · cases hrefuse
  · cases hrefuse

/-- A new working set advances to every checkpoint id from the first on. -/
theorem put_init (start : ℕ) (hsize : 0 < size) (waitForKeys waitForWriters : Bool)
    (hold : start ≤ c) :
    ∃ chkpt ws1, (WorkingSet.init start size waitForKeys waitForWriters).put c
      = .ok (some chkpt, ws1) ∧ chkpt.map = ∅ ∧ chkpt.keyAllocs = ∅ := by
  have h := windowInv_init start hsize waitForKeys waitForWriters
  have holdest : (WorkingSet.init start size waitForKeys waitForWriters).oldestChkptId = start :=
    Nat.add_sub_cancel start size
  rcases h.put_cases c with ⟨hlt, -⟩ | ⟨-, ws1, hadv, hrun, -, hrefuse, hle⟩
  · omega
  · obtain ⟨h1, hblank⟩ := hadv.invariant h (blank_init start size waitForKeys waitForWriters)
      fun _ _ _ _ _ hadv hblank => hblank.advanced hadv
    have hlt : c < ws1.nextId := by
      by_contra hnot
      exact hblank.not_refused (hrefuse (by omega))
    have hnext : (WorkingSet.init start size waitForKeys waitForWriters).nextId = start + size := rfl
    obtain ⟨chkpt, hlookup⟩ := h1.lookup_of_mem (i := c) (by omega) hlt
    obtain ⟨hmap, hallocs, -⟩ := hblank c chkpt hlookup
    rw [hlookup] at hrun
    exact ⟨chkpt, ws1, hrun, hmap, hallocs⟩

/-! ## One request -/

/-- The manager can put into checkpoint `c`, whose map and `key_allocs` have the same keys, and no
operation is deferred for it. -/
structure Ready (size : ℕ) (waitForKeys : Bool) (m : Manager) (c : ℕ) (chkpt : Checkpoint)
    (ws1 : WorkingSet) : Prop where
  inv : ManagerInv size waitForKeys m.received m
  table : m.deferredOps.lookup c = none
  put : m.workingSet.put c = .ok (some chkpt, ws1)
  keySets : chkpt.keyAllocs = chkpt.mapKeys

theorem Ready.window (hr : Ready size waitForKeys m c chkpt ws1) : WindowInv size waitForKeys ws1 :=
  (hr.inv.ws.put hr.put).window

/-- The put finds the checkpoint at its place in the working set. -/
theorem Ready.lookup (hr : Ready size waitForKeys m c chkpt ws1) :
    ws1.chkpts.lookup c = some chkpt := by
  rcases hr.inv.ws.window.put_cases c with ⟨-, hrun⟩ | ⟨-, ws2, -, hrun, -⟩
  · rw [hr.put] at hrun
    cases hrun
  · rw [hr.put, Except.ok.injEq, Prod.mk.injEq] at hrun
    obtain ⟨hlookup, rfl⟩ := hrun
    exact hlookup.symm

theorem Ready.put_again (hr : Ready size waitForKeys m c chkpt ws1) :
    ws1.put c = .ok (some chkpt, ws1) :=
  hr.window.put_of_mem hr.lookup

/-- The first part of the handler has nothing to perform. -/
theorem Ready.advanceAndProcess (hr : Ready size waitForKeys m c chkpt ws1) (faults : Faults) :
    m.advanceAndProcess pickler faults c = .ok (false, { m with workingSet := ws1 }) := by
  unfold Manager.advanceAndProcess Manager.processDeferredOps
  simp only [hr.put, hr.table]

/-- The last part neither. -/
theorem Ready.processDeferredOps (hr : Ready size waitForKeys m c chkpt ws1) (fault : ℕ → Fault)
    (ws : WorkingSet) (answers : List Answer) :
    ({ m with workingSet := ws, answers := answers } : Manager).processDeferredOps pickler fault c
      = (false, { m with workingSet := ws, answers := answers }) := by
  unfold Manager.processDeferredOps
  simp only [hr.table]

/-- The manager after a request that has been answered, and whose operation leaves this checkpoint.
-/
def Manager.settled (m : Manager) (ws1 : WorkingSet) (c : ℕ) (chkpt : Checkpoint) : Manager :=
  { m with
    workingSet := ws1.setChkpt c chkpt
    answers := m.answers ++ [⟨m.received, .success, .nothing⟩]
    received := m.received + 1 }

/-- The checkpoint with the memory of the key. -/
def Checkpoint.allocated (chkpt : Checkpoint) (key : KeyBytes) : Checkpoint :=
  { chkpt with keyAllocs := insert key chkpt.keyAllocs }

/-- With the same keys in both, the key is found in the map, or its memory is added. -/
theorem containsKeyAndFree_eq (hkeys : chkpt.keyAllocs = chkpt.mapKeys) (key : KeyBytes) :
    chkpt.containsKeyAndFree key = .ok (decide (key ∈ chkpt.map),
      chkpt.allocated key) := by
  unfold Checkpoint.containsKeyAndFree Checkpoint.allocated
  by_cases hkey : key ∈ chkpt.map
  · have halloc : key ∈ chkpt.keyAllocs := by
      rw [hkeys]
      exact mem_mapKeys.mpr hkey
    rw [if_pos hkey, if_pos halloc, decide_eq_true hkey, Finset.insert_eq_of_mem halloc]
  · rw [if_neg hkey, decide_eq_false hkey]

theorem Ready.handle_put (hr : Ready size waitForKeys m c chkpt ws1) (clientId : ℕ) (persist : Bool)
    (key : KeyBytes) (valList : ValList) (waitFor : Bool) :
    m.put pickler Faults.none m.received clientId c persist key valList waitFor =
      match ({ m with workingSet := ws1 } : Manager).perform pickler .none
        (.put m.received clientId c (persist && m.workingSet.waitForKeys) key valList waitFor false)
        with
      | (.raised, m1) => m1.send [⟨m.received, .failure, .nothing⟩]
      | (.waits op, m1) => m1.defer op
      | (.done, m1) =>
        match m1.processDeferredOps pickler (fun _ => .none) c with
        | (true, m2) => m2.send [⟨m.received, .failure, .nothing⟩]
        | (false, m2) => m2 := by
  unfold Manager.put Manager.performPut
  dsimp only [Faults.none, DictOp.chkptId]
  rewrite [hr.advanceAndProcess]
  rfl

theorem Ready.step_put (hr : Ready size waitForKeys m c chkpt ws1) (pickler : XPickler)
    (put : PutRequest) :
    ∃ chkpt', Manager.step pickler m (put.request c) = m.settled ws1 c chkpt' ∧
      chkpt'.keyAllocs = chkpt'.mapKeys ∧ ∀ key, chkpt'.map.lookup key
        = if put.key = key then some put.valList else chkpt.map.lookup key := by
  obtain ⟨clientId, persist, key, valList⟩ := put
  have hperform : ({ m with workingSet := ws1 } : Manager).perform pickler .none
      (.put m.received clientId c (persist && m.workingSet.waitForKeys) key valList false false) =
      (.done, { m with
        workingSet := ws1.setChkpt c ((chkpt.allocated key).store clientId key valList
          (persist && m.workingSet.waitForKeys))
        answers := m.answers ++ [⟨m.received, .success, .nothing⟩] }) := by
    unfold Manager.perform DictOp.perform putPerform putTry putOpPerform
    simp only [hr.put_again, Fault.raises, containsKeyAndFree_eq hr.keySets, Bool.false_eq_true,
      if_false]
  refine ⟨(chkpt.allocated key).store clientId key valList (persist && m.workingSet.waitForKeys),
    ?_, ?_, ?_⟩
  · show ({ m.put pickler Faults.none m.received clientId c persist key valList false with
      received := m.received + 1 } : Manager) = _
    rw [hr.handle_put, hperform]
    simp only [hr.processDeferredOps]
    rfl
  · show insert key chkpt.keyAllocs = (chkpt.map.insert key valList).keys.toFinset
    rw [hr.keySets]
    ext k
    rw [Finset.mem_insert, mem_mapKeys, List.mem_toFinset, ← AList.mem_keys, AList.mem_insert]
  · intro k
    show (chkpt.map.insert key valList).lookup k = if key = k then _ else _
    by_cases hk : key = k
    · rw [if_pos hk, ← hk, AList.lookup_insert]
    · rw [if_neg hk, AList.lookup_insert_ne (Ne.symm hk)]

theorem Ready.settled (hr : Ready size waitForKeys m c chkpt ws1) {chkpt' : Checkpoint}
    {request : Request × Faults} (hstep : Manager.step pickler m request = m.settled ws1 c chkpt')
    (hkeys : chkpt'.keyAllocs = chkpt'.mapKeys) :
    Ready size waitForKeys (m.settled ws1 c chkpt') c chkpt' (ws1.setChkpt c chkpt') := by
  have hinv := hr.inv.step pickler request
  rw [hstep] at hinv
  refine ⟨hinv, hr.table, ?_, hkeys⟩
  exact hinv.ws.window.put_of_mem (AList.lookup_insert ws1.chkpts)

/-! ## The arrival of a `wait_for` -/

/-- The request of a `wait_for`. -/
def waitForRequest (clientId c : ℕ) (key : KeyBytes) (valList : ValList) : Request × Faults :=
  (.put clientId c false key valList true, Faults.none)

/-- The attempt when it arrives, by what is stored for its key. -/
theorem Ready.putPerform_waitFor (hr : Ready size waitForKeys m c chkpt ws1) (tag clientId : ℕ)
    (key : KeyBytes) (valList : ValList) :
    putPerform .none ws1 tag clientId c false key valList true false =
      if (chkpt.map.lookup key).map valueToBytes = some (valueToBytes valList) then
        ⟨[⟨tag, .success, .nothing⟩], ws1.setChkpt c (chkpt.allocated key), .done⟩
      else
        ⟨[], ws1.setChkpt c (chkpt.allocated key),
          .waits (.put tag clientId c false key valList true (decide (key ∈ chkpt.map)))⟩ := by
  unfold putPerform putTry putOpPerform
  simp only [hr.put_again, Fault.raises, containsKeyAndFree_eq hr.keySets, Bool.false_eq_true,
    if_false, if_true, Bool.true_and]
  have hmap : (chkpt.allocated key).map = chkpt.map := rfl
  rw [hmap]
  by_cases hstored : (chkpt.map.lookup key).map valueToBytes = some (valueToBytes valList)
  · have hkey : key ∈ chkpt.map := by
      rw [← AList.lookup_isSome]
      obtain ⟨stored, hlookup, -⟩ := Option.map_eq_some_iff.mp hstored
      rw [hlookup]
      rfl
    rw [if_pos hstored, decide_eq_true hstored, decide_eq_true hkey]
    rfl
  · rw [if_neg hstored, decide_eq_false hstored, Bool.and_false]

/-- The value is there: the `wait_for` is answered. -/
theorem Ready.step_waitFor_equal (hr : Ready size waitForKeys m c chkpt ws1) (pickler : XPickler)
    (clientId : ℕ)
    (hstored : (chkpt.map.lookup key).map valueToBytes = some (valueToBytes valList)) :
    Manager.step pickler m (waitForRequest clientId c key valList)
      = m.settled ws1 c (chkpt.allocated key) := by
  have hperform : ({ m with workingSet := ws1 } : Manager).perform pickler .none
      (.put m.received clientId c false key valList true false) =
      (.done, { m with
        workingSet := ws1.setChkpt c (chkpt.allocated key)
        answers := m.answers ++ [⟨m.received, .success, .nothing⟩] }) := by
    unfold Manager.perform DictOp.perform
    simp only [hr.putPerform_waitFor, if_pos hstored]
  show ({ m.put pickler Faults.none m.received clientId c false key valList true with
    received := m.received + 1 } : Manager) = _
  rw [hr.handle_put, Bool.false_and, hperform]
  simp only [hr.processDeferredOps]
  rfl

/-- The manager that has deferred an operation as its only one for the checkpoint. -/
def Manager.deferring (m : Manager) (ws1 : WorkingSet) (c : ℕ) (chkpt : Checkpoint) (op : DictOp) :
    Manager :=
  { m with
    workingSet := ws1.setChkpt c chkpt
    deferredOps := m.deferredOps.insert c [op]
    received := m.received + 1 }

/-- It is not: the `wait_for` is deferred, with its memory freed if the key has another value. -/
theorem Ready.step_waitFor_other (hr : Ready size waitForKeys m c chkpt ws1) (pickler : XPickler)
    (clientId : ℕ)
    (hstored : (chkpt.map.lookup key).map valueToBytes ≠ some (valueToBytes valList)) :
    Manager.step pickler m (waitForRequest clientId c key valList)
      = m.deferring ws1 c (chkpt.allocated key)
        (.put m.received clientId c false key valList true (decide (key ∈ chkpt.map))) := by
  have hperform : ({ m with workingSet := ws1 } : Manager).perform pickler .none
      (.put m.received clientId c false key valList true false) =
      (.waits (.put m.received clientId c false key valList true (decide (key ∈ chkpt.map))),
        { m with workingSet := ws1.setChkpt c (chkpt.allocated key) }) := by
    unfold Manager.perform DictOp.perform
    simp only [hr.putPerform_waitFor, if_neg hstored, List.append_nil]
  show ({ m.put pickler Faults.none m.received clientId c false key valList true with
    received := m.received + 1 } : Manager) = _
  rw [hr.handle_put, Bool.false_and, hperform]
  simp only [Manager.defer, DictOp.chkptId, hr.table, Option.getD_none, List.nil_append]
  rfl

/-- The next put finds the memory of the `wait_for` freed, and answers it with a failure. -/
theorem step_put_freed (pickler : XPickler) {waiting : Manager}
    (h : WindowInv size waitForKeys waiting.workingSet)
    (hlookup : waiting.workingSet.chkpts.lookup c = some chkpt)
    (htable : waiting.deferredOps.lookup c
      = some [.put tag clientId c false key valList true true]) (put : PutRequest) :
    (Manager.step pickler waiting (put.request c)).answers = waiting.answers ++
      [⟨tag, .failure, .nothing⟩, ⟨waiting.received, .failure, .nothing⟩] := by
  have hput := h.put_of_mem hlookup
  obtain ⟨putter, persist, key', valList'⟩ := put
  show (waiting.put pickler Faults.none waiting.received putter c persist key' valList' false).answers
    = _
  unfold Manager.put Manager.performPut Manager.advanceAndProcess Manager.processDeferredOps
  simp only [Faults.none, DictOp.chkptId, hput, htable, Manager.processLoop, Manager.perform,
    DictOp.perform, putPerform, putTry, Fault.raises, if_true, Manager.send, List.append_assoc]
  rfl

/-! ## The run -/

/-- Puts keep the manager ready, and answer only themselves. -/
theorem Ready.run (pickler : XPickler) (puts : List PutRequest) :
    ∀ {m : Manager} {chkpt : Checkpoint} {ws1 : WorkingSet}, Ready size waitForKeys m c chkpt ws1 →
      ∃ chkpt' ws1' more,
        Ready size waitForKeys ((puts.map (PutRequest.request c)).foldl (Manager.step pickler) m) c
          chkpt' ws1' ∧
        ((puts.map (PutRequest.request c)).foldl (Manager.step pickler) m).answers
          = m.answers ++ more ∧
        (∀ answer ∈ more, m.received ≤ answer.ref) ∧
        ∀ key, chkpt'.map.lookup key = valueAfter key (chkpt.map.lookup key) puts := by
  induction puts with
  | nil =>
    intro m chkpt ws1 hr
    exact ⟨chkpt, ws1, [], hr, (List.append_nil _).symm, nofun, fun _ => rfl⟩
  | cons put puts ih =>
    intro m chkpt ws1 hr
    obtain ⟨chkpt1, hstep, hkeys, hvalue⟩ := hr.step_put pickler put
    obtain ⟨chkpt', ws1', more, hr', hanswers, hmore, hvalues⟩ := ih (hr.settled hstep hkeys)
    refine ⟨chkpt', ws1', ⟨m.received, .success, .nothing⟩ :: more, ?_, ?_, ?_, ?_⟩
    · rw [List.map_cons, List.foldl_cons, hstep]
      exact hr'
    · rw [List.map_cons, List.foldl_cons, hstep, hanswers]
      show m.answers ++ [_] ++ more = _
      rw [List.append_assoc]
      rfl
    · intro answer hanswer
      rcases List.mem_cons.mp hanswer with rfl | hanswer
      · exact le_rfl
      · exact (Nat.le_succ _).trans (hmore answer hanswer)
    · intro key
      rw [hvalues, hvalue]
      rfl

theorem Ready.keySets_of_lookup (hr : Ready size waitForKeys m c chkpt ws1) {chkpt' : Checkpoint}
    (hlookup : m.workingSet.chkpts.lookup c = some chkpt') :
    chkpt'.keyAllocs = chkpt'.mapKeys := by
  have hput := hr.inv.ws.window.put_of_mem hlookup
  rw [hr.put] at hput
  cases hput
  exact hr.keySets

theorem not_waitsFor_of_failure {waiting : Manager} {later : List (Request × Faults)}
    (hfailure : ((later.foldl (Manager.step pickler) waiting).answers.drop m.answers.length).filter
      (fun answer => decide (answer.ref = m.received)) = [⟨m.received, .failure, .nothing⟩]) :
    ¬ WaitsFor pickler m waiting clientId c key valList later := by
  intro hwaits
  by_cases hfound : ∃ pre, pre <+: later ∧
      (pre.foldl (Manager.step pickler) waiting).workingSet.storedBytes c key
        = some (valueToBytes valList)
  · have hanswered := hwaits.answered hfound
    rw [hfailure] at hanswered
    cases hanswered
  · have hunanswered := hwaits.unanswered fun pre hpre hbytes => hfound ⟨pre, hpre, hbytes⟩
    rw [hfailure] at hunanswered
    cases hunanswered

/-- **A `wait_for` among puts.** -/
theorem Ready.waitsFor_iff (hr : Ready size waitForKeys m c chkpt ws1) (clientId : ℕ)
    (key : KeyBytes) (valList : ValList) (after : List PutRequest) :
    (∀ pre, pre <+: after.map (PutRequest.request c) → WaitsFor pickler m
      (Manager.step pickler m (waitForRequest clientId c key valList)) clientId c key valList pre) ↔
    ∃ stored, chkpt.map.lookup key = some stored ∧
      (valueToBytes stored = valueToBytes valList ∨ after = []) := by
  have hinv := hr.inv.step pickler (waitForRequest clientId c key valList)
  have hfrees := freesOver_le pickler m.received clientId c false key valList
  have hlookup : (ws1.setChkpt c (chkpt.allocated key)).chkpts.lookup c
      = some (chkpt.allocated key) := AList.lookup_insert ws1.chkpts
  by_cases hequal : (chkpt.map.lookup key).map valueToBytes = some (valueToBytes valList)
  · obtain ⟨stored, hstored, hbytes⟩ := Option.map_eq_some_iff.mp hequal
    refine iff_of_true ?_ ⟨stored, hstored, Or.inl hbytes⟩
    have hstep := hr.step_waitFor_equal pickler clientId hequal
    have hkeys : (chkpt.allocated key).keyAllocs = (chkpt.allocated key).mapKeys := by
      show insert key chkpt.keyAllocs = chkpt.mapKeys
      rw [hr.keySets]
      refine Finset.insert_eq_of_mem (mem_mapKeys.mpr ?_)
      rw [← AList.lookup_isSome, hstored]
      rfl
    have hsettled := hr.settled hstep hkeys
    intro pre hpre
    obtain ⟨puts, -, rfl⟩ := List.prefix_map_iff.mp hpre
    obtain ⟨chkpt', ws1', more, hr', hanswers, hmore, -⟩ := hsettled.run pickler puts
    have hothers : more.filter (fun answer => decide (answer.ref = m.received)) = [] := by
      apply List.filter_eq_nil_iff.mpr
      intro answer hanswer
      have hlater : m.received + 1 ≤ answer.ref := hmore answer hanswer
      simp only [decide_eq_true_eq]
      omega
    rw [hstep]
    refine ⟨fun _ => ?_, fun hnone => ?_, fun found => hfrees found false, fun chkpt'' =>
      hr'.keySets_of_lookup⟩
    · rw [hanswers]
      show (((m.answers ++ [_]) ++ more).drop m.answers.length).filter _ = _
      rw [List.append_assoc, List.drop_left, List.filter_append, hothers]
      simp
    · refine absurd ?_ (hnone [] List.nil_prefix)
      show ((ws1.setChkpt c (chkpt.allocated key)).chkpts.lookup c).bind _ = _
      rw [hlookup]
      exact hequal
  · have hstep := hr.step_waitFor_other pickler clientId hequal
    rw [hstep] at hinv ⊢
    have hnot : ∀ stored, chkpt.map.lookup key = some stored →
        valueToBytes stored ≠ valueToBytes valList := by
      intro stored hstored hbytes
      rw [hstored] at hequal
      exact hequal (congrArg some hbytes)
    cases hlookupKey : chkpt.map.lookup key with
    | none =>
      -- the key is left in `key_allocs`
      refine iff_of_false ?_ (by rintro ⟨stored, hstored, -⟩; cases hstored)
      intro hall
      have hsets := (hall [] List.nil_prefix).keySets _ hlookup
      have hmem : key ∈ (chkpt.allocated key).mapKeys := by
        rw [← hsets]
        exact Finset.mem_insert_self key _
      exact AList.lookup_eq_none.mp hlookupKey (mem_mapKeys.mp hmem)
    | some stored =>
      have hkey : key ∈ chkpt.map := by
        rw [← AList.lookup_isSome, hlookupKey]
        rfl
      cases after with
      | nil =>
        refine iff_of_true ?_ ⟨stored, rfl, Or.inr rfl⟩
        intro pre hpre
        obtain rfl := List.prefix_nil.mp hpre
        refine ⟨?_, fun _ => ?_, fun found => hfrees found false, ?_⟩
        · rintro ⟨pre, hpre, hbytes⟩
          obtain rfl := List.prefix_nil.mp hpre
          refine absurd ?_ hequal
          rw [← hbytes]
          show _ = ((ws1.setChkpt c (chkpt.allocated key)).chkpts.lookup c).bind _
          rw [hlookup]
          rfl
        · show (m.answers.drop m.answers.length).filter _ = []
          rw [List.drop_length]
          rfl
        · intro chkpt' hchkpt'
          have heq : some (chkpt.allocated key) = some chkpt' := hlookup.symm.trans hchkpt'
          cases heq
          show insert key chkpt.keyAllocs = chkpt.mapKeys
          rw [hr.keySets]
          exact Finset.insert_eq_of_mem (mem_mapKeys.mpr hkey)
      | cons put rest =>
        -- the memory is freed, and the next put answers with a failure
        refine iff_of_false ?_ ?_
        · intro hall
          rw [decide_eq_true hkey] at hinv hall
          have hfails := step_put_freed pickler hinv.ws.window hlookup
            (AList.lookup_insert m.deferredOps) put
          refine not_waitsFor_of_failure ?_ (hall [put.request c] ?_)
          · rw [List.foldl_cons, List.foldl_nil, hfails]
            show ((m.answers ++ [_, _]).drop m.answers.length).filter _ = _
            rw [List.drop_left]
            simp [Manager.deferring]
          · rw [List.map_cons]
            exact List.prefix_append [_] _
        · rintro ⟨stored', hstored', hbytes | hempty⟩
          · cases hstored'
            exact hnot stored hlookupKey hbytes
          · cases hempty

end WaitFor

/-- **When `wait_for` is right.**  A new manager receives puts for one checkpoint, a `wait_for`,
and puts for the checkpoint again, of any keys and values.  After each of them the `wait_for` has
been answered iff its value was found, its memory is freed at most once, and the map and
`key_allocs` have the same keys, iff the puts before it have stored a value for its key, and this
is the value that it waits for or no put follows. -/
theorem manager_wait_for_iff (pickler : XPickler) (start workingSetSize : ℕ)
    (hsize : 1 ≤ workingSetSize) (waitForKeys waitForWriters : Bool) (chkptId : ℕ)
    (hold : start ≤ chkptId) (before after : List PutRequest) (clientId : ℕ) (key : KeyBytes)
    (valList : ValList) (m : Manager)
    (hm : m = (before.map (PutRequest.request chkptId)).foldl (Manager.step pickler)
      (Manager.init start workingSetSize waitForKeys waitForWriters)) :
    (∀ pre, pre <+: after.map (PutRequest.request chkptId) → WaitsFor pickler m
      (Manager.step pickler m (waitForRequest clientId chkptId key valList)) clientId chkptId key
      valList pre) ↔
    ∃ stored, valueAfter key none before = some stored ∧
      (valueToBytes stored = valueToBytes valList ∨ after = []) := by
  obtain ⟨chkpt, ws1, hput, hmap, hallocs⟩ := put_init start hsize waitForKeys waitForWriters hold
  have hready : Ready workingSetSize waitForKeys
      (Manager.init start workingSetSize waitForKeys waitForWriters) chkptId chkpt ws1 := by
    refine ⟨managerInv_init start hsize waitForKeys waitForWriters, rfl, hput, ?_⟩
    unfold Checkpoint.mapKeys
    rw [hmap, hallocs]
    rfl
  obtain ⟨chkpt', ws1', -, hr, -, -, hvalue⟩ := hready.run pickler before
  rw [← hm] at hr
  have hnone : chkpt.map.lookup key = none := by
    rw [hmap]
    rfl
  rw [hr.waitsFor_iff, hvalue, hnone]

/-- The value is there when the `wait_for` arrives, and another put follows. -/
theorem manager_wait_for_stored :
    let m := ([⟨7, false, [1], [[5]]⟩].map (PutRequest.request 1)).foldl
      (Manager.step XPickler.scalars) (Manager.init 0 2 false false)
    ∀ pre, pre <+: [⟨8, false, [1], [[6]]⟩].map (PutRequest.request 1) →
      WaitsFor XPickler.scalars m
        (Manager.step XPickler.scalars m (waitForRequest 9 1 [1] [[5]])) 9 1 [1] [[5]] pre := by
  intro m
  have hiff := manager_wait_for_iff XPickler.scalars 0 2 (by decide) false false 1 (by decide)
    [⟨7, false, [1], [[5]]⟩] [⟨8, false, [1], [[6]]⟩] 9 [1] [[5]] m rfl
  exact hiff.mpr ⟨[[5]], rfl, Or.inl rfl⟩

/-- The value is put after another one: the `wait_for` has freed its memory, and is answered with
a failure. -/
theorem not_manager_wait_for :
    ¬ ∀ (pickler : XPickler) (start workingSetSize : ℕ) (waitForKeys waitForWriters : Bool)
      (chkptId : ℕ) (before after : List PutRequest) (clientId : ℕ) (key : KeyBytes)
      (valList : ValList) (m : Manager), 1 ≤ workingSetSize → start ≤ chkptId →
      m = (before.map (PutRequest.request chkptId)).foldl (Manager.step pickler)
        (Manager.init start workingSetSize waitForKeys waitForWriters) →
      WaitsFor pickler m
        (Manager.step pickler m (waitForRequest clientId chkptId key valList)) clientId chkptId key
        valList (after.map (PutRequest.request chkptId)) := by
  intro h
  have hwaits := h XPickler.scalars 0 2 false false 1 [⟨7, false, [1], [[5]]⟩]
    [⟨8, false, [1], [[6]]⟩] 9 [1] [[6]] _ (by decide) (by decide) rfl
  refine not_waitsFor_of_failure ?_ hwaits
  rfl
