/-
# A manager with a restored working set

A working set that is rebuilt by `WorkingSet.__setstate__` has an empty table of deferred
operations of its own, in the place of the table of its manager.  The only use of the table
is in `WorkingSet.get`, for a checkpoint that does not exist yet.  So a manager with a
restored working set and the original manager treat every request alike, as long as no
request asks for an id in the table (`Manager.RestoredLegal`), and none of the operations
that were deferred before would be performed: those are lost.
-/
import DragonRuntime.ManagerAnswers

open WorkingSet Buckets Runs

/-! ## What depends on the table -/

/-- `WorkingSet.get` looks the checkpoint id up in its table of deferred operations. -/
def WorkingSet.AsksTable (ws : WorkingSet) (key : KeyBytes) (c : ℕ) : Prop :=
  ws.newestChkptId < c ∧ ws.waitForKeys = false ∧
    ∀ oldest, ws.chkpts.lookup ws.oldestChkptId = some oldest → key ∉ oldest.persist

/-- Without a look into the table, `WorkingSet.get` finds the key. -/
def WorkingSet.FindsKey (ws : WorkingSet) (key : KeyBytes) (c : ℕ) : Prop :=
  ∃ chkpt, ws.get ∅ key c = .ok (some chkpt) ∧ key ∈ chkpt.map

section Table

variable {size : ℕ} {waitForKeys : Bool} {ws : WorkingSet} {pickler : XPickler}
  {deferredOps deferredOps' : Finset ℕ} {fault : Fault} {c : ℕ} {key : KeyBytes}

theorem getWaits_congr (hasks : ¬ ws.AsksTable key c ∨ (c ∈ deferredOps ↔ c ∈ deferredOps')) :
    ws.getWaits deferredOps key c = ws.getWaits deferredOps' key c := by
  rw [WorkingSet.getWaits, WorkingSet.getWaits]
  by_cases hnew : ws.newestChkptId < c
  · rw [if_pos hnew, if_pos hnew]
    cases holdest : ws.chkpts.lookup ws.oldestChkptId with
    | none => rfl
    | some oldest =>
      simp only [Except.ok.injEq]
      rcases hasks with hasks | hiff
      · by_cases hpersist : key ∈ oldest.persist
        · simp [hpersist]
        · cases hwait : ws.waitForKeys with
          | true => simp
          | false =>
            refine absurd ⟨hnew, hwait, ?_⟩ hasks
            intro oldest' holdest'
            rw [holdest] at holdest'
            cases holdest'
            exact hpersist
      · simp [hiff]
  · rw [if_neg hnew, if_neg hnew]

theorem get_congr (hasks : ¬ ws.AsksTable key c ∨ (c ∈ deferredOps ↔ c ∈ deferredOps')) :
    ws.get deferredOps key c = ws.get deferredOps' key c := by
  rw [WorkingSet.get, WorkingSet.get, getWaits_congr hasks]

/-- A get asks the table for a checkpoint in the window no more than for one that exists. -/
theorem WindowInv.not_asksTable (h : WindowInv size waitForKeys ws) (hlt : c < ws.nextId) :
    ¬ ws.AsksTable key c := by
  rintro ⟨hnew, -⟩
  rw [h.newest_eq] at hnew
  omega

/-- A pop of a key that is found waits for its checkpoint, with or without the table. -/
theorem WindowInv.popOp_future (h : WindowInv size waitForKeys ws) (hasks : ws.AsksTable key c)
    (hfinds : ws.FindsKey key c) (clientId : ℕ) :
    popOpPerform ws deferredOps clientId c key = (.ok false, ws) := by
  obtain ⟨chkpt, hget, hkey⟩ := hfinds
  obtain ⟨-, i, -, hlookup⟩ := get_lookup hget
  have hcontains := (h.sound i chkpt hlookup).containsKey_eq key
  rw [decide_eq_true hkey] at hcontains
  by_cases hmem : c ∈ deferredOps
  · have hwaits : ws.getWaits deferredOps key c = .ok true := by
      have hpos := h.size_pos
      have hle := h.size_le
      obtain ⟨oldest, holdest⟩ := h.lookup_of_mem (i := ws.oldestChkptId)
        (by rw [h.oldest_eq]) (by rw [h.oldest_eq]; omega)
      rw [WorkingSet.getWaits, if_pos hasks.1, holdest]
      simp [hasks.2.2 oldest holdest, hmem]
    have hold : ¬ c < ws.oldestChkptId := by
      intro hlt
      rw [WorkingSet.get, if_pos hlt] at hget
      cases hget
    rw [popOpPerform, WorkingSet.get, if_neg hold, hwaits]
  · have hsame : ws.get deferredOps key c = ws.get ∅ key c := get_congr (Or.inr (by simp [hmem]))
    rw [popOpPerform, hsame, hget]
    simp only [hcontains]
    rw [if_pos hasks.1]

/-- Performing an operation depends on the table only where a get asks it. -/
theorem DictOp.perform_congr (op : DictOp)
    (hget : ∀ tag clientId c key, op = .get tag clientId c key →
      ws.get deferredOps key c = ws.get deferredOps' key c)
    (hpop : ∀ tag clientId c key, op = .pop tag clientId c key →
      popPerform deferredOps fault ws tag clientId c key
        = popPerform deferredOps' fault ws tag clientId c key) :
    op.perform pickler deferredOps fault ws = op.perform pickler deferredOps' fault ws := by
  cases op with
  | get tag clientId c key =>
    have heq := hget tag clientId c key rfl
    change getPerform deferredOps fault ws tag clientId c key
      = getPerform deferredOps' fault ws tag clientId c key
    rw [getPerform, getPerform, getOpPerform, getOpPerform, heq]
  | pop tag clientId c key => exact hpop tag clientId c key rfl
  | put => rfl
  | bput => rfl
  | fetchAdd => rfl
  | clear => rfl

theorem popPerform_congr (hget : ws.get deferredOps key c = ws.get deferredOps' key c)
    (tag clientId : ℕ) :
    popPerform deferredOps fault ws tag clientId c key
      = popPerform deferredOps' fault ws tag clientId c key := by
  rw [popPerform, popPerform, popOpPerform, popOpPerform, getOpPerform, getOpPerform, hget]

/-- Performing an operation of a checkpoint in the window does not depend on the table. -/
theorem WindowInv.perform_congr (h : WindowInv size waitForKeys ws) (pickler : XPickler)
    (fault : Fault) {op : DictOp} (hlt : op.chkptId < ws.nextId)
    (deferredOps deferredOps' : Finset ℕ) :
    op.perform pickler deferredOps fault ws = op.perform pickler deferredOps' fault ws := by
  apply op.perform_congr
  · rintro tag clientId c key rfl
    exact get_congr (Or.inl (h.not_asksTable hlt))
  · rintro tag clientId c key rfl
    exact popPerform_congr (get_congr (Or.inl (h.not_asksTable hlt))) tag clientId

end Table

/-! ## Two managers side by side -/

/-- A manager whose working set was rebuilt by `WorkingSet.__setstate__`.  The answers and the
number of requests are those of the original manager. -/
def Manager.restored (m : Manager) : Manager := { m with deferredOps := ∅, shared := false }

/-- The two managers have sent the same answers, and of the requests from the `n`-th on they
defer the same. -/
structure SameTreatment (n : ℕ) (m m' : Manager) : Prop where
  answers_eq : m'.answers = m.answers
  deferred_iff : ∀ tag, n ≤ tag → (m'.Deferred tag ↔ m.Deferred tag)

/-- The table of the original manager: the operations of `lost`, and after them those of the
table of the other manager. -/
def Remembers (lost table table' : Dict ℕ (List DictOp)) : Prop :=
  ∀ c, table.lookup c = match lost.lookup c with
    | none => table'.lookup c
    | some ops => some (ops ++ bucket table' c)

/-- The original manager `m` and the one `m'` with a restored working set. -/
structure Twins (lost : Dict ℕ (List DictOp)) (m m' : Manager) : Prop where
  ws_eq : m'.workingSet = m.workingSet
  answers_eq : m'.answers = m.answers
  received_eq : m'.received = m.received
  shared : m.shared = true
  not_shared : m'.shared = false
  table : Remembers lost m.deferredOps m'.deferredOps

section Remember

variable {lost table table' : Dict ℕ (List DictOp)} {c : ℕ} {m m' : Manager}

theorem Remembers.lookup_eq (h : Remembers lost table table') (hc : lost.lookup c = none) :
    table.lookup c = table'.lookup c := by
  rw [h c, hc]

theorem Remembers.insert (h : Remembers lost table table') (hc : lost.lookup c = none)
    (ops : List DictOp) : Remembers lost (table.insert c ops) (table'.insert c ops) := by
  intro i
  by_cases hi : i = c
  · subst hi
    rw [AList.lookup_insert, hc, AList.lookup_insert]
  · rw [AList.lookup_insert_ne hi, AList.lookup_insert_ne hi, bucket_insert_ne hi]
    exact h i

theorem Remembers.erase (h : Remembers lost table table') (hc : lost.lookup c = none) :
    Remembers lost (table.erase c) (table'.erase c) := by
  intro i
  by_cases hi : i = c
  · subst hi
    rw [AList.lookup_erase, hc, AList.lookup_erase]
  · rw [AList.lookup_erase_ne hi, AList.lookup_erase_ne hi, bucket_erase_ne hi]
    exact h i

theorem Remembers.defer (h : Remembers lost table table') (c : ℕ) (op : DictOp) :
    Remembers lost (table.insert c ((table.lookup c).getD [] ++ [op]))
      (table'.insert c ((table'.lookup c).getD [] ++ [op])) := by
  intro i
  by_cases hi : i = c
  · subst hi
    rw [AList.lookup_insert, h i]
    cases hlost : lost.lookup i with
    | none => simp only [AList.lookup_insert]
    | some ops =>
      simp only [bucket_insert, Option.getD_some, List.append_assoc]
      rfl
  · rw [AList.lookup_insert_ne hi, AList.lookup_insert_ne hi, bucket_insert_ne hi]
    exact h i

/-- What the two managers defer. -/
theorem Remembers.mem_iff (h : Remembers lost table table') {op : DictOp} :
    (∃ c ops, table.lookup c = some ops ∧ op ∈ ops) ↔
      (∃ c ops, lost.lookup c = some ops ∧ op ∈ ops) ∨
        ∃ c ops, table'.lookup c = some ops ∧ op ∈ ops := by
  have hbucket : ∀ c, op ∈ bucket table' c ↔ ∃ ops, table'.lookup c = some ops ∧ op ∈ ops := by
    intro c
    rw [bucket]
    cases table'.lookup c with
    | none => simp
    | some ops => simp
  constructor
  · rintro ⟨c, ops, hlookup, hop⟩
    rw [h c] at hlookup
    cases hlost : lost.lookup c with
    | none =>
      rw [hlost] at hlookup
      exact Or.inr ⟨c, ops, hlookup, hop⟩
    | some old =>
      rw [hlost] at hlookup
      cases hlookup
      rcases List.mem_append.mp hop with hold | hnew
      · exact Or.inl ⟨c, old, hlost, hold⟩
      · exact Or.inr ⟨c, (hbucket c).mp hnew⟩
  · rintro (⟨c, ops, hlookup, hop⟩ | ⟨c, ops, hlookup, hop⟩)
    · refine ⟨c, ops ++ bucket table' c, ?_, List.mem_append_left _ hop⟩
      rw [h c, hlookup]
    · cases hlost : lost.lookup c with
      | none =>
        refine ⟨c, ops, ?_, hop⟩
        rw [h c, hlost]
        exact hlookup
      | some old =>
        refine ⟨c, old ++ bucket table' c, ?_, List.mem_append_right _ ?_⟩
        · rw [h c, hlost]
        · exact (hbucket c).mpr ⟨ops, hlookup, hop⟩

theorem twins_restored (hshared : m.shared = true) : Twins m.deferredOps m m.restored := by
  refine ⟨rfl, rfl, rfl, hshared, rfl, ?_⟩
  intro c
  cases hlookup : m.deferredOps.lookup c with
  | none => rfl
  | some ops => exact congrArg some (List.append_nil ops).symm

theorem Twins.sameTreatment {n : ℕ} (h : Twins lost m m') (hlost : Filed n lost) :
    SameTreatment n m m' := by
  refine ⟨h.answers_eq, ?_⟩
  intro tag htag
  constructor
  · rintro ⟨c, ops, hlookup, op, hop, rfl⟩
    obtain ⟨c', ops', hlookup', hop'⟩ := h.table.mem_iff.mpr (Or.inr ⟨c, ops, hlookup, hop⟩)
    exact ⟨c', ops', hlookup', op, hop', rfl⟩
  · rintro ⟨c, ops, hlookup, op, hop, rfl⟩
    rcases h.table.mem_iff.mp ⟨c, ops, hlookup, hop⟩ with
      ⟨c', ops', hlookup', hop'⟩ | ⟨c', ops', hlookup', hop'⟩
    · have hold := (hlost c' op (by rw [bucket_of_lookup hlookup']; exact hop')).2
      omega
    · exact ⟨c', ops', hlookup', op, hop', rfl⟩

end Remember

/-! ## The handlers -/

/-- The operations that a put for `c` performs were deferred after the working set was
restored, and a put that does not find its checkpoint meets no fault. -/
def Manager.PutAlike (lost : Dict ℕ (List DictOp)) (faults : Faults) (m : Manager) (c : ℕ) :
    Prop :=
  (∀ chkpt ws, m.workingSet.put c = .ok (some chkpt, ws) → lost.lookup c = none) ∧
    ((∀ chkpt ws, m.workingSet.put c ≠ .ok (some chkpt, ws)) → faults.own.raises = none)

/-- **The requests that a manager with a restored working set treats alike**: a get is not for
an id in the table of deferred operations when `WorkingSet.get` asks the table, and neither is
a pop unless it finds its key; a put performs no operation of `lost`. -/
def Manager.RestoredLegal (lost : Dict ℕ (List DictOp)) (m : Manager)
    (request : Request × Faults) : Prop :=
  match request.1 with
  | .put _ c .. => m.PutAlike lost request.2 c
  | .bput _ c .. => m.PutAlike lost request.2 c
  | .batchPut _ c .. => m.PutAlike lost request.2 c
  | .get _ c key => m.workingSet.AsksTable key c → c ∉ m.deferredOps
  | .pop _ c key => m.workingSet.AsksTable key c → c ∉ m.deferredOps ∨ m.workingSet.FindsKey key c
  | _ => True

/-- The operation is a put. -/
def DictOp.IsPut : DictOp → Prop
  | .put .. => True
  | .bput .. => True
  | _ => False

section Handlers

variable {size : ℕ} {waitForKeys : Bool} {lost : Dict ℕ (List DictOp)} {m m' : Manager}
  {pickler : XPickler} {faults : Faults} {c n : ℕ}

theorem WorkingSetInv.nextId_le_perform {ws : WorkingSet} {deferredOps : Finset ℕ} {fault : Fault}
    (h : WorkingSetInv size waitForKeys ws) (op : DictOp) :
    ws.nextId ≤ (op.perform pickler deferredOps fault ws).workingSet.nextId := by
  refine op.perform_invariant (I := fun ws' => ws.nextId ≤ ws'.nextId) h.window le_rfl
    (fun call _ => h.window.nextId_le_dictStep pickler call) ?_
  intro tag clientId key fetchAddVal valList ws1 _ _ hle
  rw [nextId_setValue]
  exact hle

/-- The window moves forward. -/
theorem ManagerInv.nextId_le_processLoop {fault : ℕ → Fault} {ops : List DictOp}
    (leftOvers : List DictOp) (h : ManagerInv size waitForKeys n m)
    (hops : ∀ op ∈ ops, op.chkptId = c ∧ op.tag < n) :
    m.workingSet.nextId
      ≤ (Manager.processLoop pickler fault c ops leftOvers m).2.workingSet.nextId := by
  induction ops generalizing leftOvers m with
  | nil =>
    rw [Manager.processLoop]
    split
    · exact le_rfl
    · exact le_rfl
  | cons op ops ih =>
    have hrest : ∀ op ∈ ops, op.chkptId = c ∧ op.tag < n :=
      fun op hop => hops op (List.mem_cons_of_mem _ hop)
    have htaken : ManagerInv size waitForKeys n
        { m with deferredOps := m.deferredOps.insert c ops } := ⟨h.ws, h.filed.insert hrest⟩
    have hinv1 := htaken.perform pickler (fault op.tag) op
    have hle : m.workingSet.nextId ≤ (Manager.perform pickler
        { m with deferredOps := m.deferredOps.insert c ops } (fault op.tag) op).2.workingSet.nextId :=
      h.ws.nextId_le_perform op
    rw [Manager.processLoop]
    split
    · rename_i m1 hrun
      rw [hrun] at hinv1 hle
      exact hle.trans (ih leftOvers hinv1 hrest)
    · rename_i op' m1 hrun
      rw [hrun] at hinv1 hle
      exact hle.trans (ih _ hinv1 hrest)
    · rename_i m1 hrun
      rw [hrun] at hle
      exact hle

theorem ManagerInv.nextId_le_processDeferredOps (h : ManagerInv size waitForKeys n m)
    (pickler : XPickler) (fault : ℕ → Fault) (c : ℕ) :
    m.workingSet.nextId ≤ (m.processDeferredOps pickler fault c).2.workingSet.nextId := by
  rw [Manager.processDeferredOps]
  cases hlookup : m.deferredOps.lookup c with
  | none => exact le_rfl
  | some ops =>
    refine h.nextId_le_processLoop [] ?_
    intro op hop
    refine h.filed c op ?_
    rwa [bucket_of_lookup hlookup]

theorem Twins.perform (h : Twins lost m m') {fault : Fault} {op : DictOp}
    (heq : op.perform pickler m'.deferredIds fault m.workingSet
      = op.perform pickler m.deferredIds fault m.workingSet) :
    (m'.perform pickler fault op).1 = (m.perform pickler fault op).1 ∧
      Twins lost (m.perform pickler fault op).2 (m'.perform pickler fault op).2 := by
  simp only [Manager.perform, h.ws_eq, heq]
  refine ⟨trivial, rfl, ?_, h.received_eq, h.shared, h.not_shared, h.table⟩
  rw [h.answers_eq]

theorem Twins.send (h : Twins lost m m') (answers : List Answer) :
    Twins lost (m.send answers) (m'.send answers) := by
  refine ⟨h.ws_eq, ?_, h.received_eq, h.shared, h.not_shared, h.table⟩
  rw [Manager.send, Manager.send, h.answers_eq]

theorem Twins.defer (h : Twins lost m m') (op : DictOp) :
    Twins lost (m.defer op) (m'.defer op) :=
  ⟨h.ws_eq, h.answers_eq, h.received_eq, h.shared, h.not_shared, h.table.defer op.chkptId op⟩

theorem Twins.setWs (h : Twins lost m m') (ws : WorkingSet) :
    Twins lost { m with workingSet := ws } { m' with workingSet := ws } :=
  ⟨rfl, h.answers_eq, h.received_eq, h.shared, h.not_shared, h.table⟩

theorem Twins.setTable (h : Twins lost m m') (hc : lost.lookup c = none) (ops : List DictOp) :
    Twins lost { m with deferredOps := m.deferredOps.insert c ops }
      { m' with deferredOps := m'.deferredOps.insert c ops } :=
  ⟨h.ws_eq, h.answers_eq, h.received_eq, h.shared, h.not_shared, h.table.insert hc ops⟩

/-- The loop over the deferred operations of a checkpoint in the window. -/
theorem Twins.processLoop {fault : ℕ → Fault} {ops : List DictOp} (leftOvers : List DictOp)
    (h : Twins lost m m') (hinv : ManagerInv size waitForKeys n m)
    (hops : ∀ op ∈ ops, op.chkptId = c ∧ op.tag < n) (hlt : c < m.workingSet.nextId)
    (hc : lost.lookup c = none) :
    (Manager.processLoop pickler fault c ops leftOvers m').1
        = (Manager.processLoop pickler fault c ops leftOvers m).1 ∧
      Twins lost (Manager.processLoop pickler fault c ops leftOvers m).2
        (Manager.processLoop pickler fault c ops leftOvers m').2 := by
  induction ops generalizing leftOvers m m' with
  | nil =>
    rw [Manager.processLoop, Manager.processLoop]
    split
    · exact ⟨rfl, h.ws_eq, h.answers_eq, h.received_eq, h.shared, h.not_shared,
        h.table.erase hc⟩
    · exact ⟨rfl, h.setTable hc leftOvers⟩
  | cons op ops ih =>
    have hrest : ∀ op ∈ ops, op.chkptId = c ∧ op.tag < n :=
      fun op hop => hops op (List.mem_cons_of_mem _ hop)
    have hid := (hops op List.mem_cons_self).1
    have htaken : ManagerInv size waitForKeys n
        { m with deferredOps := m.deferredOps.insert c ops } :=
      ⟨hinv.ws, hinv.filed.insert hrest⟩
    obtain ⟨hresult, htwins⟩ := (h.setTable hc ops).perform
      (hinv.ws.window.perform_congr pickler (fault op.tag) (by rw [hid]; exact hlt) _ _)
    have hinv1 := htaken.perform pickler (fault op.tag) op
    have hlt1 : c < (Manager.perform pickler
        { m with deferredOps := m.deferredOps.insert c ops } (fault op.tag) op).2.workingSet.nextId :=
      hlt.trans_le (hinv.ws.nextId_le_perform op)
    rw [Manager.processLoop, Manager.processLoop]
    rcases hrun : Manager.perform pickler
      { m with deferredOps := m.deferredOps.insert c ops } (fault op.tag) op with ⟨result, m1⟩
    rcases hrun' : Manager.perform pickler
      { m' with deferredOps := m'.deferredOps.insert c ops } (fault op.tag) op with ⟨result', m1'⟩
    rw [hrun] at hresult htwins hinv1 hlt1
    rw [hrun'] at hresult htwins
    cases (hresult : result' = result)
    cases result with
    | done => exact ih leftOvers htwins hinv1 hrest hlt1
    | waits op' => exact ih (leftOvers ++ [op']) htwins hinv1 hrest hlt1
    | raised => exact ⟨rfl, htwins⟩

theorem Twins.processDeferredOps (h : Twins lost m m') (pickler : XPickler) (fault : ℕ → Fault)
    (hinv : ManagerInv size waitForKeys n m) (hlt : c < m.workingSet.nextId)
    (hc : lost.lookup c = none) :
    (m'.processDeferredOps pickler fault c).1 = (m.processDeferredOps pickler fault c).1 ∧
      Twins lost (m.processDeferredOps pickler fault c).2
        (m'.processDeferredOps pickler fault c).2 := by
  rw [Manager.processDeferredOps, Manager.processDeferredOps, h.table.lookup_eq hc]
  cases hlookup : m'.deferredOps.lookup c with
  | none => exact ⟨rfl, h⟩
  | some ops =>
    refine h.processLoop [] hinv ?_ hlt hc
    intro op hop
    refine hinv.filed c op ?_
    rw [bucket_of_lookup ((h.table.lookup_eq hc).trans hlookup)]
    exact hop

theorem Twins.advanceAndProcess (h : Twins lost m m') (pickler : XPickler)
    (hinv : ManagerInv size waitForKeys n m)
    (halike : m.PutAlike lost faults c) :
    (∃ e, m.advanceAndProcess pickler faults c = .error e ∧
      m'.advanceAndProcess pickler faults c = .error e) ∨
    ∃ raised m1 m1', m.advanceAndProcess pickler faults c = .ok (raised, m1) ∧
      m'.advanceAndProcess pickler faults c = .ok (raised, m1') ∧ Twins lost m1 m1' ∧
      (c < m1.workingSet.nextId ∧ lost.lookup c = none ∨
        m1.workingSet.put c = .ok (none, m1.workingSet) ∧ faults.own.raises = none) := by
  rw [Manager.advanceAndProcess, Manager.advanceAndProcess, h.ws_eq]
  cases hput : m.workingSet.put c with
  | error e => exact Or.inl ⟨e, rfl, rfl⟩
  | ok found =>
    obtain ⟨found, ws⟩ := found
    have hinv1 := hinv.put hput
    right
    cases found with
    | none =>
      obtain ⟨hle, hrefuse⟩ := hinv.ws.window.put_none hput
      refine ⟨false, _, _, rfl, rfl, h.setWs ws, Or.inr ⟨?_, halike.2 ?_⟩⟩
      · exact hinv1.ws.window.put_of_refused hle hrefuse
      · rintro chkpt ws' hput'
        rw [hput] at hput'
        cases hput'
    | some chkpt =>
      have hc := halike.1 chkpt ws hput
      have hmem := ((hinv.ws.window.of_put hput).2 chkpt rfl).1
      have hlt : c < ws.nextId := ((hinv1.ws.window.mem_iff c).mp hmem).2
      obtain ⟨hraised, htwins⟩ :=
        (h.setWs ws).processDeferredOps pickler faults.before hinv1 hlt hc
      have hle := hinv1.nextId_le_processDeferredOps pickler faults.before c
      refine ⟨_, _, _, rfl, ?_, htwins, Or.inl ⟨hlt.trans_le hle, hc⟩⟩
      simp only [Except.ok.injEq]
      exact Prod.ext hraised rfl

theorem DictOp.put_waits {ws : WorkingSet} {fault : Fault} {op : DictOp} (hkind : op.IsPut)
    (hput : ws.put op.chkptId = .ok (none, ws)) (hfault : fault.raises = none)
    (pickler : XPickler) (deferredOps : Finset ℕ) :
    (op.perform pickler deferredOps fault ws).result = .waits op := by
  cases op with
  | put tag clientId c persist key valList waitFor freed =>
    have htry : putTry fault ws clientId c persist key valList waitFor freed
        = (.ok (false, freed), ws) := by
      rw [putTry, show ws.put c = .ok (none, ws) from hput, hfault]
    change (putPerform fault ws tag clientId c persist key valList waitFor freed).result = _
    rw [putPerform, htry]
  | bput tag clientId c key valList =>
    have htry : putTry fault ws clientId c false key valList false false
        = (.ok (false, false), ws) := by
      rw [putTry, show ws.put c = .ok (none, ws) from hput, hfault]
    change (bputPerform fault ws tag clientId c key valList).result = _
    rw [bputPerform, htry]
  | _ => exact hkind.elim

/-- **The handler of a put** treats twins alike. -/
theorem Twins.performPut (h : Twins lost m m') (hinv : ManagerInv size waitForKeys n m) {tag : ℕ}
    {onRaise : List Answer} {op : DictOp} (hkind : op.IsPut)
    (halike : m.PutAlike lost faults op.chkptId) :
    Twins lost (m.performPut pickler faults tag onRaise op)
      (m'.performPut pickler faults tag onRaise op) := by
  rw [Manager.performPut, Manager.performPut]
  split
  · exact h.send _
  · exact h.send _
  · rcases h.advanceAndProcess pickler hinv halike with
      ⟨e, hrun, hrun'⟩ | ⟨raised, m1, m1', hrun, hrun', htwins, hwhere⟩
    · rw [hrun, hrun']
      exact h.send _
    · have hinv1 := hinv.advanceAndProcess hrun
      rw [hrun, hrun']
      cases raised with
      | true => exact htwins.send _
      | false =>
        -- a put does not look into the table
        have hsame : op.perform pickler m1'.deferredIds faults.own m1.workingSet
            = op.perform pickler m1.deferredIds faults.own m1.workingSet := by
          cases op with
          | put => rfl
          | bput => rfl
          | _ => exact hkind.elim
        obtain ⟨hresult, htwins2⟩ := htwins.perform hsame
        have hinv2 := hinv1.perform pickler faults.own op
        have hle : m1.workingSet.nextId
            ≤ (m1.perform pickler faults.own op).2.workingSet.nextId :=
          hinv1.ws.nextId_le_perform op
        rcases hperform : m1.perform pickler faults.own op with ⟨result, m2⟩
        rcases hperform' : m1'.perform pickler faults.own op with ⟨result', m2'⟩
        rw [hperform] at hresult htwins2 hinv2 hle
        rw [hperform'] at hresult htwins2
        cases (hresult : result' = result)
        simp only [hperform, hperform']
        cases result with
        | raised => exact htwins2.send _
        | waits op' => exact htwins2.defer op'
        | done =>
          rcases hwhere with ⟨hlt, hc⟩ | ⟨hnone, hfault⟩
          · obtain ⟨hraised, htwins3⟩ := htwins2.processDeferredOps pickler faults.after hinv2
              (hlt.trans_le hle) hc
            rcases hpass : m2.processDeferredOps pickler faults.after op.chkptId with ⟨raised, m3⟩
            rcases hpass' : m2'.processDeferredOps pickler faults.after op.chkptId with
              ⟨raised', m3'⟩
            rw [hpass, hpass'] at hraised htwins3
            cases (hraised : raised' = raised)
            simp only [hpass, hpass']
            cases raised with
            | true => exact htwins3.send _
            | false => exact htwins3
          · have hwaits := DictOp.put_waits hkind hnone hfault pickler m1.deferredIds
            have hdone : (op.perform pickler m1.deferredIds faults.own m1.workingSet).result
                = .done := congrArg Prod.fst hperform
            rw [hwaits] at hdone
            cases hdone

theorem Twins.batchPut (h : Twins lost m m') (hinv : ManagerInv size waitForKeys n m)
    (halike : m.PutAlike lost faults c) (clientId : ℕ) (persist : Bool) (key : KeyBytes)
    (valList : ValList) :
    Twins lost (m.batchPut pickler faults clientId c persist key valList)
      (m'.batchPut pickler faults clientId c persist key valList) := by
  rw [Manager.batchPut, Manager.batchPut]
  rcases h.advanceAndProcess pickler hinv halike with
    ⟨e, hrun, hrun'⟩ | ⟨raised, m1, m1', hrun, hrun', htwins, hwhere⟩
  · rw [hrun, hrun']
    exact h
  · have hinv1 := hinv.advanceAndProcess hrun
    rw [hrun, hrun']
    cases raised with
    | true => exact htwins
    | false =>
      have hstep := hinv1.ws.dictStep pickler
        (.batchPut clientId c (persist && m1.workingSet.waitForKeys) key valList)
      have hle := hinv1.ws.window.nextId_le_dictStep pickler
        (.batchPut clientId c (persist && m1.workingSet.waitForKeys) key valList)
      simp only [dictStep] at hstep hle
      simp only [htwins.ws_eq]
      split
      · exact htwins
      · exact htwins.setWs _
      · rename_i ws _ hperform
        rw [hperform] at hstep hle
        have hstored : ManagerInv size waitForKeys n { m1 with workingSet := ws } :=
          ⟨hstep, hinv1.filed⟩
        rcases hwhere with ⟨hlt, hc⟩ | ⟨hnone, -⟩
        · exact ((htwins.setWs ws).processDeferredOps pickler faults.after hstored
            (hlt.trans_le hle) hc).2
        · rw [batchPutOpPerform, hnone] at hperform
          cases hperform

/-- The handler of a get, a `fetch_add`, a pop or a clear. -/
theorem Twins.performOrDefer (h : Twins lost m m') {fault : Fault} {op : DictOp}
    (heq : op.perform pickler m'.deferredIds fault m.workingSet
      = op.perform pickler m.deferredIds fault m.workingSet) :
    Twins lost (m.performOrDefer pickler fault op) (m'.performOrDefer pickler fault op) := by
  obtain ⟨hresult, htwins⟩ := h.perform heq
  rw [Manager.performOrDefer, Manager.performOrDefer]
  rcases hrun : m.perform pickler fault op with ⟨result, m1⟩
  rcases hrun' : m'.perform pickler fault op with ⟨result', m1'⟩
  rw [hrun, hrun'] at hresult htwins
  cases (hresult : result' = result)
  cases result with
  | done => exact htwins
  | raised => exact htwins
  | waits op' => exact htwins.defer op'

theorem Twins.deferredIds_eq (h : Twins lost m m') : m'.deferredIds = ∅ := by
  rw [Manager.deferredIds, h.not_shared]
  rfl

theorem Twins.mem_deferredIds (h : Twins lost m m') : c ∈ m.deferredIds ↔ c ∈ m.deferredOps := by
  rw [Manager.deferredIds, h.shared, if_pos rfl, List.mem_toFinset, AList.mem_keys]

theorem Twins.get_eq (h : Twins lost m m') {key : KeyBytes}
    (hlegal : m.workingSet.AsksTable key c → c ∉ m.deferredOps) :
    m.workingSet.get m'.deferredIds key c = m.workingSet.get m.deferredIds key c := by
  apply get_congr
  by_cases hasks : m.workingSet.AsksTable key c
  · right
    rw [h.deferredIds_eq, h.mem_deferredIds]
    simp [hlegal hasks]
  · exact Or.inl hasks

/-- **The handler of a request** treats twins alike. -/
theorem Twins.handle (h : Twins lost m m') (pickler : XPickler) (tag : ℕ)
    (hinv : ManagerInv size waitForKeys n m) {request : Request}
    (hlegal : m.RestoredLegal lost (request, faults)) :
    Twins lost (m.handle pickler faults tag request) (m'.handle pickler faults tag request) := by
  cases request with
  | put =>
    simp only [Manager.handle, Manager.put, h.ws_eq]
    exact h.performPut hinv trivial hlegal
  | bput => exact h.performPut hinv trivial hlegal
  | batchPut => exact h.batchPut hinv hlegal ..
  | get =>
    apply h.performOrDefer
    apply DictOp.perform_congr
    · rintro _ _ _ _ ⟨⟩
      exact h.get_eq hlegal
    · nofun
  | fetchAdd => exact h.performOrDefer rfl
  | pop clientId c key =>
    apply h.performOrDefer
    apply DictOp.perform_congr
    · nofun
    · rintro _ _ _ _ ⟨⟩
      by_cases hasks : m.workingSet.AsksTable key c
      · rcases hlegal hasks with hnone | hfinds
        · exact popPerform_congr (h.get_eq fun _ => hnone) tag clientId
        · rw [popPerform, popPerform, hinv.ws.window.popOp_future hasks hfinds,
            hinv.ws.window.popOp_future hasks hfinds]
          cases faults.own.raises <;> rfl
      · exact popPerform_congr (h.get_eq fun h' => absurd h' hasks) tag clientId
  | clear => exact h.performOrDefer rfl
  | contains _ c key =>
    have hcontains : containsOpPerform m.workingSet m'.deferredIds c key
        = containsOpPerform m.workingSet m.deferredIds c key := by
      rw [containsOpPerform, containsOpPerform, get_congr (Or.inl ?_)]
      rintro ⟨hnew, -⟩
      split at hnew
      · omega
      · omega
    simp only [Manager.handle, Manager.contains, h.ws_eq, hcontains]
    split
    · exact h.send _
    · exact h.send _
    · exact h.send _
    · exact (h.setWs _).send _
  | length =>
    simp only [Manager.handle, Manager.getLength, h.ws_eq]
    split
    · exact h.send _
    · exact h.send _
    · exact h.send _
    · exact (h.setWs _).send _
  | keys =>
    simp only [Manager.handle, Manager.keys, h.ws_eq]
    split
    · exact h.setWs _
    · exact h.setWs _
    · exact (h.setWs _).send _
  | values =>
    simp only [Manager.handle, Manager.values, h.ws_eq]
    split
    · exact h.setWs _
    · exact (h.setWs _).send _
    · exact (h.setWs _).send _
    · exact (h.setWs _).send _
  | items =>
    simp only [Manager.handle, Manager.items, h.ws_eq]
    split
    · exact h.setWs _
    · exact h.setWs _
    · exact (h.setWs _).send _

/-- **Step lemma.** -/
theorem Twins.step (h : Twins lost m m') (hinv : ManagerInv size waitForKeys m.received m)
    {request : Request × Faults} (hlegal : m.RestoredLegal lost request) :
    Twins lost (m.step pickler request) (m'.step pickler request) := by
  have hhandle := h.handle pickler m.received hinv hlegal
  rcases m.step_eq pickler request with ⟨heq, clientId, c, persist, key, valList, hkind⟩ | ⟨heq, hkind⟩
  · rcases m'.step_eq pickler request with ⟨heq', -⟩ | ⟨-, hkind'⟩
    · rw [heq, heq', h.received_eq]
      exact hhandle
    · exact absurd hkind (hkind' clientId c persist key valList)
  · rcases m'.step_eq pickler request with ⟨-, clientId, c, persist, key, valList, hkind'⟩ | ⟨heq', -⟩
    · exact absurd hkind' (hkind clientId c persist key valList)
    · rw [heq, heq', h.received_eq]
      exact ⟨hhandle.ws_eq, hhandle.answers_eq, rfl, hhandle.shared, hhandle.not_shared,
        hhandle.table⟩

end Handlers

theorem Manager.shared_run (pickler : XPickler) (requests : List (Request × Faults)) (m : Manager) :
    (requests.foldl (Manager.step pickler) m).shared = m.shared := by
  induction requests generalizing m with
  | nil => rfl
  | cons request requests ih =>
    have hframe := m.sameFrame_handle pickler request.2 m.received request.1
    rw [List.foldl_cons, ih]
    rcases m.step_eq pickler request with ⟨heq, -⟩ | ⟨heq, -⟩
    · rw [heq]
      exact hframe.shared_eq
    · rw [heq]
      exact hframe.shared_eq

/-- No checkpoint refers to memory of a key that has been freed. -/
def KeyMemory.Whole (mem : KeyMemory) (ws : WorkingSet) : Prop :=
  ∀ entry ∈ ws.chkpts.entries, (∀ key ∈ entry.2.deleted, mem.tombstone entry.1 key ≠ .freed) ∧
    ∀ key ∈ entry.2.keyAllocs, mem.alloc entry.1 key ≠ .freed

instance (mem : KeyMemory) (ws : WorkingSet) : Decidable (mem.Whole ws) :=
  inferInstanceAs (Decidable (∀ entry ∈ ws.chkpts.entries, _))

/-- A run of a manager from a state that is restored, in which no checkpoint ever refers to freed
memory: every object of the restored checkpoints has been attached on its own. -/
def Manager.wholeRun (pickler : XPickler) (m : Manager) (mem : KeyMemory)
    (requests : List (Request × Faults)) : Option (Manager × KeyMemory) :=
  if mem.Whole m.workingSet then
    requests.foldlM (Runs.shadowStep (Manager.step pickler) fun m mem request =>
      (m.handleMemory pickler request.2 mem m.received request.1).filter fun mem =>
        decide (mem.Whole (m.step pickler request).workingSet)) (m, mem)
  else none
