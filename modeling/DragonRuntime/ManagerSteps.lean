/-
# What a manager does to its working set

Whatever a manager receives and whatever faults it meets, the working set changes by calls
of the operations (`DictOp.perform_invariant`), so that the invariants of working sets hold
in every state of a manager (`ManagerInv.step`).
-/
import DragonRuntime.Manager
import DragonRuntime.WorkingSetPop
import DragonRuntime.Buckets

open WorkingSet Buckets

/-! ## One attempt -/

/-- The call of an operation on the working set. -/
def DictOp.call (deferredOps : Finset ℕ) : DictOp → DictCall
  | put _ clientId chkptId persist key valList waitFor _ =>
    .put clientId chkptId persist key valList waitFor
  | bput _ clientId chkptId key valList => .put clientId chkptId false key valList false
  | get _ clientId chkptId key => .get deferredOps clientId chkptId key
  | fetchAdd _ clientId chkptId key fetchAddVal => .fetchAdd clientId chkptId key fetchAddVal
  | pop _ clientId chkptId key => .pop deferredOps clientId chkptId key
  | clear _ clientId chkptId => .clear clientId chkptId

theorem DictOp.chkptId?_call (deferredOps : Finset ℕ) (op : DictOp) :
    (op.call deferredOps).chkptId? = some op.chkptId := by
  cases op <;> rfl

section Attempts

variable {size : ℕ} {waitForKeys : Bool} {ws ws1 : WorkingSet} {I : WorkingSet → Prop}
  {pickler : XPickler} {deferredOps : Finset ℕ} {fault : Fault} {c : ℕ}

variable {found : Option Checkpoint}

theorem WindowInv.dictStep_access (h : WindowInv size waitForKeys ws) (pickler : XPickler)
    (hrun : ws.put c = .ok (found, ws1)) : dictStep pickler ws (.access c) = ws1 := by
  unfold dictStep
  simp only [h.access_eq_put, hrun]

theorem WindowInv.putTry_invariant (h : WindowInv size waitForKeys ws) (hI : I ws)
    (clientId : ℕ) (persist : Bool) (key : KeyBytes) (valList : ValList) (waitFor freed : Bool)
    (hcall : I (dictStep pickler ws (.put clientId c persist key valList waitFor)))
    (haccess : I (dictStep pickler ws (.access c))) :
    I (putTry fault ws clientId c persist key valList waitFor freed).2 := by
  unfold putTry
  cases hrun : ws.put c with
  | error e => exact hI
  | ok found =>
    obtain ⟨found, ws1⟩ := found
    have hstep := h.dictStep_access pickler hrun
    rw [hstep] at haccess
    cases fault.raises with
    | some raised => exact hI
    | none =>
      cases found with
      | none => exact haccess
      | some chkpt =>
        simp only
        split
        · exact haccess
        · unfold dictStep at hcall
          simp only at hcall
          split
          · rename_i hperform
            rw [hperform] at hcall
            exact hcall
          · rename_i hperform
            rw [hperform] at hcall
            exact hcall

theorem putPerform_workingSet (fault : Fault) (ws : WorkingSet) (tag clientId c : ℕ)
    (persist : Bool) (key : KeyBytes) (valList : ValList) (waitFor freed : Bool) :
    (putPerform fault ws tag clientId c persist key valList waitFor freed).workingSet
      = (putTry fault ws clientId c persist key valList waitFor freed).2 := by
  unfold putPerform
  rcases putTry fault ws clientId c persist key valList waitFor freed with
    ⟨(_ | _ | _) | ⟨_ | _, _⟩, ws1⟩ <;> rfl

theorem bputPerform_workingSet (fault : Fault) (ws : WorkingSet) (tag clientId c : ℕ)
    (key : KeyBytes) (valList : ValList) :
    (bputPerform fault ws tag clientId c key valList).workingSet
      = (putTry fault ws clientId c false key valList false false).2 := by
  unfold bputPerform
  rcases putTry fault ws clientId c false key valList false false with
    ⟨(_ | _ | _) | ⟨_ | _, _⟩, ws1⟩ <;> rfl

/-- **Invariant rule** for one attempt: what the calls with the id of the operation keep,
and a value that is freed in a `fetch_add`, an attempt keeps. -/
theorem DictOp.perform_invariant (h : WindowInv size waitForKeys ws) (op : DictOp) (hI : I ws)
    (hcall : ∀ call : DictCall, call.chkptId? = some op.chkptId → I (dictStep pickler ws call))
    (hlate : ∀ tag clientId key fetchAddVal valList ws1,
      op = .fetchAdd tag clientId op.chkptId key fetchAddVal →
      fetchAddPerform pickler ws clientId op.chkptId key fetchAddVal = (.answered valList, ws1) →
      I ws1 → I (ws1.setValue op.chkptId key [])) :
    I (op.perform pickler deferredOps fault ws).workingSet := by
  have hown := hcall (op.call deferredOps) (op.chkptId?_call deferredOps)
  have haccess := hcall (.access op.chkptId) rfl
  cases op with
  | put _ clientId _ persist key valList waitFor freed =>
    unfold DictOp.perform
    simp only [putPerform_workingSet]
    exact h.putTry_invariant hI clientId persist key valList waitFor freed hown haccess
  | bput _ clientId _ key valList =>
    unfold DictOp.perform
    simp only [bputPerform_workingSet]
    exact h.putTry_invariant hI clientId false key valList false false hown haccess
  | get =>
    unfold DictOp.perform getPerform
    unfold DictOp.call dictStep at hown
    simp only at hown ⊢
    split
    · exact hI
    · rename_i value hvalue
      rw [hvalue] at hown
      cases fault.raises with
      | some raised => exact hI
      | none =>
        cases value with
        | none => exact hI
        | some value => exact hown
  | fetchAdd tag clientId c key fetchAddVal =>
    unfold DictOp.perform fetchAddOpPerform
    unfold DictOp.call dictStep at hown
    simp only at hown ⊢
    have hlate' := hlate tag clientId key fetchAddVal
    rcases hrun : fetchAddPerform pickler ws clientId c key fetchAddVal with ⟨result, ws1⟩
    rw [hrun] at hown
    cases result with
    | retired => exact hown
    | deferred | failed =>
      cases fault.raises with
      | some raised => exact hI
      | none => exact hown
    | answered valList =>
      cases fault.raises with
      | some raised => exact hI
      | none =>
        simp only
        split
        · exact hlate' valList ws1 rfl hrun hown
        · exact hown
    | answeredThenFailed =>
      cases fault.raises with
      | some raised => exact hI
      | none => exact hown
  | pop _ clientId c key =>
    unfold DictOp.perform popPerform
    unfold DictOp.call dictStep at hown
    simp only at hown ⊢
    rcases hrun : popOpPerform ws deferredOps clientId c key with ⟨e | performed, ws1⟩
    · rw [hrun] at hown
      cases e <;> exact hown
    · rw [hrun] at hown
      cases fault.raises with
      | some raised => exact hI
      | none =>
        cases performed with
        | false => exact hown
        | true =>
          simp only
          split
          · exact hown
          · exact hown
  | clear _ clientId c =>
    unfold DictOp.perform clearPerform
    unfold DictOp.call dictStep at hown
    simp only at hown ⊢
    rcases hrun : clearOpPerform ws clientId c with ⟨e | performed, ws1⟩
    · rw [hrun] at hown
      cases e <;> exact hown
    · rw [hrun] at hown
      cases fault.raises with
      | some raised => exact hI
      | none =>
        cases performed with
        | false => exact hown
        | true => exact hown

theorem DictOp.waits_same {op op' : DictOp}
    (hresult : (op.perform pickler deferredOps fault ws).result = .waits op') :
    op'.tag = op.tag ∧ op'.chkptId = op.chkptId := by
  cases op with
  | put tag clientId c persist key valList waitFor freed =>
    change (putPerform fault ws tag clientId c persist key valList waitFor freed).result = _
      at hresult
    unfold putPerform at hresult
    generalize putTry fault ws clientId c persist key valList waitFor freed = run at hresult
    rcases run with ⟨(_ | _ | _) | ⟨_ | _, _⟩, ws1⟩ <;> cases hresult
    exact ⟨rfl, rfl⟩
  | bput tag clientId c key valList =>
    change (bputPerform fault ws tag clientId c key valList).result = _ at hresult
    unfold bputPerform at hresult
    generalize putTry fault ws clientId c false key valList false false = run at hresult
    rcases run with ⟨(_ | _ | _) | ⟨_ | _, _⟩, ws1⟩ <;> cases hresult
    exact ⟨rfl, rfl⟩
  | get tag clientId c key =>
    change (getPerform deferredOps fault ws tag clientId c key).result = _ at hresult
    unfold getPerform at hresult
    generalize getOpPerform ws deferredOps c key = run, fault.raises = raises at hresult
    rcases run with e | (_ | value)
    · cases hresult
    · rcases raises with _ | raised <;> cases hresult
      exact ⟨rfl, rfl⟩
    · rcases raises with _ | raised <;> cases hresult
  | fetchAdd tag clientId c key fetchAddVal =>
    change (fetchAddOpPerform pickler fault ws tag clientId c key fetchAddVal).result = _
      at hresult
    unfold fetchAddOpPerform at hresult
    generalize fetchAddPerform pickler ws clientId c key fetchAddVal = run,
      fault.raises = raises at hresult
    obtain ⟨result, ws1⟩ := run
    cases result with
    | deferred =>
      rcases raises with _ | raised <;> cases hresult
      exact ⟨rfl, rfl⟩
    | retired => cases hresult
    | failed => rcases raises with _ | raised <;> cases hresult
    | answered =>
      rcases raises with _ | raised
      · simp only at hresult
        split at hresult <;> cases hresult
      · cases hresult
    | answeredThenFailed => rcases raises with _ | raised <;> cases hresult
  | pop tag clientId c key =>
    change (popPerform deferredOps fault ws tag clientId c key).result = _ at hresult
    unfold popPerform at hresult
    generalize popOpPerform ws deferredOps clientId c key = run, fault.raises = raises at hresult
    rcases run with ⟨e | (_ | _), ws1⟩
    · cases e <;> cases hresult
    · rcases raises with _ | raised <;> cases hresult
      exact ⟨rfl, rfl⟩
    · rcases raises with _ | raised
      · simp only at hresult
        split at hresult <;> cases hresult
      · cases hresult
  | clear tag clientId c =>
    change (clearPerform fault ws tag clientId c).result = _ at hresult
    unfold clearPerform at hresult
    generalize clearOpPerform ws clientId c = run, fault.raises = raises at hresult
    rcases run with ⟨e | (_ | _), ws1⟩
    · cases e <;> cases hresult
      exact ⟨rfl, rfl⟩
    · rcases raises with _ | raised <;> cases hresult
      exact ⟨rfl, rfl⟩
    · rcases raises with _ | raised <;> cases hresult

theorem WindowInv.value_of_answered (h : WindowInv size waitForKeys ws) {clientId : ℕ}
    {key : KeyBytes} {fetchAddVal : ℤ} {valList : ValList}
    (hrun : fetchAddPerform pickler ws clientId c key fetchAddVal = (.answered valList, ws1)) :
    (viewAt ws1 key c).value.isSome := by
  obtain ⟨ws2, hadv, -, ⟨hput, -, -⟩ | hput⟩ := h.put_found c
  · unfold fetchAddPerform at hrun
    simp only [hput] at hrun
    cases hrun
  · cases hlookup : ws2.chkpts.lookup c with
    | none =>
      unfold fetchAddPerform at hrun
      simp only [hput, hlookup] at hrun
      cases hrun
    | some chkpt =>
      rw [hlookup] at hput
      have hsound := (h.advances hadv).sound c chkpt hlookup
      rcases fetchAdd_stores pickler hput hsound clientId key fetchAddVal with
        ⟨hfail, -⟩ | ⟨result, ws3, valList', hrun', hat⟩
      · rw [hfail] at hrun
        cases hrun
      · rw [hrun'] at hrun
        cases hrun
        rw [hat.viewAt_eq, if_pos rfl]
        unfold Checkpoint.viewWith
        rw [if_pos rfl]
        rfl

theorem WindowInv.nextId_put_le (h : WindowInv size waitForKeys ws)
    (hrun : ws.put c = .ok (found, ws1)) : ws1.nextId ≤ max ws.nextId (c + 1) := by
  rcases h.put_cases c with ⟨-, herr⟩ | ⟨-, ws2, -, hrun2, -, -, hle⟩
  · rw [herr] at hrun
    cases hrun
  · rw [hrun2] at hrun
    cases hrun
    exact hle

/-- An id that is not retired is not retired by a call for it. -/
theorem WindowInv.oldest_le_of_nextId_le {ws' : WorkingSet} (h : WindowInv size waitForKeys ws)
    (h' : WindowInv size waitForKeys ws') (hold : ws.oldestChkptId ≤ c)
    (hle : ws'.nextId ≤ max ws.nextId (c + 1)) : ws'.oldestChkptId ≤ c := by
  have hpos := h.size_pos
  rw [h.oldest_eq] at hold
  rw [h'.oldest_eq]
  omega

/-- A put that does not find its checkpoint has advanced as far as it can. -/
theorem WindowInv.put_none (h : WindowInv size waitForKeys ws) (hrun : ws.put c = .ok (none, ws1)) :
    ws1.nextId ≤ c ∧ ws1.advance = .ok (false, ws1) := by
  have hpos := h.size_pos
  rcases h.put_cases c with ⟨-, herr⟩ | ⟨hold, ws2, hadv, hrun2, -, hrefuse, -⟩
  · rw [herr] at hrun
    cases hrun
  · rw [hrun2, Except.ok.injEq, Prod.mk.injEq] at hrun
    obtain ⟨hnone, rfl⟩ := hrun
    have h2 := h.advances hadv
    have hle : ws2.nextId ≤ c := by
      by_contra hlt
      refine AList.lookup_eq_none.mp hnone ((h2.mem_iff c).mpr ⟨?_, by omega⟩)
      rw [← h2.oldest_eq]
      exact h.oldest_le_of_nextId_le h2 hold (h.nextId_put_le hrun2)
    exact ⟨hle, hrefuse hle⟩

theorem WindowInv.put_of_mem (h : WindowInv size waitForKeys ws) {chkpt : Checkpoint}
    (hlookup : ws.chkpts.lookup c = some chkpt) : ws.put c = .ok (some chkpt, ws) := by
  obtain ⟨hfirst, hlast⟩ := (h.mem_iff c).mp (AList.lookup_isSome.mp (by rw [hlookup]; rfl))
  rcases h.put_cases c with ⟨hold, -⟩ | ⟨-, ws1, -, hrun, hsame, -⟩
  · rw [h.oldest_eq] at hold
    omega
  · rw [hrun, hsame hlast, hlookup]

/-- A put of a working set that does not advance to its id changes nothing. -/
theorem WindowInv.put_of_refused (h : WindowInv size waitForKeys ws) (hle : ws.nextId ≤ c)
    (hrefuse : ws.advance = .ok (false, ws)) : ws.put c = .ok (none, ws) := by
  rcases h.put_cases c with ⟨hold, -⟩ | ⟨-, ws2, hadv, hrun, -⟩
  · rw [h.oldest_eq] at hold
    omega
  · rw [hadv.eq_of_refused hrefuse] at hrun
    rw [hrun, AList.lookup_eq_none.mpr]
    rw [h.mem_iff]
    omega

theorem nextId_setValue (ws : WorkingSet) (c : ℕ) (key : KeyBytes) (valList : ValList) :
    (ws.setValue c key valList).nextId = ws.nextId := by
  unfold WorkingSet.setValue
  split <;> rfl

theorem WindowInv.nextId_dictStep_le (h : WindowInv size waitForKeys ws) (pickler : XPickler)
    {call : DictCall} (hid : call.chkptId? = some c) :
    (dictStep pickler ws call).nextId ≤ max ws.nextId (c + 1) := by
  have hwriter : ∀ (ws : WorkingSet) (clientId : ℕ),
      (ws.updateWriterCheckpoint clientId c).nextId = ws.nextId := fun ws clientId =>
    (sameKeys_updateWriterCheckpoint ws clientId c).nextId_eq
  -- all that a call does after it has its checkpoint keeps the window
  cases call with
  | put =>
    cases hid
    unfold dictStep putOpPerform
    simp only
    split
    · exact le_max_left _ _
    · rename_i ws1 hrun
      exact h.nextId_put_le hrun
    · rename_i chkpt ws1 hrun
      have hle := h.nextId_put_le hrun
      split
      · exact hle
      · split
        · exact hle
        · exact hle
  | batchPut =>
    cases hid
    unfold dictStep batchPutOpPerform
    simp only
    split
    · exact le_max_left _ _
    · rename_i ws1 hrun
      exact h.nextId_put_le hrun
    · rename_i chkpt ws1 hrun
      have hle := h.nextId_put_le hrun
      split
      · exact hle
      · exact hle
  | get =>
    cases hid
    unfold dictStep
    simp only
    split
    · rw [hwriter]
      exact le_max_left _ _
    · exact le_max_left _ _
  | fetchAdd =>
    cases hid
    unfold dictStep fetchAddPerform
    simp only
    split
    · exact le_max_left _ _
    · rename_i ws1 hrun
      exact h.nextId_put_le hrun
    · rename_i chkpt ws1 hrun
      have hle := h.nextId_put_le hrun
      split
      · exact hle
      · split
        · exact hle
        · split
          · rw [hwriter]
            exact hle
          · split
            · rw [nextId_setValue, hwriter]
              exact hle
            · rw [nextId_setValue, hwriter]
              exact hle
  | pop deferredOps clientId _ key =>
    cases hid
    unfold dictStep
    rcases h.popOp_cases deferredOps clientId c key with
      ⟨-, hperform⟩ | ⟨-, chkpt, chkpt', -, hperform, -, -⟩
    · simp only [hperform]
      exact le_max_left _ _
    · simp only [hperform]
      exact le_max_left _ _
  | read =>
    cases hid
    unfold dictStep
    simp only [hwriter]
    exact le_max_left _ _
  | clear =>
    cases hid
    unfold dictStep clearOpPerform
    simp only [h.access_eq_put]
    split
    · exact le_max_left _ _
    · rename_i ws1 hrun
      exact h.nextId_put_le hrun
    · rename_i chkpt ws1 hrun
      have hle := h.nextId_put_le hrun
      simp only [hwriter]
      exact hle
  | access =>
    cases hid
    unfold dictStep
    simp only [h.access_eq_put]
    split
    · exact le_max_left _ _
    · rename_i ws1 hrun
      exact h.nextId_put_le hrun
  | advance => cases hid

/-- The invariants of a working set. -/
structure WorkingSetInv (size : ℕ) (waitForKeys : Bool) (ws : WorkingSet) : Prop where
  window : WindowInv size waitForKeys ws
  persist : PersistInv ws

theorem WorkingSetInv.dictStep (h : WorkingSetInv size waitForKeys ws) (pickler : XPickler)
    (call : DictCall) : WorkingSetInv size waitForKeys (dictStep pickler ws call) :=
  ⟨h.window.dictCall pickler call, h.persist.dictCall h.window pickler call⟩

theorem WorkingSetInv.put (h : WorkingSetInv size waitForKeys ws)
    (hrun : ws.put c = .ok (found, ws1)) : WorkingSetInv size waitForKeys ws1 := by
  rw [← h.window.dictStep_access XPickler.scalars hrun]
  exact h.dictStep XPickler.scalars (.access c)

theorem WorkingSetInv.setValue (h : WorkingSetInv size waitForKeys ws) {key : KeyBytes}
    (hkey : (viewAt ws key c).value.isSome) (valList : ValList) :
    WorkingSetInv size waitForKeys (ws.setValue c key valList) := by
  constructor
  · refine h.window.setValue ?_
    intro chkpt hlookup
    rw [viewAt_of_lookup hlookup] at hkey
    exact (h.window.sound c chkpt hlookup).allocs key (AList.lookup_isSome.mp hkey)
  · unfold WorkingSet.setValue
    cases hlookup : ws.chkpts.lookup c with
    | none => exact h.persist
    | some chkpt =>
      intro k i hpersist
      have hold := h.persist k i
      simp only [viewAt, keyViewAt_setChkpt] at hpersist hold ⊢
      by_cases hi : i = c
      · subst hi
        rw [if_pos rfl] at hpersist ⊢
        rw [keyViewAt_of_lookup hlookup] at hold
        change (AList.lookup k (chkpt.map.insert key valList)).isSome
        rw [AList.lookup_isSome, AList.mem_insert]
        exact Or.inr (AList.lookup_isSome.mp (hold hpersist))
      · rw [if_neg hi] at hpersist ⊢
        exact hold hpersist

theorem WorkingSetInv.perform (h : WorkingSetInv size waitForKeys ws) (op : DictOp) :
    WorkingSetInv size waitForKeys (op.perform pickler deferredOps fault ws).workingSet := by
  refine op.perform_invariant h.window h (fun call _ => h.dictStep pickler call) ?_
  intro tag clientId key fetchAddVal valList ws1 _ hrun hinv
  exact hinv.setValue (h.window.value_of_answered hrun) []

/-- An id that is not retired is not retired by an attempt to perform an operation of it. -/
theorem WorkingSetInv.oldest_perform (h : WorkingSetInv size waitForKeys ws) (op : DictOp)
    (hold : ws.oldestChkptId ≤ op.chkptId) :
    (op.perform pickler deferredOps fault ws).workingSet.oldestChkptId ≤ op.chkptId := by
  refine h.window.oldest_le_of_nextId_le (h.perform op).window hold ?_
  refine op.perform_invariant (I := fun ws' => ws'.nextId ≤ max ws.nextId (op.chkptId + 1))
    h.window (le_max_left _ _) (fun call hid => h.window.nextId_dictStep_le pickler hid) ?_
  intro tag clientId key fetchAddVal valList ws1 _ _ hle
  rw [nextId_setValue]
  exact hle

end Attempts

/-! ## The invariant of a manager -/

/-- Every operation is filed under its checkpoint id, and belongs to one of the first `n`
requests. -/
def Filed (n : ℕ) (table : Dict ℕ (List DictOp)) : Prop :=
  ∀ c, ∀ op ∈ bucket table c, op.chkptId = c ∧ op.tag < n

/-- The invariants of the working set, and every operation is filed. -/
structure ManagerInv (size : ℕ) (waitForKeys : Bool) (n : ℕ) (m : Manager) : Prop where
  ws : WorkingSetInv size waitForKeys m.workingSet
  filed : Filed n m.deferredOps

section Managers

variable {size : ℕ} {waitForKeys : Bool} {m : Manager} {pickler : XPickler}
  {table : Dict ℕ (List DictOp)} {ops : List DictOp} {c n : ℕ}

theorem Filed.insert (h : Filed n table) (hops : ∀ op ∈ ops, op.chkptId = c ∧ op.tag < n) :
    Filed n (table.insert c ops) := by
  intro i op hop
  by_cases hi : i = c
  · subst hi
    rw [bucket_insert] at hop
    exact hops op hop
  · rw [bucket_insert_ne hi] at hop
    exact h i op hop

theorem Filed.erase (h : Filed n table) (c : ℕ) : Filed n (table.erase c) := by
  intro i op hop
  by_cases hi : i = c
  · subst hi
    rw [bucket_erase] at hop
    cases hop
  · rw [bucket_erase_ne hi] at hop
    exact h i op hop

theorem managerInv_init (start : ℕ) (hsize : 0 < size) (waitForKeys waitForWriters : Bool) :
    ManagerInv size waitForKeys n (Manager.init start size waitForKeys waitForWriters) := by
  refine ⟨⟨windowInv_init start hsize waitForKeys waitForWriters,
    persistInv_init start size waitForKeys waitForWriters⟩, ?_⟩
  intro c op hop
  cases hop

theorem ManagerInv.send (h : ManagerInv size waitForKeys n m) (answers : List Answer) :
    ManagerInv size waitForKeys n (m.send answers) := ⟨h.ws, h.filed⟩

theorem ManagerInv.perform (h : ManagerInv size waitForKeys n m) (pickler : XPickler)
    (fault : Fault) (op : DictOp) : ManagerInv size waitForKeys n (m.perform pickler fault op).2 :=
  ⟨h.ws.perform op, h.filed⟩

variable {fault : Fault} {m' : Manager} {op : DictOp}

theorem ManagerInv.oldest_perform (h : ManagerInv size waitForKeys n m) {result : PerformResult}
    (hold : m.workingSet.oldestChkptId ≤ op.chkptId)
    (hrun : m.perform pickler fault op = (result, m')) :
    m'.workingSet.oldestChkptId ≤ op.chkptId := by
  have hws : (op.perform pickler m.deferredIds fault m.workingSet).workingSet = m'.workingSet :=
    congrArg (fun run => run.2.workingSet) hrun
  rw [← hws]
  exact h.ws.oldest_perform op hold

theorem ManagerInv.defer (h : ManagerInv size waitForKeys n m) (htag : op.tag < n) :
    ManagerInv size waitForKeys n (m.defer op) := by
  refine ⟨h.ws, h.filed.insert ?_⟩
  intro op' hop'
  rcases List.mem_append.mp hop' with hold | hnew
  · exact h.filed op.chkptId op' hold
  · rw [List.mem_singleton.mp hnew]
    exact ⟨rfl, htag⟩

/-- An operation that waits keeps its tag and checkpoint. -/
theorem Manager.same_of_waits {op' : DictOp} (hrun : m.perform pickler fault op = (.waits op', m')) :
    op'.tag = op.tag ∧ op'.chkptId = op.chkptId :=
  DictOp.waits_same (congrArg Prod.fst hrun)

theorem ManagerInv.processLoop (fault : ℕ → Fault) {leftOvers : List DictOp}
    (h : ManagerInv size waitForKeys n m) (hops : ∀ op ∈ ops, op.chkptId = c ∧ op.tag < n)
    (hleft : ∀ op ∈ leftOvers, op.chkptId = c ∧ op.tag < n) :
    ManagerInv size waitForKeys n (Manager.processLoop pickler fault c ops leftOvers m).2 := by
  induction ops generalizing leftOvers m with
  | nil =>
    unfold Manager.processLoop
    split
    · exact ⟨h.ws, h.filed.erase c⟩
    · exact ⟨h.ws, h.filed.insert hleft⟩
  | cons op ops ih =>
    have hrest : ∀ op ∈ ops, op.chkptId = c ∧ op.tag < n :=
      fun op hop => hops op (List.mem_cons_of_mem _ hop)
    have htaken : ManagerInv size waitForKeys n
        { m with deferredOps := m.deferredOps.insert c ops } := ⟨h.ws, h.filed.insert hrest⟩
    have hperform := htaken.perform pickler (fault op.tag) op
    unfold Manager.processLoop
    split
    · rename_i m' hrun
      rw [hrun] at hperform
      exact ih hperform hrest hleft
    · rename_i op' m' hrun
      rw [hrun] at hperform
      refine ih hperform hrest ?_
      intro op'' hop''
      rcases List.mem_append.mp hop'' with hold | hnew
      · exact hleft op'' hold
      · obtain ⟨htag, hid⟩ := Manager.same_of_waits hrun
        rw [List.mem_singleton.mp hnew, htag, hid]
        exact hops op List.mem_cons_self
    · rename_i m' hrun
      rw [hrun] at hperform
      exact hperform

theorem ManagerInv.processDeferredOps (h : ManagerInv size waitForKeys n m) (pickler : XPickler)
    (fault : ℕ → Fault) (c : ℕ) :
    ManagerInv size waitForKeys n (m.processDeferredOps pickler fault c).2 := by
  unfold Manager.processDeferredOps
  cases hlookup : m.deferredOps.lookup c with
  | none => exact h
  | some ops =>
    refine h.processLoop fault ?_ (fun op hop => absurd hop List.not_mem_nil)
    intro op hop
    refine h.filed c op ?_
    rwa [bucket_of_lookup hlookup]

theorem ManagerInv.performOrDefer (h : ManagerInv size waitForKeys n m) (fault : Fault)
    (htag : op.tag < n) : ManagerInv size waitForKeys n (m.performOrDefer pickler fault op) := by
  have hperform := h.perform pickler fault op
  unfold Manager.performOrDefer
  split
  · rename_i op' m' hrun
    rw [hrun] at hperform
    exact hperform.defer ((Manager.same_of_waits hrun).1.trans_lt htag)
  · rename_i m' _ hrun
    rw [hrun] at hperform
    exact hperform

theorem ManagerInv.put (h : ManagerInv size waitForKeys n m) {found : Option Checkpoint}
    {ws : WorkingSet} (hrun : m.workingSet.put c = .ok (found, ws)) :
    ManagerInv size waitForKeys n { m with workingSet := ws } := ⟨h.ws.put hrun, h.filed⟩

theorem ManagerInv.advanceAndProcess (h : ManagerInv size waitForKeys n m) {faults : Faults}
    {raised : Bool} (hrun : m.advanceAndProcess pickler faults c = .ok (raised, m')) :
    ManagerInv size waitForKeys n m' := by
  unfold Manager.advanceAndProcess at hrun
  split at hrun
  · cases hrun
  · rename_i ws hput
    cases hrun
    exact h.put hput
  · rename_i chkpt ws hput
    rw [Except.ok.injEq] at hrun
    have hpass := (h.put hput).processDeferredOps pickler faults.before c
    rw [hrun] at hpass
    exact hpass

theorem ManagerInv.performPut (h : ManagerInv size waitForKeys n m) (faults : Faults) (tag : ℕ)
    (onRaise : List Answer) (htag : op.tag < n) :
    ManagerInv size waitForKeys n (m.performPut pickler faults tag onRaise op) := by
  unfold Manager.performPut
  split
  · exact h.send _
  · exact h.send _
  · split
    · exact h.send _
    · rename_i m1 hrun
      exact (h.advanceAndProcess hrun).send _
    · rename_i m1 hrun
      have hown := (h.advanceAndProcess hrun).perform pickler faults.own op
      split
      · rename_i m2 hperform
        rw [hperform] at hown
        exact hown.send _
      · rename_i op' m2 hperform
        rw [hperform] at hown
        exact hown.defer ((Manager.same_of_waits hperform).1.trans_lt htag)
      · rename_i m2 hperform
        rw [hperform] at hown
        have hafter := hown.processDeferredOps pickler faults.after op.chkptId
        split
        · rename_i m3 hpass
          rw [hpass] at hafter
          exact hafter.send _
        · rename_i m3 hpass
          rw [hpass] at hafter
          exact hafter

theorem ManagerInv.batchPut (h : ManagerInv size waitForKeys n m) (faults : Faults)
    (clientId c : ℕ) (persist : Bool) (key : KeyBytes) (valList : ValList) :
    ManagerInv size waitForKeys n (m.batchPut pickler faults clientId c persist key valList) := by
  unfold Manager.batchPut
  split
  · exact h
  · rename_i m1 hrun
    exact h.advanceAndProcess hrun
  · rename_i m1 hrun
    have h1 := h.advanceAndProcess hrun
    have hstep := h1.ws.dictStep pickler
      (.batchPut clientId c (persist && m1.workingSet.waitForKeys) key valList)
    unfold dictStep at hstep
    simp only at hstep
    split
    · exact h1
    · rename_i ws _ hperform
      rw [hperform] at hstep
      exact ⟨hstep, h1.filed⟩
    · rename_i ws _ hperform
      rw [hperform] at hstep
      have hstored : ManagerInv size waitForKeys n { m1 with workingSet := ws } := ⟨hstep, h1.filed⟩
      exact hstored.processDeferredOps pickler faults.after c

theorem ManagerInv.updateWriter (h : ManagerInv size waitForKeys n m) (clientId c : ℕ) :
    ManagerInv size waitForKeys n
      { m with workingSet := m.workingSet.updateWriterCheckpoint clientId c } :=
  ⟨h.ws.dictStep XPickler.scalars (.read clientId c), h.filed⟩

/-! ### What no handler touches -/

/-- The two managers have received the same number of requests, and both or none of their
working sets have the table of their manager. -/
structure SameFrame (m m' : Manager) : Prop where
  received_eq : m'.received = m.received
  shared_eq : m'.shared = m.shared

theorem SameFrame.refl (m : Manager) : SameFrame m m := ⟨rfl, rfl⟩

theorem SameFrame.trans {m1 m2 : Manager} (h : SameFrame m m1) (h' : SameFrame m1 m2) :
    SameFrame m m2 :=
  ⟨h'.received_eq.trans h.received_eq, h'.shared_eq.trans h.shared_eq⟩

theorem Manager.sameFrame_perform {result : PerformResult}
    (hrun : m.perform pickler fault op = (result, m')) : SameFrame m m' :=
  ⟨congrArg (fun run => run.2.received) hrun.symm, congrArg (fun run => run.2.shared) hrun.symm⟩

theorem Manager.sameFrame_processLoop (pickler : XPickler) (fault : ℕ → Fault) (c : ℕ)
    (ops leftOvers : List DictOp) (m : Manager) :
    SameFrame m (Manager.processLoop pickler fault c ops leftOvers m).2 := by
  induction ops generalizing leftOvers m with
  | nil =>
    unfold Manager.processLoop
    split <;> exact ⟨rfl, rfl⟩
  | cons op ops ih =>
    have htaken : SameFrame m { m with deferredOps := m.deferredOps.insert c ops } := ⟨rfl, rfl⟩
    unfold Manager.processLoop
    split
    · rename_i m' hrun
      exact (htaken.trans (Manager.sameFrame_perform hrun)).trans (ih _ m')
    · rename_i op' m' hrun
      exact (htaken.trans (Manager.sameFrame_perform hrun)).trans (ih _ m')
    · rename_i m' hrun
      exact htaken.trans (Manager.sameFrame_perform hrun)

theorem Manager.sameFrame_processDeferredOps (pickler : XPickler) (fault : ℕ → Fault)
    (m : Manager) (c : ℕ) : SameFrame m (m.processDeferredOps pickler fault c).2 := by
  unfold Manager.processDeferredOps
  split
  · exact SameFrame.refl m
  · exact Manager.sameFrame_processLoop pickler fault c _ [] m

theorem Manager.sameFrame_advanceAndProcess {faults : Faults} {raised : Bool}
    (hrun : m.advanceAndProcess pickler faults c = .ok (raised, m')) : SameFrame m m' := by
  unfold Manager.advanceAndProcess at hrun
  split at hrun
  · cases hrun
  · cases hrun
    exact ⟨rfl, rfl⟩
  · rename_i chkpt ws hput
    rw [Except.ok.injEq] at hrun
    have hpass := Manager.sameFrame_processDeferredOps pickler faults.before
      { m with workingSet := ws } c
    rw [hrun] at hpass
    exact ⟨hpass.received_eq, hpass.shared_eq⟩

theorem Manager.sameFrame_performPut (pickler : XPickler) (faults : Faults) (m : Manager) (tag : ℕ)
    (onRaise : List Answer) (op : DictOp) :
    SameFrame m (m.performPut pickler faults tag onRaise op) := by
  unfold Manager.performPut
  split
  · exact ⟨rfl, rfl⟩
  · exact ⟨rfl, rfl⟩
  · split
    · exact ⟨rfl, rfl⟩
    · rename_i m1 hrun
      exact (Manager.sameFrame_advanceAndProcess hrun).trans ⟨rfl, rfl⟩
    · rename_i m1 hrun
      have h1 := Manager.sameFrame_advanceAndProcess hrun
      split
      · rename_i m2 hperform
        exact (h1.trans (Manager.sameFrame_perform hperform)).trans ⟨rfl, rfl⟩
      · rename_i op' m2 hperform
        exact (h1.trans (Manager.sameFrame_perform hperform)).trans ⟨rfl, rfl⟩
      · rename_i m2 hperform
        have h2 := h1.trans (Manager.sameFrame_perform hperform)
        have h3 := Manager.sameFrame_processDeferredOps pickler faults.after m2 op.chkptId
        split
        · rename_i m3 hpass
          rw [hpass] at h3
          exact (h2.trans h3).trans ⟨rfl, rfl⟩
        · rename_i m3 hpass
          rw [hpass] at h3
          exact h2.trans h3

theorem Manager.sameFrame_batchPut (pickler : XPickler) (faults : Faults) (m : Manager)
    (clientId c : ℕ) (persist : Bool) (key : KeyBytes) (valList : ValList) :
    SameFrame m (m.batchPut pickler faults clientId c persist key valList) := by
  unfold Manager.batchPut
  split
  · exact SameFrame.refl m
  · rename_i m1 hrun
    exact Manager.sameFrame_advanceAndProcess hrun
  · rename_i m1 hrun
    have h1 := Manager.sameFrame_advanceAndProcess hrun
    split
    · exact h1
    · exact h1.trans ⟨rfl, rfl⟩
    · rename_i ws _ _
      have h2 : SameFrame m { m1 with workingSet := ws } := h1.trans ⟨rfl, rfl⟩
      exact h2.trans (Manager.sameFrame_processDeferredOps pickler faults.after _ c)

theorem Manager.sameFrame_performOrDefer (pickler : XPickler) (m : Manager) (fault : Fault)
    (op : DictOp) : SameFrame m (m.performOrDefer pickler fault op) := by
  unfold Manager.performOrDefer
  split
  · rename_i op' m' hrun
    exact (Manager.sameFrame_perform hrun).trans ⟨rfl, rfl⟩
  · rename_i m' _ hrun
    exact Manager.sameFrame_perform hrun

/-- What no request changes. -/
theorem Manager.sameFrame_handle (pickler : XPickler) (faults : Faults) (m : Manager) (tag : ℕ)
    (request : Request) : SameFrame m (m.handle pickler faults tag request) := by
  cases request with
  | put => exact m.sameFrame_performPut ..
  | bput => exact m.sameFrame_performPut ..
  | batchPut => exact m.sameFrame_batchPut ..
  | get => exact m.sameFrame_performOrDefer ..
  | fetchAdd => exact m.sameFrame_performOrDefer ..
  | pop => exact m.sameFrame_performOrDefer ..
  | clear => exact m.sameFrame_performOrDefer ..
  | contains =>
    unfold Manager.handle Manager.contains
    simp only
    split <;> exact ⟨rfl, rfl⟩
  | length =>
    unfold Manager.handle Manager.getLength
    simp only
    split <;> exact ⟨rfl, rfl⟩
  | keys =>
    unfold Manager.handle Manager.keys
    simp only
    split <;> exact ⟨rfl, rfl⟩
  | values =>
    unfold Manager.handle Manager.values
    simp only
    split <;> exact ⟨rfl, rfl⟩
  | items =>
    unfold Manager.handle Manager.items
    simp only
    split <;> exact ⟨rfl, rfl⟩

/-! ### Steps -/

/-- **Step lemma.**  Every request keeps the invariant, whatever faults it meets. -/
theorem ManagerInv.handle (h : ManagerInv size waitForKeys n m) (pickler : XPickler)
    (faults : Faults) {tag : ℕ} (htag : tag < n) (request : Request) :
    ManagerInv size waitForKeys n (m.handle pickler faults tag request) := by
  cases request with
  | put => exact h.performPut faults tag _ htag
  | bput => exact h.performPut faults tag _ htag
  | batchPut => exact h.batchPut faults ..
  | get => exact h.performOrDefer _ htag
  | fetchAdd => exact h.performOrDefer _ htag
  | pop => exact h.performOrDefer _ htag
  | clear => exact h.performOrDefer _ htag
  | contains clientId c =>
    unfold Manager.handle Manager.contains
    simp only
    split
    · exact h.send _
    · exact h.send _
    · exact h.send _
    · exact (h.updateWriter clientId c).send _
  | length clientId c =>
    unfold Manager.handle Manager.getLength
    simp only
    split
    · exact h.send _
    · exact h.send _
    · exact h.send _
    · exact (h.updateWriter clientId c).send _
  | keys clientId c =>
    unfold Manager.handle Manager.keys
    simp only
    split
    · exact h.updateWriter clientId c
    · exact h.updateWriter clientId c
    · exact (h.updateWriter clientId c).send _
  | values clientId c =>
    unfold Manager.handle Manager.values
    simp only
    split
    · exact h.updateWriter clientId c
    · exact (h.updateWriter clientId c).send _
    · exact (h.updateWriter clientId c).send _
    · exact (h.updateWriter clientId c).send _
  | items clientId c =>
    unfold Manager.handle Manager.items
    simp only
    split
    · exact h.updateWriter clientId c
    · exact h.updateWriter clientId c
    · exact (h.updateWriter clientId c).send _

theorem Manager.step_eq (pickler : XPickler) (m : Manager) (request : Request × Faults) :
    m.step pickler request = m.handle pickler request.2 m.received request.1 ∧
        (∃ clientId c persist key valList, request.1 = .batchPut clientId c persist key valList) ∨
      m.step pickler request
        = { m.handle pickler request.2 m.received request.1 with received := m.received + 1 } ∧
        ∀ clientId c persist key valList, request.1 ≠ .batchPut clientId c persist key valList := by
  obtain ⟨request, faults⟩ := request
  cases request with
  | batchPut clientId c persist key valList =>
    exact Or.inl ⟨rfl, clientId, c, persist, key, valList, rfl⟩
  | _ => exact Or.inr ⟨rfl, nofun⟩

theorem ManagerInv.mono (h : ManagerInv size waitForKeys n m) {n' : ℕ} (hle : n ≤ n') :
    ManagerInv size waitForKeys n' m :=
  ⟨h.ws, fun c op hop => ⟨(h.filed c op hop).1, (h.filed c op hop).2.trans_le hle⟩⟩

/-- **Step lemma.** -/
theorem ManagerInv.step (h : ManagerInv size waitForKeys m.received m) (pickler : XPickler)
    (request : Request × Faults) :
    ManagerInv size waitForKeys (m.step pickler request).received (m.step pickler request) := by
  have hframe := m.sameFrame_handle pickler request.2 m.received request.1
  rcases m.step_eq pickler request with ⟨heq, clientId, c, persist, key, valList, hkind⟩ | ⟨heq, -⟩
  · rw [heq, hframe.received_eq]
    obtain ⟨request, faults⟩ := request
    cases hkind
    exact h.batchPut faults clientId c persist key valList
  · have hhandle := (h.mono (Nat.le_succ m.received)).handle pickler request.2
      (Nat.lt_succ_self m.received) request.1
    rw [heq]
    exact ⟨hhandle.ws, hhandle.filed⟩

/-- **Run lemma.** -/
theorem managerInv_run (pickler : XPickler) (start : ℕ) (hsize : 0 < size)
    (waitForKeys waitForWriters : Bool) (requests : List (Request × Faults)) :
    ManagerInv size waitForKeys
      (requests.foldl (Manager.step pickler)
        (Manager.init start size waitForKeys waitForWriters)).received
      (requests.foldl (Manager.step pickler)
        (Manager.init start size waitForKeys waitForWriters)) :=
  List.foldlRecOn requests (Manager.step pickler)
    (motive := fun m => ManagerInv size waitForKeys m.received m)
    (managerInv_init start hsize waitForKeys waitForWriters) fun _ h request _ =>
      h.step pickler request

end Managers
