/-
# Operations that are deferred are woken up in time

An operation is deferred while an attempt to perform it returns `False`.  A manager tries
again only when a put arrives for the checkpoint id of the operation, although a put, a pop,
a `fetch_add`, a clear or a mere access can let the window advance or complete a key for an
operation of any id.

A deferred operation is *parked* (`DictOp.Parked`): the window refuses to advance to its
checkpoint, or a lookup of its key has to wait.  A request leaves all operations parked if
it performs again those that it could enable, and does not bear on the others
(`Manager.WakesAll`): what it changes, together with the operations that it performs again,
is outside of what keeps them waiting (`Footprint.Spares`).
-/
import DragonRuntime.ManagerRestored
import DragonRuntime.WorkingSetFrame

open WorkingSet Buckets Runs

/-! ## Waiting -/

/-- An attempt to perform the operation returns `False`. -/
def DictOp.Waits (pickler : XPickler) (deferredOps : Finset ℕ) (ws : WorkingSet) (op : DictOp) :
    Prop :=
  ∃ op', (op.perform pickler deferredOps .none ws).result = .waits op'

/-- No operation that is deferred could be performed. -/
def NoLostWakeup (pickler : XPickler) (m : Manager) : Prop :=
  ∀ c, ∀ op ∈ bucket m.deferredOps c, op.Waits pickler m.deferredIds m.workingSet

/-- The checkpoint is not there, and the window does not advance. -/
def WorkingSet.Stuck (ws : WorkingSet) (c : ℕ) : Prop :=
  ws.nextId ≤ c ∧ ws.advance = .ok (false, ws)

/-- What keeps an operation waiting: the window does not advance to its checkpoint, the key of
a `wait_for` is not there, or the lookup of the key has to wait.  A clear of a checkpoint that
is retired ends without a `return`. -/
def DictOp.Parked (deferredOps : Finset ℕ) (ws : WorkingSet) : DictOp → Prop
  | .put _ _ c _ key _ waitFor freed =>
    freed = false ∧
      (ws.Stuck c ∨ waitFor = true ∧ c ∈ ws.chkpts ∧ (viewAt ws key c).value = none)
  | .bput _ _ c _ _ => ws.Stuck c
  | .get _ _ c key => ws.getView deferredOps key c = .ok none
  | .fetchAdd _ _ c _ _ => ws.Stuck c
  | .pop _ _ c key =>
    ws.getView deferredOps key c = .ok none ∨
      ws.newestChkptId < c ∧
        ∃ view, ws.getView deferredOps key c = .ok (some view) ∧ view.value.isSome
  | .clear _ _ c => c < ws.oldestChkptId ∨ ws.Stuck c

/-- A `wait_for` does not find its key with another value. -/
def DictOp.Agrees (ws : WorkingSet) : DictOp → Prop
  | .put _ _ c _ key valList waitFor freed =>
    freed = false ∧ (waitFor = true → ∀ chkpt ws1, ws.put c = .ok (some chkpt, ws1) →
      ∀ stored, chkpt.map.lookup key = some stored → valueToBytes stored = valueToBytes valList)
  | _ => True

section Parked

variable {size : ℕ} {waitForKeys : Bool} {ws ws' ws1 : WorkingSet} {pickler : XPickler}
  {deferredOps deferredOps' : Finset ℕ} {c : ℕ} {key : KeyBytes} {footprint : Footprint}

theorem WindowInv.put_of_stuck (h : WindowInv size waitForKeys ws) (hstuck : ws.Stuck c) :
    ws.put c = .ok (none, ws) :=
  h.put_of_refused hstuck.1 hstuck.2

theorem DictOp.Parked.waits {op : DictOp} (h : WindowInv size waitForKeys ws)
    (hparked : op.Parked deferredOps ws) (pickler : XPickler) : op.Waits pickler deferredOps ws := by
  cases op with
  | put tag clientId c persist key valList waitFor =>
    obtain ⟨rfl, hstuck | ⟨rfl, hmem, hnone⟩⟩ := hparked
    · refine ⟨.put tag clientId c persist key valList waitFor false, ?_⟩
      apply DictOp.put_waits
      · exact trivial
      · exact h.put_of_stuck hstuck
      · rfl
    · obtain ⟨chkpt, hlookup⟩ := Option.isSome_iff_exists.mp (AList.lookup_isSome.mpr hmem)
      rw [viewAt_of_lookup hlookup] at hnone
      have hkey : key ∉ chkpt.map := AList.lookup_eq_none.mp hnone
      have htry : ∃ ws1, putTry .none ws clientId c persist key valList true false
          = (.ok (false, false), ws1) := by
        rw [putTry, putOpPerform, h.put_of_mem hlookup]
        simp only [Fault.raises, Bool.false_eq_true, if_false, Checkpoint.containsKeyAndFree,
          if_neg hkey, if_true, Bool.false_and, Bool.true_and, decide_eq_false hkey]
        exact ⟨_, rfl⟩
      obtain ⟨ws1, htry⟩ := htry
      refine ⟨.put tag clientId c persist key valList true false, ?_⟩
      change (putPerform .none ws tag clientId c persist key valList true false).result = _
      rw [putPerform, htry]
  | bput tag clientId c key valList =>
    refine ⟨.bput tag clientId c key valList, ?_⟩
    apply DictOp.put_waits
    · exact trivial
    · exact h.put_of_stuck hparked
    · rfl
  | get tag clientId c key =>
    refine ⟨.get tag clientId c key, ?_⟩
    change (getPerform deferredOps .none ws tag clientId c key).result = _
    rw [getPerform, getOpPerform, get_of_getView_none hparked]
    rfl
  | fetchAdd tag clientId c key fetchAddVal =>
    refine ⟨.fetchAdd tag clientId c key fetchAddVal, ?_⟩
    change (fetchAddOpPerform pickler .none ws tag clientId c key fetchAddVal).result = _
    rw [fetchAddOpPerform, fetchAddPerform, h.put_of_stuck hparked]
    rfl
  | pop tag clientId c key =>
    refine ⟨.pop tag clientId c key, ?_⟩
    change (popPerform deferredOps .none ws tag clientId c key).result = _
    have hperform : popOpPerform ws deferredOps clientId c key = (.ok false, ws) := by
      rcases hparked with hnone | ⟨hnew, view, hsome, hvalue⟩
      · rw [popOpPerform, get_of_getView_none hnone]
      · obtain ⟨chkpt, hget, rfl⟩ := get_of_getView_some hsome
        obtain ⟨-, i, -, hlookup⟩ := get_lookup hget
        have hcontains := (h.sound i chkpt hlookup).containsKey_eq key
        rw [decide_eq_true (AList.lookup_isSome.mp hvalue)] at hcontains
        rw [popOpPerform, hget]
        simp only [hcontains]
        rw [if_pos hnew]
    rw [popPerform, hperform]
    rfl
  | clear tag clientId c =>
    refine ⟨.clear tag clientId c, ?_⟩
    change (clearPerform .none ws tag clientId c).result = _
    rcases hparked with hretired | hstuck
    · rw [clearPerform, clearOpPerform, WorkingSet.access, if_pos hretired]
    · rw [clearPerform, clearOpPerform, h.access_eq_put, h.put_of_stuck hstuck]
      rfl

/-- More ids in the table of deferred operations make a lookup wait more. -/
theorem getView_mono (hsub : c ∈ deferredOps → c ∈ deferredOps') :
    ws.getView deferredOps' key c = .ok none ∨
      ws.getView deferredOps' key c = ws.getView deferredOps key c := by
  rw [WorkingSet.getView, WorkingSet.getView, WorkingSet.get, WorkingSet.get]
  by_cases hretired : c < ws.oldestChkptId
  · rw [if_pos hretired, if_pos hretired]
    exact Or.inr rfl
  · rw [if_neg hretired, if_neg hretired]
    have hwaits : ws.getWaits deferredOps' key c = .ok true ∨
        ws.getWaits deferredOps' key c = ws.getWaits deferredOps key c := by
      by_cases hin : c ∈ deferredOps
      · exact Or.inr (getWaits_congr (Or.inr (iff_of_true (hsub hin) hin)))
      · rw [WorkingSet.getWaits, WorkingSet.getWaits]
        split
        · split
          · exact Or.inr rfl
          · rename_i oldest _
            by_cases hpersist : key ∈ oldest.persist
            · simp [hpersist]
            · by_cases hin' : c ∈ deferredOps'
              · simp [hpersist, hin']
              · simp [hpersist, hin', hin]
        · exact Or.inr rfl
    rcases hwaits with hwaits | hwaits
    · rw [hwaits]
      exact Or.inl rfl
    · rw [hwaits]
      exact Or.inr rfl

/-- An operation stays parked when ids are added to the table. -/
theorem DictOp.Parked.mono {op : DictOp} (hparked : op.Parked deferredOps ws)
    (hsub : op.chkptId ∈ deferredOps → op.chkptId ∈ deferredOps') : op.Parked deferredOps' ws := by
  cases op with
  | get =>
    rcases getView_mono hsub with hnone | hsame
    · exact hnone
    · exact hsame.trans hparked
  | pop =>
    rcases getView_mono hsub with hnone | hsame
    · exact Or.inl hnone
    · rcases hparked with hparked | ⟨hnew, view, hview, hvalue⟩
      · exact Or.inl (hsame.trans hparked)
      · exact Or.inr ⟨hnew, view, hsame.trans hview, hvalue⟩
  | put => exact hparked
  | bput => exact hparked
  | fetchAdd => exact hparked
  | clear => exact hparked

/-- For a checkpoint in the window the table does not matter. -/
theorem DictOp.Parked.of_lt {op : DictOp} (hparked : op.Parked deferredOps ws)
    (h : WindowInv size waitForKeys ws) (hlt : op.chkptId < ws.nextId) (deferredOps' : Finset ℕ) :
    op.Parked deferredOps' ws := by
  have hsame : ∀ key, ws.getView deferredOps' key op.chkptId = ws.getView deferredOps key op.chkptId := by
    intro key
    rw [WorkingSet.getView, WorkingSet.getView, get_congr (Or.inl (h.not_asksTable hlt))]
  cases op with
  | get _ _ _ key => exact (hsame key).trans hparked
  | pop _ _ _ key =>
    rcases hparked with hparked | ⟨hnew, view, hview, hvalue⟩
    · exact Or.inl ((hsame key).trans hparked)
    · exact Or.inr ⟨hnew, view, (hsame key).trans hview, hvalue⟩
  | put => exact hparked
  | bput => exact hparked
  | fetchAdd => exact hparked
  | clear => exact hparked

end Parked

/-! ## What does not wake an operation -/

/-- A change within the footprint does not bear on what keeps the operation waiting. -/
def Footprint.Spares (footprint : Footprint) (ws : WorkingSet) : DictOp → Prop
  | .put _ _ c _ key _ _ _ =>
    (c ∈ ws.chkpts → ¬ footprint.touches key c) ∧ (c ∉ ws.chkpts → footprint.LeavesRefusal ws)
  | .bput .. => footprint.LeavesRefusal ws
  | .get _ _ c key => ∀ i ≤ c, ¬ footprint.touches key i
  | .fetchAdd .. => footprint.LeavesRefusal ws
  | .pop _ _ c key => ∀ i ≤ c, ¬ footprint.touches key i
  | .clear _ _ c => c < ws.oldestChkptId ∨ footprint.LeavesRefusal ws

section Spares

variable {size : ℕ} {waitForKeys : Bool} {ws ws' ws1 : WorkingSet} {pickler : XPickler}
  {deferredOps : Finset ℕ} {c : ℕ} {key : KeyBytes} {footprint : Footprint}

theorem Footprint.Bounds.stuck (hbounds : footprint.Bounds ws ws')
    (h : WindowInv size waitForKeys ws) (h' : WindowInv size waitForKeys ws')
    (hleaves : footprint.LeavesRefusal ws) (hstuck : ws.Stuck c) : ws'.Stuck c :=
  ⟨by rw [hbounds.nextId_eq]; exact hstuck.1, hbounds.refuses h h' hleaves⟩

/-- **An operation stays parked** through a change that spares it. -/
theorem DictOp.Parked.keeps {op : DictOp} (hparked : op.Parked deferredOps ws)
    (hbounds : footprint.Bounds ws ws') (h : WindowInv size waitForKeys ws)
    (h' : WindowInv size waitForKeys ws') (hspares : footprint.Spares ws op) :
    op.Parked deferredOps ws' := by
  have hmem : ∀ i, i ∈ ws'.chkpts ↔ i ∈ ws.chkpts := by
    intro i
    rw [h.mem_iff, h'.mem_iff, hbounds.nextId_eq]
  cases op with
  | put _ _ c =>
    obtain ⟨hfreed, hstuck | ⟨hwait, hin, hnone⟩⟩ := hparked
    · have hout : c ∉ ws.chkpts := by
        rw [h.mem_iff]
        exact fun hin => absurd hstuck.1 (not_le.mpr hin.2)
      exact ⟨hfreed, Or.inl (hbounds.stuck h h' (hspares.2 hout) hstuck)⟩
    · refine ⟨hfreed, Or.inr ⟨hwait, (hmem c).mpr hin, ?_⟩⟩
      rw [hbounds.viewAt_eq (hspares.1 hin)]
      exact hnone
  | bput => exact hbounds.stuck h h' hspares hparked
  | get =>
    exact (hbounds.getView_eq h h' hspares deferredOps).trans hparked
  | fetchAdd => exact hbounds.stuck h h' hspares hparked
  | pop =>
    have hsame := hbounds.getView_eq h h' hspares deferredOps
    rcases hparked with hnone | ⟨hnew, view, hview, hvalue⟩
    · exact Or.inl (hsame.trans hnone)
    · refine Or.inr ⟨?_, view, hsame.trans hview, hvalue⟩
      rw [h'.newest_eq, hbounds.nextId_eq, ← h.newest_eq]
      exact hnew
  | clear =>
    rcases hparked with hretired | hstuck
    · left
      rw [hbounds.oldest_eq]
      exact hretired
    · rcases hspares with hretired | hleaves
      · left
        rw [hbounds.oldest_eq]
        exact hretired
      · exact Or.inr (hbounds.stuck h h' hleaves hstuck)

theorem DictOp.Parked.spares_nothing {op : DictOp} (hparked : op.Parked deferredOps ws)
    (h : WindowInv size waitForKeys ws) : Footprint.nothing.Spares ws op := by
  cases op with
  | put =>
    refine ⟨fun _ => id, ?_⟩
    intro hout
    obtain ⟨-, hstuck | ⟨-, hin, -⟩⟩ := hparked
    · exact h.leavesRefusal_nothing hstuck.2
    · exact absurd hin hout
  | bput => exact h.leavesRefusal_nothing hparked.2
  | get => exact fun _ _ => id
  | fetchAdd => exact h.leavesRefusal_nothing hparked.2
  | pop => exact fun _ _ => id
  | clear =>
    rcases hparked with hretired | hstuck
    · exact Or.inl hretired
    · exact Or.inr (h.leavesRefusal_nothing hstuck.2)

end Spares

/-! ## One attempt without a fault -/

section Attempts

variable {size : ℕ} {waitForKeys : Bool} {ws ws' ws1 : WorkingSet} {pickler : XPickler}
  {deferredOps : Finset ℕ} {c : ℕ} {key : KeyBytes} {footprint : Footprint}

/-- The working set after the `try` of a put that has not freed its memory. -/
theorem putTry_none_workingSet (ws : WorkingSet) (clientId c : ℕ) (persist : Bool)
    (key : KeyBytes) (valList : ValList) (waitFor : Bool) :
    (putTry .none ws clientId c persist key valList waitFor false).2
      = (putOpPerform ws clientId c persist key valList waitFor).2 := by
  rw [putTry]
  cases hrun : ws.put c with
  | error e => rw [putOpPerform, hrun]
  | ok found =>
    obtain ⟨found, ws1⟩ := found
    cases found with
    | none => rw [putOpPerform, hrun]; rfl
    | some chkpt =>
      simp only [Fault.raises, Bool.false_eq_true, if_false]
      generalize putOpPerform ws clientId c persist key valList waitFor = run
      rcases run with ⟨_ | _, ws2⟩ <;> rfl

theorem DictOp.perform_workingSet (op : DictOp) (hagrees : op.Agrees ws) (pickler : XPickler)
    (deferredOps : Finset ℕ) :
    (op.perform pickler deferredOps .none ws).workingSet
      = dictStep pickler ws (op.call deferredOps) := by
  cases op with
  | put tag clientId c persist key valList waitFor =>
    obtain ⟨rfl, -⟩ := hagrees
    change (putPerform .none ws tag clientId c persist key valList waitFor false).workingSet = _
    rw [putPerform_workingSet, putTry_none_workingSet]
    rfl
  | bput tag clientId c key valList =>
    change (bputPerform .none ws tag clientId c key valList).workingSet = _
    rw [bputPerform_workingSet, putTry_none_workingSet]
    rfl
  | get tag clientId c key =>
    change (getPerform deferredOps .none ws tag clientId c key).workingSet = _
    rw [getPerform, DictOp.call, dictStep]
    rcases getOpPerform ws deferredOps c key with e | (_ | value) <;> rfl
  | fetchAdd tag clientId c key fetchAddVal =>
    change (fetchAddOpPerform pickler .none ws tag clientId c key fetchAddVal).workingSet
      = (fetchAddPerform pickler ws clientId c key fetchAddVal).2
    rw [fetchAddOpPerform]
    generalize fetchAddPerform pickler ws clientId c key fetchAddVal = run
    obtain ⟨result, ws1⟩ := run
    cases result <;> rfl
  | pop tag clientId c key =>
    change (popPerform deferredOps .none ws tag clientId c key).workingSet
      = (popOpPerform ws deferredOps clientId c key).2
    rw [popPerform]
    generalize popOpPerform ws deferredOps clientId c key = run
    rcases run with ⟨e | (_ | _), ws1⟩
    · cases e <;> rfl
    · rfl
    · simp only [Fault.raises]
      split <;> rfl
  | clear tag clientId c =>
    change (clearPerform .none ws tag clientId c).workingSet = (clearOpPerform ws clientId c).2
    rw [clearPerform]
    generalize clearOpPerform ws clientId c = run
    rcases run with ⟨e | (_ | _), ws1⟩
    · cases e <;> rfl
    · rfl
    · rfl

theorem WindowInv.stuck_of_put_none (h : WindowInv size waitForKeys ws)
    (hrun : ws.put c = .ok (none, ws1)) : ws1.Stuck c := h.put_none hrun

/-- The `try` of a put that waits: its checkpoint is not there, or the key of a `wait_for` is
not. -/
theorem WindowInv.putTry_waits (h : WindowInv size waitForKeys ws) {clientId : ℕ} {persist : Bool}
    {valList : ValList} {waitFor freed : Bool}
    (hagrees : waitFor = true → ∀ chkpt ws1, ws.put c = .ok (some chkpt, ws1) →
      ∀ stored, chkpt.map.lookup key = some stored → valueToBytes stored = valueToBytes valList)
    (htry : putTry .none ws clientId c persist key valList waitFor false = (.ok (false, freed), ws1)) :
    freed = false ∧
      (ws1.Stuck c ∨ waitFor = true ∧ c ∈ ws1.chkpts ∧ (viewAt ws1 key c).value = none) := by
  rw [putTry] at htry
  obtain ⟨ws2, hadv, -, ⟨hrun, -, -⟩ | hrun⟩ := h.put_found c
  · rw [hrun] at htry
    cases htry
  · cases hlookup : ws2.chkpts.lookup c with
    | none =>
      rw [hlookup] at hrun
      rw [hrun] at htry
      cases htry
      exact ⟨rfl, Or.inl (h.stuck_of_put_none hrun)⟩
    | some chkpt =>
      rw [hlookup] at hrun
      have hsound := (h.advances hadv).sound c chkpt hlookup
      rw [hrun] at htry
      simp only [Fault.raises, Bool.false_eq_true, if_false] at htry
      cases waitFor with
      | false =>
        obtain ⟨ws3, hperform, -⟩ := putOp_stores hrun hsound clientId persist key valList
        rw [hperform] at htry
        cases htry
      | true =>
        have hsame := putOp_waitFor hrun hsound hlookup clientId persist key valList
        rw [putOpPerform, hrun] at htry hsame
        simp only [Checkpoint.containsKeyAndFree] at htry hsame
        by_cases hkey : key ∈ chkpt.map
        · -- the key is there, and so it has the value
          obtain ⟨stored, hstored⟩ := Option.isSome_iff_exists.mp (AList.lookup_isSome.mpr hkey)
          have hbytes := hagrees rfl chkpt ws2 hrun stored hstored
          simp only [if_pos hkey, if_pos (hsound.allocs key hkey), if_true, Bool.true_and,
            hstored, Option.map_some, hbytes, decide_true] at htry
          cases htry
        · simp only [if_neg hkey, if_true, Bool.false_and, Bool.true_and,
            decide_eq_false hkey] at htry hsame
          rw [Prod.mk.injEq, Except.ok.injEq, Prod.mk.injEq] at htry
          obtain ⟨⟨-, hfreed⟩, rfl⟩ := htry
          refine ⟨hfreed.symm, Or.inr ⟨rfl, (AList.mem_insert _).mpr (Or.inl rfl), ?_⟩⟩
          rw [hsame.viewAt_eq, viewAt_of_lookup hlookup]
          exact AList.lookup_eq_none.mpr hkey

/-- **An operation that waits is parked.** -/
theorem DictOp.parked_of_waits {op op' : DictOp} (h : WindowInv size waitForKeys ws)
    (hagrees : op.Agrees ws)
    (hresult : (op.perform pickler deferredOps .none ws).result = .waits op') :
    op'.Parked deferredOps (op.perform pickler deferredOps .none ws).workingSet := by
  cases op with
  | put tag clientId c persist key valList waitFor freed =>
    obtain ⟨rfl, hagrees⟩ := hagrees
    change (putPerform .none ws tag clientId c persist key valList waitFor false).result = _
      at hresult
    change op'.Parked deferredOps
      (putPerform .none ws tag clientId c persist key valList waitFor false).workingSet
    have hparked : ∀ freed ws1, putTry .none ws clientId c persist key valList waitFor false
        = (.ok (false, freed), ws1) → _ := fun _ _ htry => h.putTry_waits hagrees htry
    rw [putPerform] at hresult ⊢
    generalize putTry .none ws clientId c persist key valList waitFor false = run
      at hresult hparked ⊢
    rcases run with ⟨(_ | _ | _) | ⟨_ | _, freed⟩, ws1⟩ <;> cases hresult
    exact hparked freed ws1 rfl
  | bput tag clientId c key valList =>
    change (bputPerform .none ws tag clientId c key valList).result = _ at hresult
    change op'.Parked deferredOps (bputPerform .none ws tag clientId c key valList).workingSet
    have hparked : ∀ freed ws1, putTry .none ws clientId c false key valList false false
        = (.ok (false, freed), ws1) → ws1.Stuck c := by
      intro freed ws1 htry
      obtain ⟨-, hstuck | ⟨hfalse, -⟩⟩ := h.putTry_waits (fun hfalse => by cases hfalse) htry
      · exact hstuck
      · cases hfalse
    rw [bputPerform] at hresult ⊢
    generalize putTry .none ws clientId c false key valList false false = run
      at hresult hparked ⊢
    rcases run with ⟨(_ | _ | _) | ⟨_ | _, freed⟩, ws1⟩ <;> cases hresult
    exact hparked freed ws1 rfl
  | get tag clientId c key =>
    change (getPerform deferredOps .none ws tag clientId c key).result = _ at hresult
    change op'.Parked deferredOps (getPerform deferredOps .none ws tag clientId c key).workingSet
    rw [getPerform, getOpPerform] at hresult ⊢
    rcases hget : ws.get deferredOps key c with e | (_ | chkpt)
    · rw [hget] at hresult
      cases hresult
    · rw [hget] at hresult
      cases hresult
      exact getView_eq_none hget
    · rw [hget] at hresult
      simp only at hresult
      generalize chkpt.containsKey key = run at hresult
      rcases run with e | (_ | _) <;> cases hresult
  | fetchAdd tag clientId c key fetchAddVal =>
    change (fetchAddOpPerform pickler .none ws tag clientId c key fetchAddVal).result = _
      at hresult
    change op'.Parked deferredOps
      (fetchAddOpPerform pickler .none ws tag clientId c key fetchAddVal).workingSet
    have hstuck : ∀ ws1, fetchAddPerform pickler ws clientId c key fetchAddVal = (.deferred, ws1) →
        ws1.Stuck c := by
      intro ws1 hrun
      rw [fetchAddPerform] at hrun
      split at hrun
      · cases hrun
      · rename_i hput
        cases hrun
        exact h.stuck_of_put_none hput
      · split at hrun
        · cases hrun
        · simp only at hrun
          split at hrun
          · cases hrun
          · split at hrun
            · cases hrun
            · split at hrun <;> cases hrun
    rw [fetchAddOpPerform] at hresult ⊢
    generalize fetchAddPerform pickler ws clientId c key fetchAddVal = run at hresult hstuck ⊢
    obtain ⟨result, ws1⟩ := run
    cases result <;> cases hresult
    exact hstuck ws1 rfl
  | pop tag clientId c key =>
    change (popPerform deferredOps .none ws tag clientId c key).result = _ at hresult
    change op'.Parked deferredOps (popPerform deferredOps .none ws tag clientId c key).workingSet
    have hwaits : ∀ ws1, popOpPerform ws deferredOps clientId c key = (.ok false, ws1) →
        DictOp.Parked deferredOps ws1 (.pop tag clientId c key) := by
      intro ws1 hrun
      rw [popOpPerform] at hrun
      rcases hget : ws.get deferredOps key c with e | (_ | chkpt)
      · rw [hget] at hrun
        cases hrun
      · rw [hget] at hrun
        cases hrun
        exact Or.inl (getView_eq_none hget)
      · rw [hget] at hrun
        obtain ⟨-, i, -, hlookup⟩ := get_lookup hget
        simp only [(h.sound i chkpt hlookup).containsKey_eq] at hrun
        by_cases hkey : key ∈ chkpt.map
        · rw [decide_eq_true hkey] at hrun
          simp only at hrun
          split at hrun
          · rename_i hnew
            cases hrun
            refine Or.inr ⟨hnew, chkpt.keyView key, ?_, AList.lookup_isSome.mpr hkey⟩
            rw [WorkingSet.getView, hget]
            rfl
          · split at hrun
            · cases hrun
            · cases hrun
            · split at hrun <;> cases hrun
        · rw [decide_eq_false hkey] at hrun
          cases hrun
    rw [popPerform] at hresult ⊢
    generalize popOpPerform ws deferredOps clientId c key = run at hresult hwaits ⊢
    rcases run with ⟨e | (_ | _), ws1⟩
    · cases e <;> cases hresult
    · cases hresult
      exact hwaits ws1 rfl
    · simp only [Fault.raises] at hresult
      split at hresult <;> cases hresult
  | clear tag clientId c =>
    change (clearPerform .none ws tag clientId c).result = _ at hresult
    change op'.Parked deferredOps (clearPerform .none ws tag clientId c).workingSet
    rw [clearPerform, clearOpPerform, h.access_eq_put] at hresult ⊢
    rcases h.put_cases c with ⟨hretired, hrun⟩ | ⟨-, ws1, hadv, hrun, -⟩
    · rw [hrun] at hresult ⊢
      cases hresult
      exact Or.inl hretired
    · rw [hrun] at hresult ⊢
      cases hlookup : ws1.chkpts.lookup c with
      | none =>
        rw [hlookup] at hresult hrun
        cases hresult
        exact Or.inr (h.stuck_of_put_none hrun)
      | some chkpt =>
        rw [hlookup] at hresult
        cases hresult

end Attempts

/-! ## A pass over the deferred operations -/

/-- The footprint of an operation. -/
def DictOp.footprint (op : DictOp) : Footprint := (op.call ∅).footprint

/-- What one of the operations has. -/
def Footprint.ofOps (ops : List DictOp) : Footprint where
  touches key i := ∃ op ∈ ops, op.footprint.touches key i
  wipes i := ∃ op ∈ ops, op.footprint.wipes i
  records client i := ∃ op ∈ ops, op.footprint.records client i

/-- The operations that wait for a key at a checkpoint in the window. -/
def DictOp.Passive (ws : WorkingSet) (c : ℕ) : DictOp → Prop
  | .put _ _ c' _ key valList waitFor freed =>
    c' = c ∧ waitFor = true ∧ freed = false ∧ ∀ stored, (viewAt ws key c).value = some stored →
      valueToBytes stored = valueToBytes valList
  | .get _ _ c' _ => c' = c
  | .pop _ _ c' _ => c' = c
  | _ => False

/-- The checkpoint has lost values, and got no new ones. -/
def ShrinksAt (ws ws' : WorkingSet) (c : ℕ) : Prop :=
  ∀ key stored, (viewAt ws' key c).value = some stored → (viewAt ws key c).value = some stored

section Passive

variable {size : ℕ} {waitForKeys : Bool} {ws ws' : WorkingSet} {pickler : XPickler}
  {deferredOps : Finset ℕ} {c : ℕ} {op other : DictOp}

theorem DictOp.footprint_call (op : DictOp) (deferredOps : Finset ℕ) :
    (op.call deferredOps).footprint = op.footprint := by
  cases op <;> rfl

theorem DictOp.Passive.chkptId_eq (hop : op.Passive ws c) : op.chkptId = c := by
  cases op with
  | put => exact hop.1
  | get => exact hop
  | pop => exact hop
  | bput => exact hop.elim
  | fetchAdd => exact hop.elim
  | clear => exact hop.elim

theorem DictOp.Passive.shrinks (hop : op.Passive ws c) (hshrinks : ShrinksAt ws ws' c) :
    op.Passive ws' c := by
  cases op with
  | put _ _ _ _ key =>
    obtain ⟨hc, hwait, hfreed, hbytes⟩ := hop
    exact ⟨hc, hwait, hfreed, fun stored hstored => hbytes stored (hshrinks key stored hstored)⟩
  | get => exact hop
  | pop => exact hop
  | bput => exact hop
  | fetchAdd => exact hop
  | clear => exact hop

theorem DictOp.Passive.agrees (hop : op.Passive ws c) (h : WindowInv size waitForKeys ws)
    (hmem : c ∈ ws.chkpts) : op.Agrees ws := by
  cases op with
  | put =>
    obtain ⟨rfl, -, hfreed, hbytes⟩ := hop
    refine ⟨hfreed, ?_⟩
    intro _ chkpt ws1 hput stored hstored
    obtain ⟨current, hcurrent⟩ := Option.isSome_iff_exists.mp (AList.lookup_isSome.mpr hmem)
    rw [h.put_of_mem hcurrent] at hput
    cases hput
    apply hbytes
    rw [viewAt_of_lookup hcurrent]
    exact hstored
  | _ => exact trivial

theorem DictOp.Passive.stays (hop : op.Passive ws c) (h : WindowInv size waitForKeys ws)
    (hmem : c ∈ ws.chkpts) (deferredOps : Finset ℕ) : (op.call deferredOps).Stays ws := by
  have hlt := ((h.mem_iff c).mp hmem).2
  cases op with
  | put =>
    obtain ⟨rfl, -⟩ := hop
    exact Or.inl hlt
  | get => exact trivial
  | pop => exact trivial
  | bput => exact hop.elim
  | fetchAdd => exact hop.elim
  | clear => exact hop.elim

/-- An attempt stays within the footprint of the operation. -/
theorem DictOp.Passive.bounds (hop : op.Passive ws c) (h : WindowInv size waitForKeys ws)
    (hmem : c ∈ ws.chkpts) (pickler : XPickler) (deferredOps : Finset ℕ) :
    op.footprint.Bounds ws (op.perform pickler deferredOps .none ws).workingSet := by
  rw [op.perform_workingSet (hop.agrees h hmem), ← op.footprint_call deferredOps]
  exact h.dictStep_bounds pickler (hop.stays h hmem deferredOps)

/-- A pop, a get or a `wait_for` stores nothing. -/
theorem DictOp.Passive.shrinksAt (hop : op.Passive ws c) (h : WindowInv size waitForKeys ws)
    (hmem : c ∈ ws.chkpts) (pickler : XPickler) (deferredOps : Finset ℕ) :
    ShrinksAt ws (op.perform pickler deferredOps .none ws).workingSet c := by
  have hbounds := hop.bounds h hmem pickler deferredOps
  intro k stored hstored
  cases op with
  | put =>
    obtain ⟨-, rfl, -⟩ := hop
    rwa [hbounds.viewAt_eq id] at hstored
  | get => rwa [hbounds.viewAt_eq id] at hstored
  | pop tag clientId _ key =>
    cases hop
    rw [DictOp.perform_workingSet (.pop tag clientId c key) trivial, DictOp.call, dictStep] at hstored
    rcases h.popOp_cases deferredOps clientId c key with
      ⟨-, hperform⟩ | ⟨-, chkpt, chkpt', hlookup, hperform, -, hview⟩
    · rwa [hperform] at hstored
    · rw [hperform, (changesAt_setChkpt ws c chkpt').viewAt_eq, if_pos rfl, hview,
        Checkpoint.viewWith] at hstored
      by_cases hk : k = key
      · rw [if_pos hk, Checkpoint.popView] at hstored
        split at hstored <;> cases hstored
      · rw [if_neg hk] at hstored
        rw [viewAt_of_lookup hlookup]
        exact hstored
  | bput => exact hop.elim
  | fetchAdd => exact hop.elim
  | clear => exact hop.elim

theorem WindowInv.popSucceeds_of_parked (h : WindowInv size waitForKeys ws) {key : KeyBytes}
    {deferredOps' : Finset ℕ} (hlt : c < ws.nextId)
    (hnone : ws.getView deferredOps' key c = .ok none) (deferredOps : Finset ℕ) :
    popSucceeds ws deferredOps c key = false := by
  have hget := get_of_getView_none hnone
  rw [get_congr (Or.inl (h.not_asksTable hlt))] at hget
  rw [popSucceeds, hget]

/-- **The operations of one checkpoint do not wake each other.** -/
theorem DictOp.Passive.parked (hop : op.Passive ws c) (hother : other.Passive ws c)
    (hparked : other.Parked ∅ ws) (h : WorkingSetInv size waitForKeys ws) (hmem : c ∈ ws.chkpts)
    (pickler : XPickler) (deferredOps : Finset ℕ) :
    other.Parked ∅ (op.perform pickler deferredOps .none ws).workingSet := by
  have hlt := ((h.window.mem_iff c).mp hmem).2
  have hbounds := hop.bounds h.window hmem pickler deferredOps
  have h' : WorkingSetInv size waitForKeys (op.perform pickler deferredOps .none ws).workingSet :=
    h.perform op
  -- an operation that touches no key spares the others
  have huntouched : (∀ key i, ¬ op.footprint.touches key i) → op.footprint.Spares ws other := by
    intro hnone
    cases other with
    | put _ _ _ _ key =>
      obtain ⟨rfl, -⟩ := hother
      exact ⟨fun _ => hnone key _, fun hout => absurd hmem hout⟩
    | get _ _ _ key => exact fun i _ => hnone key i
    | pop _ _ _ key => exact fun i _ => hnone key i
    | bput => exact hother.elim
    | fetchAdd => exact hother.elim
    | clear => exact hother.elim
  cases op with
  | put =>
    obtain ⟨-, rfl, -⟩ := hop
    exact hparked.keeps hbounds h.window h'.window (huntouched fun _ _ => id)
  | get =>
    exact hparked.keeps hbounds h.window h'.window (huntouched fun _ _ => id)
  | pop tag clientId _ key =>
    have hshrinks := hop.shrinksAt h.window hmem pickler deferredOps
    cases hop
    rw [DictOp.perform_workingSet (.pop tag clientId c key) trivial, DictOp.call,
      dictStep] at hbounds h' hshrinks ⊢
    rcases h.window.popOp_cases deferredOps clientId c key with
      ⟨-, hperform⟩ | ⟨hsucceeds, -⟩
    · rw [hperform]
      exact hparked
    · -- the pop has found its key, so that the others wait for other keys
      have hne : ∀ key', ws.getView ∅ key' c = .ok none → key' ≠ key := by
        rintro key' hnone rfl
        rw [h.window.popSucceeds_of_parked hlt hnone] at hsucceeds
        cases hsucceeds
      have hspares : ∀ key', key' ≠ key → ∀ i ≤ c,
          ¬ (DictOp.pop tag clientId c key).footprint.touches key' i :=
        fun key' hkey i _ htouches => hkey htouches.2
      cases other with
      | put _ _ _ _ key' =>
        obtain ⟨rfl, -⟩ := hother
        obtain ⟨hfreed, hstuck | ⟨hwait, -, hnone⟩⟩ := hparked
        · exact absurd hstuck.1 (not_le.mpr hlt)
        · refine ⟨hfreed, Or.inr ⟨hwait, ?_, ?_⟩⟩
          · rw [h'.window.mem_iff, hbounds.nextId_eq, ← h.window.mem_iff]
            exact hmem
          · rw [Option.eq_none_iff_forall_ne_some]
            intro stored hstored
            have hold := hshrinks key' stored hstored
            rw [hnone] at hold
            cases hold
      | get _ _ _ key' =>
        cases hother
        exact hparked.keeps hbounds h.window h'.window (hspares key' (hne key' hparked))
      | pop _ _ _ key' =>
        cases hother
        have hnone : ws.getView ∅ key' c = .ok none := by
          rcases hparked with hnone | ⟨hnew, -⟩
          · exact hnone
          · rw [h.window.newest_eq] at hnew
            omega
        exact hparked.keeps hbounds h.window h'.window (hspares key' (hne key' hnone))
      | bput => exact hother.elim
      | fetchAdd => exact hother.elim
      | clear => exact hother.elim
  | bput => exact hop.elim
  | fetchAdd => exact hop.elim
  | clear => exact hop.elim

/-- An attempt ends, or leaves the operation as it is, parked. -/
theorem DictOp.Passive.attempt (hop : op.Passive ws c) (h : WorkingSetInv size waitForKeys ws)
    (hmem : c ∈ ws.chkpts) (pickler : XPickler) (deferredOps : Finset ℕ) :
    (op.perform pickler deferredOps .none ws).result = .done ∨
    (op.perform pickler deferredOps .none ws).result = .waits op ∧
      op.Parked ∅ (op.perform pickler deferredOps .none ws).workingSet := by
  have hrange := (h.window.mem_iff c).mp hmem
  have hbounds := hop.bounds h.window hmem pickler deferredOps
  have h' : WorkingSetInv size waitForKeys (op.perform pickler deferredOps .none ws).workingSet :=
    h.perform op
  have hquiet : op.Quiet pickler .none ws := by
    cases op with
    | put => exact ⟨nofun, hop.2.2.1⟩
    | get => rfl
    | pop => rfl
    | bput => exact hop.elim
    | fetchAdd => exact hop.elim
    | clear => exact hop.elim
  have hold : ws.oldestChkptId ≤ op.chkptId := by
    rw [hop.chkptId_eq, h.window.oldest_eq]
    exact hrange.1
  have hsettles := hquiet.settles h hold deferredOps
  cases hresult : (op.perform pickler deferredOps .none ws).result with
  | done => exact Or.inl rfl
  | raised => exact absurd hresult hsettles.2
  | waits op' =>
    right
    have hparked := DictOp.parked_of_waits h.window (hop.agrees h.window hmem) hresult
    have heq : op' = op := by
      cases op with
      | put tag clientId c' persist key valList waitFor freed =>
        obtain ⟨rfl, -, rfl, -⟩ := hop
        change (putPerform .none ws tag clientId c' persist key valList waitFor false).result = _
          at hresult
        rw [putPerform] at hresult
        generalize putTry .none ws clientId c' persist key valList waitFor false = run at hresult
        rcases run with ⟨(_ | _ | _) | ⟨_ | _, freed⟩, ws1⟩ <;> cases hresult
        rw [hparked.1]
      | get tag clientId c' key =>
        change (getPerform deferredOps .none ws tag clientId c' key).result = _ at hresult
        rw [getPerform] at hresult
        generalize getOpPerform ws deferredOps c' key = run at hresult
        rcases run with e | (_ | value) <;> cases hresult
        rfl
      | pop tag clientId c' key =>
        change (popPerform deferredOps .none ws tag clientId c' key).result = _ at hresult
        rw [popPerform] at hresult
        generalize popOpPerform ws deferredOps clientId c' key = run at hresult
        rcases run with ⟨e | (_ | _), ws1⟩
        · cases e <;> cases hresult
        · cases hresult
          rfl
        · simp only [Fault.raises] at hresult
          split at hresult <;> cases hresult
      | bput => exact hop.elim
      | fetchAdd => exact hop.elim
      | clear => exact hop.elim
    subst heq
    refine ⟨rfl, hparked.of_lt h'.window ?_ ∅⟩
    rw [hop.chkptId_eq, hbounds.nextId_eq]
    exact hrange.2

end Passive

/-- What a pass over the operations `ops` that are deferred for checkpoint `c` does. -/
structure Passed (c : ℕ) (ops : List DictOp) (m m' : Manager) : Prop where
  bounds : (Footprint.ofOps ops).Bounds m.workingSet m'.workingSet
  shrinks : ShrinksAt m.workingSet m'.workingSet c
  others : ∀ d ≠ c, m'.deferredOps.lookup d = m.deferredOps.lookup d
  shared_eq : m'.shared = m.shared

/-- The operations that are deferred for checkpoint `c` wait for their keys. -/
def Manager.Asleep (m : Manager) (c : ℕ) : Prop :=
  ∀ op ∈ bucket m.deferredOps c, op.Passive m.workingSet c ∧ op.Parked ∅ m.workingSet

section Pass

variable {size : ℕ} {waitForKeys : Bool} {m m' : Manager} {pickler : XPickler} {c : ℕ}
  {ops : List DictOp} {ws ws1 ws2 : WorkingSet}

theorem Footprint.Bounds.ofOps_mono {ops ops' : List DictOp} (hsub : ∀ op ∈ ops, op ∈ ops')
    (hbounds : (Footprint.ofOps ops).Bounds ws ws1) : (Footprint.ofOps ops').Bounds ws ws1 := by
  apply hbounds.mono
  · rintro key i ⟨op, hop, htouches⟩
    exact ⟨op, hsub op hop, htouches⟩
  · rintro i ⟨op, hop, hwipes⟩
    exact ⟨op, hsub op hop, hwipes⟩
  · rintro client i ⟨op, hop, hrecords⟩
    exact ⟨op, hsub op hop, hrecords⟩

theorem Footprint.Bounds.ofOps_cons {op : DictOp} (hfirst : op.footprint.Bounds ws ws1)
    (hrest : (Footprint.ofOps ops).Bounds ws1 ws2) :
    (Footprint.ofOps (op :: ops)).Bounds ws ws2 := by
  apply (hfirst.trans hrest).mono
  · rintro key i (htouches | ⟨op', hop', htouches⟩)
    · exact ⟨op, List.mem_cons_self, htouches⟩
    · exact ⟨op', List.mem_cons_of_mem _ hop', htouches⟩
  · rintro i (hwipes | ⟨op', hop', hwipes⟩)
    · exact ⟨op, List.mem_cons_self, hwipes⟩
    · exact ⟨op', List.mem_cons_of_mem _ hop', hwipes⟩
  · rintro client i (hrecords | ⟨op', hop', hrecords⟩)
    · exact ⟨op, List.mem_cons_self, hrecords⟩
    · exact ⟨op', List.mem_cons_of_mem _ hop', hrecords⟩

theorem Footprint.Bounds.mem_iff {footprint : Footprint} (hbounds : footprint.Bounds ws ws1)
    (h : WindowInv size waitForKeys ws) (h1 : WindowInv size waitForKeys ws1) (i : ℕ) :
    i ∈ ws1.chkpts ↔ i ∈ ws.chkpts := by
  rw [h.mem_iff, h1.mem_iff, hbounds.nextId_eq]

/-- **The loop over the deferred operations** of a checkpoint in the window leaves those that
wait. -/
theorem WorkingSetInv.processLoop_parked (h : WorkingSetInv size waitForKeys m.workingSet)
    (pickler : XPickler) (leftOvers : List DictOp) (hmem : c ∈ m.workingSet.chkpts)
    (hops : ∀ op ∈ ops, op.Passive m.workingSet c)
    (hleft : ∀ op ∈ leftOvers, op.Passive m.workingSet c ∧ op.Parked ∅ m.workingSet) :
    ∃ m', Manager.processLoop pickler (fun _ => .none) c ops leftOvers m = (false, m') ∧
      WorkingSetInv size waitForKeys m'.workingSet ∧ Passed c ops m m' ∧ m'.Asleep c ∧
      ∀ op ∈ bucket m'.deferredOps c, op ∈ leftOvers ∨ op ∈ ops := by
  induction ops generalizing leftOvers m with
  | nil =>
    rw [Manager.processLoop]
    cases leftOvers with
    | nil =>
      refine ⟨_, rfl, h, ⟨Footprint.Bounds.refl _ _, fun _ _ hstored => hstored,
        fun d hd => AList.lookup_erase_ne hd, rfl⟩, ?_, ?_⟩
      · intro op hop
        rw [bucket_erase] at hop
        cases hop
      · intro op hop
        rw [bucket_erase] at hop
        cases hop
    | cons op leftOvers =>
      refine ⟨_, rfl, h, ⟨Footprint.Bounds.refl _ _, fun _ _ hstored => hstored,
        fun d hd => AList.lookup_insert_ne hd, rfl⟩, ?_, ?_⟩
      · intro op' hop
        rw [bucket_insert] at hop
        exact hleft op' hop
      · intro op' hop
        rw [bucket_insert] at hop
        exact Or.inl hop
  | cons op ops ih =>
    have hop := hops op List.mem_cons_self
    rw [Manager.processLoop, Manager.perform]
    generalize ({ m with deferredOps := m.deferredOps.insert c ops } : Manager).deferredIds = ids
    have hshrinks := hop.shrinksAt h.window hmem pickler ids
    have hbounds := hop.bounds h.window hmem pickler ids
    have h1 : WorkingSetInv size waitForKeys
        (op.perform pickler ids .none m.workingSet).workingSet := h.perform op
    have hmem1 := (hbounds.mem_iff h.window h1.window c).mpr hmem
    have hops1 : ∀ op' ∈ ops, op'.Passive
        (op.perform pickler ids .none m.workingSet).workingSet c :=
      fun op' hop' => (hops op' (List.mem_cons_of_mem _ hop')).shrinks hshrinks
    have hleft1 : ∀ op' ∈ leftOvers, op'.Passive
        (op.perform pickler ids .none m.workingSet).workingSet c ∧
          op'.Parked ∅ (op.perform pickler ids .none m.workingSet).workingSet := by
      intro op' hop'
      obtain ⟨hpassive, hparked⟩ := hleft op' hop'
      exact ⟨hpassive.shrinks hshrinks, hop.parked hpassive hparked h hmem pickler ids⟩
    -- what the rest of the loop does, after this operation
    have hrest : ∀ {m1 m' : Manager}, Passed c ops m1 m' →
        m1.workingSet = (op.perform pickler ids .none m.workingSet).workingSet →
        m1.deferredOps = m.deferredOps.insert c ops → m1.shared = m.shared →
        Passed c (op :: ops) m m' := by
      intro m1 m' hpassed hws htable hshared
      refine ⟨?_, ?_, ?_, hpassed.shared_eq.trans hshared⟩
      · have hbounds' := hpassed.bounds
        rw [hws] at hbounds'
        exact hbounds.ofOps_cons hbounds'
      · intro key stored hstored
        have hstored1 := hpassed.shrinks key stored hstored
        rw [hws] at hstored1
        exact hshrinks key stored hstored1
      · intro d hd
        rw [hpassed.others d hd, htable, AList.lookup_insert_ne hd]
    rcases hop.attempt h hmem pickler ids with hdone | ⟨hwaits, hparked⟩
    · simp only [hdone]
      obtain ⟨m', hrun, hinv, hpassed, hasleep, hfrom⟩ := ih
        (m := { m with
          workingSet := (op.perform pickler ids .none m.workingSet).workingSet
          deferredOps := m.deferredOps.insert c ops
          answers := m.answers ++ (op.perform pickler ids .none m.workingSet).answers })
        h1 leftOvers hmem1 hops1 hleft1
      refine ⟨m', hrun, hinv, hrest hpassed rfl rfl rfl, hasleep, ?_⟩
      intro op' hop'
      exact (hfrom op' hop').imp_right (List.mem_cons_of_mem _)
    · simp only [hwaits]
      have hleft2 : ∀ op' ∈ leftOvers ++ [op], op'.Passive
          (op.perform pickler ids .none m.workingSet).workingSet c ∧
            op'.Parked ∅ (op.perform pickler ids .none m.workingSet).workingSet := by
        intro op' hop'
        rcases List.mem_append.mp hop' with hold | hnew
        · exact hleft1 op' hold
        · rw [List.mem_singleton.mp hnew]
          exact ⟨hop.shrinks hshrinks, hparked⟩
      obtain ⟨m', hrun, hinv, hpassed, hasleep, hfrom⟩ := ih
        (m := { m with
          workingSet := (op.perform pickler ids .none m.workingSet).workingSet
          deferredOps := m.deferredOps.insert c ops
          answers := m.answers ++ (op.perform pickler ids .none m.workingSet).answers })
        h1 (leftOvers ++ [op]) hmem1 hops1 hleft2
      refine ⟨m', hrun, hinv, hrest hpassed rfl rfl rfl, hasleep, ?_⟩
      intro op' hop'
      rcases hfrom op' hop' with hleft' | hlater
      · rcases List.mem_append.mp hleft' with hold | hnew
        · exact Or.inl hold
        · rw [List.mem_singleton.mp hnew]
          exact Or.inr List.mem_cons_self
      · exact Or.inr (List.mem_cons_of_mem _ hlater)

/-- **A pass** for a checkpoint in the window: the operations that stay deferred wait. -/
theorem WorkingSetInv.processDeferredOps_parked (h : WorkingSetInv size waitForKeys m.workingSet)
    (pickler : XPickler) (hmem : c ∈ m.workingSet.chkpts)
    (hops : ∀ op ∈ bucket m.deferredOps c, op.Passive m.workingSet c) :
    ∃ m', m.processDeferredOps pickler (fun _ => .none) c = (false, m') ∧
      WorkingSetInv size waitForKeys m'.workingSet ∧
      Passed c (bucket m.deferredOps c) m m' ∧ m'.Asleep c ∧
      ∀ op ∈ bucket m'.deferredOps c, op ∈ bucket m.deferredOps c := by
  rw [Manager.processDeferredOps]
  cases hlookup : m.deferredOps.lookup c with
  | none =>
    have hempty : bucket m.deferredOps c = [] := by
      rw [bucket, hlookup]
      rfl
    rw [hempty]
    refine ⟨m, rfl, h, ⟨Footprint.Bounds.refl _ _, fun _ _ hstored => hstored, fun _ _ => rfl,
      rfl⟩, ?_, ?_⟩
    · intro op hop
      rw [hempty] at hop
      cases hop
    · intro op hop
      rwa [hempty] at hop
  | some ops =>
    rw [bucket_of_lookup hlookup] at hops ⊢
    obtain ⟨m', hrun, hinv, hpassed, hasleep, hfrom⟩ := h.processLoop_parked pickler []
      hmem hops fun op hop => absurd hop List.not_mem_nil
    refine ⟨m', hrun, hinv, hpassed, hasleep, ?_⟩
    intro op hop
    rcases hfrom op hop with hnil | hin
    · cases hnil
    · exact hin

end Pass

/-! ## The requests -/

namespace Request

def chkptId : Request → ℕ
  | put _ c .. | bput _ c .. | batchPut _ c .. | get _ c .. | fetchAdd _ c .. | pop _ c ..
  | contains _ c .. | length _ c | keys _ c | values _ c | items _ c | clear _ c => c

/-- The requests whose handlers perform deferred operations again. -/
def isPut : Request → Bool
  | put .. | bput .. | batchPut .. => true
  | _ => false

/-- The call of a request on the working set. -/
def call (waitForKeys : Bool) (deferredOps : Finset ℕ) : Request → DictCall
  | put clientId c persist key valList waitFor =>
    .put clientId c (persist && waitForKeys) key valList waitFor
  | bput clientId c key valList => .put clientId c false key valList false
  | batchPut clientId c persist key valList =>
    .batchPut clientId c (persist && waitForKeys) key valList
  | get clientId c key => .get deferredOps clientId c key
  | fetchAdd clientId c key fetchAddVal => .fetchAdd clientId c key fetchAddVal
  | pop clientId c key => .pop deferredOps clientId c key
  | contains clientId c _ => .read clientId c
  | length clientId c => .read clientId c
  | keys clientId c => .read clientId c
  | values clientId c => .read clientId c
  | items clientId c => .read clientId c
  | clear clientId c => .clear clientId c

/-- The key and the value that a put stores. -/
def stored? : Request → Option (KeyBytes × ValList)
  | put _ _ _ key valList waitFor => if waitFor then none else some (key, valList)
  | bput _ _ key valList => some (key, valList)
  | batchPut _ _ _ key valList => some (key, valList)
  | _ => none

end Request

/-- The key and the value that a `wait_for` waits for. -/
def DictOp.waitFor? : DictOp → Option (KeyBytes × ValList)
  | .put _ _ _ _ key valList waitFor _ => if waitFor then some (key, valList) else none
  | _ => none

/-- A `wait_for` does not find its key with another value when it arrives. -/
def Request.Agrees (ws : WorkingSet) : Request → Prop
  | .put _ c _ key valList waitFor =>
    waitFor = true → ∀ chkpt ws1, ws.put c = .ok (some chkpt, ws1) →
      ∀ stored, chkpt.map.lookup key = some stored → valueToBytes stored = valueToBytes valList
  | _ => True

namespace Manager

/-- A put performs again the operations that are deferred for its checkpoint, when that is
there. -/
def Retries (m : Manager) (request : Request) (c : ℕ) : Prop :=
  request.isPut = true ∧ c = request.chkptId ∧
    ∃ chkpt ws1, m.workingSet.put c = .ok (some chkpt, ws1)

/-- The call of a request. -/
def requestCall (m : Manager) (request : Request) : DictCall :=
  request.call m.workingSet.waitForKeys m.deferredIds

/-- What a request and the operations that it performs again may change. -/
def footprint (m : Manager) (request : Request) : Footprint :=
  ((m.requestCall request).effect m.workingSet).union
    (if request.isPut && decide (request.chkptId ∈ m.workingSet.chkpts) then
      Footprint.ofOps (bucket m.deferredOps request.chkptId)
    else Footprint.nothing)

/-- **The requests that lose no wake-up.**  No attempt meets a fault, and no `wait_for` finds
its key with another value.  Every deferred operation is performed again, or the request does
not advance the window and nothing that it changes, directly or by the operations that it
performs again, bears on what keeps the operation waiting. -/
structure WakesAll (m : Manager) (request : Request × Faults) : Prop where
  no_fault : request.2 = Faults.none
  agrees : request.1.Agrees m.workingSet
  stored : ∀ key valList, request.1.stored? = some (key, valList) →
    ∀ op ∈ bucket m.deferredOps request.1.chkptId, ∀ expected,
      op.waitFor? = some (key, expected) → valueToBytes valList = valueToBytes expected
  woken : ∀ c, ∀ op ∈ bucket m.deferredOps c, m.Retries request.1 c ∨
    (m.requestCall request.1).Stays m.workingSet ∧
      (m.footprint request.1).Spares m.workingSet op

/-- Every deferred operation is parked. -/
def AllParked (m : Manager) : Prop :=
  ∀ c, ∀ op ∈ bucket m.deferredOps c, op.Parked m.deferredIds m.workingSet

/-- What a request leaves behind: an operation that is deferred is parked, or it was deferred
before and was not performed again. -/
structure Settled (m : Manager) (request : Request) (m' : Manager) : Prop where
  bounds : (m.requestCall request).Stays m.workingSet →
    (m.footprint request).Bounds m.workingSet m'.workingSet
  ops : ∀ c, ∀ op ∈ bucket m'.deferredOps c, op.Parked m'.deferredIds m'.workingSet ∨
    op ∈ bucket m.deferredOps c ∧ ¬ m.Retries request c
  ids : ∀ c, ¬ m.Retries request c → c ∈ m.deferredIds → c ∈ m'.deferredIds

end Manager

section Requests

variable {size : ℕ} {waitForKeys : Bool} {n : ℕ} {m m1 m' : Manager} {pickler : XPickler} {c : ℕ}
  {request : Request} {ws ws1 ws' : WorkingSet} {op : DictOp}

theorem Manager.mem_deferredIds_iff (m : Manager) (c : ℕ) :
    c ∈ m.deferredIds ↔ m.shared = true ∧ c ∈ m.deferredOps := by
  rw [Manager.deferredIds]
  split
  · rename_i hshared
    rw [List.mem_toFinset, AList.mem_keys, hshared]
    simp only [true_and]
  · rename_i hshared
    simp only [Finset.notMem_empty, hshared, false_and, Bool.false_eq_true]

theorem Manager.mem_deferredIds_of_lookup (hshared : m'.shared = m.shared)
    (hlookup : m'.deferredOps.lookup c = m.deferredOps.lookup c) (hin : c ∈ m.deferredIds) :
    c ∈ m'.deferredIds := by
  rw [Manager.mem_deferredIds_iff] at hin ⊢
  rw [hshared, ← AList.lookup_isSome, hlookup, AList.lookup_isSome]
  exact hin

theorem Manager.mem_deferredIds_defer (hin : c ∈ m.deferredIds) : c ∈ (m.defer op).deferredIds := by
  rw [Manager.mem_deferredIds_iff] at hin ⊢
  exact ⟨hin.1, (AList.mem_insert _).mpr (Or.inr hin.2)⟩

theorem Manager.mem_bucket_defer {op' : DictOp}
    (hin : op' ∈ bucket (m.defer op).deferredOps c) :
    op' ∈ bucket m.deferredOps c ∨ op' = op ∧ c = op.chkptId := by
  rw [Manager.defer] at hin
  by_cases hc : c = op.chkptId
  · subst hc
    rw [bucket_insert] at hin
    rcases List.mem_append.mp hin with hold | hnew
    · exact Or.inl hold
    · exact Or.inr ⟨List.mem_singleton.mp hnew, rfl⟩
  · rw [bucket_insert_ne hc] at hin
    exact Or.inl hin

/-- **All operations stay parked.** -/
theorem Manager.Settled.allParked (hsettled : m.Settled request m')
    (h : ManagerInv size waitForKeys n m) (h' : WorkingSetInv size waitForKeys m'.workingSet)
    (hparked : m.AllParked)
    (hwoken : ∀ c, ∀ op ∈ bucket m.deferredOps c, m.Retries request c ∨
      (m.requestCall request).Stays m.workingSet ∧ (m.footprint request).Spares m.workingSet op) :
    m'.AllParked := by
  intro c op hop
  rcases hsettled.ops c op hop with hnew | ⟨hold, hnot⟩
  · exact hnew
  · rcases hwoken c op hold with hretries | ⟨hstays, hspares⟩
    · exact absurd hretries hnot
    · refine ((hparked c op hold).keeps (hsettled.bounds hstays) h.ws.window h'.window
        hspares).mono ?_
      rw [(h.filed c op hold).1]
      exact hsettled.ids c hnot

/-- A request that changes nothing but the writers, or nothing at all. -/
theorem Manager.settled_of_same_table (hput : request.isPut = false)
    (hbounds : (m.requestCall request).Stays m.workingSet →
      ((m.requestCall request).effect m.workingSet).Bounds m.workingSet m'.workingSet)
    (htable : m'.deferredOps = m.deferredOps) (hshared : m'.shared = m.shared) :
    m.Settled request m' := by
  have hnot : ∀ c, ¬ m.Retries request c := by
    rintro c ⟨htrue, -⟩
    rw [hput] at htrue
    cases htrue
  refine ⟨?_, ?_, ?_⟩
  · intro hstays
    exact (hbounds hstays).mono (fun _ _ => Or.inl) (fun _ => Or.inl) (fun _ _ => Or.inl)
  · intro c op hop
    rw [htable] at hop
    exact Or.inr ⟨hop, hnot c⟩
  · intro c _ hin
    exact Manager.mem_deferredIds_of_lookup hshared (by rw [htable]) hin

/-- **A request that is performed at once or deferred.** -/
theorem ManagerInv.performOrDefer_settled (h : ManagerInv size waitForKeys n m) (pickler : XPickler)
    (hput : request.isPut = false) (hagrees : op.Agrees m.workingSet)
    (hcall : op.call m.deferredIds = m.requestCall request) :
    m.Settled request (m.performOrDefer pickler .none op) := by
  have hws := op.perform_workingSet hagrees pickler m.deferredIds
  have hbounds : (m.requestCall request).Stays m.workingSet →
      ((m.requestCall request).effect m.workingSet).Bounds m.workingSet
        (op.perform pickler m.deferredIds .none m.workingSet).workingSet := by
    intro hstays
    rw [hws, hcall]
    exact h.ws.window.dictStep_effect pickler hstays
  have hdone : m.Settled request (m.perform pickler .none op).2 :=
    Manager.settled_of_same_table hput hbounds rfl rfl
  rw [Manager.performOrDefer]
  rcases hrun : m.perform pickler .none op with ⟨result, m1⟩
  rw [hrun] at hdone
  cases result with
  | done => exact hdone
  | raised => exact hdone
  | waits op' =>
    have hresult : (op.perform pickler m.deferredIds .none m.workingSet).result = .waits op' :=
      congrArg Prod.fst hrun
    have hparked := DictOp.parked_of_waits h.ws.window hagrees hresult
    have hm1 : m1 = { m with
        workingSet := (op.perform pickler m.deferredIds .none m.workingSet).workingSet
        answers := m.answers ++ (op.perform pickler m.deferredIds .none m.workingSet).answers } :=
      (congrArg Prod.snd hrun).symm
    refine ⟨hdone.bounds, ?_, ?_⟩
    · intro c op2 hop2
      rcases Manager.mem_bucket_defer hop2 with hold | ⟨rfl, -⟩
      · right
        refine ⟨?_, ?_⟩
        · rw [hm1] at hold
          exact hold
        · rintro ⟨htrue, -⟩
          rw [hput] at htrue
          cases htrue
      · left
        have hparked1 : op2.Parked m.deferredIds m1.workingSet := by
          rw [hm1]
          exact hparked
        apply hparked1.mono
        intro hin
        apply Manager.mem_deferredIds_defer
        rw [hm1]
        exact hin
    · intro c hnot hin
      exact Manager.mem_deferredIds_defer (hdone.ids c hnot hin)

/-- What a deferred operation is when its checkpoint is found. -/
theorem WindowInv.passive_of_parked {deferredOps : Finset ℕ} {chkpt : Checkpoint}
    (h : WindowInv size waitForKeys ws) (hput : ws.put c = .ok (some chkpt, ws1))
    (hid : op.chkptId = c) (hparked : op.Parked deferredOps ws) : op.Passive ws1 c := by
  have hnotStuck : ¬ ws.Stuck c := by
    intro hstuck
    rw [h.put_of_stuck hstuck] at hput
    cases hput
  cases op with
  | put _ _ c' =>
    replace hid : c' = c := hid
    subst hid
    obtain ⟨hfreed, hstuck | ⟨hwait, hin, hnone⟩⟩ := hparked
    · exact absurd hstuck hnotStuck
    · refine ⟨rfl, hwait, hfreed, ?_⟩
      obtain ⟨current, hcurrent⟩ := Option.isSome_iff_exists.mp (AList.lookup_isSome.mpr hin)
      rw [h.put_of_mem hcurrent] at hput
      cases hput
      intro stored hstored
      rw [hnone] at hstored
      cases hstored
  | get => exact hid
  | pop => exact hid
  | bput _ _ c' | fetchAdd _ _ c' =>
    replace hid : c' = c := hid
    subst hid
    exact absurd hparked hnotStuck
  | clear _ _ c' =>
    replace hid : c' = c := hid
    subst hid
    rcases hparked with hretired | hstuck
    · rcases h.put_cases c' with ⟨-, herr⟩ | ⟨hold, -⟩
      · rw [herr] at hput
        cases hput
      · exact absurd hretired (not_lt.mpr hold)
    · exact absurd hstuck hnotStuck

/-- A put of the value that a `wait_for` waits for. -/
theorem DictOp.Passive.stored (hop : op.Passive ws c)
    (hvalues : ∀ key stored, (viewAt ws' key c).value = some stored →
      (viewAt ws key c).value = some stored ∨ request.stored? = some (key, stored))
    (hagree : ∀ key stored, request.stored? = some (key, stored) → ∀ expected,
      op.waitFor? = some (key, expected) → valueToBytes stored = valueToBytes expected) :
    op.Passive ws' c := by
  cases op with
  | put _ _ _ _ key valList =>
    obtain ⟨hc, rfl, hfreed, hbytes⟩ := hop
    refine ⟨hc, rfl, hfreed, ?_⟩
    intro stored hstored
    rcases hvalues key stored hstored with hold | hnew
    · exact hbytes stored hold
    · exact hagree key stored hnew valList rfl
  | get => exact hop
  | pop => exact hop
  | bput => exact hop
  | fetchAdd => exact hop
  | clear => exact hop

/-- A put that does not find its checkpoint leaves the table as it is, or is deferred. -/
theorem ManagerInv.put_none_settled (h : ManagerInv size waitForKeys n m)
    (hid : request.chkptId = c) (hstays : (m.requestCall request).Stays m.workingSet →
      m.workingSet.StaysFor c) (hput : m.workingSet.put c = .ok (none, ws1))
    (hws : m'.workingSet = ws1) (hshared : m'.shared = m.shared)
    (hops : ∀ d, ∀ op ∈ bucket m'.deferredOps d, op.Parked m'.deferredIds m'.workingSet ∨
      op ∈ bucket m.deferredOps d)
    (htable : ∀ d ∈ m.deferredOps, d ∈ m'.deferredOps) : m.Settled request m' := by
  have hnot : ∀ d, ¬ m.Retries request d := by
    rintro d ⟨-, rfl, chkpt, ws2, hfound⟩
    rw [hid, hput] at hfound
    cases hfound
  refine ⟨?_, ?_, ?_⟩
  · intro hs
    rcases h.ws.window.put_of_stays (hstays hs) with herr | hrun
    · rw [herr] at hput
      cases hput
    · rw [hrun, Except.ok.injEq, Prod.mk.injEq] at hput
      rw [hws, ← hput.2]
      exact Footprint.Bounds.refl _ _
  · intro d op hop
    exact (hops d op hop).imp_right fun hold => ⟨hold, hnot d⟩
  · intro d _ hin
    rw [Manager.mem_deferredIds_iff] at hin ⊢
    exact ⟨hshared.trans hin.1, htable d hin.2⟩

/-- A put that finds its checkpoint leaves the operations of the checkpoint asleep. -/
theorem ManagerInv.put_found_settled (h : ManagerInv size waitForKeys n m)
    (hid : request.chkptId = c) (hkind : request.isPut = true) {chkpt : Checkpoint}
    (hput : m.workingSet.put c = .ok (some chkpt, ws1))
    (hstays : (m.requestCall request).Stays m.workingSet → m.workingSet.StaysFor c)
    (h' : WorkingSetInv size waitForKeys m'.workingSet) (hlt : c < m'.workingSet.nextId)
    (hbounds : ((m.requestCall request).footprint.union
      (Footprint.ofOps (bucket m.deferredOps c))).Bounds ws1 m'.workingSet)
    (hinert : ∀ ws, c ∈ ws.chkpts → (m.requestCall request).inert ws = false)
    (hasleep : ∀ op ∈ bucket m'.deferredOps c, op.chkptId = c ∧ op.Parked ∅ m'.workingSet)
    (hothers : ∀ d ≠ c, m'.deferredOps.lookup d = m.deferredOps.lookup d)
    (hshared : m'.shared = m.shared) : m.Settled request m' := by
  refine ⟨?_, ?_, ?_⟩
  · intro hs
    rcases h.ws.window.put_of_stays (hstays hs) with herr | hrun
    · rw [herr] at hput
      cases hput
    · rw [hrun, Except.ok.injEq, Prod.mk.injEq] at hput
      obtain ⟨hlookup, rfl⟩ := hput
      have hmem : c ∈ m.workingSet.chkpts := AList.lookup_isSome.mp (by rw [hlookup]; rfl)
      rw [Manager.footprint, DictCall.effect, hinert _ hmem, hkind, hid, decide_eq_true hmem]
      exact hbounds
  · intro d op hop
    by_cases hd : d = c
    · subst hd
      obtain ⟨hchkpt, hparked⟩ := hasleep op hop
      exact Or.inl (hparked.of_lt h'.window (by rw [hchkpt]; exact hlt) _)
    · right
      refine ⟨?_, ?_⟩
      · rwa [bucket, hothers d hd] at hop
      · rintro ⟨-, heq, -⟩
        exact hd (heq.trans hid)
  · intro d hnot hin
    by_cases hd : d = c
    · exact absurd ⟨hkind, hd.trans hid.symm, chkpt, ws1, by rw [hd]; exact hput⟩ hnot
    · exact Manager.mem_deferredIds_of_lookup hshared (hothers d hd) hin

theorem WindowInv.values_put (h : WindowInv size waitForKeys ws) (pickler : XPickler)
    (hmem : c ∈ ws.chkpts) (clientId : ℕ) (persist : Bool) (key : KeyBytes) (valList : ValList)
    (waitFor : Bool) (k : KeyBytes) (stored : ValList)
    (hstored : (viewAt (dictStep pickler ws (.put clientId c persist key valList waitFor)) k
      c).value = some stored) :
    (viewAt ws k c).value = some stored ∨ waitFor = false ∧ k = key ∧ stored = valList := by
  obtain ⟨chkpt, hlookup⟩ := Option.isSome_iff_exists.mp (AList.lookup_isSome.mpr hmem)
  have hput := h.put_of_mem hlookup
  have hsound := h.sound c chkpt hlookup
  cases waitFor with
  | true =>
    left
    rwa [dictStep, (putOp_waitFor hput hsound hlookup clientId persist key valList).viewAt_eq]
      at hstored
  | false =>
    obtain ⟨ws2, hperform, hchanges⟩ := putOp_stores hput hsound clientId persist key valList
    rw [dictStep, hperform, hchanges.viewAt_eq, if_pos rfl, Checkpoint.viewWith] at hstored
    by_cases hk : k = key
    · rw [if_pos hk] at hstored
      cases hstored
      exact Or.inr ⟨rfl, hk, rfl⟩
    · rw [if_neg hk] at hstored
      left
      rw [viewAt_of_lookup hlookup]
      exact hstored

theorem WindowInv.values_batchPut (h : WindowInv size waitForKeys ws) (pickler : XPickler)
    (hmem : c ∈ ws.chkpts) (clientId : ℕ) (persist : Bool) (key : KeyBytes) (valList : ValList)
    (k : KeyBytes) (stored : ValList)
    (hstored : (viewAt (dictStep pickler ws (.batchPut clientId c persist key valList)) k
      c).value = some stored) :
    (viewAt ws k c).value = some stored ∨ k = key ∧ stored = valList := by
  obtain ⟨chkpt, hlookup⟩ := Option.isSome_iff_exists.mp (AList.lookup_isSome.mpr hmem)
  obtain ⟨ws2, hperform, hchanges⟩ := batchPutOp_stores (h.put_of_mem hlookup)
    (h.sound c chkpt hlookup) clientId persist key valList
  rw [dictStep, hperform, hchanges.viewAt_eq, if_pos rfl, Checkpoint.viewWith] at hstored
  by_cases hk : k = key
  · rw [if_pos hk] at hstored
    cases hstored
    exact Or.inr ⟨hk, rfl⟩
  · rw [if_neg hk] at hstored
    left
    rw [viewAt_of_lookup hlookup]
    exact hstored

/-- **Before a put**: the checkpoint is found, and the operations that were deferred for it
have been performed again. -/
theorem ManagerInv.before_put (h : ManagerInv size waitForKeys n m) (hparked : m.AllParked)
    (pickler : XPickler) {chkpt : Checkpoint} (hput : m.workingSet.put c = .ok (some chkpt, ws1)) :
    ∃ m2, m.advanceAndProcess pickler Faults.none c = .ok (false, m2) ∧
      WorkingSetInv size waitForKeys m2.workingSet ∧ c ∈ m2.workingSet.chkpts ∧
      Passed c (bucket m.deferredOps c) { m with workingSet := ws1 } m2 ∧ m2.Asleep c ∧
      (∀ op ∈ bucket m2.deferredOps c, op ∈ bucket m.deferredOps c) ∧
      ∀ key stored, (viewAt m2.workingSet key c).value = some stored →
        chkpt.map.lookup key = some stored := by
  have hws1 := h.ws.put hput
  have hlookup : ws1.chkpts.lookup c = some chkpt := by
    obtain ⟨ws2, -, -, ⟨herr, -⟩ | hrun⟩ := h.ws.window.put_found c
    · rw [herr] at hput
      cases hput
    · rw [hrun, Except.ok.injEq, Prod.mk.injEq] at hput
      rw [← hput.2, hput.1]
  have hmem : c ∈ ws1.chkpts := AList.lookup_isSome.mp (by rw [hlookup]; rfl)
  have hops : ∀ op ∈ bucket m.deferredOps c, op.Passive ws1 c := fun op hop =>
    h.ws.window.passive_of_parked hput (h.filed c op hop).1 (hparked c op hop)
  have hinv1 : WorkingSetInv size waitForKeys
      ({ m with workingSet := ws1 } : Manager).workingSet := hws1
  obtain ⟨m2, hrun, hinv, hpassed, hasleep, hfrom⟩ :=
    hinv1.processDeferredOps_parked pickler hmem hops
  refine ⟨m2, ?_, hinv, (hpassed.bounds.mem_iff hws1.window hinv.window c).mpr hmem, hpassed,
    hasleep, hfrom, ?_⟩
  · rw [Manager.advanceAndProcess, hput]
    exact congrArg Except.ok hrun
  · intro key stored hstored
    have hold : (viewAt ws1 key c).value = some stored := hpassed.shrinks key stored hstored
    rwa [viewAt_of_lookup hlookup] at hold

/-- **After a put**: the operations that were deferred for its checkpoint are performed
again. -/
theorem ManagerInv.after_put (h : ManagerInv size waitForKeys n m) (pickler : XPickler)
    (hid : request.chkptId = c) (hkind : request.isPut = true) {chkpt : Checkpoint}
    (hput : m.workingSet.put c = .ok (some chkpt, ws1)) {m2 : Manager} (m3 : Manager)
    (h2 : WorkingSetInv size waitForKeys m2.workingSet) (hmem : c ∈ m2.workingSet.chkpts)
    (hpassed : Passed c (bucket m.deferredOps c) { m with workingSet := ws1 } m2)
    (hasleep : m2.Asleep c)
    (hfrom : ∀ op ∈ bucket m2.deferredOps c, op ∈ bucket m.deferredOps c)
    (h3 : WorkingSetInv size waitForKeys m3.workingSet)
    (hbounds : (m.requestCall request).footprint.Bounds m2.workingSet m3.workingSet)
    (hvalues : ∀ key stored, (viewAt m3.workingSet key c).value = some stored →
      (viewAt m2.workingSet key c).value = some stored ∨ request.stored? = some (key, stored))
    (htable : m3.deferredOps = m2.deferredOps) (hshared : m3.shared = m2.shared)
    (hstays : (m.requestCall request).Stays m.workingSet → m.workingSet.StaysFor c)
    (hinert : ∀ ws, c ∈ ws.chkpts → (m.requestCall request).inert ws = false)
    (hagree : ∀ key stored, request.stored? = some (key, stored) →
      ∀ op ∈ bucket m.deferredOps c, ∀ expected,
        op.waitFor? = some (key, expected) → valueToBytes stored = valueToBytes expected) :
    ∃ m', m3.processDeferredOps pickler (fun _ => .none) c = (false, m') ∧
      m.Settled request m' := by
  have hmem3 := (hbounds.mem_iff h2.window h3.window c).mpr hmem
  have hops : ∀ op ∈ bucket m3.deferredOps c, op.Passive m3.workingSet c := by
    intro op hop
    rw [htable] at hop
    exact (hasleep op hop).1.stored hvalues fun key stored hstored =>
      hagree key stored hstored op (hfrom op hop)
  obtain ⟨m', hrun, hinv, hpassed', hasleep', hfrom'⟩ :=
    h3.processDeferredOps_parked pickler hmem3 hops
  refine ⟨m', hrun, ?_⟩
  -- the two passes and the put between them
  have htotal : ((m.requestCall request).footprint.union
      (Footprint.ofOps (bucket m.deferredOps c))).Bounds ws1 m'.workingSet := by
    have hlast : (Footprint.ofOps (bucket m.deferredOps c)).Bounds m3.workingSet m'.workingSet := by
      refine hpassed'.bounds.ofOps_mono ?_
      rw [htable]
      exact hfrom
    refine ((hpassed.bounds.trans hbounds).trans hlast).mono ?_ ?_ ?_
    · rintro key i ((hops | hown) | hops)
      · exact Or.inr hops
      · exact Or.inl hown
      · exact Or.inr hops
    · rintro i ((hops | hown) | hops)
      · exact Or.inr hops
      · exact Or.inl hown
      · exact Or.inr hops
    · rintro client i ((hops | hown) | hops)
      · exact Or.inr hops
      · exact Or.inl hown
      · exact Or.inr hops
  refine h.put_found_settled hid hkind hput hstays hinv ?_ htotal hinert ?_ ?_ ?_
  · exact ((hinv.window.mem_iff c).mp
      ((hpassed'.bounds.mem_iff h3.window hinv.window c).mpr hmem3)).2
  · intro op hop
    exact ⟨(hasleep' op hop).1.chkptId_eq, (hasleep' op hop).2⟩
  · intro d hd
    rw [hpassed'.others d hd, htable, hpassed.others d hd]
  · rw [hpassed'.shared_eq, hshared, hpassed.shared_eq]

theorem DictOp.IsPut.stays_iff (hop : op.IsPut) (deferredOps : Finset ℕ) :
    (op.call deferredOps).Stays ws ↔ ws.StaysFor op.chkptId := by
  cases op with
  | put => exact Iff.rfl
  | bput => exact Iff.rfl
  | _ => exact hop.elim

theorem DictOp.IsPut.inert_eq (hop : op.IsPut) (deferredOps : Finset ℕ) :
    (op.call deferredOps).inert ws = decide (op.chkptId ∉ ws.chkpts) := by
  cases op with
  | put => rfl
  | bput => rfl
  | _ => exact hop.elim

/-- Only a `wait_for` waits when its checkpoint is there. -/
theorem DictOp.IsPut.footprint_of_waits {deferredOps : Finset ℕ} {op' : DictOp} (hop : op.IsPut)
    (hresult : (op.perform pickler deferredOps .none ws).result = .waits op')
    (hparked : op'.Parked deferredOps ws') (hlt : op.chkptId < ws'.nextId) :
    (op.call deferredOps).footprint = Footprint.nothing := by
  cases op with
  | put tag clientId c persist key valList waitFor freed =>
    change (putPerform .none ws tag clientId c persist key valList waitFor freed).result = _
      at hresult
    rw [putPerform] at hresult
    generalize putTry .none ws clientId c persist key valList waitFor freed = run at hresult
    rcases run with ⟨(_ | _ | _) | ⟨_ | _, freed'⟩, ws1⟩ <;> cases hresult
    obtain ⟨-, hstuck | ⟨rfl, -⟩⟩ := hparked
    · exact absurd hstuck.1 (not_le.mpr hlt)
    · rfl
  | bput tag clientId c key valList =>
    change (bputPerform .none ws tag clientId c key valList).result = _ at hresult
    rw [bputPerform] at hresult
    generalize putTry .none ws clientId c false key valList false false = run at hresult
    rcases run with ⟨(_ | _ | _) | ⟨_ | _, freed'⟩, ws1⟩ <;> cases hresult
    exact absurd hparked.1 (not_le.mpr hlt)
  | _ => exact hop.elim

/-- A request for a checkpoint that is retired changes nothing. -/
theorem Manager.settled_of_error {e : DDictError} (hid : request.chkptId = c)
    (hput : m.workingSet.put c = .error e) (hws : m'.workingSet = m.workingSet)
    (htable : m'.deferredOps = m.deferredOps) (hshared : m'.shared = m.shared) :
    m.Settled request m' := by
  have hnot : ∀ d, ¬ m.Retries request d := by
    rintro d ⟨-, rfl, chkpt, ws2, hfound⟩
    rw [hid, hput] at hfound
    cases hfound
  refine ⟨?_, ?_, ?_⟩
  · intro _
    rw [hws]
    exact Footprint.Bounds.refl _ _
  · intro d op hop
    rw [htable] at hop
    exact Or.inr ⟨hop, hnot d⟩
  · intro d _ hin
    exact Manager.mem_deferredIds_of_lookup hshared (by rw [htable]) hin

/-- The value of a `wait_for` after the operations of its checkpoint were performed again. -/
theorem DictOp.Agrees.before (hagrees : op.Agrees ws) {chkpt : Checkpoint}
    (hid : op.chkptId = c) (hput : ws.put c = .ok (some chkpt, ws1))
    (h' : WindowInv size waitForKeys ws') (hmem : c ∈ ws'.chkpts)
    (hvalues : ∀ key stored, (viewAt ws' key c).value = some stored →
      chkpt.map.lookup key = some stored) : op.Agrees ws' := by
  cases op with
  | put _ _ c' _ key =>
    replace hid : c' = c := hid
    subst hid
    refine ⟨hagrees.1, ?_⟩
    intro hwait found ws2 hput' stored hstored
    obtain ⟨current, hcurrent⟩ := Option.isSome_iff_exists.mp (AList.lookup_isSome.mpr hmem)
    rw [h'.put_of_mem hcurrent] at hput'
    cases hput'
    refine hagrees.2 hwait chkpt ws1 hput stored (hvalues key stored ?_)
    rw [viewAt_of_lookup hcurrent]
    exact hstored
  | _ => exact trivial

/-- **The handler of a put.** -/
theorem ManagerInv.performPut_settled (h : ManagerInv size waitForKeys n m) (hparked : m.AllParked)
    (pickler : XPickler) (tag : ℕ) (onRaise : List Answer) (hkind : op.IsPut)
    (hquiet : ∀ ws, op.Quiet pickler .none ws) (hagrees : op.Agrees m.workingSet)
    (hisPut : request.isPut = true) (hid : request.chkptId = op.chkptId)
    (hcall : ∀ deferredOps, op.call deferredOps = m.requestCall request)
    (hvalues : ∀ ws, WindowInv size waitForKeys ws → op.chkptId ∈ ws.chkpts → ∀ key stored,
      (viewAt (dictStep pickler ws (m.requestCall request)) key op.chkptId).value = some stored →
      (viewAt ws key op.chkptId).value = some stored ∨ request.stored? = some (key, stored))
    (hagree : ∀ key stored, request.stored? = some (key, stored) →
      ∀ op' ∈ bucket m.deferredOps op.chkptId, ∀ expected,
        op'.waitFor? = some (key, expected) → valueToBytes stored = valueToBytes expected) :
    m.Settled request (m.performPut pickler Faults.none tag onRaise op) := by
  have hstays : (m.requestCall request).Stays m.workingSet → m.workingSet.StaysFor op.chkptId := by
    intro hs
    rw [← hcall ∅] at hs
    exact (hkind.stays_iff ∅).mp hs
  have hinert : ∀ ws, op.chkptId ∈ ws.chkpts → (m.requestCall request).inert ws = false := by
    intro ws hmem
    rw [← hcall ∅, hkind.inert_eq]
    exact decide_eq_false (not_not.mpr hmem)
  rw [Manager.performPut]
  simp only [Faults.none]
  rcases hput : m.workingSet.put op.chkptId with e | ⟨found, ws1⟩
  · have hadvance : m.advanceAndProcess pickler Faults.none op.chkptId = .error e := by
      rw [Manager.advanceAndProcess, hput]
    rw [Faults.none] at hadvance
    rw [hadvance]
    exact Manager.settled_of_error hid hput rfl rfl rfl
  · cases found with
    | none =>
      have hstuck := h.ws.window.stuck_of_put_none hput
      have h1 := (h.ws.put hput).window
      have hout : op.chkptId ∉ ws1.chkpts := by
        rw [h1.mem_iff]
        exact fun hin => absurd hstuck.1 (not_le.mpr hin.2)
      have hadvance : m.advanceAndProcess pickler Faults.none op.chkptId
          = .ok (false, { m with workingSet := ws1 }) := by
        rw [Manager.advanceAndProcess, hput]
      rw [Faults.none] at hadvance
      rw [hadvance]
      simp only [Manager.perform]
      generalize ({ m with workingSet := ws1 } : Manager).deferredIds = ids
      have hagrees1 : op.Agrees ws1 := by
        cases op with
        | put _ _ c' =>
          refine ⟨hagrees.1, ?_⟩
          intro _ chkpt ws2 hfound
          rw [show ws1.put c' = .ok (none, ws1) from h1.put_of_stuck hstuck] at hfound
          cases hfound
        | _ => exact trivial
      have hresult : (op.perform pickler ids .none ws1).result = .waits op :=
        DictOp.put_waits hkind (h1.put_of_stuck hstuck) rfl pickler ids
      have hws : (op.perform pickler ids .none ws1).workingSet = ws1 := by
        rw [op.perform_workingSet hagrees1]
        refine h1.dictStep_inert pickler ((hkind.stays_iff ids).mpr (Or.inr hstuck.2)) ?_
        rw [hkind.inert_eq]
        exact decide_eq_true hout
      have hown := DictOp.parked_of_waits h1 hagrees1 hresult
      rw [hws] at hown
      simp only [hresult, hws]
      refine h.put_none_settled hid hstays hput rfl rfl ?_ ?_
      · intro d op' hop'
        rcases Manager.mem_bucket_defer hop' with hold | ⟨rfl, -⟩
        · exact Or.inr hold
        · left
          cases op' with
          | put => exact hown
          | bput => exact hown
          | _ => exact hkind.elim
      · intro d hin
        exact (AList.mem_insert _).mpr (Or.inr hin)
    | some chkpt =>
      obtain ⟨m2, hadvance, h2, hmem, hpassed, hasleep, hfrom, hshrunk⟩ :=
        h.before_put hparked pickler hput
      rw [Faults.none] at hadvance
      rw [hadvance]
      simp only [Manager.perform]
      have hagrees2 := hagrees.before rfl hput h2.window hmem hshrunk
      have hlt := ((h2.window.mem_iff op.chkptId).mp hmem).2
      have hold : m2.workingSet.oldestChkptId ≤ op.chkptId := by
        rw [h2.window.oldest_eq]
        exact ((h2.window.mem_iff op.chkptId).mp hmem).1
      have hws := op.perform_workingSet hagrees2 pickler m2.deferredIds
      have h3 : WorkingSetInv size waitForKeys
          (op.perform pickler m2.deferredIds .none m2.workingSet).workingSet := h2.perform op
      have hbounds : (m.requestCall request).footprint.Bounds m2.workingSet
          (op.perform pickler m2.deferredIds .none m2.workingSet).workingSet := by
        rw [hws, ← hcall m2.deferredIds]
        exact h2.window.dictStep_bounds pickler ((hkind.stays_iff _).mpr (Or.inl hlt))
      have hvalues3 : ∀ key stored,
          (viewAt (op.perform pickler m2.deferredIds .none m2.workingSet).workingSet key
            op.chkptId).value = some stored →
          (viewAt m2.workingSet key op.chkptId).value = some stored ∨
            request.stored? = some (key, stored) := by
        rw [hws, hcall]
        exact hvalues m2.workingSet h2.window hmem
      have hsettles := (hquiet m2.workingSet).settles h2 hold m2.deferredIds
      cases hresult : (op.perform pickler m2.deferredIds .none m2.workingSet).result with
      | raised => exact absurd hresult hsettles.2
      | done =>
        simp only
        obtain ⟨m', hrun, hsettled⟩ := h.after_put pickler hid hisPut hput
          { m2 with
            workingSet := (op.perform pickler m2.deferredIds .none m2.workingSet).workingSet
            answers := m2.answers ++
              (op.perform pickler m2.deferredIds .none m2.workingSet).answers }
          h2 hmem hpassed hasleep hfrom h3 hbounds hvalues3 rfl rfl hstays hinert hagree
        rw [hrun]
        exact hsettled
      | waits op' =>
        have hown := DictOp.parked_of_waits h2.window hagrees2 hresult
        have hsame := DictOp.waits_same hresult
        generalize (op.perform pickler m2.deferredIds .none m2.workingSet).workingSet = ws3
          at h3 hbounds hvalues3 hown ⊢
        have hmem3 := (hbounds.mem_iff h2.window h3.window op.chkptId).mpr hmem
        have hlt3 := ((h3.window.mem_iff op.chkptId).mp hmem3).2
        -- the checkpoint is there, so that only a `wait_for` waits, and it touches no key
        have hnothing : (m.requestCall request).footprint = Footprint.nothing := by
          rw [← hcall m2.deferredIds]
          exact hkind.footprint_of_waits hresult hown hlt3
        rw [hnothing] at hbounds
        have hasleep3 : ∀ op2 ∈ bucket m2.deferredOps op.chkptId, op2.Parked ∅ ws3 := by
          intro op2 hop2
          have hparked2 := (hasleep op2 hop2).2
          exact hparked2.keeps hbounds h2.window h3.window (hparked2.spares_nothing h2.window)
        refine h.put_found_settled hid hisPut hput hstays h3 hlt3 ?_ hinert ?_ ?_ ?_
        · rw [hnothing]
          refine (hpassed.bounds.trans hbounds).mono ?_ ?_ ?_
          · exact fun _ _ htouches => htouches.symm
          · exact fun _ hwipes => hwipes.symm
          · exact fun _ _ hrecords => hrecords.symm
        · intro op2 hop2
          rcases Manager.mem_bucket_defer hop2 with hold2 | ⟨rfl, -⟩
          · exact ⟨(hasleep op2 hold2).1.chkptId_eq, hasleep3 op2 hold2⟩
          · exact ⟨hsame.2, hown.of_lt h3.window (by rw [hsame.2]; exact hlt3) ∅⟩
        · intro d hd
          have hd' : d ≠ op'.chkptId := by
            rw [hsame.2]
            exact hd
          exact (AList.lookup_insert_ne hd').trans (hpassed.others d hd)
        · exact hpassed.shared_eq

/-- **One turn of a batch put.** -/
theorem ManagerInv.batchPut_settled (h : ManagerInv size waitForKeys n m) (hparked : m.AllParked)
    (pickler : XPickler) (clientId c : ℕ) (persist : Bool) (key : KeyBytes) (valList : ValList)
    (hagree : ∀ op ∈ bucket m.deferredOps c, ∀ expected,
      op.waitFor? = some (key, expected) → valueToBytes valList = valueToBytes expected) :
    m.Settled (.batchPut clientId c persist key valList)
      (m.batchPut pickler Faults.none clientId c persist key valList) := by
  rw [Manager.batchPut]
  rcases hput : m.workingSet.put c with e | ⟨found, ws1⟩
  · have hadvance : m.advanceAndProcess pickler Faults.none c = .error e := by
      rw [Manager.advanceAndProcess, hput]
    rw [hadvance]
    exact Manager.settled_of_error rfl hput rfl rfl rfl
  · cases found with
    | none =>
      have hstuck := h.ws.window.stuck_of_put_none hput
      have h1 := (h.ws.put hput).window
      have hadvance : m.advanceAndProcess pickler Faults.none c
          = .ok (false, { m with workingSet := ws1 }) := by
        rw [Manager.advanceAndProcess, hput]
      have hfails : batchPutOpPerform ws1 clientId c (persist && ws1.waitForKeys) key valList
          = (.error .futureCheckpoint, ws1) := by
        rw [batchPutOpPerform, h1.put_of_stuck hstuck]
      rw [hadvance]
      simp only [Faults.none, Fault.raises, hfails]
      exact h.put_none_settled rfl id hput rfl rfl (fun _ _ hop => Or.inr hop) fun _ hin => hin
    | some chkpt =>
      obtain ⟨m2, hadvance, h2, hmem, hpassed, hasleep, hfrom, -⟩ :=
        h.before_put hparked pickler hput
      have hlt := ((h2.window.mem_iff c).mp hmem).2
      have hkeys : m2.workingSet.waitForKeys = m.workingSet.waitForKeys :=
        h2.window.waitForKeys_eq.trans h.ws.window.waitForKeys_eq.symm
      rw [hadvance]
      have hcall : m.requestCall (.batchPut clientId c persist key valList)
          = .batchPut clientId c (persist && m.workingSet.waitForKeys) key valList := rfl
      have hvalues := h2.window.values_batchPut pickler hmem clientId
        (persist && m.workingSet.waitForKeys) key valList
      have hstays : (m.requestCall (.batchPut clientId c persist key valList)).Stays
          m2.workingSet := Or.inl hlt
      have hbounds := h2.window.dictStep_bounds pickler hstays
      have h3 := h2.dictStep pickler
        (.batchPut clientId c (persist && m.workingSet.waitForKeys) key valList)
      obtain ⟨current, hcurrent⟩ := Option.isSome_iff_exists.mp (AList.lookup_isSome.mpr hmem)
      obtain ⟨ws3, hperform, -⟩ := batchPutOp_stores (h2.window.put_of_mem hcurrent)
        (h2.window.sound c current hcurrent) clientId (persist && m.workingSet.waitForKeys) key
        valList
      rw [hcall] at hbounds
      rw [dictStep, hperform] at hvalues hbounds h3
      simp only [Faults.none, Fault.raises, hkeys, hperform]
      have hvalues3 : ∀ k stored, (viewAt ws3 k c).value = some stored →
          (viewAt m2.workingSet k c).value = some stored ∨
            (Request.batchPut clientId c persist key valList).stored? = some (k, stored) := by
        intro k stored hstored
        rcases hvalues k stored hstored with hold | ⟨rfl, rfl⟩
        · exact Or.inl hold
        · exact Or.inr rfl
      have hagree3 : ∀ k stored,
          (Request.batchPut clientId c persist key valList).stored? = some (k, stored) →
          ∀ op ∈ bucket m.deferredOps c, ∀ expected,
            op.waitFor? = some (k, expected) → valueToBytes stored = valueToBytes expected := by
        rintro k stored ⟨⟩
        exact hagree
      have hid : (Request.batchPut clientId c persist key valList).chkptId = c := rfl
      obtain ⟨m', hrun, hsettled⟩ := h.after_put pickler hid rfl hput
        { m2 with workingSet := ws3 } h2 hmem hpassed hasleep hfrom h3 hbounds hvalues3 rfl rfl id
        (fun ws hin => decide_eq_false (not_not.mpr hin)) hagree3
      rw [hrun]
      exact hsettled

theorem ManagerInv.read_settled (h : ManagerInv size waitForKeys n m) {clientId : ℕ}
    (hput : request.isPut = false) (hcall : m.requestCall request = .read clientId c)
    (hws : m'.workingSet = m.workingSet ∨
      m'.workingSet = m.workingSet.updateWriterCheckpoint clientId c)
    (htable : m'.deferredOps = m.deferredOps) (hshared : m'.shared = m.shared) :
    m.Settled request m' := by
  refine Manager.settled_of_same_table hput ?_ htable hshared
  intro hstays
  rcases hws with hws | hws
  · rw [hws]
    exact Footprint.Bounds.refl _ _
  · rw [hws]
    have heffect := h.ws.window.dictStep_effect XPickler.scalars hstays
    rw [hcall] at heffect ⊢
    exact heffect

/-- **Every request** that loses no wake-up. -/
theorem ManagerInv.handle_settled (h : ManagerInv size waitForKeys n m) (hparked : m.AllParked)
    (pickler : XPickler) (tag : ℕ) (hwakes : m.WakesAll (request, Faults.none)) :
    m.Settled request (m.handle pickler Faults.none tag request) := by
  have hagrees := hwakes.agrees
  have hstored := hwakes.stored
  have hkeys := h.ws.window.waitForKeys_eq
  cases request with
  | put clientId c persist key valList waitFor =>
    refine h.performPut_settled hparked pickler tag _ trivial (fun _ => ⟨nofun, rfl⟩)
      ⟨rfl, hagrees⟩ rfl rfl (fun _ => rfl) ?_ hstored
    intro ws hws hmem k stored hk
    rcases hws.values_put pickler hmem clientId (persist && m.workingSet.waitForKeys) key valList
      waitFor k stored hk with hold | ⟨rfl, rfl, rfl⟩
    · exact Or.inl hold
    · exact Or.inr rfl
  | bput clientId c key valList =>
    refine h.performPut_settled hparked pickler tag _ trivial (fun _ => trivial) trivial rfl rfl
      (fun _ => rfl) ?_ hstored
    intro ws hws hmem k stored hk
    rcases hws.values_put pickler hmem clientId false key valList false k stored hk with
      hold | ⟨-, rfl, rfl⟩
    · exact Or.inl hold
    · exact Or.inr rfl
  | batchPut clientId c persist key valList =>
    exact h.batchPut_settled hparked pickler clientId c persist key valList
      (hstored key valList rfl)
  | get => exact h.performOrDefer_settled pickler rfl trivial rfl
  | fetchAdd => exact h.performOrDefer_settled pickler rfl trivial rfl
  | pop => exact h.performOrDefer_settled pickler rfl trivial rfl
  | clear => exact h.performOrDefer_settled pickler rfl trivial rfl
  | contains =>
    rw [Manager.handle, Manager.contains]
    split
    · exact h.read_settled rfl rfl (Or.inl rfl) rfl rfl
    · exact h.read_settled rfl rfl (Or.inl rfl) rfl rfl
    · exact h.read_settled rfl rfl (Or.inl rfl) rfl rfl
    · exact h.read_settled rfl rfl (Or.inr rfl) rfl rfl
  | length =>
    rw [Manager.handle, Manager.getLength]
    split
    · exact h.read_settled rfl rfl (Or.inl rfl) rfl rfl
    · exact h.read_settled rfl rfl (Or.inl rfl) rfl rfl
    · exact h.read_settled rfl rfl (Or.inl rfl) rfl rfl
    · exact h.read_settled rfl rfl (Or.inr rfl) rfl rfl
  | keys =>
    simp only [Manager.handle, Manager.keys]
    split
    · exact h.read_settled rfl rfl (Or.inr rfl) rfl rfl
    · exact h.read_settled rfl rfl (Or.inr rfl) rfl rfl
    · exact h.read_settled rfl rfl (Or.inr rfl) rfl rfl
  | values =>
    simp only [Manager.handle, Manager.values]
    split
    · exact h.read_settled rfl rfl (Or.inr rfl) rfl rfl
    · exact h.read_settled rfl rfl (Or.inr rfl) rfl rfl
    · exact h.read_settled rfl rfl (Or.inr rfl) rfl rfl
    · exact h.read_settled rfl rfl (Or.inr rfl) rfl rfl
  | items =>
    simp only [Manager.handle, Manager.items]
    split
    · exact h.read_settled rfl rfl (Or.inr rfl) rfl rfl
    · exact h.read_settled rfl rfl (Or.inr rfl) rfl rfl
    · exact h.read_settled rfl rfl (Or.inr rfl) rfl rfl

/-- **Step lemma.** -/
theorem ManagerInv.step_allParked (h : ManagerInv size waitForKeys m.received m)
    (hparked : m.AllParked) (pickler : XPickler) {request : Request × Faults}
    (hwakes : m.WakesAll request) : (m.step pickler request).AllParked := by
  obtain ⟨request, faults⟩ := request
  have hfaults := hwakes.no_fault
  subst hfaults
  have hinv := (h.mono (Nat.le_succ m.received)).handle pickler Faults.none
    (Nat.lt_succ_self m.received) request
  have hall := (h.handle_settled hparked pickler m.received hwakes).allParked h hinv.ws hparked
    hwakes.woken
  rcases m.step_eq pickler (request, Faults.none) with ⟨heq, -⟩ | ⟨heq, -⟩
  · rw [heq]
    exact hall
  · rw [heq]
    exact hall

theorem ManagerInv.noLostWakeup (h : ManagerInv size waitForKeys n m) (hparked : m.AllParked)
    (pickler : XPickler) : NoLostWakeup pickler m :=
  fun c op hop => (hparked c op hop).waits h.ws.window pickler

end Requests

/-- **No lost wake-up.**  In every run of a manager whose requests perform again every deferred
operation that they enable (`WakesAll`), whatever the settings and the size of the window:
after each request, an attempt to perform any operation that is still deferred returns
`False`. -/
theorem manager_no_lost_wakeup (pickler : XPickler) (start size : ℕ) (hsize : 0 < size)
    (waitForKeys waitForWriters : Bool) (requests : List (Request × Faults))
    (hlegal : Legal (Manager.step pickler) Manager.WakesAll
      (Manager.init start size waitForKeys waitForWriters) requests) :
    NoLostWakeup pickler (requests.foldl (Manager.step pickler)
      (Manager.init start size waitForKeys waitForWriters)) := by
  have hrun := Legal.invariant (I := fun m => ManagerInv size waitForKeys m.received m ∧
    m.AllParked) ?_ hlegal ⟨managerInv_init start hsize waitForKeys waitForWriters, ?_⟩
  · exact hrun.1.noLostWakeup hrun.2 pickler
  · rintro m request ⟨h, hparked⟩ hwakes
    exact ⟨h.step pickler request, h.step_allParked hparked pickler hwakes⟩
  · intro c op hop
    cases hop

/-- A put, a get that waits for another key, and the put of that key, which performs the get
again. -/
theorem manager_no_lost_wakeup_example :
    NoLostWakeup XPickler.scalars
      (([(.put 0 0 false [1] [[7]] false, Faults.none), (.get 1 0 [2], Faults.none),
        (.put 0 0 false [2] [[8]] false, Faults.none)] : List (Request × Faults)).foldl
          (Manager.step XPickler.scalars) (Manager.init 0 1 true false)) := by
  refine manager_no_lost_wakeup XPickler.scalars 0 1 (by decide) true false _ ?_
  refine ⟨⟨rfl, nofun, nofun, nofun⟩, ⟨rfl, trivial, nofun, nofun⟩, ⟨rfl, nofun, ?_, ?_⟩, trivial⟩
  · intro key valList _ op hop expected hexpected
    change op ∈ [DictOp.get 1 1 0 [2]] at hop
    rw [List.mem_singleton.mp hop] at hexpected
    cases hexpected
  · intro c op hop
    have hc : c = 0 := by
      by_contra hc
      change op ∈ bucket (AList.insert 0 [DictOp.get 1 1 0 [2]] ∅) c at hop
      rw [bucket_insert_ne hc] at hop
      cases hop
    subst hc
    exact Or.inl ⟨rfl, rfl, _, _, rfl⟩

/-- A put to checkpoint 1 of the key that checkpoint 0 waits for lets the window advance, but
the put that is deferred for checkpoint 2 is not performed again. -/
theorem manager_put_not_woken :
    ¬ NoLostWakeup XPickler.scalars
      (([(.put 0 0 false [1] [[7]] false, Faults.none), (.put 0 2 false [2] [[8]] false, Faults.none),
        (.put 0 1 false [1] [[9]] false, Faults.none)] : List (Request × Faults)).foldl
          (Manager.step XPickler.scalars) (Manager.init 0 2 true false)) := by
  intro h
  obtain ⟨op', hwaits⟩ := h 2 (.put 1 0 2 false [2] [[8]] false false) List.mem_cons_self
  cases hwaits
