/-
# Fetching and adding (`GetOp` with `fetch_add` in `dragon/data/ddict/manager.py`)

A `fetch_add` answers the value of its key and puts the sum in its place.  It looks for the key in
the checkpoint of the put only, and starts with zero when the key is not there, also when an
earlier checkpoint of the window has it; and it frees the old value before it has memory for the
new one.  Here each allocation of pool memory on the way may fail (`fetchAddAttempt`), and
`manager_fetch_add_iff` says exactly when no count is lost.
-/
import DragonRuntime.ManagerMemory

open WorkingSet

/-- The allocation of pool memory that fails. -/
inductive MemoryFault : Type where
  | none
  /-- The memory for a key that is not there. -/
  | key
  /-- The memory for its first value, zero. -/
  | zero
  /-- The memory for the answer. -/
  | answer
  /-- The memory for the sum. -/
  | sum
  deriving DecidableEq, Repr

/-- `GetOp.perform` with `fetch_add`.  After an exception the answer is sent with the checkpoint
id in the place of the checkpoint, and that raises. -/
def fetchAddAttempt (pickler : XPickler) (fault : MemoryFault) (ws : WorkingSet)
    (tag clientId chkptId : ℕ) (key : KeyBytes) (fetchAddVal : ℤ) : Outcome :=
  match ws.put chkptId with
  | .error _ => ⟨[⟨tag, .checkpointRetired, .nothing⟩], ws, .raised⟩
  | .ok (none, ws) => ⟨[], ws, .waits (.fetchAdd tag clientId chkptId key fetchAddVal)⟩
  | .ok (some chkpt, ws) =>
    match chkpt.containsKey key with
    | .error _ => ⟨[⟨tag, .failure, .nothing⟩], ws, .raised⟩
    | .ok found =>
      let value := if found then pickler.loads (valueToBytes ((chkpt.map.lookup key).getD []))
        else some pickler.zero
      match value with
      | none => ⟨[⟨tag, .failure, .nothing⟩], ws, .raised⟩
      | some value =>
        if !found && fault = .key then ⟨[⟨tag, .failure, .nothing⟩], ws, .raised⟩
        else if !found && fault = .zero then
          -- the key persists already
          ⟨[⟨tag, .failure, .nothing⟩],
            ws.setChkpt chkptId { chkpt with persist := insert key chkpt.persist }, .raised⟩
        else
          let chkpt := chkpt.fetchAddStart pickler key
          let oldValueList := (chkpt.map.lookup key).getD []
          if fault = .answer then
            ⟨[⟨tag, .failure, .nothing⟩], ws.setChkpt chkptId chkpt, .raised⟩
          else
            let ws := (ws.setChkpt chkptId chkpt).updateWriterCheckpoint clientId chkptId
            match pickler.add value fetchAddVal with
            | none =>
              ⟨[valueAnswer tag (some oldValueList), ⟨tag, .failure, .nothing⟩], ws, .raised⟩
            | some value =>
              -- the old value is freed before the new one is pickled and gets its memory
              match if fault = .sum then none else pickler.dumps value with
              | none =>
                ⟨[valueAnswer tag (some oldValueList), ⟨tag, .failure, .nothing⟩],
                  ws.setValue chkptId key [], .raised⟩
              | some bytes =>
                ⟨[valueAnswer tag (some oldValueList)], ws.setValue chkptId key [bytes], .done⟩

/-- Without a fault the attempt is the operation of the manager. -/
theorem fetchAddAttempt_none (pickler : XPickler) (ws : WorkingSet) (tag clientId c : ℕ)
    (key : KeyBytes) (fetchAddVal : ℤ) :
    fetchAddAttempt pickler .none ws tag clientId c key fetchAddVal
      = fetchAddOpPerform pickler .none ws tag clientId c key fetchAddVal := by
  unfold fetchAddAttempt fetchAddOpPerform fetchAddPerform
  rcases ws.put c with e | ⟨found, ws1⟩
  · rfl
  · cases found with
    | none => rfl
    | some chkpt =>
      simp only
      cases chkpt.containsKey key with
      | error e => rfl
      | ok found =>
        simp only [reduceCtorEq, decide_false, Bool.and_false, Bool.false_eq_true, if_false]
        generalize (if found = true then
          pickler.loads (valueToBytes ((chkpt.map.lookup key).getD [])) else some pickler.zero) = value
        cases value with
        | none => rfl
        | some value =>
          simp only
          cases pickler.add value fetchAddVal with
          | none => rfl
          | some sum =>
            simp only
            cases pickler.dumps sum <;> rfl

/-- What a `get` at the checkpoint finds, when no operation is deferred for it: `none` if it finds
no key, and else the value as the pickler reads it. -/
def WorkingSet.shownValue (pickler : XPickler) (ws : WorkingSet) (chkptId : ℕ) (key : KeyBytes) :
    Option (Option pickler.Obj) :=
  match getOpPerform ws ∅ chkptId key with
  | .ok (some (some valList)) => some (pickler.loads (valueToBytes valList))
  | _ => none

/-- The integers that `XPickler` can write. -/
def IsInt32 (value : ℤ) : Prop := -2147483648 ≤ value ∧ value < 2147483648

/-- The attempt answers the old value (zero for a key that is absent) and leaves the sum to be seen;
or pool memory is lacking, it fails and leaves the old value to be seen. -/
def Outcome.FetchAdds (outcome : Outcome) (fault : MemoryFault) (ws : WorkingSet) (tag chkptId : ℕ)
    (key : KeyBytes) (fetchAddVal : ℤ) (old : Option ℤ) : Prop :=
  (∃ valList, outcome.answers = [valueAnswer tag (some valList)] ∧
    XPickler.scalars.loads (valueToBytes valList) = some (.inl (old.getD 0)) ∧
    outcome.workingSet.shownValue XPickler.scalars chkptId key
      = some (some (.inl (old.getD 0 + fetchAddVal)))) ∨
  fault ≠ .none ∧ outcome.result = .raised ∧
    outcome.workingSet.shownValue XPickler.scalars chkptId key
      = ws.shownValue XPickler.scalars chkptId key

/-- The key is in the map of the checkpoint itself or counts for zero, and the sum can be written;
or memory is lacking where nothing has been stored or freed yet. -/
def MemoryFault.Spares (fault : MemoryFault) (chkpt : Checkpoint) (key : KeyBytes)
    (fetchAddVal : ℤ) (old : Option ℤ) : Prop :=
  match fault with
  | .none => (key ∈ chkpt.map ∨ old.getD 0 = 0) ∧ IsInt32 (old.getD 0 + fetchAddVal)
  | .key => key ∈ chkpt.map → IsInt32 (old.getD 0 + fetchAddVal)
  | .zero => key ∈ chkpt.map → IsInt32 (old.getD 0 + fetchAddVal)
  | .answer => key ∈ chkpt.map ∨ old = some 0
  | .sum => False

section FetchAdd

variable {size : ℕ} {waitForKeys : Bool} {pickler : XPickler} {ws ws1 ws' : WorkingSet}
  {chkpt : Checkpoint} {c tag clientId : ℕ} {key : KeyBytes} {fetchAddVal : ℤ} {old : Option ℤ}

/-! ## Integers as bytes -/

theorem loads_dumps {value : ℤ} {bytes : List UInt8}
    (hdumps : XPickler.scalars.dumps (.inl value) = some bytes) :
    XPickler.scalars.loads bytes = some (.inl value) := by
  simp only [XPickler.scalars] at hdumps
  split at hdumps
  · rename_i hrange
    cases hdumps
    have hbound : (value % 4294967296).toNat < 4294967296 := by omega
    have hvalue : ((value % 4294967296).toNat : ℤ) = value % 4294967296 := by omega
    generalize (value % 4294967296).toNat = n at hbound hvalue
    simp only [XPickler.scalars, UInt8.toNat_ofNat']
    have hsum : n % 2 ^ 8 + 256 * (n / 256 % 2 ^ 8) + 65536 * (n / 65536 % 2 ^ 8)
        + 16777216 * (n / 16777216 % 2 ^ 8) = n := by omega
    rw [hsum]
    congr 2
    split <;> omega
  · cases hdumps

theorem dumps_isSome_iff (value : ℤ) :
    (XPickler.scalars.dumps (.inl value)).isSome ↔ IsInt32 value := by
  simp only [XPickler.scalars, IsInt32]
  split
  · rename_i hrange
    exact iff_of_true rfl hrange
  · rename_i hrange
    exact iff_of_false nofun hrange

/-! ## What is seen -/

/-- Without `wait_for_keys` the value that is seen is the one that `WorkingSet.get` finds. -/
theorem WindowInv.shownValue_eq (h : WindowInv size waitForKeys ws) (pickler : XPickler) (c : ℕ)
    (key : KeyBytes) :
    ws.shownValue pickler c key
      = (foundValue ws ∅ key c).map fun valList => pickler.loads (valueToBytes valList) := by
  unfold WorkingSet.shownValue getOpPerform foundValue
  cases hget : ws.get ∅ key c with
  | error e => rfl
  | ok found =>
    cases found with
    | none => rfl
    | some chkpt =>
      obtain ⟨-, i, -, hlookup⟩ := get_lookup hget
      simp only [(h.sound i chkpt hlookup).containsKey_eq]
      cases hkey : chkpt.map.lookup key with
      | none =>
        rw [decide_eq_false (AList.lookup_eq_none.mp hkey)]
        rfl
      | some valList =>
        rw [decide_eq_true (AList.lookup_isSome.mp (by rw [hkey]; rfl))]
        rfl

theorem WindowInv.foundValue_of_mem (h : WindowInv size waitForKeys ws)
    (hlookup : ws.chkpts.lookup c = some chkpt) (hkey : key ∈ chkpt.map) :
    foundValue ws ∅ key c = chkpt.map.lookup key := by
  unfold foundValue
  rw [h.get_of_mem ∅ hlookup hkey]

theorem WindowInv.foundValue_changed (h : WindowInv size waitForKeys ws')
    {view : KeyBytes → KeyView} (hat : ChangesAt ws1 ws' c view) {valList : ValList}
    (hvalue : (view key).value = some valList) : foundValue ws' ∅ key c = some valList := by
  have hview := hat.view_eq key c
  rw [if_pos rfl] at hview
  cases hlookup : ws'.chkpts.lookup c with
  | none =>
    unfold keyViewAt at hview
    rw [hlookup] at hview
    cases hview
  | some chkpt =>
    rw [keyViewAt_of_lookup hlookup, Option.some.injEq] at hview
    have hkey : chkpt.map.lookup key = some valList := by
      rw [← hvalue, ← hview]
      rfl
    rw [h.foundValue_of_mem hlookup (AList.lookup_isSome.mp (by rw [hkey]; rfl)), hkey]

theorem Advances.foundValue_eq (hadv : Advances ws ws') :
    WindowInv size false ws → ws'.oldestChkptId ≤ c →
      foundValue ws' ∅ key c = foundValue ws ∅ key c ∧ ws.oldestChkptId ≤ ws'.oldestChkptId := by
  induction hadv with
  | refl ws => exact fun _ _ => ⟨rfl, le_rfl⟩
  | step hrun hrest ih =>
    intro h hold
    rcases h.advance_cases with hrefuse | ⟨ws2, parent, child, hrun', hadv⟩
    · rw [hrefuse] at hrun
      cases hrun
    · rw [hrun'] at hrun
      cases hrun
      have h2 := h.advanced hadv
      obtain ⟨hfound, hle⟩ := ih h2 hold
      have hnext := hadv.nextId_eq
      have holdest := h.oldest_eq
      have holdest2 := h2.oldest_eq
      have hsize := h.size_le
      rw [hfound, h.foundValue_advanced hadv ∅ key (by omega)
        (Or.inr ⟨Finset.notMem_empty c, rfl⟩)]
      exact ⟨rfl, by omega⟩

theorem WindowInv.foundValue_persist (h : WindowInv size false ws)
    (hlookup : ws.chkpts.lookup c = some chkpt) (keys : Finset KeyBytes)
    (h' : WindowInv size false (ws.setChkpt c { chkpt with persist := keys })) :
    foundValue (ws.setChkpt c { chkpt with persist := keys }) ∅ key c = foundValue ws ∅ key c := by
  have hmem : c ∈ ws.chkpts := AList.lookup_isSome.mp (by rw [hlookup]; rfl)
  obtain ⟨hfirst, hlast⟩ := (h.mem_iff c).mp hmem
  have holdest := h.oldest_eq
  have hnewest := h.newest_eq
  have hnewest' := h'.newest_eq
  have hnext : (ws.setChkpt c { chkpt with persist := keys }).nextId = ws.nextId := rfl
  have hold : (ws.setChkpt c { chkpt with persist := keys }).oldestChkptId = ws.oldestChkptId := rfl
  rw [h'.foundValue_eq ∅ key (by omega) (Or.inl (by omega)),
    h.foundValue_eq ∅ key (by omega) (Or.inl (by omega))]
  unfold stackIds
  rw [hold, hnewest', hnext, ← hnewest]
  congr 1
  apply List.map_congr_left
  intro i _
  unfold said
  show ((ws.chkpts.insert c _).lookup i).bind _ = _
  by_cases hi : i = c
  · rw [hi, AList.lookup_insert, hlookup]
    show Checkpoint.tells _ ws.waitForKeys key c = Checkpoint.tells _ ws.waitForKeys key c
    rw [h.waitForKeys_eq]
    unfold Checkpoint.tells
    simp
  · rw [AList.lookup_insert_ne hi]
    rfl

/-! ## The attempt -/

/-- The checkpoint of the put is one of the window, and what is seen there is what was seen. -/
theorem WindowInv.accepted (h : WindowInv size false ws) (hput : ws.put c = .ok (some chkpt, ws1))
    (key : KeyBytes) :
    WindowInv size false ws1 ∧ ws1.chkpts.lookup c = some chkpt ∧
      foundValue ws1 ∅ key c = foundValue ws ∅ key c := by
  rcases h.put_cases c with ⟨-, hrun⟩ | ⟨-, ws2, hadv, hrun, -⟩
  · rw [hput] at hrun
    cases hrun
  · rw [hput, Except.ok.injEq, Prod.mk.injEq] at hrun
    obtain ⟨hlookup, rfl⟩ := hrun
    have h1 := h.advances hadv
    have hmem := (h1.mem_iff c).mp (AList.lookup_isSome.mp (by rw [← hlookup]; rfl))
    rw [← h1.oldest_eq] at hmem
    exact ⟨h1, hlookup.symm, (hadv.foundValue_eq h hmem.1).1⟩

theorem mem_fetchAddStart (pickler : XPickler) (chkpt : Checkpoint) (key : KeyBytes) :
    key ∈ (chkpt.fetchAddStart pickler key).map := by
  unfold Checkpoint.fetchAddStart
  by_cases hkey : key ∈ chkpt.map
  · rw [if_pos hkey]
    exact hkey
  · rw [if_neg hkey]
    exact (AList.mem_insert _).mpr (Or.inl rfl)

/-- The working set when the answer is sent. -/
theorem WindowInv.started (h : WindowInv size waitForKeys ws1)
    (hlookup : ws1.chkpts.lookup c = some chkpt) (pickler : XPickler) (key : KeyBytes) :
    WindowInv size waitForKeys (ws1.setChkpt c (chkpt.fetchAddStart pickler key)) :=
  h.setChkpt (AList.lookup_isSome.mp (by rw [hlookup]; rfl))
    ((h.sound c chkpt hlookup).fetchAddStart pickler key)

/-- Replacing the value, also after the checkpoints of the writer have been updated. -/
theorem WindowInv.foundValue_setValue (h : WindowInv size waitForKeys ws)
    (hlookup : ws.chkpts.lookup c = some chkpt) (hkey : key ∈ chkpt.map) (clientId : ℕ)
    (valList : ValList) :
    WindowInv size waitForKeys ((ws.updateWriterCheckpoint clientId c).setValue c key valList) ∧
      foundValue ((ws.updateWriterCheckpoint clientId c).setValue c key valList) ∅ key c
        = some valList := by
  have hwriter := h.updateWriterCheckpoint clientId c
  have hview := (sameKeys_updateWriterCheckpoint ws clientId c).view_eq key c
  rw [keyViewAt_of_lookup hlookup] at hview
  have hset : WindowInv size waitForKeys
      ((ws.updateWriterCheckpoint clientId c).setValue c key valList) := by
    refine hwriter.setValue ?_
    intro chkpt' hlookup'
    rw [keyViewAt_of_lookup hlookup', Option.some.injEq] at hview
    refine (hwriter.sound c chkpt' hlookup').allocs key ?_
    rw [← AList.lookup_isSome] at hkey ⊢
    exact (congrArg (fun view => view.value.isSome) hview).trans hkey
  have hsame := sameKeys_updateWriterCheckpoint ws clientId c
  have hat : ChangesAt ws (ws.updateWriterCheckpoint clientId c) c chkpt.keyView := by
    refine ⟨hsame.nextId_eq, hsame.size_eq, ?_⟩
    intro k i
    rw [hsame.view_eq]
    by_cases hi : i = c
    · rw [if_pos hi, hi, keyViewAt_of_lookup hlookup]
    · rw [if_neg hi]
  refine ⟨hset, hset.foundValue_changed (changesAt_setValue hat key valList) ?_⟩
  rw [if_pos rfl]

/-- How the attempt ends after its answer. -/
def fetchAddEnd (fault : MemoryFault) (ws : WorkingSet) (tag chkptId : ℕ) (key : KeyBytes)
    (oldValueList : ValList) (sum : ℤ) : Outcome :=
  match if fault = .sum then none else XPickler.scalars.dumps (.inl sum) with
  | none =>
    ⟨[valueAnswer tag (some oldValueList), ⟨tag, .failure, .nothing⟩], ws.setValue chkptId key [],
      .raised⟩
  | some bytes =>
    ⟨[valueAnswer tag (some oldValueList)], ws.setValue chkptId key [bytes], .done⟩

/-- The end is right iff there is memory for the sum, it can be written, and the value that was
answered is the old one. -/
theorem WindowInv.fetchAddEnd_iff (h : WindowInv size waitForKeys ws1)
    (hlookup : ws1.chkpts.lookup c = some chkpt) (hkey : key ∈ chkpt.map) (fault : MemoryFault)
    (tag clientId : ℕ) {oldValueList : ValList} {value : ℤ}
    (hloads : XPickler.scalars.loads (valueToBytes oldValueList) = some (.inl value))
    (hshown : ws.shownValue XPickler.scalars c key = old.map fun value => some (.inl value)) :
    (fetchAddEnd fault (ws1.updateWriterCheckpoint clientId c) tag c key oldValueList
      (value + fetchAddVal)).FetchAdds fault ws tag c key fetchAddVal old ↔
    fault ≠ .sum ∧ old.getD 0 = value ∧ IsInt32 (value + fetchAddVal) := by
  unfold fetchAddEnd
  cases hbytes : (if fault = .sum then none else XPickler.scalars.dumps (.inl (value + fetchAddVal)))
    with
  | none =>
    -- the old value is freed, and nothing can be read from what is left
    obtain ⟨hset, hfound⟩ := h.foundValue_setValue hlookup hkey clientId []
    refine iff_of_false ?_ ?_
    · rintro (⟨valList, hanswers, -⟩ | ⟨-, -, hsame⟩)
      · cases hanswers
      · rw [hset.shownValue_eq, hfound, hshown] at hsame
        cases old with
        | none => cases hsame
        | some value => cases hsame
    · rintro ⟨hsum, -, hrange⟩
      rw [if_neg hsum] at hbytes
      rw [← dumps_isSome_iff, hbytes] at hrange
      cases hrange
  | some bytes =>
    obtain ⟨hset, hfound⟩ := h.foundValue_setValue hlookup hkey clientId [bytes]
    have hsum : fault ≠ .sum := by
      rintro rfl
      cases hbytes
    rw [if_neg hsum] at hbytes
    have hread : XPickler.scalars.loads (valueToBytes [bytes])
        = some (.inl (value + fetchAddVal)) := by
      unfold valueToBytes
      rw [List.flatten_singleton]
      exact loads_dumps hbytes
    have hrange : IsInt32 (value + fetchAddVal) := by
      rw [← dumps_isSome_iff, hbytes]
      rfl
    constructor
    · rintro (⟨valList, hanswers, hvalue, -⟩ | ⟨-, hraised, -⟩)
      · cases hanswers
        rw [hloads] at hvalue
        cases hvalue
        exact ⟨hsum, rfl, hrange⟩
      · cases hraised
    · rintro ⟨-, hold, -⟩
      refine Or.inl ⟨oldValueList, rfl, ?_, ?_⟩
      · rw [hloads, hold]
      · rw [hset.shownValue_eq, hfound, hold]
        exact congrArg some hread

/-- An attempt that fails before its answer, and what is seen then. -/
theorem fetchAdds_failed (hshown' : ws'.shownValue XPickler.scalars c key
    = ws.shownValue XPickler.scalars c key) {fault : MemoryFault} (hfault : fault ≠ .none) :
    (⟨[⟨tag, .failure, .nothing⟩], ws', .raised⟩ : Outcome).FetchAdds fault ws tag c key fetchAddVal
      old :=
  Or.inr ⟨hfault, rfl, hshown'⟩

/-- **The key is in the map of the checkpoint.** -/
theorem WindowInv.fetchAdds_mem_iff (h : WindowInv size false ws)
    (hput : ws.put c = .ok (some chkpt, ws1)) (hkey : key ∈ chkpt.map) (fault : MemoryFault)
    (tag clientId : ℕ)
    (hshown : ws.shownValue XPickler.scalars c key = old.map fun value => some (.inl value)) :
    (fetchAddAttempt XPickler.scalars fault ws tag clientId c key fetchAddVal).FetchAdds fault ws tag c
      key fetchAddVal old ↔ fault.Spares chkpt key fetchAddVal old := by
  obtain ⟨h1, hlookup, hfound⟩ := h.accepted hput key
  rw [h1.foundValue_of_mem hlookup hkey] at hfound
  obtain ⟨valList, hvalList⟩ := Option.isSome_iff_exists.mp (AList.lookup_isSome.mpr hkey)
  have hold := hshown
  rw [h.shownValue_eq, ← hfound, hvalList] at hold
  cases old with
  | none => cases hold
  | some value =>
    have hloads : XPickler.scalars.loads (valueToBytes valList) = some (.inl value) :=
      Option.some.inj hold
    have hstart : chkpt.fetchAddStart XPickler.scalars key = chkpt := if_pos hkey
    have hstarted := h1.started hlookup XPickler.scalars key
    rw [hstart] at hstarted
    have hlookup' : (ws1.setChkpt c chkpt).chkpts.lookup c = some chkpt :=
      AList.lookup_insert ws1.chkpts
    have hattempt : fetchAddAttempt XPickler.scalars fault ws tag clientId c key fetchAddVal =
        if fault = .answer then
          ⟨[⟨tag, .failure, .nothing⟩], ws1.setChkpt c chkpt, .raised⟩
        else fetchAddEnd fault ((ws1.setChkpt c chkpt).updateWriterCheckpoint clientId c) tag c key
          valList (value + fetchAddVal) := by
      unfold fetchAddAttempt
      simp only [hput, (h1.sound c chkpt hlookup).containsKey_eq, decide_eq_true hkey, if_true,
        hvalList, Option.getD_some, hloads, Bool.not_true, Bool.false_and, Bool.false_eq_true,
        if_false, hstart]
      rfl
    rw [hattempt]
    by_cases hanswer : fault = .answer
    · rw [if_pos hanswer]
      subst hanswer
      refine iff_of_true (fetchAdds_failed ?_ nofun) (Or.inl hkey)
      rw [hstarted.shownValue_eq, hstarted.foundValue_of_mem hlookup' hkey, h.shownValue_eq, hfound]
    · rw [if_neg hanswer, hstarted.fetchAddEnd_iff hlookup' hkey fault tag clientId hloads hshown]
      cases fault with
      | none =>
        exact ⟨fun hright => ⟨Or.inl hkey, hright.2.2⟩, fun hspares => ⟨nofun, rfl, hspares.2⟩⟩
      | key => exact ⟨fun hright _ => hright.2.2, fun hspares => ⟨nofun, rfl, hspares hkey⟩⟩
      | zero => exact ⟨fun hright _ => hright.2.2, fun hspares => ⟨nofun, rfl, hspares hkey⟩⟩
      | answer => exact absurd rfl hanswer
      | sum => exact iff_of_false (fun hright => hright.1 rfl) id

/-- **It is not**: the operation starts with zero. -/
theorem WindowInv.fetchAdds_notMem_iff (h : WindowInv size false ws)
    (hput : ws.put c = .ok (some chkpt, ws1)) (hkey : key ∉ chkpt.map) (fault : MemoryFault)
    (tag clientId : ℕ)
    (hshown : ws.shownValue XPickler.scalars c key = old.map fun value => some (.inl value)) :
    (fetchAddAttempt XPickler.scalars fault ws tag clientId c key fetchAddVal).FetchAdds fault ws tag c
      key fetchAddVal old ↔ fault.Spares chkpt key fetchAddVal old := by
  obtain ⟨h1, hlookup, hfound⟩ := h.accepted hput key
  have hsame : ws1.shownValue XPickler.scalars c key = ws.shownValue XPickler.scalars c key := by
    rw [h1.shownValue_eq, h.shownValue_eq, hfound]
  have hmem := mem_fetchAddStart XPickler.scalars chkpt key
  have hstarted := h1.started hlookup XPickler.scalars key
  have hlookup' : (ws1.setChkpt c (chkpt.fetchAddStart XPickler.scalars key)).chkpts.lookup c
      = some (chkpt.fetchAddStart XPickler.scalars key) := AList.lookup_insert ws1.chkpts
  have hzero : (chkpt.fetchAddStart XPickler.scalars key).map.lookup key
      = some [XPickler.scalars.zeroBytes] := by
    unfold Checkpoint.fetchAddStart
    rw [if_neg hkey]
    exact AList.lookup_insert chkpt.map
  have hloads : XPickler.scalars.loads (valueToBytes [XPickler.scalars.zeroBytes])
      = some (.inl 0) := rfl
  have hadd : XPickler.scalars.add XPickler.scalars.zero fetchAddVal = some (.inl (0 + fetchAddVal)) :=
    rfl
  have hattempt : fetchAddAttempt XPickler.scalars fault ws tag clientId c key fetchAddVal =
      if fault = .key then ⟨[⟨tag, .failure, .nothing⟩], ws1, .raised⟩
      else if fault = .zero then
        ⟨[⟨tag, .failure, .nothing⟩],
          ws1.setChkpt c { chkpt with persist := insert key chkpt.persist }, .raised⟩
      else if fault = .answer then
        ⟨[⟨tag, .failure, .nothing⟩],
          ws1.setChkpt c (chkpt.fetchAddStart XPickler.scalars key), .raised⟩
      else fetchAddEnd fault ((ws1.setChkpt c
          (chkpt.fetchAddStart XPickler.scalars key)).updateWriterCheckpoint clientId c) tag c key
        [XPickler.scalars.zeroBytes] (0 + fetchAddVal) := by
    unfold fetchAddAttempt
    simp only [hput, (h1.sound c chkpt hlookup).containsKey_eq, decide_eq_false hkey, if_false,
      Bool.false_eq_true, Bool.not_false, Bool.true_and, decide_eq_true_eq, hzero, Option.getD_some,
      hadd]
    rfl
  rw [hattempt]
  cases fault with
  | key => exact iff_of_true (fetchAdds_failed hsame nofun) fun hin => absurd hin hkey
  | zero =>
    refine iff_of_true (fetchAdds_failed ?_ nofun) fun hin => absurd hin hkey
    have h' : WindowInv size false
        (ws1.setChkpt c { chkpt with persist := insert key chkpt.persist }) := by
      have hsound := h1.sound c chkpt hlookup
      exact h1.setChkpt (AList.lookup_isSome.mp (by rw [hlookup]; rfl))
        ⟨hsound.id_eq, hsound.allocs⟩
    rw [h'.shownValue_eq, h1.foundValue_persist hlookup _ h', ← h1.shownValue_eq, hsame]
  | answer =>
    have hshown' : (ws1.setChkpt c (chkpt.fetchAddStart XPickler.scalars key)).shownValue
        XPickler.scalars c key = some (some (.inl 0)) := by
      rw [hstarted.shownValue_eq, hstarted.foundValue_of_mem hlookup' hmem, hzero]
      rfl
    constructor
    · rintro (⟨valList, hanswers, -⟩ | ⟨-, -, hsee⟩)
      · cases hanswers
      · right
        rw [hshown] at hsee
        have hsee' := hshown'.symm.trans hsee
        cases old with
        | none => cases hsee'
        | some value =>
          cases hsee'
          rfl
    · rintro (hin | rfl)
      · exact absurd hin hkey
      · refine fetchAdds_failed ?_ nofun
        rw [hshown', hshown]
        rfl
  | none =>
    refine (hstarted.fetchAddEnd_iff hlookup' hmem .none tag clientId hloads hshown).trans ?_
    constructor
    · rintro ⟨-, hold, hrange⟩
      refine ⟨Or.inr hold, ?_⟩
      rw [hold]
      exact hrange
    · rintro ⟨hin | hold, hrange⟩
      · exact absurd hin hkey
      · rw [hold] at hrange
        exact ⟨nofun, hold, hrange⟩
  | sum =>
    refine (hstarted.fetchAddEnd_iff hlookup' hmem .sum tag clientId hloads hshown).trans ?_
    exact iff_of_false (fun hright => hright.1 rfl) id

/-! ## With the memory of the keys -/

section Memory

variable {mem : KeyMemory}

/-- A key of the map of the checkpoint itself is found there first. -/
theorem WindowInv.lookupMeets_of_mem {waitForKeys : Bool} (h : WindowInv size waitForKeys ws)
    (hlookup : ws.chkpts.lookup c = some chkpt) (hkey : key ∈ chkpt.map) :
    mem.lookupMeets ws ∅ key c = mem.allocMeets c key := by
  have hmem : c ∈ ws.chkpts := AList.lookup_isSome.mp (by rw [hlookup]; rfl)
  obtain ⟨hfirst, hlast⟩ := (h.mem_iff c).mp hmem
  have holdest := h.oldest_eq
  have hnewest := h.newest_eq
  have hloop : mem.getMeets ws ∅ key c = false := by
    unfold KeyMemory.getMeets
    split
    · rw [min_eq_left (by omega), show c + 1 - ws.oldestChkptId = c - ws.oldestChkptId + 1 by omega,
        List.range'_1_concat, List.reverse_append, List.reverse_singleton, List.singleton_append,
        show ws.oldestChkptId + (c - ws.oldestChkptId) = c by omega, KeyMemory.getLoopMeets, hlookup]
      exact if_pos hkey
    · rfl
  unfold KeyMemory.lookupMeets
  rw [hloop, h.get_of_mem ∅ hlookup hkey]
  simp [hkey, (h.sound c chkpt hlookup).id_eq]

/-- A reader looks at the maps and the tombstones only. -/
theorem KeyMemory.getLoop_congr {ws' : WorkingSet} {ids : List ℕ} (hkeys : ws.waitForKeys = false)
    (hkeys' : ws'.waitForKeys = false)
    (hids : ∀ i ∈ ids, ∃ chkpt chkpt', ws.chkpts.lookup i = some chkpt ∧
      ws'.chkpts.lookup i = some chkpt' ∧ chkpt'.id = chkpt.id ∧ chkpt'.map = chkpt.map ∧
      chkpt'.deleted = chkpt.deleted) :
    mem.getLoopMeets ws' key ids = mem.getLoopMeets ws key ids ∧
      (ws'.getLoop key c ids = .ok none ∧ ws.getLoop key c ids = .ok none ∨
        ∃ chkpt chkpt', ws.getLoop key c ids = .ok (some (some chkpt)) ∧
          ws'.getLoop key c ids = .ok (some (some chkpt')) ∧ chkpt'.id = chkpt.id ∧
          chkpt'.map = chkpt.map) := by
  induction ids with
  | nil => exact ⟨rfl, Or.inl ⟨rfl, rfl⟩⟩
  | cons i ids ih =>
    obtain ⟨hmeets, hloop⟩ := ih fun j hj => hids j (List.mem_cons_of_mem _ hj)
    obtain ⟨chkpt, chkpt', hlookup, hlookup', hid, hmap, hdeleted⟩ := hids i List.mem_cons_self
    have hnokeys : ¬ (ws.waitForKeys = true ∧ key ∉ chkpt.persist ∧ chkpt.id < c) := by
      rw [hkeys]
      exact fun hwaits => Bool.false_ne_true hwaits.1
    have hnokeys' : ¬ (ws'.waitForKeys = true ∧ key ∉ chkpt'.persist ∧ chkpt'.id < c) := by
      rw [hkeys']
      exact fun hwaits => Bool.false_ne_true hwaits.1
    simp only [getLoopMeets, WorkingSet.getLoop, hlookup, hlookup', if_neg hnokeys, if_neg hnokeys',
      deletedMeets]
    rw [hmap, hdeleted]
    split_ifs
    · exact ⟨rfl, Or.inr ⟨chkpt, chkpt', rfl, rfl, hid, hmap⟩⟩
    · exact ⟨rfl, Or.inr ⟨chkpt, chkpt', rfl, rfl, hid, hmap⟩⟩
    · exact ⟨hmeets, hloop⟩

/-- What a get of the key meets does not depend on the persist marks. -/
theorem WindowInv.lookupMeets_persist (h : WindowInv size false ws)
    (hlookup : ws.chkpts.lookup c = some chkpt) (keys : Finset KeyBytes)
    (h' : WindowInv size false (ws.setChkpt c { chkpt with persist := keys })) :
    mem.lookupMeets (ws.setChkpt c { chkpt with persist := keys }) ∅ key c
      = mem.lookupMeets ws ∅ key c := by
  have hmem : c ∈ ws.chkpts := AList.lookup_isSome.mp (by rw [hlookup]; rfl)
  obtain ⟨hfirst, hlast⟩ := (h.mem_iff c).mp hmem
  have holdest := h.oldest_eq
  have hnewest := h.newest_eq
  have hnewest' := h'.newest_eq
  have hnext : (ws.setChkpt c { chkpt with persist := keys }).nextId = ws.nextId := rfl
  have hold : (ws.setChkpt c { chkpt with persist := keys }).oldestChkptId = ws.oldestChkptId := rfl
  have hlookup' : (ws.setChkpt c { chkpt with persist := keys }).chkpts.lookup c
      = some { chkpt with persist := keys } := AList.lookup_insert ws.chkpts
  have hsame : (ws.setChkpt c { chkpt with persist := keys }).newestChkptId = ws.newestChkptId := by
    rw [hnewest', hnext, hnewest]
  have hids : ∀ i ∈ (List.range' ws.oldestChkptId
      (min c ws.newestChkptId + 1 - ws.oldestChkptId)).reverse, ∃ found found',
      ws.chkpts.lookup i = some found ∧
        (ws.setChkpt c { chkpt with persist := keys }).chkpts.lookup i = some found' ∧
        found'.id = found.id ∧ found'.map = found.map ∧ found'.deleted = found.deleted := by
    intro i hi
    rw [List.mem_reverse, List.mem_range'_1] at hi
    obtain ⟨found, hfound⟩ := h.lookup_of_mem (i := i) (by omega) (by omega)
    by_cases hic : i = c
    · subst hic
      exact ⟨chkpt, _, hlookup, hlookup', rfl, rfl, rfl⟩
    · exact ⟨found, found, hfound, (AList.lookup_insert_ne hic).trans hfound, rfl, rfl, rfl⟩
  obtain ⟨hmeets, hloop⟩ :
      mem.getLoopMeets (ws.setChkpt c { chkpt with persist := keys }) key _ = _ ∧ _ :=
    KeyMemory.getLoop_congr (c := c) h.waitForKeys_eq h'.waitForKeys_eq hids
  have hwaits : ws.getWaits ∅ key c = .ok false := by
    unfold WorkingSet.getWaits
    rw [if_neg (by omega)]
  have hwaits' : (ws.setChkpt c { chkpt with persist := keys }).getWaits ∅ key c = .ok false := by
    unfold WorkingSet.getWaits
    rw [if_neg (by omega)]
  unfold KeyMemory.lookupMeets KeyMemory.getMeets WorkingSet.get
  rw [hold, hsame, hwaits, hwaits']
  simp only [if_neg (show ¬ c < ws.oldestChkptId by omega)]
  rw [hmeets]
  rcases hloop with ⟨hnone', hnone⟩ | ⟨found, found', hfound, hfound', hid, hmap⟩
  · obtain ⟨oldest, holdest⟩ := h.lookup_of_mem (i := ws.oldestChkptId) (by omega) (by omega)
    obtain ⟨oldest', holdest'⟩ := h'.lookup_of_mem (i := ws.oldestChkptId) (by omega) (by omega)
    have hdefault : ws.getDefault key c = .ok (some chkpt) := by
      unfold WorkingSet.getDefault
      simp only [holdest, hlookup, h.waitForKeys_eq, Bool.false_eq_true, false_and, if_false]
    have hdefault' : (ws.setChkpt c { chkpt with persist := keys }).getDefault key c
        = .ok (some { chkpt with persist := keys }) := by
      unfold WorkingSet.getDefault
      rw [hold, holdest', hlookup', h'.waitForKeys_eq]
      simp only [Bool.false_eq_true, false_and, if_false]
    simp only [hnone, hnone', hdefault, hdefault']
  · simp only [hfound, hfound', hid, hmap]

/-- The key is in the map of the checkpoint. -/
def WorkingSet.HasKey (ws : WorkingSet) (key : KeyBytes) (c : ℕ) : Prop :=
  ∃ chkpt, ws.chkpts.lookup c = some chkpt ∧ key ∈ chkpt.map

theorem hasKey_updateWriterCheckpoint (hkey : ws.HasKey key c) (clientId : ℕ) :
    (ws.updateWriterCheckpoint clientId c).HasKey key c := by
  obtain ⟨chkpt, hlookup, hkey⟩ := hkey
  have hview := (sameKeys_updateWriterCheckpoint ws clientId c).view_eq key c
  rw [keyViewAt_of_lookup hlookup] at hview
  cases hlookup' : (ws.updateWriterCheckpoint clientId c).chkpts.lookup c with
  | none =>
    unfold keyViewAt at hview
    rw [hlookup'] at hview
    cases hview
  | some chkpt' =>
    rw [keyViewAt_of_lookup hlookup', Option.some.injEq] at hview
    refine ⟨chkpt', hlookup', AList.lookup_isSome.mp ?_⟩
    exact (congrArg (fun view => view.value.isSome) hview).trans (AList.lookup_isSome.mpr hkey)

theorem hasKey_setValue (hkey : ws.HasKey key c) (valList : ValList) :
    (ws.setValue c key valList).HasKey key c := by
  obtain ⟨chkpt, hlookup, -⟩ := hkey
  unfold WorkingSet.setValue
  rw [hlookup]
  exact ⟨_, AList.lookup_insert _, (AList.mem_insert _).mpr (Or.inl rfl)⟩

/-- An attempt leaves the key in the map of its checkpoint, or has failed before it stored it. -/
theorem WindowInv.fetchAddAttempt_keys (h : WindowInv size false ws)
    (hput : ws.put c = .ok (some chkpt, ws1)) (fault : MemoryFault) (tag clientId : ℕ)
    (fetchAddVal : ℤ) {outcome : Outcome}
    (hrun : outcome = fetchAddAttempt XPickler.scalars fault ws tag clientId c key fetchAddVal) :
    WindowInv size false outcome.workingSet ∧ (outcome.workingSet.HasKey key c ∨
      key ∉ chkpt.map ∧ (outcome.workingSet = ws1 ∨ outcome.workingSet
        = ws1.setChkpt c { chkpt with persist := insert key chkpt.persist })) := by
  obtain ⟨h1, hlookup, -⟩ := h.accepted hput key
  have hstarted := h1.started hlookup XPickler.scalars key
  have hlookup' : (ws1.setChkpt c (chkpt.fetchAddStart XPickler.scalars key)).chkpts.lookup c
      = some (chkpt.fetchAddStart XPickler.scalars key) := AList.lookup_insert ws1.chkpts
  have hmem := mem_fetchAddStart XPickler.scalars chkpt key
  have hsound := h1.sound c chkpt hlookup
  have hkey : (ws1.setChkpt c (chkpt.fetchAddStart XPickler.scalars key)).HasKey key c :=
    ⟨_, hlookup', hmem⟩
  have hwriter := hasKey_updateWriterCheckpoint hkey clientId
  unfold fetchAddAttempt at hrun
  simp only [hput, hsound.containsKey_eq] at hrun
  have hearly : key ∈ chkpt.map → ws1.HasKey key c := fun hin => ⟨chkpt, hlookup, hin⟩
  split at hrun
  · -- the value cannot be read
    rename_i hvalue
    subst hrun
    refine ⟨h1, Or.inl (hearly ?_)⟩
    by_contra hin
    rw [decide_eq_false hin] at hvalue
    cases hvalue
  · split at hrun
    · rename_i hfault
      subst hrun
      rw [Bool.and_eq_true, Bool.not_eq_true', decide_eq_false_iff_not] at hfault
      exact ⟨h1, Or.inr ⟨hfault.1, Or.inl rfl⟩⟩
    split at hrun
    · rename_i hfault
      subst hrun
      rw [Bool.and_eq_true, Bool.not_eq_true', decide_eq_false_iff_not] at hfault
      refine ⟨?_, Or.inr ⟨hfault.1, Or.inr rfl⟩⟩
      exact h1.setChkpt (AList.lookup_isSome.mp (by rw [hlookup]; rfl)) ⟨hsound.id_eq, hsound.allocs⟩
    split at hrun
    · subst hrun
      exact ⟨hstarted, Or.inl hkey⟩
    split at hrun
    · subst hrun
      exact ⟨hstarted.updateWriterCheckpoint clientId c, Or.inl hwriter⟩
    · split at hrun
      · subst hrun
        exact ⟨(hstarted.foundValue_setValue hlookup' hmem clientId _).1,
          Or.inl (hasKey_setValue hwriter _)⟩
      · subst hrun
        exact ⟨(hstarted.foundValue_setValue hlookup' hmem clientId _).1,
          Or.inl (hasKey_setValue hwriter _)⟩

/-- What a get of the key at the checkpoint shows, or `none` if it raises. -/
def KeyMemory.shownValue (mem : KeyMemory) (ws : WorkingSet) (chkptId : ℕ) (key : KeyBytes) :
    Option (Option (Option XPickler.scalars.Obj)) :=
  answer (mem.lookupMeets ws ∅ key chkptId) (ws.shownValue XPickler.scalars chkptId key)

/-- `Outcome.FetchAdds`, where the gets do not raise because they compare freed memory: `shown` is
what the get before showed, and `mem` the memory of the keys afterwards. -/
def Outcome.FetchAddsIn (outcome : Outcome) (fault : MemoryFault) (mem : KeyMemory)
    (shown : Option (Option XPickler.scalars.Obj)) (tag chkptId : ℕ) (key : KeyBytes)
    (fetchAddVal : ℤ) (old : Option ℤ) : Prop :=
  (∃ valList, outcome.answers = [valueAnswer tag (some valList)] ∧
    XPickler.scalars.loads (valueToBytes valList) = some (.inl (old.getD 0)) ∧
    mem.shownValue outcome.workingSet chkptId key
      = some (some (some (.inl (old.getD 0 + fetchAddVal))))) ∨
  fault ≠ .none ∧ outcome.result = .raised ∧
    mem.shownValue outcome.workingSet chkptId key = some shown

/-- No get at the checkpoint of the put, before the operation or after it, compares freed memory. -/
theorem WindowInv.lookupMeets_fetchAdd (h : WindowInv size false ws)
    (hput : ws.put c = .ok (some chkpt, ws1)) (fault : MemoryFault) (tag clientId : ℕ)
    (fetchAddVal : ℤ) (hlive : mem.lookupMeets ws1 ∅ key c = false)
    (halloc : mem.allocMeets c key = false) :
    mem.lookupMeets (fetchAddAttempt XPickler.scalars fault ws tag clientId c key
      fetchAddVal).workingSet ∅ key c = false := by
  obtain ⟨h1, hlookup, -⟩ := h.accepted hput key
  obtain ⟨h', ⟨chkpt', hlookup', hkey⟩ | ⟨-, hsame | hpersist⟩⟩ :=
    h.fetchAddAttempt_keys hput fault tag clientId fetchAddVal rfl
  · rw [h'.lookupMeets_of_mem hlookup' hkey]
    exact halloc
  · rw [hsame]
    exact hlive
  · rw [hpersist] at h' ⊢
    rw [h1.lookupMeets_persist hlookup _ h']
    exact hlive

/-- The memory of the keys when the checkpoint of a `fetch_add` is there. -/
theorem KeyMemory.fetchAdd_eq_some {mem1 : KeyMemory} {tag clientId : ℕ}
    (hput : ws.put c = .ok (some chkpt, ws1)) (hlookup : ws1.chkpts.lookup c = some chkpt)
    (hmem : dictMemory ws mem tag (.fetchAdd clientId c key fetchAddVal) = some mem1) :
    mem1.allocMeets c key = false := by
  obtain ⟨⟨mem2, ws2⟩, hmemput, hfetch⟩ := Option.bind_eq_some_iff.mp hmem
  unfold KeyMemory.put at hmemput
  simp only [hput] at hmemput
  obtain ⟨mem3, -, heq⟩ := Option.map_eq_some_iff.mp hmemput
  cases heq
  unfold KeyMemory.fetchAdd at hfetch
  simp only [hlookup, Option.isSome_some, Bool.true_and] at hfetch
  split at hfetch
  · cases hfetch
  · rename_i hlive
    cases hfetch
    simpa using hlive

end Memory

end FetchAdd

/-- **When `fetch_add` loses no count.**  Without `wait_for_keys`, after any requests and faults
that compare no memory of a key that has been freed, for every checkpoint id that a put accepts and
every key that is absent there or holds an integer, where neither the operation nor a get of the key
at its checkpoint compares such memory: the old value is answered and the sum is seen, or memory is
lacking and the old value is still seen, iff no value of an earlier checkpoint is overlooked, the
sum can be written, and memory is not lacking after the checkpoint has changed. -/
theorem manager_fetch_add_iff (start workingSetSize : ℕ) (hsize : 1 ≤ workingSetSize)
    (waitForWriters : Bool) (requests : List (Request × Faults)) (m : Manager) (mem : KeyMemory)
    (hrun : Manager.memoryRun XPickler.scalars
      (Manager.init start workingSetSize false waitForWriters) KeyMemory.init requests
        = some (m, mem))
    (fault : MemoryFault) (tag clientId chkptId : ℕ) (key : KeyBytes) (fetchAddVal : ℤ)
    (chkpt : Checkpoint) (ws1 : WorkingSet) (mem1 : KeyMemory)
    (hput : m.workingSet.put chkptId = .ok (some chkpt, ws1))
    (hfetch : dictMemory m.workingSet mem tag (.fetchAdd clientId chkptId key fetchAddVal)
      = some mem1)
    (hlive : mem1.lookupMeets ws1 ∅ key chkptId = false) (old : Option ℤ)
    (hshown : mem.shownValue m.workingSet chkptId key
      = some (old.map fun value => some (.inl value))) :
    (fetchAddAttempt XPickler.scalars fault m.workingSet tag clientId chkptId key
        fetchAddVal).FetchAddsIn fault mem1 (old.map fun value => some (.inl value)) tag chkptId key
      fetchAddVal old ↔ fault.Spares chkpt key fetchAddVal old := by
  have h : WindowInv workingSetSize false m.workingSet := by
    rw [show m = _ from Manager.eq_of_memoryRun hrun]
    exact (managerInv_run XPickler.scalars start hsize false waitForWriters requests).ws.window
  obtain ⟨-, hlookup, -⟩ := h.accepted hput key
  have hbefore := (KeyMemory.answer_eq_some.mp hshown).2
  have hafter := h.lookupMeets_fetchAdd hput fault tag clientId fetchAddVal hlive
    (KeyMemory.fetchAdd_eq_some hput hlookup hfetch)
  have hbytes : (fetchAddAttempt XPickler.scalars fault m.workingSet tag clientId chkptId key
      fetchAddVal).FetchAdds fault m.workingSet tag chkptId key fetchAddVal old ↔
      fault.Spares chkpt key fetchAddVal old := by
    by_cases hkey : key ∈ chkpt.map
    · exact h.fetchAdds_mem_iff hput hkey fault tag clientId hbefore
    · exact h.fetchAdds_notMem_iff hput hkey fault tag clientId hbefore
  rw [← hbytes]
  unfold Outcome.FetchAddsIn Outcome.FetchAdds KeyMemory.shownValue
  simp only [hafter, KeyMemory.answer_eq_some, true_and, hbefore]

/-- Two counts at one checkpoint. -/
theorem manager_fetch_add_twice :
    ∃ m mem mem1, Manager.memoryRun XPickler.scalars (Manager.init 0 2 false false)
        KeyMemory.init [(Request.fetchAdd 7 1 [1] 5, Faults.none)] = some (m, mem) ∧
      dictMemory m.workingSet mem 1 (.fetchAdd 8 1 [1] 3) = some mem1 ∧
      (fetchAddAttempt XPickler.scalars .none m.workingSet 1 8 1 [1] 3).FetchAddsIn .none mem1
        (some (some (.inl 5))) 1 1 [1] 3 (some 5) := by
  refine ⟨_, _, _, rfl, rfl, ?_⟩
  have hiff := manager_fetch_add_iff 0 2 (by decide) false
    [(Request.fetchAdd 7 1 [1] 5, Faults.none)] _ _ rfl .none 1 8 1 [1] 3 _ _ _ rfl rfl
    (by decide +kernel) (some 5) rfl
  exact hiff.mpr ⟨Or.inl (by decide +kernel), by decide, by decide⟩

/-- The count of checkpoint `0` is lost at checkpoint `1`. -/
theorem not_manager_fetch_add :
    ¬ ∀ (start workingSetSize : ℕ) (waitForWriters : Bool) (requests : List (Request × Faults))
      (m : Manager) (mem mem1 : KeyMemory) (fault : MemoryFault) (tag clientId chkptId : ℕ)
      (key : KeyBytes) (fetchAddVal : ℤ) (chkpt : Checkpoint) (ws1 : WorkingSet) (old : Option ℤ),
      1 ≤ workingSetSize →
      Manager.memoryRun XPickler.scalars (Manager.init start workingSetSize false waitForWriters)
        KeyMemory.init requests = some (m, mem) →
      m.workingSet.put chkptId = .ok (some chkpt, ws1) →
      dictMemory m.workingSet mem tag (.fetchAdd clientId chkptId key fetchAddVal) = some mem1 →
      (mem.shownValue m.workingSet chkptId key = some (old.map fun value => some (.inl value))) →
      (fetchAddAttempt XPickler.scalars fault m.workingSet tag clientId chkptId key
        fetchAddVal).FetchAddsIn fault mem1 (old.map fun value => some (.inl value)) tag chkptId key
        fetchAddVal old := by
  intro h
  rcases h 0 2 false [(Request.fetchAdd 7 0 [1] 5, Faults.none)] _ _ _ .none 1 8 1 [1] 3 _ _ (some 5)
    (by decide) rfl rfl rfl rfl with ⟨valList, hanswers, hloads, -⟩ | ⟨hfault, -⟩
  · have hzero : [valueAnswer 1 (some [XPickler.scalars.zeroBytes])]
        = [valueAnswer 1 (some valList)] := hanswers
    cases hzero
    cases hloads
  · exact hfault rfl
