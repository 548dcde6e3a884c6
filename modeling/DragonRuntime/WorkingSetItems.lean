/-
# Items, values and `get`

`_items` lays the checkpoints of the window one over the other, from the oldest on, as `keys` does.
What it does with a tombstone is not what it means to do: a dictionary has no method `remove`, so a
tombstone of a key that it has met raises.  Where no tombstone is hit, the items are what `get`
finds (`itemsAgree_iff`).
-/
import DragonRuntime.ManagerAnswers

open Overlay WorkingSet

/-- `WorkingSet.values`. -/
def WorkingSet.values (ws : WorkingSet) (chkptId : ℕ) : Except DDictError (List ValList) :=
  (ws.items chkptId).map fun items => items.entries.map fun item => item.2

/-- `items` returns one entry for each of the `keys`, with the value list that `get` finds, and
`values` returns these value lists. -/
def ItemsAgree (ws : WorkingSet) (deferredOps : Finset ℕ) (chkptId : ℕ) : Prop :=
  ∃ keys items values, ws.keys chkptId = .ok keys ∧ ws.items chkptId = .ok items ∧
    ws.values chkptId = .ok values ∧ items.keys.Nodup ∧ (∀ key, key ∈ items.keys ↔ key ∈ keys) ∧
    (∀ key ∈ items.keys, ∃ chkpt, ws.get deferredOps key chkptId = .ok (some chkpt) ∧
      (chkpt.map.lookup key).isSome ∧ items.lookup key = chkpt.map.lookup key) ∧
    List.Forall₂ (fun key valList => items.lookup key = some valList) items.keys values

/-- `get` does not wait for the keys of the window. -/
def NoKeyWaits (ws : WorkingSet) (deferredOps : Finset ℕ) (chkptId : ℕ) : Prop :=
  ws.newestChkptId < chkptId → chkptId ∈ deferredOps → ∀ key i,
    (viewAt ws key i).value.isSome → (viewAt ws key ws.oldestChkptId).persist = true

theorem workingSetInv_calls (pickler : XPickler) (start : ℕ) {size : ℕ} (hsize : 0 < size)
    (waitForKeys waitForWriters : Bool) (calls : List DictCall) :
    WorkingSetInv size waitForKeys (calls.foldl (dictStep pickler)
      (WorkingSet.init start size waitForKeys waitForWriters)) :=
  List.foldlRecOn calls (dictStep pickler)
    ⟨windowInv_init start hsize waitForKeys waitForWriters,
      persistInv_init start size waitForKeys waitForWriters⟩ fun _ h call _ => h.dictStep pickler call

section Items

variable {size : ℕ} {waitForKeys : Bool} {ws : WorkingSet} {c : ℕ} {key : KeyBytes}

/-- The given keys of a checkpoint are laid over the items. -/
theorem lookup_addItems_of_mem (chkpt : Checkpoint) (keys : List KeyBytes)
    (items : Dict KeyBytes ValList) :
    (chkpt.addItems keys items).lookup key =
      if key ∈ keys then (chkpt.map.lookup key).or (items.lookup key) else items.lookup key := by
  unfold Checkpoint.addItems
  induction keys generalizing items with
  | nil => rfl
  | cons k keys ih =>
    rw [List.foldl_cons, ih]
    cases hlookup : chkpt.map.lookup k with
    | none =>
      by_cases hk : key = k
      · subst hk
        rw [if_pos List.mem_cons_self, hlookup]
        split <;> rfl
      · simp only [List.mem_cons, hk, false_or]
    | some valList =>
      by_cases hk : key = k
      · subst hk
        rw [if_pos List.mem_cons_self, hlookup, AList.lookup_insert]
        split <;> rfl
      · simp only [List.mem_cons, hk, false_or]
        rw [AList.lookup_insert_ne hk]

/-- A checkpoint is laid over the items. -/
theorem lookup_addItems (chkpt : Checkpoint) (items : Dict KeyBytes ValList) :
    (chkpt.addItems chkpt.map.keys items).lookup key =
      (chkpt.map.lookup key).or (items.lookup key) := by
  rw [lookup_addItems_of_mem]
  split
  · rfl
  next hkey =>
    rw [AList.lookup_eq_none.mpr hkey]
    rfl

theorem itemsLoop_spec (hkeys : ws.waitForKeys = false) (chkptId : ℕ) {ids : List ℕ} :
    ∀ {items items' : Dict KeyBytes ValList}, ws.itemsLoop ids items = .ok items' →
      (∀ key, items'.lookup key = (ids.map (said ws key chkptId)).foldl cover (items.lookup key)) ∧
      (∀ key ∈ items, ∀ j ∈ ids, (viewAt ws key j).deleted = false) ∧
      ids.Pairwise (fun i j => ∀ key, (viewAt ws key i).value.isSome →
        (viewAt ws key j).deleted = false) ∧
      ∀ key, (key ∈ items ∨ ∃ i ∈ ids, (viewAt ws key i).value.isSome) → key ∈ items' := by
  induction ids with
  | nil =>
    intro items items' hrun
    cases hrun
    refine ⟨fun _ => rfl, fun _ _ j hj => absurd hj List.not_mem_nil, .nil, ?_⟩
    rintro key (hkey | ⟨i, hi, -⟩)
    · exact hkey
    · exact absurd hi List.not_mem_nil
  | cons i ids ih =>
    intro items items' hrun
    rw [itemsLoop] at hrun
    cases hchkpt : ws.chkpts.lookup i with
    | none =>
      rw [hchkpt] at hrun
      cases hrun
    | some chkpt =>
      rw [hchkpt] at hrun
      simp only [hkeys, Bool.false_eq_true, if_false] at hrun
      split at hrun
      · cases hrun
      next hclean =>
      obtain ⟨hlookup, hdeleted, hpairwise, hgrow⟩ := ih hrun
      have hview := fun key => viewAt_of_lookup hchkpt key
      have hhead : ∀ key ∈ items, key ∉ chkpt.deleted := by
        intro key hkey hdel
        refine hclean (List.any_eq_true.mpr ⟨key, AList.mem_keys.mp hkey, ?_⟩)
        exact decide_eq_true hdel
      have hadd : ∀ key, (viewAt ws key i).value.isSome →
          key ∈ chkpt.addItems chkpt.map.keys items := by
        intro key hvalue
        rw [hview] at hvalue
        have hmap : key ∈ chkpt.map := AList.lookup_isSome.mp hvalue
        exact (mem_addItems ..).mpr (.inr ⟨AList.mem_keys.mp hmap, hmap⟩)
      refine ⟨fun key => ?_, fun key hkey j hj => ?_,
        .cons (fun j hj key hvalue => hdeleted key (hadd key hvalue) j hj) hpairwise, ?_⟩
      · rw [hlookup, lookup_addItems, List.map_cons, List.foldl_cons, said_of_lookup hchkpt, hkeys]
        congr 1
        cases hmap : chkpt.map.lookup key with
        | some valList =>
          rw [Checkpoint.tells_of_mem hmap, if_neg (by simp)]
          rfl
        | none =>
          rw [Checkpoint.tells_of_notMem hmap]
          split
          next hdel =>
            -- a tombstone of a key that has not been met
            refine AList.lookup_eq_none.mpr fun hkey => hhead key hkey hdel
          next => rfl
      · rcases List.mem_cons.mp hj with rfl | hj
        · rw [hview]
          exact decide_eq_false (hhead key hkey)
        · exact hdeleted key ((mem_addItems ..).mpr (.inl hkey)) j hj
      · rintro key (hkey | ⟨j, hj, hvalue⟩)
        · exact hgrow key (.inl ((mem_addItems ..).mpr (.inl hkey)))
        · rcases List.mem_cons.mp hj with rfl | hj
          · exact hgrow key (.inl (hadd key hvalue))
          · exact hgrow key (.inr ⟨j, hj, hvalue⟩)

/-- The checkpoint itself is the top of its stack. -/
theorem WindowInv.visible_of_lookup (h : WindowInv size false ws) (hold : ws.oldestChkptId ≤ c)
    {chkpt : Checkpoint} (hchkpt : ws.chkpts.lookup c = some chkpt) {valList : ValList}
    (hlookup : chkpt.map.lookup key = some valList) :
    visible ((stackIds ws c).map (said ws key c)) = some valList := by
  have hpos := h.size_pos
  have hle := h.size_le
  have hnewest := h.newest_eq
  have hwin := (h.mem_iff c).mp (AList.lookup_isSome.mp (by rw [hchkpt]; rfl))
  unfold stackIds
  rw [min_eq_left (by omega), show c + 1 - ws.oldestChkptId = c - ws.oldestChkptId + 1 by omega,
    List.range'_1_concat, List.reverse_append, List.reverse_singleton, List.singleton_append,
    List.map_cons, show ws.oldestChkptId + (c - ws.oldestChkptId) = c by omega,
    said_of_lookup hchkpt, h.waitForKeys_eq, Checkpoint.tells_of_mem hlookup, if_neg (by simp),
    visible_some]

/-- The items that are returned are what is visible in the stack, and no tombstone has been hit. -/
theorem WindowInv.items_spec (h : WindowInv size false ws) (hold : ws.oldestChkptId ≤ c)
    {items : Dict KeyBytes ValList} (hrun : ws.items c = .ok items) :
    (∀ key, items.lookup key = visible ((stackIds ws c).map (said ws key c))) ∧
      ¬ ws.TombstoneHit c ∧ ∀ key i, ws.oldestChkptId ≤ i → i ≤ min c ws.newestChkptId →
        (viewAt ws key i).value.isSome → key ∈ items := by
  unfold WorkingSet.items at hrun
  rw [if_neg (not_lt.mpr hold)] at hrun
  simp only at hrun
  cases hloop : ws.itemsLoop
      (List.range' ws.oldestChkptId (min c ws.newestChkptId + 1 - ws.oldestChkptId)) ∅ with
  | error e =>
    rw [hloop] at hrun
    cases hrun
  | ok found =>
    rw [hloop] at hrun
    obtain ⟨hlookup, -, hpairwise, hgrow⟩ := itemsLoop_spec h.waitForKeys_eq c hloop
    have hfound : ∀ key, found.lookup key = visible ((stackIds ws c).map (said ws key c)) := by
      intro key
      rw [hlookup key, AList.lookup_empty, foldl_cover]
      unfold stackIds
      rw [List.map_reverse]
    have hsame : ∀ key, items.lookup key = found.lookup key := by
      intro key
      simp only at hrun
      cases hchkpt : ws.chkpts.lookup c with
      | none =>
        rw [hchkpt] at hrun
        cases hrun
        rfl
      | some chkpt =>
        rw [hchkpt] at hrun
        cases hrun
        rw [lookup_addItems, hfound]
        cases hmap : chkpt.map.lookup key with
        | none => rfl
        | some valList =>
          rw [h.visible_of_lookup hold hchkpt hmap]
          rfl
    refine ⟨fun key => (hsame key).trans (hfound key), ?_, fun key i hi hi' hvalue => ?_⟩
    · rintro ⟨key, i, j, hi, hij, hj, hshows, hdeleted⟩
      have hlater := List.pairwise_iff_getElem.mp hpairwise (i - ws.oldestChkptId)
        (j - ws.oldestChkptId) (by rw [List.length_range']; omega)
        (by rw [List.length_range']; omega) (by omega)
      rw [List.getElem_range', List.getElem_range', Nat.one_mul, Nat.one_mul,
        Nat.add_sub_cancel' hi, Nat.add_sub_cancel' (by omega)] at hlater
      rw [h.waitForKeys_eq] at hshows
      exact Bool.false_ne_true ((hlater key hshows).symm.trans hdeleted)
    · rw [← AList.lookup_isSome, hsame, AList.lookup_isSome]
      refine hgrow key (.inr ⟨i, ?_, hvalue⟩)
      rw [List.mem_range'_1]
      omega

/-- Where `get` does not wait, the deferred operations make no difference. -/
theorem get_eq_of_ready {deferredOps : Finset ℕ}
    (hwaits : ws.getWaits deferredOps key c = ws.getWaits ∅ key c) :
    ws.get deferredOps key c = ws.get ∅ key c := by
  unfold WorkingSet.get
  rw [hwaits]

/-- `get` finds what is visible, for a key that it does not wait for. -/
theorem WindowInv.get_visible (h : WindowInv size false ws) (hold : ws.oldestChkptId ≤ c)
    {deferredOps : Finset ℕ} (hready : ws.newestChkptId < c → c ∈ deferredOps →
      (viewAt ws key ws.oldestChkptId).persist = true) :
    ∃ chkpt, ws.get deferredOps key c = .ok (some chkpt) ∧
      chkpt.map.lookup key = visible ((stackIds ws c).map (said ws key c)) := by
  have hwaits : ws.getWaits deferredOps key c = ws.getWaits ∅ key c := by
    unfold getWaits
    by_cases hnew : ws.newestChkptId < c
    · rw [if_pos hnew, if_pos hnew]
      cases holdest : ws.chkpts.lookup ws.oldestChkptId with
      | none => rfl
      | some oldest =>
        simp only
        by_cases hdeferred : c ∈ deferredOps
        · have hpersist := hready hnew hdeferred
          rw [viewAt_of_lookup holdest] at hpersist
          have hmem : key ∈ oldest.persist := of_decide_eq_true hpersist
          simp [hmem]
        · simp [hdeferred]
    · rw [if_neg hnew, if_neg hnew]
  obtain ⟨i, chkpt, hget, -, hvisible⟩ := h.get_eq ∅ key hold fun _ => Finset.notMem_empty c
  exact ⟨chkpt, (get_eq_of_ready hwaits).trans hget, hvisible.symm⟩

theorem WindowInv.exists_value_of_visible (h : WindowInv size false ws)
    (hold : ws.oldestChkptId ≤ c)
    (hvisible : (visible ((stackIds ws c).map (said ws key c))).isSome) :
    ∃ i, (viewAt ws key i).value.isSome := by
  rcases h.get_spec ∅ key hold with ⟨-, -, hwhy⟩ | ⟨-, hkeys, -⟩ | ⟨i, chkpt, -, hchkpt, hfound⟩
  · exact absurd hwhy (by simp)
  · cases hkeys
  · rw [hfound] at hvisible
    refine ⟨i, ?_⟩
    rw [viewAt_of_lookup hchkpt]
    exact hvisible

/-- `get` waits for a key that does not persist in the oldest checkpoint. -/
theorem WindowInv.get_waits (h : WindowInv size false ws) (hold : ws.oldestChkptId ≤ c)
    {deferredOps : Finset ℕ} (hnew : ws.newestChkptId < c) (hdeferred : c ∈ deferredOps)
    (hpersist : ¬ (viewAt ws key ws.oldestChkptId).persist = true) :
    ws.get deferredOps key c = .ok none := by
  have hpos := h.size_pos
  have hle := h.size_le
  have holdest := h.oldest_eq
  obtain ⟨oldest, hlookup⟩ := h.lookup_of_mem (i := ws.oldestChkptId) (by omega) (by omega)
  rw [viewAt_of_lookup hlookup] at hpersist
  have hmem : key ∉ oldest.persist := fun hkey => hpersist (decide_eq_true hkey)
  unfold WorkingSet.get getWaits
  rw [if_neg (not_lt.mpr hold), if_pos hnew, hlookup]
  simp [hmem, hdeferred]

theorem forall₂_keys_values (items : Dict KeyBytes ValList) :
    List.Forall₂ (fun key valList => items.lookup key = some valList) items.keys
      (items.entries.map fun item => item.2) := by
  unfold AList.keys List.keys
  rw [List.forall₂_map_left_iff, List.forall₂_map_right_iff, List.forall₂_same]
  intro item hitem
  exact AList.mem_lookup_iff.mpr hitem

/-- **When items and values agree with `get`.** -/
theorem WorkingSetInv.itemsAgree_iff (h : WorkingSetInv size false ws)
    (hold : ws.oldestChkptId ≤ c) (deferredOps : Finset ℕ) :
    ItemsAgree ws deferredOps c ↔ ¬ ws.TombstoneHit c ∧ NoKeyWaits ws deferredOps c := by
  have hpos := h.window.size_pos
  have hle := h.window.size_le
  have holdest := h.window.oldest_eq
  have hnewest := h.window.newest_eq
  constructor
  · rintro ⟨keys, items, values, -, hitems, -, -, -, hfound, -⟩
    obtain ⟨-, hhit, hmem⟩ := h.window.items_spec hold hitems
    refine ⟨hhit, fun hnew hdeferred key i hvalue => ?_⟩
    by_contra hpersist
    have hwindow : ws.oldestChkptId ≤ i ∧ i < ws.nextId := by
      rw [← h.window.keyViewAt_isSome key]
      unfold viewAt at hvalue
      cases hview : keyViewAt ws key i with
      | none =>
        rw [hview] at hvalue
        exact absurd hvalue Bool.false_ne_true
      | some view => rfl
    have hkey := hmem key i hwindow.1 (by omega) hvalue
    obtain ⟨chkpt, hget, -⟩ := hfound key (AList.mem_keys.mp hkey)
    rw [h.window.get_waits hold hnew hdeferred hpersist] at hget
    cases hget
  · rintro ⟨hhit, hready⟩
    obtain ⟨items, hitems⟩ := h.items_ok hold hhit
    obtain ⟨hlookup, -, -⟩ := h.window.items_spec hold hitems
    obtain ⟨keys, hkeys, hvisible⟩ := h.window.keys_spec hold
    have hvalues : ws.values c = .ok (items.entries.map fun item => item.2) := by
      unfold WorkingSet.values
      rw [hitems]
      rfl
    refine ⟨keys, items, _, hkeys, hitems, hvalues, items.keys_nodup, fun key => ?_, fun key hkey => ?_,
      forall₂_keys_values items⟩
    · rw [hvisible, ← hlookup, AList.lookup_isSome, AList.mem_keys]
    · have hsome := AList.lookup_isSome.mpr (AList.mem_keys.mpr hkey)
      rw [hlookup] at hsome
      obtain ⟨i, hvalue⟩ := h.window.exists_value_of_visible hold hsome
      obtain ⟨chkpt, hget, hchkpt⟩ := h.window.get_visible hold fun hnew hdeferred =>
        hready hnew hdeferred key i hvalue
      refine ⟨chkpt, hget, ?_, ?_⟩
      · rw [hchkpt]
        exact hsome
      · rw [hchkpt, hlookup]

/-! ### With the memory of the keys -/

/-- `WorkingSet.items`. -/
def KeyMemory.items (mem : KeyMemory) (ws : WorkingSet) (chkptId : ℕ) :
    Option (Except DDictError (Dict KeyBytes ValList)) :=
  answer (mem.itemsMeets ws chkptId) (ws.items chkptId)

/-- `WorkingSet.values`. -/
def KeyMemory.values (mem : KeyMemory) (ws : WorkingSet) (chkptId : ℕ) :
    Option (Except DDictError (List ValList)) :=
  answer (mem.itemsMeets ws chkptId) (ws.values chkptId)

/-- `ItemsAgree`, where no reader raises because it compares freed memory. -/
def KeyMemory.ItemsAgree (mem : KeyMemory) (ws : WorkingSet) (deferredOps : Finset ℕ)
    (chkptId : ℕ) : Prop :=
  ∃ keys items values, mem.keys ws chkptId = some (.ok keys) ∧
    mem.items ws chkptId = some (.ok items) ∧ mem.values ws chkptId = some (.ok values) ∧
    items.keys.Nodup ∧ (∀ key, key ∈ items.keys ↔ key ∈ keys) ∧
    (∀ key ∈ items.keys, ∃ chkpt, mem.get ws deferredOps key chkptId = some (.ok (some chkpt)) ∧
      (chkpt.map.lookup key).isSome ∧ items.lookup key = chkpt.map.lookup key) ∧
    List.Forall₂ (fun key valList => items.lookup key = some valList) items.keys values

/-- Where `_items` hashes no freed memory, no tombstone of the loop is in freed memory. -/
theorem KeyMemory.deletedMeets_of_items {mem : KeyMemory} (hitems : mem.itemsMeets ws c = false)
    {i : ℕ} (hi : i ∈ List.range' ws.oldestChkptId
      (min c ws.newestChkptId + 1 - ws.oldestChkptId)) {chkpt : Checkpoint}
    (hlookup : ws.chkpts.lookup i = some chkpt) (hkey : key ∈ chkpt.deleted) :
    mem.tombstone i key ≠ .freed := by
  have hlive := List.any_eq_false.mp hitems i hi
  simp only [hlookup, decide_eq_true_eq] at hlive
  exact fun hfreed => hlive ⟨key, hkey, hfreed⟩

theorem KeyMemory.keysLoopMeets_eq {mem : KeyMemory} {ids : List ℕ} (hids : ∀ i ∈ ids,
    ∀ chkpt, ws.chkpts.lookup i = some chkpt → ∀ key ∈ chkpt.deleted, mem.tombstone i key ≠ .freed)
    (keys : Finset KeyBytes) : mem.keysLoopMeets ws ids keys = false := by
  induction ids generalizing keys with
  | nil => rfl
  | cons i ids ih =>
    rw [keysLoopMeets]
    cases hlookup : ws.chkpts.lookup i with
    | none => rfl
    | some chkpt =>
      simp only
      rw [ih fun j hj => hids j (List.mem_cons_of_mem _ hj), Bool.or_false, decide_eq_false_iff_not]
      rintro ⟨key, -, hmeets⟩
      obtain ⟨hdeleted, hfreed⟩ := of_decide_eq_true hmeets
      exact hids i List.mem_cons_self chkpt hlookup key hdeleted hfreed

/-- **When items and values agree with `get`**, with the memory of the keys: `items` hashes every
tombstone, so it raises wherever another reader does. -/
theorem WorkingSetInv.memory_itemsAgree_iff (h : WorkingSetInv size false ws)
    (hold : ws.oldestChkptId ≤ c) (deferredOps : Finset ℕ) (mem : KeyMemory) :
    mem.ItemsAgree ws deferredOps c ↔
      mem.itemsMeets ws c = false ∧ ¬ ws.TombstoneHit c ∧ NoKeyWaits ws deferredOps c := by
  rw [← h.itemsAgree_iff hold]
  constructor
  · rintro ⟨keys, items, values, hkeys, hitems, hvalues, hnodup, hmem, hfound, hall⟩
    refine ⟨(KeyMemory.answer_eq_some.mp hitems).1, keys, items, values,
      (KeyMemory.answer_eq_some.mp hkeys).2, (KeyMemory.answer_eq_some.mp hitems).2,
      (KeyMemory.answer_eq_some.mp hvalues).2, hnodup, hmem, fun key hkey => ?_, hall⟩
    obtain ⟨chkpt, hget, hvalue⟩ := hfound key hkey
    exact ⟨chkpt, (KeyMemory.answer_eq_some.mp hget).2, hvalue⟩
  · rintro ⟨hlive, keys, items, values, hkeys, hitems, hvalues, hnodup, hmem, hfound, hall⟩
    have hkeysMeets : mem.keysMeets ws c = false :=
      KeyMemory.keysLoopMeets_eq (fun i hi chkpt hlookup key hkey =>
        KeyMemory.deletedMeets_of_items hlive hi hlookup hkey) ∅
    refine ⟨keys, items, values, KeyMemory.answer_eq_some.mpr ⟨hkeysMeets, hkeys⟩,
      KeyMemory.answer_eq_some.mpr ⟨hlive, hitems⟩, KeyMemory.answer_eq_some.mpr ⟨hlive, hvalues⟩,
      hnodup, hmem, fun key hkey => ?_, hall⟩
    obtain ⟨chkpt, hget, hvalue⟩ := hfound key hkey
    refine ⟨chkpt, KeyMemory.answer_eq_some.mpr ⟨?_, hget⟩, hvalue⟩
    unfold KeyMemory.getMeets
    split
    · refine KeyMemory.getLoopMeets_eq fun i hi chkpt hlookup hdeleted _ => ?_
      exact KeyMemory.deletedMeets_of_items hlive (List.mem_reverse.mp hi) hlookup hdeleted
    · rfl

end Items

/-- **Items and values.**  Without `wait_for_keys`, after any calls that compare no freed memory and
for every checkpoint id that is not retired: `items` and `values` agree with `keys` and `get` iff no
tombstone of the window is in freed memory, none is hit, and `get` does not wait. -/
theorem workingSet_items_iff (pickler : XPickler) (start workingSetSize : ℕ)
    (hsize : 1 ≤ workingSetSize) (waitForWriters : Bool) (calls : List (ℕ × DictCall))
    (ws : WorkingSet) (mem : KeyMemory)
    (hrun : memoryRun pickler (WorkingSet.init start workingSetSize false waitForWriters)
      KeyMemory.init calls = some (ws, mem))
    (deferredOps : Finset ℕ) (chkptId : ℕ) (hold : ws.oldestChkptId ≤ chkptId) :
    mem.ItemsAgree ws deferredOps chkptId ↔ mem.itemsMeets ws chkptId = false ∧
      ¬ ws.TombstoneHit chkptId ∧ NoKeyWaits ws deferredOps chkptId := by
  have h : WorkingSetInv workingSetSize false ws := by
    rw [show ws = _ from ws_of_memoryRun hrun]
    exact workingSetInv_calls pickler start hsize false waitForWriters _
  exact h.memory_itemsAgree_iff hold deferredOps mem

/-- A key that is put at checkpoint `0` and popped at checkpoint `1`. -/
theorem workingSet_items_iff_popped :
    ∃ ws mem, memoryRun XPickler.scalars (WorkingSet.init 0 2 false false) KeyMemory.init
        [(0, .put 7 0 false [1] [[5]] false), (1, .pop ∅ 7 1 [1])] = some (ws, mem) ∧
      (mem.ItemsAgree ws ∅ 1 ↔ mem.itemsMeets ws 1 = false ∧ ¬ ws.TombstoneHit 1 ∧
        NoKeyWaits ws ∅ 1) :=
  ⟨_, _, rfl, workingSet_items_iff XPickler.scalars 0 2 (by decide) false
    [(0, .put 7 0 false [1] [[5]] false), (1, .pop ∅ 7 1 [1])] _ _ rfl ∅ 1 (by decide +kernel)⟩

/-- `items` raises where the key has been popped. -/
theorem not_itemsAgree_popped :
    ¬ ∀ (pickler : XPickler) (start workingSetSize : ℕ) (waitForWriters : Bool)
      (calls : List (ℕ × DictCall)) (ws : WorkingSet) (mem : KeyMemory) (chkptId : ℕ),
      1 ≤ workingSetSize →
      memoryRun pickler (WorkingSet.init start workingSetSize false waitForWriters) KeyMemory.init
        calls = some (ws, mem) → ws.oldestChkptId ≤ chkptId → mem.ItemsAgree ws ∅ chkptId := by
  intro h
  obtain ⟨keys, items, values, -, hitems, -⟩ := h XPickler.scalars 0 2 false
    [(0, .put 7 0 false [1] [[5]] false), (1, .pop ∅ 7 1 [1])] _ _ 1 (by decide) rfl
    (by decide +kernel)
  cases hitems
