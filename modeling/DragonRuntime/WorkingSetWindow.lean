/-
# The window of checkpoints

The invariant of the working set (`WindowInv`): the ids of the checkpoints are the last
`working_set_size` ids before `next_id`, every checkpoint stands under its own id, and the
keys of its map have their memory.  Every operation keeps it, whatever the ids and the
settings.
-/
import DragonRuntime.WorkingSet

open WorkingSet

/-! ## One checkpoint -/

namespace Checkpoint

/-- The checkpoint stands under its own id, and the keys of its map have their memory. -/
structure Sound (chkpt : Checkpoint) (i : ℕ) : Prop where
  id_eq : chkpt.id = i
  allocs : ∀ key ∈ chkpt.map, key ∈ chkpt.keyAllocs

variable {chkpt chkpt' : Checkpoint} {i : ℕ} {key : KeyBytes}

theorem sound_init (i : ℕ) : (Checkpoint.init i).Sound i :=
  ⟨rfl, fun key hkey => absurd hkey (AList.notMem_empty key)⟩

theorem Sound.containsKey_eq (h : chkpt.Sound i) (key : KeyBytes) :
    chkpt.containsKey key = .ok (decide (key ∈ chkpt.map)) := by
  unfold containsKey
  by_cases hkey : key ∈ chkpt.map
  · rw [if_pos hkey, if_pos (h.allocs key hkey), decide_eq_true hkey]
  · rw [if_neg hkey, decide_eq_false hkey]

theorem Sound.containsKeyAndFree (h : chkpt.Sound i) {found : Bool}
    (hrun : chkpt.containsKeyAndFree key = .ok (found, chkpt')) :
    chkpt'.id = i ∧ chkpt'.map = chkpt.map ∧
      ∀ k, k = key ∨ k ∈ chkpt.map → k ∈ chkpt'.keyAllocs := by
  unfold Checkpoint.containsKeyAndFree at hrun
  split at hrun
  · split at hrun
    · rename_i hmem halloc
      cases hrun
      refine ⟨h.id_eq, rfl, ?_⟩
      rintro k (rfl | hk)
      · exact halloc
      · exact h.allocs k hk
    · cases hrun
  · cases hrun
    refine ⟨h.id_eq, rfl, ?_⟩
    rintro k (rfl | hk)
    · exact Finset.mem_insert_self _ _
    · exact Finset.mem_insert_of_mem (h.allocs k hk)

theorem Sound.store (h : chkpt.Sound i) {found : Bool}
    (hrun : chkpt.containsKeyAndFree key = .ok (found, chkpt')) (clientId : ℕ)
    (valList : ValList) (persist : Bool) :
    (chkpt'.store clientId key valList persist).Sound i := by
  obtain ⟨hid, hmap, hallocs⟩ := h.containsKeyAndFree hrun
  refine ⟨hid, ?_⟩
  intro k hk
  have hk' : k ∈ chkpt'.map.insert key valList := hk
  rw [AList.mem_insert, hmap] at hk'
  exact hallocs k hk'

theorem Sound.clear (h : chkpt.Sound i) : chkpt.clear.Sound i :=
  ⟨h.id_eq, fun key hkey => absurd hkey (AList.notMem_empty key)⟩

theorem Sound.transferOwnership (h : chkpt.Sound i) (key : KeyBytes) :
    (chkpt.transferOwnership key).Sound i := by
  unfold Checkpoint.transferOwnership
  simp only
  split
  · refine ⟨h.id_eq, ?_⟩
    intro k hk
    have hk' : k ∈ chkpt.map.erase key := hk
    rw [AList.mem_erase] at hk'
    exact Finset.mem_erase.mpr ⟨hk'.1, h.allocs k hk'.2⟩
  · refine ⟨h.id_eq, ?_⟩
    intro k hk
    have hk' : k ∈ chkpt.map.erase key := hk
    exact h.allocs k (AList.mem_erase.mp hk').2

/-! ## Inheriting from a checkpoint that retires -/

variable {waitForKeys : Bool} {parent child : Checkpoint}

/-- A key is copied if the parent has it and the child says nothing about it. -/
theorem copyKey_cases (waitForKeys : Bool) (parent child : Checkpoint) (key : KeyBytes) :
    copyKey waitForKeys parent child key = child ∧
      (key ∉ parent.map ∨ key ∈ child.map ∨ key ∈ child.deleted) ∨
    ∃ valList, parent.map.lookup key = some valList ∧ key ∉ child.map ∧ key ∉ child.deleted ∧
      copyKey waitForKeys parent child key =
        { child with
          persist := if waitForKeys then insert key child.persist else child.persist
          map := child.map.insert key valList
          keyAllocs := insert key child.keyAllocs } := by
  unfold copyKey
  cases hparent : parent.map.lookup key with
  | none => exact Or.inl ⟨rfl, Or.inl (AList.lookup_eq_none.mp hparent)⟩
  | some valList =>
    by_cases hcopy : key ∉ child.map ∧ key ∉ child.deleted
    · exact Or.inr ⟨valList, rfl, hcopy.1, hcopy.2, if_pos hcopy⟩
    · refine Or.inl ⟨if_neg hcopy, Or.inr ?_⟩
      by_cases hmap : key ∈ child.map
      · exact Or.inl hmap
      · exact Or.inr (by_contra fun hdel => hcopy ⟨hmap, hdel⟩)

theorem deleted_copyKey (waitForKeys : Bool) (parent child : Checkpoint) (key : KeyBytes) :
    (copyKey waitForKeys parent child key).deleted = child.deleted := by
  rcases copyKey_cases waitForKeys parent child key with ⟨heq, -⟩ | ⟨valList, -, -, -, heq⟩
  · rw [heq]
  · rw [heq]

theorem Sound.copyKey (h : child.Sound i) (waitForKeys : Bool) (parent : Checkpoint)
    (key : KeyBytes) : (copyKey waitForKeys parent child key).Sound i := by
  rcases copyKey_cases waitForKeys parent child key with ⟨heq, -⟩ | ⟨valList, -, -, -, heq⟩
  · rw [heq]
    exact h
  · rw [heq]
    refine ⟨h.id_eq, ?_⟩
    intro k hk
    rcases (AList.mem_insert _).mp hk with rfl | hk
    · exact Finset.mem_insert_self _ _
    · exact Finset.mem_insert_of_mem (h.allocs k hk)

theorem copyKey_of_ne {other : KeyBytes} (hne : key ≠ other) (waitForKeys : Bool)
    (parent child : Checkpoint) :
    (copyKey waitForKeys parent child other).map.lookup key = child.map.lookup key ∧
      (key ∈ (copyKey waitForKeys parent child other).persist ↔ key ∈ child.persist) := by
  rcases copyKey_cases waitForKeys parent child other with ⟨heq, -⟩ | ⟨valList, -, -, -, heq⟩
  · rw [heq]
    exact ⟨rfl, Iff.rfl⟩
  · rw [heq]
    refine ⟨AList.lookup_insert_ne hne, ?_⟩
    cases waitForKeys with
    | false => exact Iff.rfl
    | true => exact Finset.mem_insert.trans (or_iff_right hne)

theorem foldl_copyKey_of_notMem {keys : List KeyBytes} (hkey : key ∉ keys)
    (waitForKeys : Bool) (parent child : Checkpoint) :
    (keys.foldl (copyKey waitForKeys parent) child).map.lookup key = child.map.lookup key ∧
      (key ∈ (keys.foldl (copyKey waitForKeys parent) child).persist ↔ key ∈ child.persist) := by
  induction keys generalizing child with
  | nil => exact ⟨rfl, Iff.rfl⟩
  | cons other keys ih =>
    rw [List.mem_cons, not_or] at hkey
    obtain ⟨hlookup, hpersist⟩ := ih hkey.2 (copyKey waitForKeys parent child other)
    obtain ⟨hlookup', hpersist'⟩ := copyKey_of_ne hkey.1 waitForKeys parent child
    exact ⟨hlookup.trans hlookup', hpersist.trans hpersist'⟩

theorem foldl_copyKey_sound (h : child.Sound i) (waitForKeys : Bool) (parent : Checkpoint)
    (keys : List KeyBytes) : (keys.foldl (Checkpoint.copyKey waitForKeys parent) child).Sound i := by
  induction keys generalizing child with
  | nil => exact h
  | cons key keys ih => exact ih (h.copyKey waitForKeys parent key)

theorem deleted_foldl_copyKey (waitForKeys : Bool) (parent child : Checkpoint)
    (keys : List KeyBytes) :
    (keys.foldl (Checkpoint.copyKey waitForKeys parent) child).deleted = child.deleted := by
  induction keys generalizing child with
  | nil => rfl
  | cons key keys ih => exact (ih _).trans (deleted_copyKey waitForKeys parent child key)

theorem Sound.inherit (h : child.Sound i) (waitForKeys : Bool) (parent : Checkpoint) :
    (Checkpoint.inherit waitForKeys parent child).Sound i := by
  obtain ⟨hid, hallocs⟩ := foldl_copyKey_sound h waitForKeys parent parent.map.keys
  exact ⟨hid, hallocs⟩

/-- The loop reaches every key of the parent once; the other turns do not touch it. -/
theorem inherit_of_mem (waitForKeys : Bool) (child : Checkpoint) (hkey : key ∈ parent.map) :
    ∃ before : Checkpoint, before.map.lookup key = child.map.lookup key ∧
      before.deleted = child.deleted ∧ (key ∈ before.persist ↔ key ∈ child.persist) ∧
      (Checkpoint.inherit waitForKeys parent child).map.lookup key
        = (Checkpoint.copyKey waitForKeys parent before key).map.lookup key ∧
      (key ∈ (Checkpoint.inherit waitForKeys parent child).persist ↔
        key ∈ (Checkpoint.copyKey waitForKeys parent before key).persist) := by
  obtain ⟨first, last, hsplit⟩ := List.append_of_mem (AList.mem_keys.mp hkey)
  have hnodup := parent.map.keys_nodup
  rw [hsplit, List.nodup_append] at hnodup
  obtain ⟨-, hlast, hdisjoint⟩ := hnodup
  have hfirst : key ∉ first := fun hmem => hdisjoint key hmem key List.mem_cons_self rfl
  obtain ⟨hlookup, hpersist⟩ := foldl_copyKey_of_notMem hfirst waitForKeys parent child
  obtain ⟨hlookup', hpersist'⟩ := foldl_copyKey_of_notMem (List.nodup_cons.mp hlast).1 waitForKeys
    parent (Checkpoint.copyKey waitForKeys parent
      (first.foldl (Checkpoint.copyKey waitForKeys parent) child) key)
  refine ⟨first.foldl (Checkpoint.copyKey waitForKeys parent) child, hlookup,
    deleted_foldl_copyKey waitForKeys parent child first, hpersist, ?_, ?_⟩
  · unfold Checkpoint.inherit
    rw [hsplit, List.foldl_append, List.foldl_cons]
    exact hlookup'
  · unfold Checkpoint.inherit
    rw [hsplit, List.foldl_append, List.foldl_cons]
    exact hpersist'

/-- **The map of the child after a retirement**: its own keys, and those of the parent that
it says nothing about. -/
theorem lookup_inherit (waitForKeys : Bool) (parent child : Checkpoint) (key : KeyBytes) :
    (Checkpoint.inherit waitForKeys parent child).map.lookup key
      = if key ∈ child.map then child.map.lookup key
        else if key ∈ child.deleted then none else parent.map.lookup key := by
  by_cases hparent : key ∈ parent.map
  · obtain ⟨before, hlookup, hdeleted, -, hinherit, -⟩ :=
      inherit_of_mem waitForKeys child hparent
    have hmem : key ∈ before.map ↔ key ∈ child.map := by
      rw [← AList.lookup_isSome, hlookup, AList.lookup_isSome]
    rw [hinherit]
    rcases copyKey_cases waitForKeys parent before key with
      ⟨heq, hwhy⟩ | ⟨valList, hval, hmap, hdel, heq⟩
    · rw [heq, hlookup]
      rw [hmem, hdeleted] at hwhy
      by_cases hchild : key ∈ child.map
      · rw [if_pos hchild]
      · rw [if_neg hchild, if_pos ((hwhy.resolve_left (not_not.mpr hparent)).resolve_left hchild)]
        exact AList.lookup_eq_none.mpr hchild
    · rw [heq]
      rw [hmem] at hmap
      rw [hdeleted] at hdel
      rw [if_neg hmap, if_neg hdel, hval]
      exact AList.lookup_insert _
  · have hkeys : key ∉ parent.map.keys := fun hmem => hparent (AList.mem_keys.mpr hmem)
    have hlookup : (Checkpoint.inherit waitForKeys parent child).map.lookup key
        = child.map.lookup key :=
      (foldl_copyKey_of_notMem hkeys waitForKeys parent child).1
    rw [hlookup, AList.lookup_eq_none.mpr hparent, ite_self]
    by_cases hchild : key ∈ child.map
    · rw [if_pos hchild]
    · rw [if_neg hchild]
      exact AList.lookup_eq_none.mpr hchild

/-- A key that is not copied persists after a retirement as before. -/
theorem persist_inherit_of_kept (waitForKeys : Bool)
    (hkept : key ∈ child.map ∨ key ∈ child.deleted ∨ key ∉ parent.map) :
    key ∈ (Checkpoint.inherit waitForKeys parent child).persist ↔ key ∈ child.persist := by
  by_cases hparent : key ∈ parent.map
  · obtain ⟨before, hlookup, hdeleted, hpersist, -, hinherit⟩ :=
      inherit_of_mem waitForKeys child hparent
    rw [hinherit, ← hpersist]
    rcases copyKey_cases waitForKeys parent before key with
      ⟨heq, -⟩ | ⟨valList, -, hmap, hdel, -⟩
    · rw [heq]
    · rw [← AList.lookup_isSome, hlookup, AList.lookup_isSome] at hmap
      rw [hdeleted] at hdel
      rcases hkept with hmem | hmem | hmem
      · exact absurd hmem hmap
      · exact absurd hmem hdel
      · exact absurd hparent hmem
  · have hkeys : key ∉ parent.map.keys := fun hmem => hparent (AList.mem_keys.mpr hmem)
    exact (foldl_copyKey_of_notMem hkeys waitForKeys parent child).2

/-- A key that is copied persists in the child if it did, or with `wait_for_keys`. -/
theorem persist_inherit_of_taken (waitForKeys : Bool) (hparent : key ∈ parent.map)
    (hchild : key ∉ child.map) (hdeleted : key ∉ child.deleted) :
    key ∈ (Checkpoint.inherit waitForKeys parent child).persist ↔
      key ∈ child.persist ∨ waitForKeys = true := by
  obtain ⟨before, hlookup, hdeleted', hpersist, -, hinherit⟩ :=
    inherit_of_mem waitForKeys child hparent
  rw [hinherit, ← hpersist]
  rcases copyKey_cases waitForKeys parent before key with
    ⟨-, hwhy⟩ | ⟨valList, -, -, -, heq⟩
  · rw [← AList.lookup_isSome (s := before.map), hlookup, AList.lookup_isSome, hdeleted'] at hwhy
    rcases hwhy with hmem | hmem | hmem
    · exact absurd hparent hmem
    · exact absurd hmem hchild
    · exact absurd hmem hdeleted
  · rw [heq]
    cases waitForKeys with
    | false => simp
    | true => simp

end Checkpoint

/-! ## The invariant -/

/-- The ids are the last `size` ids before `next_id`, and every checkpoint is sound. -/
structure WindowInv (size : ℕ) (waitForKeys : Bool) (ws : WorkingSet) : Prop where
  size_pos : 0 < size
  size_eq : ws.workingSetSize = size
  size_le : size ≤ ws.nextId
  waitForKeys_eq : ws.waitForKeys = waitForKeys
  mem_iff : ∀ i, i ∈ ws.chkpts ↔ ws.nextId - size ≤ i ∧ i < ws.nextId
  sound : ∀ i chkpt, ws.chkpts.lookup i = some chkpt → chkpt.Sound i

section Invariant

variable {size : ℕ} {waitForKeys : Bool} {ws ws' : WorkingSet}

theorem foldr_max_eq {l : List ℕ} {m : ℕ} (hmem : m ∈ l) (hle : ∀ i ∈ l, i ≤ m) :
    l.foldr max 0 = m := by
  refine le_antisymm ?_ (List.le_max_of_le hmem le_rfl)
  induction l with
  | nil => exact Nat.zero_le m
  | cons i l ih =>
    rw [List.foldr_cons]
    refine max_le (hle i List.mem_cons_self) ?_
    by_cases hml : m ∈ l
    · exact ih hml fun j hj => hle j (List.mem_cons_of_mem _ hj)
    · exact List.max_le_of_forall_le l m fun j hj => hle j (List.mem_cons_of_mem _ hj)

theorem WindowInv.oldest_eq (h : WindowInv size waitForKeys ws) :
    ws.oldestChkptId = ws.nextId - size := by
  unfold oldestChkptId
  rw [h.size_eq]

theorem WindowInv.newest_eq (h : WindowInv size waitForKeys ws) :
    ws.newestChkptId = ws.nextId - 1 := by
  have hpos := h.size_pos
  have hle := h.size_le
  refine foldr_max_eq ?_ ?_
  · exact AList.mem_keys.mp ((h.mem_iff _).mpr ⟨by omega, by omega⟩)
  · intro i hi
    have := ((h.mem_iff i).mp (AList.mem_keys.mpr hi)).2
    omega

theorem WindowInv.length_eq (h : WindowInv size waitForKeys ws) :
    ws.chkpts.keys.length = ws.workingSetSize := by
  have hset : ws.chkpts.keys.toFinset = Finset.Ico (ws.nextId - size) ws.nextId := by
    ext i
    rw [List.mem_toFinset, ← AList.mem_keys, h.mem_iff, Finset.mem_Ico]
  have hle := h.size_le
  rw [h.size_eq, ← List.toFinset_card_of_nodup ws.chkpts.keys_nodup, hset, Nat.card_Ico]
  omega

theorem WindowInv.lookup_of_mem (h : WindowInv size waitForKeys ws) {i : ℕ}
    (hle : ws.nextId - size ≤ i) (hlt : i < ws.nextId) :
    ∃ chkpt, ws.chkpts.lookup i = some chkpt :=
  Option.isSome_iff_exists.mp (AList.lookup_isSome.mpr ((h.mem_iff i).mpr ⟨hle, hlt⟩))

/-- Changing a checkpoint in place. -/
theorem WindowInv.setChkpt (h : WindowInv size waitForKeys ws) {i : ℕ} {chkpt : Checkpoint}
    (hmem : i ∈ ws.chkpts) (hsound : chkpt.Sound i) :
    WindowInv size waitForKeys (ws.setChkpt i chkpt) := by
  refine ⟨h.size_pos, h.size_eq, h.size_le, h.waitForKeys_eq, ?_, ?_⟩
  · intro j
    show j ∈ ws.chkpts.insert i chkpt ↔ ws.nextId - size ≤ j ∧ j < ws.nextId
    rw [AList.mem_insert, ← h.mem_iff j]
    refine or_iff_right_of_imp ?_
    rintro rfl
    exact hmem
  · intro j chkpt' hlookup
    have hlookup' : (ws.chkpts.insert i chkpt).lookup j = some chkpt' := hlookup
    by_cases hji : j = i
    · subst hji
      rw [AList.lookup_insert] at hlookup'
      cases hlookup'
      exact hsound
    · rw [AList.lookup_insert_ne hji] at hlookup'
      exact h.sound j chkpt' hlookup'

/-- The checkpoints right after `WorkingSet.__init__`. -/
theorem lookup_init (start size : ℕ) (waitForKeys waitForWriters : Bool) (i : ℕ) :
    (WorkingSet.init start size waitForKeys waitForWriters).chkpts.lookup i
      = if i ∈ List.range' start size then some (Checkpoint.init i) else none := by
  have hfold : ∀ (ids : List ℕ) (chkpts : Dict ℕ Checkpoint) (i : ℕ),
      (ids.foldl (fun chkpts i => chkpts.insert i (Checkpoint.init i)) chkpts).lookup i
        = if i ∈ ids then some (Checkpoint.init i) else chkpts.lookup i := by
    intro ids
    induction ids with
    | nil => intro chkpts i; simp
    | cons j ids ih =>
      intro chkpts i
      rw [List.foldl_cons, ih]
      by_cases hi : i ∈ ids
      · rw [if_pos hi, if_pos (List.mem_cons_of_mem _ hi)]
      · rw [if_neg hi]
        by_cases hij : i = j
        · subst hij
          rw [AList.lookup_insert, if_pos List.mem_cons_self]
        · rw [AList.lookup_insert_ne hij, if_neg]
          rw [List.mem_cons, not_or]
          exact ⟨hij, hi⟩
  exact hfold _ ∅ i

theorem windowInv_init (start : ℕ) (hsize : 0 < size) (waitForKeys waitForWriters : Bool) :
    WindowInv size waitForKeys (WorkingSet.init start size waitForKeys waitForWriters) := by
  refine ⟨hsize, rfl, Nat.le_add_left _ _, rfl, ?_, ?_⟩
  · intro i
    rw [← AList.lookup_isSome, lookup_init]
    show _ ↔ start + size - size ≤ i ∧ i < start + size
    rw [Nat.add_sub_cancel]
    by_cases hi : i ∈ List.range' start size
    · rw [if_pos hi]
      rw [List.mem_range'_1] at hi
      exact iff_of_true rfl hi
    · rw [if_neg hi]
      rw [List.mem_range'_1] at hi
      exact iff_of_false nofun hi
  · intro i chkpt hchkpt
    rw [lookup_init] at hchkpt
    split at hchkpt
    · cases hchkpt
      exact Checkpoint.sound_init i
    · cases hchkpt

/-! ## Advancing -/

/-- What a successful `WorkingSet.advance` does: `parent` retires into `child`. -/
structure Advanced (ws ws' : WorkingSet) (parent child : Checkpoint) : Prop where
  nextId_eq : ws'.nextId = ws.nextId + 1
  size_eq : ws'.workingSetSize = ws.workingSetSize
  waitForKeys_eq : ws'.waitForKeys = ws.waitForKeys
  parent_eq : ws.chkpts.lookup ws.oldestChkptId = some parent
  child_eq : (ws.chkpts.insert ws.nextId (Checkpoint.init ws.nextId)).lookup
    (ws.oldestChkptId + 1) = some child
  lookup_parent : ws'.chkpts.lookup ws.oldestChkptId = none
  lookup_child : ws'.chkpts.lookup (ws.oldestChkptId + 1)
    = some (Checkpoint.inherit ws.waitForKeys parent child)
  lookup_other : ∀ i, i ≠ ws.oldestChkptId → i ≠ ws.oldestChkptId + 1 →
    ws'.chkpts.lookup i = (ws.chkpts.insert ws.nextId (Checkpoint.init ws.nextId)).lookup i
  persistent : ws.waitForKeys = true → ∀ key ∈ parent.map, key ∉ parent.persist → key ∈ child.map

/-- After the new checkpoint was made, the oldest one has one after it. -/
theorem WindowInv.exists_heir (h : WindowInv size waitForKeys ws) :
    ∃ child, (ws.chkpts.insert ws.nextId (Checkpoint.init ws.nextId)).lookup
      (ws.oldestChkptId + 1) = some child := by
  have hpos := h.size_pos
  have hle := h.size_le
  have hold := h.oldest_eq
  by_cases hone : ws.oldestChkptId + 1 = ws.nextId
  · rw [hone]
    exact ⟨_, AList.lookup_insert _⟩
  · rw [AList.lookup_insert_ne hone]
    exact h.lookup_of_mem (by omega) (by omega)

/-- **`WorkingSet.advance`** refuses, or retires the oldest checkpoint. -/
theorem WindowInv.advance_cases (h : WindowInv size waitForKeys ws) :
    ws.advance = .ok (false, ws) ∨
    ∃ ws' parent child, ws.advance = .ok (true, ws') ∧ Advanced ws ws' parent child := by
  have hpos := h.size_pos
  have hle := h.size_le
  have hold := h.oldest_eq
  obtain ⟨parent, hparent⟩ := h.lookup_of_mem (i := ws.oldestChkptId) (by omega) (by omega)
  have hparent' : (ws.chkpts.insert ws.nextId (Checkpoint.init ws.nextId)).lookup
      ws.oldestChkptId = some parent := by
    rw [AList.lookup_insert_ne (by omega)]
    exact hparent
  obtain ⟨child, hchild⟩ := h.exists_heir
  have hid : parent.id = ws.oldestChkptId := (h.sound _ _ hparent).id_eq
  have hretire : (ws.chkpts.insert ws.nextId (Checkpoint.init ws.nextId)).lookup
      (ws.nextId - ws.workingSetSize) = some parent := hparent'
  have hheir : (ws.chkpts.insert ws.nextId (Checkpoint.init ws.nextId)).lookup
      (ws.nextId - ws.workingSetSize + 1) = some child := hchild
  unfold WorkingSet.advance
  simp only [h.length_eq, if_true, hretire, hheir]
  by_cases hwait : ws.mustWait parent child = true
  · rw [if_pos hwait]
    exact Or.inl rfl
  · rw [if_neg hwait]
    refine Or.inr ⟨_, parent, child, rfl, rfl, rfl, rfl, hparent, hchild, ?_, ?_, ?_, ?_⟩
    · show ((AList.insert _ _ _).erase parent.id).lookup ws.oldestChkptId = none
      rw [hid]
      exact AList.lookup_erase _ _
    · show ((AList.insert _ _ _).erase parent.id).lookup (ws.oldestChkptId + 1) = _
      rw [hid, AList.lookup_erase_ne (Nat.succ_ne_self _)]
      exact AList.lookup_insert _
    · intro i hi hi'
      show ((AList.insert _ _ _).erase parent.id).lookup i = _
      rw [hid, AList.lookup_erase_ne hi]
      exact AList.lookup_insert_ne hi'
    · intro hkeys key hmap hpersist
      -- the test of `advance` leaves no such key outside the child
      by_contra hnot
      refine hwait ?_
      unfold WorkingSet.mustWait
      simp only [hkeys, Bool.true_and]
      refine Bool.or_eq_true_iff.mpr (Or.inl (decide_eq_true ?_))
      refine Finset.card_ne_zero_of_mem (a := key) ?_
      unfold Checkpoint.mapKeys
      simp only [Finset.mem_sdiff, List.mem_toFinset, ← AList.mem_keys]
      exact ⟨⟨hmap, hpersist⟩, fun hin => hnot hin.1.1⟩

theorem WindowInv.advanced (h : WindowInv size waitForKeys ws) {parent child : Checkpoint}
    (hadv : Advanced ws ws' parent child) : WindowInv size waitForKeys ws' := by
  have hpos := h.size_pos
  have hle := h.size_le
  have hold := h.oldest_eq
  have hnext := hadv.nextId_eq
  have hchild : child.Sound (ws.oldestChkptId + 1) := by
    have hlookup := hadv.child_eq
    by_cases hone : ws.oldestChkptId + 1 = ws.nextId
    · rw [hone, AList.lookup_insert] at hlookup
      cases hlookup
      rw [hone]
      exact Checkpoint.sound_init _
    · rw [AList.lookup_insert_ne hone] at hlookup
      exact h.sound _ _ hlookup
  refine ⟨hpos, hadv.size_eq.trans h.size_eq, by omega,
    hadv.waitForKeys_eq.trans h.waitForKeys_eq, ?_, ?_⟩
  · intro i
    rw [← AList.lookup_isSome]
    by_cases hi : i = ws.oldestChkptId
    · rw [hi, hadv.lookup_parent]
      exact iff_of_false nofun (by omega)
    · by_cases hi' : i = ws.oldestChkptId + 1
      · rw [hi', hadv.lookup_child]
        exact iff_of_true rfl (by omega)
      · rw [hadv.lookup_other i hi hi', AList.lookup_isSome, AList.mem_insert, h.mem_iff]
        omega
  · intro i chkpt hlookup
    by_cases hi : i = ws.oldestChkptId
    · rw [hi, hadv.lookup_parent] at hlookup
      cases hlookup
    · by_cases hi' : i = ws.oldestChkptId + 1
      · rw [hi', hadv.lookup_child] at hlookup
        cases hlookup
        rw [hi']
        exact hchild.inherit _ _
      · rw [hadv.lookup_other i hi hi'] at hlookup
        by_cases hnew : i = ws.nextId
        · rw [hnew, AList.lookup_insert] at hlookup
          cases hlookup
          rw [hnew]
          exact Checkpoint.sound_init _
        · rw [AList.lookup_insert_ne hnew] at hlookup
          exact h.sound i chkpt hlookup

/-! ## The operations keep the window -/

/-- The loop of `put` keeps the window, and has made all its turns: the id is in the
window, or the working set cannot advance. -/
theorem WindowInv.putLoop (h : WindowInv size waitForKeys ws) {chkptId fuel newest : ℕ}
    (hnewest : newest < chkptId ↔ ws.nextId ≤ chkptId) (hfuel : chkptId + 1 - ws.nextId ≤ fuel) :
    ∃ ws', putLoop chkptId fuel newest ws = .ok ws' ∧ WindowInv size waitForKeys ws' ∧
      ws'.nextId ≤ max ws.nextId (chkptId + 1) ∧
      (ws'.nextId ≤ chkptId → ws'.advance = .ok (false, ws')) := by
  induction fuel generalizing ws newest with
  | zero => exact ⟨ws, rfl, h, le_max_left _ _, fun hle => absurd hle (by omega)⟩
  | succ fuel ih =>
    rw [WorkingSet.putLoop]
    by_cases hless : newest < chkptId
    · rw [if_pos hless]
      rcases h.advance_cases with hrefuse | ⟨ws1, parent, child, hrun, hadv⟩
      · rw [hrefuse]
        exact ⟨ws, rfl, h, le_max_left _ _, fun _ => hrefuse⟩
      · rw [hrun]
        have hnext := hadv.nextId_eq
        have hnewest' : min (ws1.nextId - 1) chkptId < chkptId ↔ ws1.nextId ≤ chkptId := by
          omega
        obtain ⟨ws', hloop, hinv, hle, hend⟩ := ih (h.advanced hadv) hnewest' (by omega)
        exact ⟨ws', hloop, hinv, by omega, hend⟩
    · rw [if_neg hless]
      exact ⟨ws, rfl, h, le_max_left _ _, fun hle => absurd (hnewest.mpr hle) hless⟩

theorem WindowInv.accessLoop_eq (h : WindowInv size waitForKeys ws) {chkptId newest : ℕ}
    (fuel : ℕ) (hold : ws.oldestChkptId ≤ chkptId)
    (hnewest : newest < chkptId ↔ ws.nextId ≤ chkptId) :
    accessLoop chkptId fuel ws = WorkingSet.putLoop chkptId fuel newest ws := by
  induction fuel generalizing ws newest with
  | zero => rfl
  | succ fuel ih =>
    have hsize := h.size_le
    have holdest := h.oldest_eq
    rw [accessLoop, WorkingSet.putLoop]
    by_cases hless : newest < chkptId
    · have hout : chkptId ∉ ws.chkpts := by
        rw [h.mem_iff]
        omega
      rw [if_pos hless, if_pos hout]
      rcases h.advance_cases with hrefuse | ⟨ws1, parent, child, hrun, hadv⟩
      · rw [hrefuse]
      · rw [hrun]
        have hnext := hadv.nextId_eq
        have hinv := h.advanced hadv
        have hpos := h.size_pos
        exact ih hinv (by rw [hinv.oldest_eq]; omega) (by omega)
    · have hin : chkptId ∈ ws.chkpts := by
        rw [h.mem_iff]
        omega
      rw [if_neg hless, if_neg (not_not.mpr hin)]

theorem WindowInv.access_eq_put (h : WindowInv size waitForKeys ws) (chkptId : ℕ) :
    ws.access chkptId = ws.put chkptId := by
  have hpos := h.size_pos
  have hle := h.size_le
  unfold WorkingSet.access WorkingSet.put
  by_cases hold : chkptId < ws.oldestChkptId
  · rw [if_pos hold, if_pos hold]
  · rw [if_neg hold, if_neg hold, h.accessLoop_eq _ (not_lt.mp hold)]
    rw [h.newest_eq]
    omega

/-- **`WorkingSet.put`** keeps the window; it has no checkpoint to return only if the
working set cannot advance. -/
theorem WindowInv.put (h : WindowInv size waitForKeys ws) (chkptId : ℕ) :
    ws.put chkptId = .error .checkpointSync ∨
    ∃ ws', ws.put chkptId = .ok (ws'.chkpts.lookup chkptId, ws') ∧
      WindowInv size waitForKeys ws' ∧
      (ws'.chkpts.lookup chkptId = none → ws'.advance = .ok (false, ws')) := by
  have hpos := h.size_pos
  have hle := h.size_le
  have holdest := h.oldest_eq
  unfold WorkingSet.put
  by_cases hold : chkptId < ws.oldestChkptId
  · rw [if_pos hold]
    exact Or.inl rfl
  · rw [if_neg hold]
    have hnewest : ws.newestChkptId < chkptId ↔ ws.nextId ≤ chkptId := by
      rw [h.newest_eq]
      omega
    obtain ⟨ws', hloop, hinv, hmono, hend⟩ := h.putLoop hnewest le_rfl
    rw [hloop]
    refine Or.inr ⟨ws', rfl, hinv, ?_⟩
    intro hnone
    refine hend ?_
    by_contra hlt
    have hout := AList.lookup_eq_none.mp hnone
    rw [hinv.mem_iff] at hout
    omega

theorem WindowInv.of_put (h : WindowInv size waitForKeys ws) {chkptId : ℕ}
    {found : Option Checkpoint} (hrun : ws.put chkptId = .ok (found, ws')) :
    WindowInv size waitForKeys ws' ∧
      ∀ chkpt, found = some chkpt → chkptId ∈ ws'.chkpts ∧ chkpt.Sound chkptId := by
  rcases h.put chkptId with herr | ⟨ws1, hok, hinv, -⟩
  · rw [herr] at hrun
    cases hrun
  · rw [hok] at hrun
    cases hrun
    refine ⟨hinv, ?_⟩
    intro chkpt hchkpt
    refine ⟨?_, hinv.sound _ _ hchkpt⟩
    rw [← AList.lookup_isSome, hchkpt]
    rfl

theorem WindowInv.updateWriterCheckpoint (h : WindowInv size waitForKeys ws)
    (clientId chkptId : ℕ) :
    WindowInv size waitForKeys (ws.updateWriterCheckpoint clientId chkptId) := by
  unfold WorkingSet.updateWriterCheckpoint
  simp only
  split
  · refine List.foldlRecOn _ _ h fun ws h i _ => ?_
    cases hlookup : ws.chkpts.lookup i with
    | none => exact h
    | some chkpt =>
      have hsound := h.sound i chkpt hlookup
      refine h.setChkpt ?_ ⟨hsound.id_eq, hsound.allocs⟩
      rw [← AList.lookup_isSome, hlookup]
      rfl
  · exact h

theorem WindowInv.putOp (h : WindowInv size waitForKeys ws) (clientId chkptId : ℕ)
    (persist : Bool) (key : KeyBytes) (valList : ValList) (waitFor : Bool) :
    WindowInv size waitForKeys
      (putOpPerform ws clientId chkptId persist key valList waitFor).2 := by
  unfold putOpPerform
  split
  · exact h
  · rename_i ws' hrun
    exact (h.of_put hrun).1
  · rename_i chkpt ws' hrun
    obtain ⟨hinv, hchkpt⟩ := h.of_put hrun
    obtain ⟨hmem, hsound⟩ := hchkpt chkpt rfl
    split
    · exact hinv
    · rename_i found chkpt' hcontains
      obtain ⟨hid, hmap, hallocs⟩ := hsound.containsKeyAndFree hcontains
      split
      · refine hinv.setChkpt hmem ⟨hid, ?_⟩
        intro k hk
        rw [hmap] at hk
        exact hallocs k (Or.inr hk)
      · exact hinv.setChkpt hmem (hsound.store hcontains clientId valList persist)

theorem WindowInv.batchPutOp (h : WindowInv size waitForKeys ws)
    (clientId chkptId : ℕ) (persist : Bool) (key : KeyBytes) (valList : ValList) :
    WindowInv size waitForKeys
      (batchPutOpPerform ws clientId chkptId persist key valList).2 := by
  unfold batchPutOpPerform
  split
  · exact h
  · rename_i ws' hrun
    exact (h.of_put hrun).1
  · rename_i chkpt ws' hrun
    obtain ⟨hinv, hchkpt⟩ := h.of_put hrun
    obtain ⟨hmem, hsound⟩ := hchkpt chkpt rfl
    split
    · exact hinv
    · rename_i found chkpt' hcontains
      exact hinv.setChkpt hmem (hsound.store hcontains clientId valList persist)

theorem WindowInv.popOp (h : WindowInv size waitForKeys ws) (deferredOps : Finset ℕ)
    (clientId chkptId : ℕ) (key : KeyBytes) :
    WindowInv size waitForKeys (popOpPerform ws deferredOps clientId chkptId key).2 := by
  unfold popOpPerform
  split
  · exact h
  · exact h
  · split
    · exact h
    · exact h
    · split
      · exact h
      · rw [h.access_eq_put]
        split
        · exact h
        · rename_i ws' hrun
          exact (h.of_put hrun).1
        · rename_i current ws' hrun
          obtain ⟨hinv, hchkpt⟩ := h.of_put hrun
          obtain ⟨hmem, hsound⟩ := hchkpt current rfl
          simp only
          split
          · exact hinv.setChkpt hmem ⟨hsound.id_eq, hsound.allocs⟩
          · refine hinv.setChkpt hmem (Checkpoint.Sound.transferOwnership ?_ key)
            exact ⟨hsound.id_eq, hsound.allocs⟩

theorem WindowInv.clearOp (h : WindowInv size waitForKeys ws)
    (clientId chkptId : ℕ) :
    WindowInv size waitForKeys (clearOpPerform ws clientId chkptId).2 := by
  unfold clearOpPerform
  rw [h.access_eq_put]
  split
  · exact h
  · rename_i ws' hrun
    exact (h.of_put hrun).1
  · rename_i chkpt ws' hrun
    obtain ⟨hinv, hchkpt⟩ := h.of_put hrun
    obtain ⟨hmem, hsound⟩ := hchkpt chkpt rfl
    exact (hinv.setChkpt hmem hsound.clear).updateWriterCheckpoint clientId chkptId

end Invariant
