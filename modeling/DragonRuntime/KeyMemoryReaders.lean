/-
# What the readers tell while the memory of the keys lives

Readers that compare no freed memory answer from the checkpoints alone.  Without
`wait_for_keys` they answer from one key set exactly then (`workingSet_one_key_set_iff`), and
an advance changes no answer as long as every tombstone keeps its memory
(`workingSet_window`).
-/
import DragonRuntime.KeyMemory
import DragonRuntime.WorkingSetKeys

open WorkingSet

/-- The value list that `WorkingSet.get` finds for a key, or `none` if it raises. -/
def KeyMemory.found (mem : KeyMemory) (ws : WorkingSet) (deferredOps : Finset ℕ) (key : KeyBytes)
    (chkptId : ℕ) : Option (Option ValList) :=
  answer (mem.getMeets ws deferredOps key chkptId) (foundValue ws deferredOps key chkptId)

/-- Every tombstone that a lookup can meet is in memory that has not been freed, and that an advance
does not free: a key of the oldest checkpoint about which the next one says nothing moves there. -/
def KeyMemory.Keeps (mem : KeyMemory) (ws : WorkingSet) : Prop :=
  ∀ entry ∈ ws.chkpts.entries, ∀ key ∈ entry.2.deleted, key ∉ entry.2.map →
    mem.tombstone entry.1 key ≠ .freed ∧
    (ws.oldestChkptId + 1 < entry.1 → mem.tombstone entry.1 key = .mapped ws.oldestChkptId →
      ∀ child ∈ ws.chkpts.lookup (ws.oldestChkptId + 1), key ∉ child.map ∧ key ∉ child.deleted)

instance (mem : KeyMemory) (ws : WorkingSet) : Decidable (mem.Keeps ws) :=
  inferInstanceAs (Decidable (∀ entry ∈ ws.chkpts.entries, _))

section Answers

variable {mem mem' : KeyMemory} {ws ws' : WorkingSet} {key : KeyBytes} {size : ℕ}
  {waitForKeys : Bool}

theorem KeyMemory.answer_eq_some {α : Type} {meets : Bool} {result result' : α} :
    answer meets result = some result' ↔ meets = false ∧ result = result' := by
  unfold answer
  cases meets with
  | false => simp
  | true => simp

/-- A loop that meets no tombstone of freed memory outside the maps raises nothing. -/
theorem KeyMemory.getLoopMeets_eq {ids : List ℕ} (hids : ∀ i ∈ ids, ∀ chkpt,
    ws.chkpts.lookup i = some chkpt → key ∈ chkpt.deleted → key ∉ chkpt.map →
      mem.tombstone i key ≠ .freed) : mem.getLoopMeets ws key ids = false := by
  induction ids with
  | nil => rfl
  | cons i ids ih =>
    rw [getLoopMeets]
    cases hlookup : ws.chkpts.lookup i with
    | none => rfl
    | some chkpt =>
      simp only
      split_ifs with hmap hdeleted
      · rfl
      · have hlive := hids i List.mem_cons_self chkpt hlookup hdeleted hmap
        simp [deletedMeets, hlive]
      · exact ih fun j hj => hids j (List.mem_cons_of_mem _ hj)

theorem KeyMemory.getMeets_eq (hlive : ∀ i chkpt, ws.chkpts.lookup i = some chkpt →
    key ∈ chkpt.deleted → key ∉ chkpt.map → mem.tombstone i key ≠ .freed)
    (deferredOps : Finset ℕ) (chkptId : ℕ) : mem.getMeets ws deferredOps key chkptId = false := by
  unfold getMeets
  split
  · exact getLoopMeets_eq fun i _ => hlive i
  · rfl

theorem KeyMemory.Keeps.getMeets_eq (h : mem.Keeps ws) (deferredOps : Finset ℕ) (key : KeyBytes)
    (chkptId : ℕ) : mem.getMeets ws deferredOps key chkptId = false :=
  KeyMemory.getMeets_eq (fun _ _ hlookup hdeleted hmap =>
    (h _ (AList.mem_lookup_iff.mp hlookup) key hdeleted hmap).1) deferredOps chkptId

/-- **`KeyMemory.advance`** where the oldest checkpoint retires into `child`. -/
theorem WindowInv.memory_advance (h : WindowInv size waitForKeys ws) {parent child : Checkpoint}
    (hrun : ws.advance = .ok (true, ws')) (hadv : Advanced ws ws' parent child)
    (hmem : mem.advance ws = some mem') : mem' = mem.retire ws.oldestChkptId child := by
  have hparent : (ws.chkpts.insert ws.nextId (Checkpoint.init ws.nextId)).lookup
      (ws.nextId - ws.workingSetSize) = some parent := by
    have hpos := h.size_pos
    have hle := h.size_le
    have hsize := h.size_eq
    rw [AList.lookup_insert_ne (by omega)]
    exact hadv.parent_eq
  have hchild : (ws.chkpts.insert ws.nextId (Checkpoint.init ws.nextId)).lookup
      (ws.nextId - ws.workingSetSize + 1) = some child := hadv.child_eq
  unfold WorkingSet.advance at hrun
  unfold KeyMemory.advance at hmem
  simp only [h.length_eq, if_true, hparent, hchild] at hrun hmem
  split at hrun
  · cases hrun
  · rename_i hwait
    rw [if_neg hwait] at hmem
    split at hmem
    · cases hmem
    · exact (Option.some.inj hmem).symm

/-- An advance of a checkpoint of which every tombstone keeps its memory. -/
theorem KeyMemory.Keeps.live_advanced (hkeeps : mem.Keeps ws) (h : WindowInv size waitForKeys ws)
    {parent child : Checkpoint} (hadv : Advanced ws ws' parent child) {i : ℕ} {chkpt : Checkpoint}
    (hlookup : ws'.chkpts.lookup i = some chkpt) (hdeleted : key ∈ chkpt.deleted)
    (hmap : key ∉ chkpt.map) : (mem.retire ws.oldestChkptId child).tombstone i key ≠ .freed := by
  by_cases hi : i = ws.oldestChkptId
  · subst hi
    rw [hadv.lookup_parent] at hlookup
    cases hlookup
  · by_cases hi' : i = ws.oldestChkptId + 1
    · -- the tombstones of the child are dropped
      subst hi'
      rw [hadv.lookup_child] at hlookup
      cases hlookup
      exact absurd hdeleted (Finset.notMem_empty key)
    · rw [hadv.lookup_other i hi hi'] at hlookup
      have hne : i ≠ ws.nextId := by
        rintro rfl
        rw [AList.lookup_insert] at hlookup
        cases hlookup
        exact Finset.notMem_empty key hdeleted
      rw [AList.lookup_insert_ne hne] at hlookup
      obtain ⟨hlive, hmoves⟩ : mem.tombstone i key ≠ .freed ∧ _ :=
        hkeeps _ (AList.mem_lookup_iff.mp hlookup) key hdeleted hmap
      have hin := (h.mem_iff i).mp (AList.lookup_isSome.mp (by rw [hlookup]; rfl))
      have holdest := h.oldest_eq
      have hchild := hadv.child_eq
      rw [AList.lookup_insert_ne (by omega)] at hchild
      simp only [KeyMemory.retire, KeyMemory.remap]
      by_cases hmapped : mem.tombstone i key = .mapped ws.oldestChkptId
      · obtain ⟨hnomap, hnodeleted⟩ := hmoves (show _ < i by omega) hmapped child hchild
        simp [hmapped, hnomap, hnodeleted]
      · simp [hmapped, hlive]

end Answers

/-- **The window of checkpoints.**  After any calls that compare no freed memory, the ids are the
last `working_set_size` ids before `next_id` and the oldest id is the least of them.  An advance
that compares none and keeps the memory of every tombstone changes neither whether `get` finds a key
nor which value list it finds, at every checkpoint that is in the window before and after, and
without `wait_for_keys` also at every later id for which no operation is deferred. -/
theorem workingSet_window (pickler : XPickler) (start workingSetSize : ℕ)
    (hsize : 1 ≤ workingSetSize) (waitForKeys waitForWriters : Bool)
    (calls : List (ℕ × DictCall)) (ws : WorkingSet) (mem : KeyMemory)
    (hrun : memoryRun pickler (WorkingSet.init start workingSetSize waitForKeys waitForWriters)
      KeyMemory.init calls = some (ws, mem)) :
    workingSetSize ≤ ws.nextId ∧
    (∀ i, i ∈ ws.chkpts ↔ ws.nextId - workingSetSize ≤ i ∧ i < ws.nextId) ∧
    (ws.oldestChkptId ∈ ws.chkpts ∧ ∀ i ∈ ws.chkpts, ws.oldestChkptId ≤ i) ∧
    (∃ advanced ws', ws.advance = .ok (advanced, ws')) ∧
    ∀ ws' mem', ws.advance = .ok (true, ws') → mem.advance ws = some mem' → mem.Keeps ws →
      ∀ deferredOps key chkptId,
      chkptId ∈ ws'.chkpts ∧ chkptId ∈ ws.chkpts ∨
        waitForKeys = false ∧ ws'.oldestChkptId ≤ chkptId ∧ chkptId ∉ deferredOps →
      mem'.found ws' deferredOps key chkptId = mem.found ws deferredOps key chkptId := by
  have h : WindowInv workingSetSize waitForKeys ws := by
    rw [show ws = _ from ws_of_memoryRun hrun]
    exact windowInv_calls pickler start hsize waitForKeys waitForWriters _
  have hle := h.size_le
  have holdest := h.oldest_eq
  refine ⟨hle, h.mem_iff, ⟨(h.mem_iff _).mpr ⟨by omega, by omega⟩, ?_⟩, ?_, ?_⟩
  · intro i hi
    rw [holdest]
    exact ((h.mem_iff i).mp hi).1
  · rcases h.advance_cases with hrun | ⟨ws', parent, child, hrun, -⟩
    · exact ⟨false, ws, hrun⟩
    · exact ⟨true, ws', hrun⟩
  · intro ws' mem' hrun hmem hkeeps deferredOps key chkptId hchkpt
    rcases h.advance_cases with hrefuse | ⟨ws1, parent, child, hrun1, hadv⟩
    · rw [hrefuse] at hrun
      cases hrun
    · obtain rfl : ws1 = ws' := by
        rw [hrun1] at hrun
        cases hrun
        rfl
      have h' := h.advanced hadv
      have hle' := h'.size_le
      have holdest' := h'.oldest_eq
      have hnext := hadv.nextId_eq
      have hfound : foundValue ws1 deferredOps key chkptId
          = foundValue ws deferredOps key chkptId := by
        rcases hchkpt with ⟨hin', hin⟩ | ⟨hkeys, hold', hdeferred⟩
        · rw [h'.mem_iff] at hin'
          rw [h.mem_iff] at hin
          exact h.foundValue_advanced hadv deferredOps key (by omega) (Or.inl hin.2)
        · exact h.foundValue_advanced hadv deferredOps key (by omega) (Or.inr ⟨hdeferred, hkeys⟩)
      obtain rfl := h.memory_advance hrun1 hadv hmem
      have hlive : (mem.retire ws.oldestChkptId child).getMeets ws1 deferredOps key chkptId
          = false := by
        apply KeyMemory.getMeets_eq
        exact fun i chkpt hlookup => hkeeps.live_advanced h hadv hlookup
      unfold KeyMemory.found
      rw [hlive, hkeeps.getMeets_eq, hfound]

/-- A window of two with `wait_for_keys`: a key that persists at checkpoint `0` is found at
checkpoint `1` before and after checkpoint `0` retires. -/
theorem workingSet_window_example :
    ∃ ws mem ws' mem', memoryRun XPickler.scalars (WorkingSet.init 0 2 true false) KeyMemory.init
        [(0, .put 7 0 true [1] [[5]] false), (1, .put 7 1 false [2] [[6]] false)]
          = some (ws, mem) ∧
      ws.advance = .ok (true, ws') ∧ mem.advance ws = some mem' ∧
      mem.found ws ∅ [1] 1 = some (some [[5]]) ∧
      mem'.found ws' ∅ [1] 1 = mem.found ws ∅ [1] 1 := by
  refine ⟨_, _, _, _, rfl, rfl, rfl, by decide +kernel, ?_⟩
  obtain ⟨-, -, -, -, hadvance⟩ := workingSet_window XPickler.scalars 0 2 (by decide) true false
    [(0, .put 7 0 true [1] [[5]] false), (1, .put 7 1 false [2] [[6]] false)] _ _ rfl
  exact hadvance _ _ rfl rfl (by decide +kernel) ∅ [1] 1 (Or.inl (by decide +kernel))

/-- The tombstone of checkpoint `2` is the memory of the key at checkpoint `0`, which the advance
frees. -/
theorem not_workingSet_window :
    ¬ ∀ (pickler : XPickler) (start workingSetSize : ℕ) (waitForKeys waitForWriters : Bool)
      (calls : List (ℕ × DictCall)) (ws ws' : WorkingSet) (mem mem' : KeyMemory), 1 ≤ workingSetSize →
      memoryRun pickler (WorkingSet.init start workingSetSize waitForKeys waitForWriters)
        KeyMemory.init calls = some (ws, mem) →
      ws.advance = .ok (true, ws') → mem.advance ws = some mem' →
      ∀ key chkptId, chkptId ∈ ws'.chkpts → chkptId ∈ ws.chkpts →
      mem'.found ws' ∅ key chkptId = mem.found ws ∅ key chkptId := by
  intro h
  have heq := h XPickler.scalars 0 3 false false
    [(0, .put 7 0 false [1] [[5]] false), (1, .pop ∅ 7 2 [1]), (2, .put 7 1 false [1] [[6]] false)]
    _ _ _ _ (by decide) rfl rfl rfl [1] 2 (by decide +kernel) (by decide +kernel)
  revert heq
  decide +kernel

/-- The operations that count or list the keys and those that look one up answer from one set, and
none of them raises. -/
def KeyMemory.OneKeySet (mem : KeyMemory) (ws : WorkingSet) (deferredOps : Finset ℕ) (chkptId : ℕ) :
    Prop :=
  ∃ keys, mem.keys ws chkptId = some (.ok keys) ∧ mem.lengthOp ws chkptId = some (.ok keys.card) ∧
    ∀ key,
      (∃ chkpt, mem.get ws deferredOps key chkptId = some (.ok (some chkpt)) ∧
        (key ∈ keys ↔ key ∈ chkpt.map)) ∧
      mem.containsOp ws deferredOps key chkptId = some (.ok (decide (key ∈ keys))) ∧
      ∃ value, mem.getOp ws deferredOps key chkptId = some (.ok (some value)) ∧
        (key ∈ keys ↔ value.isSome)

/-- **One key set.**  Without `wait_for_keys`, after any calls that compare no freed memory and for
every checkpoint id that is not retired and for which no operation is deferred: a key is among
`WorkingSet.keys` iff `WorkingSet.get` returns a checkpoint whose map has it, and
`LengthOp`, `KeysOp`, `ContainsOp` and `GetOp` answer from this set, iff none of them meets the
memory of a key that has been freed. -/
theorem workingSet_one_key_set_iff (pickler : XPickler) (start workingSetSize : ℕ)
    (hsize : 1 ≤ workingSetSize) (waitForWriters : Bool) (calls : List (ℕ × DictCall))
    (ws : WorkingSet) (mem : KeyMemory)
    (hrun : memoryRun pickler (WorkingSet.init start workingSetSize false waitForWriters)
      KeyMemory.init calls = some (ws, mem))
    (deferredOps : Finset ℕ) (chkptId : ℕ) (hold : ws.oldestChkptId ≤ chkptId)
    (hdeferred : chkptId ∉ deferredOps) :
    mem.OneKeySet ws deferredOps chkptId ↔ ∀ key, mem.Live ws deferredOps key chkptId := by
  have h : WindowInv workingSetSize false ws := by
    rw [show ws = _ from ws_of_memoryRun hrun]
    exact windowInv_calls pickler start hsize false waitForWriters _
  constructor
  · rintro ⟨keys, hkeys, -, hall⟩ key
    obtain ⟨-, hcontains, value, hget, -⟩ := hall key
    exact ⟨(KeyMemory.answer_eq_some.mp hget).1, (KeyMemory.answer_eq_some.mp hcontains).1,
      (KeyMemory.answer_eq_some.mp hkeys).1⟩
  · intro hlive
    obtain ⟨keys, hkeys, hlength, hall⟩ := h.one_key_set hold hdeferred
    have hquiet := (hlive []).keys
    refine ⟨keys, KeyMemory.answer_eq_some.mpr ⟨hquiet, hkeys⟩,
      KeyMemory.answer_eq_some.mpr ⟨hquiet, hlength⟩, fun key => ?_⟩
    obtain ⟨⟨chkpt, hget, hmem⟩, hcontains, value, hgetOp, hvalue⟩ := hall key
    obtain ⟨hlookup, hlookup', -⟩ := hlive key
    refine ⟨⟨chkpt, KeyMemory.answer_eq_some.mpr ⟨?_, hget⟩, hmem⟩,
      KeyMemory.answer_eq_some.mpr ⟨hlookup', hcontains⟩, value,
      KeyMemory.answer_eq_some.mpr ⟨hlookup, hgetOp⟩, hvalue⟩
    exact (Bool.or_eq_false_iff.mp hlookup).1

/-- Two keys at checkpoint `0`, one of them deleted at checkpoint `1`. -/
theorem workingSet_one_key_set_iff_example :
    ∃ ws mem, memoryRun XPickler.scalars (WorkingSet.init 0 2 false false) KeyMemory.init
        [(0, .put 7 0 false [1] [[5]] false), (1, .put 7 0 false [2] [[6]] false),
          (2, .pop ∅ 7 1 [1])] = some (ws, mem) ∧
      (mem.OneKeySet ws ∅ 1 ↔ ∀ key, mem.Live ws ∅ key 1) :=
  ⟨_, _, rfl, workingSet_one_key_set_iff XPickler.scalars 0 2 (by decide) false
    [(0, .put 7 0 false [1] [[5]] false), (1, .put 7 0 false [2] [[6]] false), (2, .pop ∅ 7 1 [1])]
    _ _ rfl ∅ 1 (by decide +kernel) (by decide)⟩

/-- The pop at checkpoint `0` frees the memory of the tombstone of checkpoint `1`, with which `keys`
compares the key that is put again. -/
theorem not_one_key_set :
    ¬ ∀ (pickler : XPickler) (start workingSetSize : ℕ) (waitForWriters : Bool)
      (calls : List (ℕ × DictCall)) (ws : WorkingSet) (mem : KeyMemory) (chkptId : ℕ),
      1 ≤ workingSetSize →
      memoryRun pickler (WorkingSet.init start workingSetSize false waitForWriters)
        KeyMemory.init calls = some (ws, mem) →
      ws.oldestChkptId ≤ chkptId → mem.OneKeySet ws ∅ chkptId := by
  intro h
  obtain ⟨keys, hkeys, -⟩ := h XPickler.scalars 0 2 false
    [(0, .put 7 0 false [1] [[5]] false), (1, .pop ∅ 7 1 [1]), (2, .pop ∅ 7 0 [1]),
      (3, .put 7 0 false [1] [[6]] false)] _ _ 1 (by decide) rfl (by decide +kernel)
  cases hkeys
