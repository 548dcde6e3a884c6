/-
# One key set for all readers

`WorkingSet.keys` folds the checkpoints of the window from the oldest on, and
`WorkingSet.get` looks for one key from the newest on.  Without `wait_for_keys` both
answer for the same stack of layers (`Overlay.foldl_cover`), so the operations that count
or list the keys and those that look one up agree.
-/
import DragonRuntime.WorkingSetVisible

open Overlay WorkingSet

section Keys

variable {size : ℕ} {ws : WorkingSet} {key : KeyBytes}

/-- Without `wait_for_keys`, a checkpoint tells the same to every reader. -/
theorem said_congr (hkeys : ws.waitForKeys = false) (key : KeyBytes) (chkptId chkptId' i : ℕ) :
    said ws key chkptId i = said ws key chkptId' i := by
  unfold said
  cases ws.chkpts.lookup i with
  | none => rfl
  | some chkpt =>
    rw [hkeys, Option.bind_some, Option.bind_some]
    unfold Checkpoint.tells
    simp

/-- Adding a checkpoint to the keys is laying it over what is visible so far. -/
theorem mem_keys_step (hkeys : ws.waitForKeys = false) {i chkptId : ℕ} {chkpt : Checkpoint}
    (hchkpt : ws.chkpts.lookup i = some chkpt) {keys : Finset KeyBytes}
    {value : Option ValList} (hvalue : key ∈ keys ↔ value.isSome) :
    key ∈ keys \ chkpt.deleted ∪ chkpt.mapKeys ↔
      (cover value (said ws key chkptId i)).isSome := by
  have hmap : key ∈ chkpt.mapKeys ↔ key ∈ chkpt.map := by
    unfold Checkpoint.mapKeys
    rw [List.mem_toFinset, AList.mem_keys]
  rw [Finset.mem_union, Finset.mem_sdiff, hmap, said_of_lookup hchkpt, hkeys]
  cases hlookup : chkpt.map.lookup key with
  | some valList =>
    have hmem : key ∈ chkpt.map := by
      rw [← AList.lookup_isSome, hlookup]
      rfl
    rw [Checkpoint.tells_of_mem hlookup, if_neg (by simp)]
    exact iff_of_true (Or.inr hmem) rfl
  | none =>
    have hmem : key ∉ chkpt.map := AList.lookup_eq_none.mp hlookup
    rw [Checkpoint.tells_of_notMem hlookup, or_iff_left hmem]
    by_cases hdel : key ∈ chkpt.deleted
    · rw [if_pos hdel]
      exact iff_of_false (fun hin => hin.2 hdel) nofun
    · rw [if_neg hdel]
      exact (and_iff_left hdel).trans hvalue

theorem keysLoop_spec (hkeys : ws.waitForKeys = false) (chkptId : ℕ) {ids : List ℕ}
    (hids : ∀ i ∈ ids, i ∈ ws.chkpts) (keys : Finset KeyBytes) :
    ∃ keys', ws.keysLoop ids keys = .ok keys' ∧
      ∀ (key : KeyBytes) (value : Option ValList), (key ∈ keys ↔ value.isSome) →
        (key ∈ keys' ↔ ((ids.map (said ws key chkptId)).foldl cover value).isSome) := by
  induction ids generalizing keys with
  | nil => exact ⟨keys, rfl, fun key value hvalue => hvalue⟩
  | cons i ids ih =>
    obtain ⟨chkpt, hchkpt⟩ := Option.isSome_iff_exists.mp
      (AList.lookup_isSome.mpr (hids i List.mem_cons_self))
    obtain ⟨keys', hrun, hmem⟩ := ih (fun j hj => hids j (List.mem_cons_of_mem _ hj))
      (keys \ chkpt.deleted ∪ chkpt.mapKeys)
    refine ⟨keys', ?_, ?_⟩
    · rw [keysLoop, hchkpt]
      simp only [hkeys, Bool.false_eq_true, if_false]
      exact hrun
    · intro key value hvalue
      rw [List.map_cons, List.foldl_cons]
      exact hmem key _ (mem_keys_step hkeys hchkpt hvalue)

/-- **`WorkingSet.keys`** in a reachable state: the keys that are visible in the stack. -/
theorem WindowInv.keys_spec (h : WindowInv size false ws) {chkptId : ℕ}
    (hold : ws.oldestChkptId ≤ chkptId) :
    ∃ keys, ws.keys chkptId = .ok keys ∧ ∀ key, key ∈ keys ↔
      (visible ((stackIds ws chkptId).map (said ws key chkptId))).isSome := by
  have hpos := h.size_pos
  have hle := h.size_le
  have holdest := h.oldest_eq
  have hnewest := h.newest_eq
  have hids : ∀ i ∈ List.range' ws.oldestChkptId
      (min chkptId ws.newestChkptId + 1 - ws.oldestChkptId), i ∈ ws.chkpts := by
    intro i hi
    rw [List.mem_range'_1] at hi
    exact (h.mem_iff i).mpr ⟨by omega, by omega⟩
  obtain ⟨keys, hrun, hmem⟩ := keysLoop_spec h.waitForKeys_eq chkptId hids ∅
  have hvisible : ∀ key, key ∈ keys ↔
      (visible ((stackIds ws chkptId).map (said ws key chkptId))).isSome := by
    intro key
    rw [hmem key none (by simp), foldl_cover]
    unfold stackIds
    rw [List.map_reverse]
  unfold WorkingSet.keys
  rw [if_neg (not_lt.mpr hold)]
  simp only [hrun]
  cases hchkpt : ws.chkpts.lookup chkptId with
  | none => exact ⟨keys, rfl, hvisible⟩
  | some chkpt =>
    refine ⟨keys ∪ chkpt.mapKeys, rfl, ?_⟩
    intro key
    rw [Finset.mem_union, ← hvisible]
    refine or_iff_left_of_imp ?_
    -- the checkpoint itself is the top of the stack
    intro hkey
    have hin : key ∈ chkpt.map := by
      unfold Checkpoint.mapKeys at hkey
      rwa [List.mem_toFinset, ← AList.mem_keys] at hkey
    obtain ⟨valList, hlookup⟩ := Option.isSome_iff_exists.mp (AList.lookup_isSome.mpr hin)
    have hlt : chkptId < ws.nextId := by
      have hwin : chkptId ∈ ws.chkpts := by
        rw [← AList.lookup_isSome, hchkpt]
        rfl
      exact ((h.mem_iff chkptId).mp hwin).2
    rw [hvisible]
    unfold stackIds
    rw [min_eq_left (by omega), show chkptId + 1 - ws.oldestChkptId
      = chkptId - ws.oldestChkptId + 1 by omega, List.range'_1_concat, List.reverse_append,
      List.reverse_singleton, List.singleton_append, List.map_cons,
      show ws.oldestChkptId + (chkptId - ws.oldestChkptId) = chkptId by omega,
      said_of_lookup hchkpt, h.waitForKeys_eq, Checkpoint.tells_of_mem hlookup,
      if_neg (by simp), visible_some]
    rfl

theorem WindowInv.get_eq (h : WindowInv size false ws) (deferredOps : Finset ℕ)
    (key : KeyBytes) {chkptId : ℕ} (hold : ws.oldestChkptId ≤ chkptId)
    (hdeferred : ws.newestChkptId < chkptId → chkptId ∉ deferredOps) :
    ∃ i chkpt, ws.get deferredOps key chkptId = .ok (some chkpt) ∧ chkpt.Sound i ∧
      visible ((stackIds ws chkptId).map (said ws key chkptId)) = chkpt.map.lookup key := by
  rcases h.get_spec deferredOps key hold with
    ⟨-, hnew, hwhy⟩ | ⟨-, hkeys, -⟩ | ⟨i, chkpt, hrun, hchkpt, hvisible⟩
  · exact absurd hwhy (by simp [hdeferred hnew])
  · cases hkeys
  · exact ⟨i, chkpt, hrun, h.sound i chkpt hchkpt, hvisible⟩

/-- The operations that count or list the keys and those that look one up answer from one set. -/
theorem WindowInv.one_key_set (h : WindowInv size false ws) {deferredOps : Finset ℕ}
    {chkptId : ℕ} (hold : ws.oldestChkptId ≤ chkptId) (hdeferred : chkptId ∉ deferredOps) :
    ∃ keys, ws.keys chkptId = .ok keys ∧ lengthOpPerform ws chkptId = .ok keys.card ∧
      ∀ key,
        (∃ chkpt, ws.get deferredOps key chkptId = .ok (some chkpt) ∧
          (key ∈ keys ↔ key ∈ chkpt.map)) ∧
        containsOpPerform ws deferredOps chkptId key = .ok (decide (key ∈ keys)) ∧
        ∃ value, getOpPerform ws deferredOps chkptId key = .ok (some value) ∧
          (key ∈ keys ↔ value.isSome) := by
  obtain ⟨keys, hkeys, hvisible⟩ := h.keys_spec hold
  refine ⟨keys, hkeys, ?_, ?_⟩
  · unfold lengthOpPerform
    rw [hkeys]
    rfl
  · intro key
    obtain ⟨i, chkpt, hget, hsound, hfound⟩ := h.get_eq deferredOps key hold fun _ => hdeferred
    have hmem : key ∈ keys ↔ key ∈ chkpt.map := by
      rw [hvisible, hfound, AList.lookup_isSome]
    refine ⟨⟨chkpt, hget, hmem⟩, ?_, ?_⟩
    · -- a later id is looked up at the newest checkpoint, which has the same stack
      have hsize := h.size_le
      have holdest := h.oldest_eq
      have hnewest := h.newest_eq
      have hpos := h.size_pos
      have hold' : ws.oldestChkptId
          ≤ if ws.newestChkptId < chkptId then ws.newestChkptId else chkptId := by
        split <;> omega
      obtain ⟨j, chkpt', hget', hsound', hfound'⟩ := h.get_eq deferredOps key hold'
        (by split <;> omega)
      have hstack : stackIds ws
          (if ws.newestChkptId < chkptId then ws.newestChkptId else chkptId)
          = stackIds ws chkptId := by
        unfold stackIds
        congr 2
        split <;> omega
      have hsaid : said ws key (if ws.newestChkptId < chkptId then ws.newestChkptId else chkptId)
          = said ws key chkptId := by
        funext i
        exact said_congr h.waitForKeys_eq key _ _ i
      rw [hstack, hsaid, hfound] at hfound'
      have hmem' : key ∈ chkpt'.map ↔ key ∈ keys := by
        rw [hmem, ← AList.lookup_isSome, ← hfound', AList.lookup_isSome]
      unfold containsOpPerform
      rw [hget']
      simp only [hsound'.containsKey_eq, h.waitForKeys_eq, Bool.false_eq_true, and_false,
        if_false, hmem']
    · refine ⟨chkpt.map.lookup key, ?_, ?_⟩
      · unfold getOpPerform
        rw [hget]
        simp only [hsound.containsKey_eq]
        by_cases hin : key ∈ chkpt.map
        · rw [decide_eq_true hin]
        · rw [decide_eq_false hin, AList.lookup_eq_none.mpr hin]
      · rw [hmem, AList.lookup_isSome]

end Keys
