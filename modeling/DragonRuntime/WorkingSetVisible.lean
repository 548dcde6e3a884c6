/-
# What is visible at a checkpoint

`WorkingSet.get` looks for a key from a checkpoint down to the oldest one of the window.
In the words of `Overlay` it finds what is visible in a stack of layers, one for each
checkpoint.

Retiring a checkpoint merges it into its child and drops the tombstones of the child: the
two lowest layers of every stack become one layer, and what is visible at a checkpoint
that stays in the window does not change.
-/
import DragonRuntime.WorkingSetWindow
import DragonRuntime.Overlay

open Overlay WorkingSet

/-! ## The stack of a checkpoint -/

/-- What a checkpoint tells about a key to a reader at checkpoint `chkptId`: with
`wait_for_keys`, a key that does not persist is hidden from later checkpoints. -/
def Checkpoint.tells (chkpt : Checkpoint) (waitForKeys : Bool) (key : KeyBytes) (chkptId : ℕ) :
    Option (Option ValList) :=
  match chkpt.map.lookup key with
  | some valList =>
    if waitForKeys ∧ key ∉ chkpt.persist ∧ chkpt.id < chkptId then some none
    else some (some valList)
  | none => if key ∈ chkpt.deleted then some none else none

/-- What the checkpoint with id `i` tells. -/
def said (ws : WorkingSet) (key : KeyBytes) (chkptId i : ℕ) : Option (Option ValList) :=
  (ws.chkpts.lookup i).bind fun chkpt => chkpt.tells ws.waitForKeys key chkptId

/-- The checkpoints that a reader at `chkptId` looks at, the newest first. -/
def stackIds (ws : WorkingSet) (chkptId : ℕ) : List ℕ :=
  (List.range' ws.oldestChkptId
    (min chkptId ws.newestChkptId + 1 - ws.oldestChkptId)).reverse

/-- The value list that `WorkingSet.get` finds for a key. -/
def foundValue (ws : WorkingSet) (deferredOps : Finset ℕ) (key : KeyBytes) (chkptId : ℕ) :
    Option ValList :=
  match ws.get deferredOps key chkptId with
  | .ok (some chkpt) => chkpt.map.lookup key
  | _ => none

section Visible

variable {size : ℕ} {waitForKeys : Bool} {ws ws' : WorkingSet}

variable {chkpt : Checkpoint} {chkptId i : ℕ} {key : KeyBytes}

theorem said_of_lookup (hchkpt : ws.chkpts.lookup i = some chkpt) :
    said ws key chkptId i = chkpt.tells ws.waitForKeys key chkptId := by
  unfold said
  rw [hchkpt, Option.bind_some]

theorem Checkpoint.tells_of_mem {valList : ValList} (hlookup : chkpt.map.lookup key = some valList)
    (chkptId : ℕ) :
    chkpt.tells waitForKeys key chkptId
      = if waitForKeys ∧ key ∉ chkpt.persist ∧ chkpt.id < chkptId then some none
        else some (some valList) := by
  unfold Checkpoint.tells
  rw [hlookup]

theorem Checkpoint.tells_of_notMem (hlookup : chkpt.map.lookup key = none) (chkptId : ℕ) :
    chkpt.tells waitForKeys key chkptId
      = if key ∈ chkpt.deleted then some none else none := by
  unfold Checkpoint.tells
  rw [hlookup]

/-- The lowest layer without a value shows nothing. -/
theorem visible_tells_of_notMem (hlookup : chkpt.map.lookup key = none) (chkptId : ℕ) :
    visible [chkpt.tells waitForKeys key chkptId] = none := by
  rw [Checkpoint.tells_of_notMem hlookup]
  split
  · rfl
  · rfl

theorem getLoop_spec (key : KeyBytes) (chkptId : ℕ) {ids : List ℕ}
    (hids : ∀ i ∈ ids, i ∈ ws.chkpts) :
    (ws.getLoop key chkptId ids = .ok none ∧ ∀ i ∈ ids, said ws key chkptId i = none) ∨
    (ws.getLoop key chkptId ids = .ok (some none) ∧ ws.waitForKeys = true ∧
      visible (ids.map (said ws key chkptId)) = none) ∨
    ∃ i chkpt, ws.getLoop key chkptId ids = .ok (some (some chkpt)) ∧
      ws.chkpts.lookup i = some chkpt ∧
      visible (ids.map (said ws key chkptId)) = chkpt.map.lookup key := by
  induction ids with
  | nil => exact Or.inl ⟨rfl, fun i hi => absurd hi List.not_mem_nil⟩
  | cons i ids ih =>
    obtain ⟨chkpt, hchkpt⟩ := Option.isSome_iff_exists.mp
      (AList.lookup_isSome.mpr (hids i List.mem_cons_self))
    have hsaid : said ws key chkptId i = chkpt.tells ws.waitForKeys key chkptId :=
      said_of_lookup hchkpt
    rw [getLoop, hchkpt, List.map_cons]
    simp only
    cases hlookup : chkpt.map.lookup key with
    | some valList =>
      have hmem : key ∈ chkpt.map := by
        rw [← AList.lookup_isSome, hlookup]
        rfl
      rw [Checkpoint.tells_of_mem hlookup] at hsaid
      rw [if_pos hmem, hsaid]
      by_cases hwait : ws.waitForKeys ∧ key ∉ chkpt.persist ∧ chkpt.id < chkptId
      · rw [if_pos hwait, if_pos hwait, visible_some]
        exact Or.inr (Or.inl ⟨rfl, hwait.1, rfl⟩)
      · rw [if_neg hwait, if_neg hwait, visible_some]
        exact Or.inr (Or.inr ⟨i, chkpt, rfl, hchkpt, hlookup.symm⟩)
    | none =>
      have hmem : key ∉ chkpt.map := AList.lookup_eq_none.mp hlookup
      rw [Checkpoint.tells_of_notMem hlookup] at hsaid
      rw [if_neg hmem]
      by_cases hdel : key ∈ chkpt.deleted
      · rw [if_pos hdel] at hsaid ⊢
        rw [hsaid, visible_some]
        exact Or.inr (Or.inr ⟨i, chkpt, rfl, hchkpt, hlookup.symm⟩)
      · rw [if_neg hdel] at hsaid ⊢
        rw [hsaid, visible_none]
        rcases ih fun j hj => hids j (List.mem_cons_of_mem _ hj) with ⟨hrun, hnone⟩ | hfound
        · refine Or.inl ⟨hrun, ?_⟩
          intro j hj
          rcases List.mem_cons.mp hj with rfl | hj
          · exact hsaid
          · exact hnone j hj
        · exact Or.inr hfound

theorem visible_of_forall_none {layers : List (Option (Option ValList))}
    (h : ∀ layer ∈ layers, layer = none) : visible layers = none := by
  induction layers with
  | nil => rfl
  | cons layer layers ih =>
    rw [h layer List.mem_cons_self, visible_none]
    exact ih fun l hl => h l (List.mem_cons_of_mem _ hl)

theorem WindowInv.mem_stackIds (h : WindowInv size waitForKeys ws)
    (hold : ws.oldestChkptId ≤ chkptId) :
    i ∈ stackIds ws chkptId ↔ ws.oldestChkptId ≤ i ∧ i ≤ chkptId ∧ i < ws.nextId := by
  have hpos := h.size_pos
  have hle := h.size_le
  have holdest := h.oldest_eq
  unfold stackIds
  rw [List.mem_reverse, List.mem_range'_1, h.newest_eq]
  omega

/-- A key that no checkpoint of the stack tells anything about is in none of their maps. -/
theorem lookup_of_said_none (hsaid : said ws key chkptId i = none)
    (hchkpt : ws.chkpts.lookup i = some chkpt) : chkpt.map.lookup key = none := by
  rw [said_of_lookup hchkpt] at hsaid
  cases hlookup : chkpt.map.lookup key with
  | none => rfl
  | some valList =>
    rw [Checkpoint.tells_of_mem hlookup] at hsaid
    split at hsaid
    · cases hsaid
    · cases hsaid

/-- **`WorkingSet.get`** in a reachable state: the checkpoint that it returns is in the
window, and its map has for the key what is visible in the stack; it waits only for a
checkpoint that does not exist yet, or with `wait_for_keys`. -/
theorem WindowInv.get_spec (h : WindowInv size waitForKeys ws) (deferredOps : Finset ℕ)
    (key : KeyBytes) (hold : ws.oldestChkptId ≤ chkptId) :
    (ws.get deferredOps key chkptId = .ok none ∧ ws.newestChkptId < chkptId ∧
      (chkptId ∈ deferredOps ∨ waitForKeys = true)) ∨
    (ws.get deferredOps key chkptId = .ok none ∧ waitForKeys = true ∧
      visible ((stackIds ws chkptId).map (said ws key chkptId)) = none) ∨
    ∃ i chkpt, ws.get deferredOps key chkptId = .ok (some chkpt) ∧
      ws.chkpts.lookup i = some chkpt ∧
      visible ((stackIds ws chkptId).map (said ws key chkptId)) = chkpt.map.lookup key := by
  have hpos := h.size_pos
  have hle := h.size_le
  have holdest := h.oldest_eq
  have hwait := h.waitForKeys_eq
  obtain ⟨oldest, holdestChkpt⟩ := h.lookup_of_mem (i := ws.oldestChkptId) (by omega) (by omega)
  unfold WorkingSet.get
  rw [if_neg (not_lt.mpr hold)]
  have hwaits : ws.getWaits deferredOps key chkptId = .ok true ∧ ws.newestChkptId < chkptId ∧
      (chkptId ∈ deferredOps ∨ waitForKeys = true) ∨
      ws.getWaits deferredOps key chkptId = .ok false := by
    unfold getWaits
    by_cases hnew : ws.newestChkptId < chkptId
    · rw [if_pos hnew, holdestChkpt, hwait]
      simp only
      by_cases hlate : (decide (key ∉ oldest.persist) &&
          (decide (chkptId ∈ deferredOps) || waitForKeys)) = true
      · rw [hlate]
        refine Or.inl ⟨rfl, hnew, ?_⟩
        rw [Bool.and_eq_true, Bool.or_eq_true, decide_eq_true_eq, decide_eq_true_eq] at hlate
        exact hlate.2
      · rw [Bool.not_eq_true] at hlate
        rw [hlate]
        exact Or.inr rfl
    · rw [if_neg hnew]
      exact Or.inr rfl
  rcases hwaits with ⟨hrun, hnew, hwhy⟩ | hrun
  · rw [hrun]
    exact Or.inl ⟨rfl, hnew, hwhy⟩
  · rw [hrun]
    right
    have hids : ∀ i ∈ stackIds ws chkptId, i ∈ ws.chkpts := by
      intro i hi
      obtain ⟨h1, h2, h3⟩ := (h.mem_stackIds hold).mp hi
      exact (h.mem_iff i).mpr ⟨by omega, h3⟩
    have hloop := getLoop_spec key chkptId hids
    unfold stackIds at hloop ⊢
    simp only
    rcases hloop with ⟨hloop, hnone⟩ | ⟨hloop, hkeys, hvisible⟩ | ⟨i, chkpt, hloop, hchkpt, hvisible⟩
    · rw [hloop]
      -- no checkpoint tells anything: the default is returned, without the key
      have hvisible : visible ((stackIds ws chkptId).map (said ws key chkptId)) = none := by
        refine visible_of_forall_none ?_
        intro layer hlayer
        obtain ⟨i, hi, rfl⟩ := List.mem_map.mp hlayer
        exact hnone i hi
      unfold stackIds at hvisible
      rw [hvisible]
      unfold getDefault
      rw [holdestChkpt]
      have hsaid : ∀ i, ws.oldestChkptId ≤ i → i ≤ chkptId → i < ws.nextId →
          said ws key chkptId i = none :=
        fun i h1 h2 h3 => hnone i ((h.mem_stackIds hold).mpr ⟨h1, h2, h3⟩)
      cases hchkpt : ws.chkpts.lookup chkptId with
      | none =>
        refine Or.inr ⟨_, oldest, rfl, holdestChkpt, ?_⟩
        exact (lookup_of_said_none (hsaid _ le_rfl hold (by omega)) holdestChkpt).symm
      | some chkpt =>
        have hlt : chkptId < ws.nextId := by
          have hmem : chkptId ∈ ws.chkpts := by
            rw [← AList.lookup_isSome, hchkpt]
            rfl
          exact ((h.mem_iff chkptId).mp hmem).2
        simp only
        by_cases hkeys : ws.waitForKeys = true ∧ key ∉ oldest.map
        · rw [if_pos hkeys]
          exact Or.inl ⟨rfl, hwait.symm.trans hkeys.1, trivial⟩
        · rw [if_neg hkeys]
          refine Or.inr ⟨_, chkpt, rfl, hchkpt, ?_⟩
          exact (lookup_of_said_none (hsaid _ hold le_rfl hlt) hchkpt).symm
    · rw [hloop]
      exact Or.inl ⟨rfl, hwait.symm.trans hkeys, hvisible⟩
    · rw [hloop]
      exact Or.inr ⟨i, chkpt, rfl, hchkpt, hvisible⟩

theorem WindowInv.foundValue_eq (h : WindowInv size waitForKeys ws) (deferredOps : Finset ℕ)
    (key : KeyBytes) (hold : ws.oldestChkptId ≤ chkptId)
    (hnow : chkptId ≤ ws.newestChkptId ∨ chkptId ∉ deferredOps ∧ waitForKeys = false) :
    foundValue ws deferredOps key chkptId
      = visible ((stackIds ws chkptId).map (said ws key chkptId)) := by
  unfold foundValue
  rcases h.get_spec deferredOps key hold with
    ⟨-, hnew, hwhy⟩ | ⟨hrun, -, hvisible⟩ | ⟨i, chkpt, hrun, -, hvisible⟩
  · rcases hnow with hnow | ⟨hdeferred, hkeys⟩
    · omega
    · rw [hkeys] at hwhy
      exact absurd hwhy (by simp [hdeferred])
  · rw [hrun, hvisible]
  · rw [hrun, hvisible]

/-! ## Retiring a checkpoint -/

/-- The two lowest layers become one. -/
theorem visible_inherit {parent child : Checkpoint}
    (hpersist : waitForKeys = true → key ∈ parent.map → key ∉ parent.persist → key ∈ child.map)
    (hid : (Checkpoint.inherit waitForKeys parent child).id = child.id) :
    visible [(Checkpoint.inherit waitForKeys parent child).tells waitForKeys key chkptId]
      = visible [child.tells waitForKeys key chkptId, parent.tells waitForKeys key chkptId] := by
  have hlookup := Checkpoint.lookup_inherit waitForKeys parent child key
  cases hchild : child.map.lookup key with
  | some valList =>
    -- a key of the child
    have hmem : key ∈ child.map := by
      rw [← AList.lookup_isSome, hchild]
      rfl
    rw [if_pos hmem, hchild] at hlookup
    rw [Checkpoint.tells_of_mem hlookup, Checkpoint.tells_of_mem hchild, hid]
    have hkeep : key ∈ (Checkpoint.inherit waitForKeys parent child).persist ↔
        key ∈ child.persist :=
      Checkpoint.persist_inherit_of_kept waitForKeys (Or.inl hmem)
    simp only [hkeep]
    split
    · rfl
    · rfl
  | none =>
    have hmem : key ∉ child.map := AList.lookup_eq_none.mp hchild
    rw [if_neg hmem] at hlookup
    rw [Checkpoint.tells_of_notMem hchild]
    by_cases hdel : key ∈ child.deleted
    · -- deleted in the child: neither copied nor marked any more
      rw [if_pos hdel] at hlookup ⊢
      exact visible_tells_of_notMem hlookup chkptId
    · rw [if_neg hdel] at hlookup ⊢
      rw [visible_none]
      cases hparent : parent.map.lookup key with
      | none =>
        rw [hparent] at hlookup
        rw [visible_tells_of_notMem hlookup, visible_tells_of_notMem hparent]
      | some valList =>
        -- copied: it persists in the parent, and then also in the child
        have hin : key ∈ parent.map := by
          rw [← AList.lookup_isSome, hparent]
          rfl
        rw [hparent] at hlookup
        rw [Checkpoint.tells_of_mem hlookup, Checkpoint.tells_of_mem hparent]
        cases waitForKeys with
        | false => rfl
        | true =>
          have hkeep : key ∈ parent.persist := by
            by_contra hnot
            exact hmem (hpersist rfl hin hnot)
          have hkeep' := (Checkpoint.persist_inherit_of_taken true hin hmem hdel).mpr (Or.inr rfl)
          rw [if_neg fun hhide => hhide.2.1 hkeep', if_neg fun hhide => hhide.2.1 hkeep]

/-- **An advance keeps what is visible** from any checkpoint `top` on that is not older than
the child. -/
theorem WindowInv.visible_advanced (h : WindowInv size waitForKeys ws) {parent child : Checkpoint}
    (hadv : Advanced ws ws' parent child) (key : KeyBytes) {top : ℕ}
    (htop : ws.oldestChkptId + 1 ≤ top) :
    visible ((List.range' (ws.oldestChkptId + 1) (top - ws.oldestChkptId)).reverse.map
        (said ws' key chkptId))
      = visible ((List.range' ws.oldestChkptId (top + 1 - ws.oldestChkptId)).reverse.map
        (said ws key chkptId)) := by
  have hpos := h.size_pos
  have hle := h.size_le
  have holdest := h.oldest_eq
  have hout : ws.chkpts.lookup ws.nextId = none := by
    rw [AList.lookup_eq_none, h.mem_iff]
    omega
  -- a checkpoint that is new tells nothing
  have hfresh : ∀ i, said ws key chkptId i = ((ws.chkpts.insert ws.nextId
      (Checkpoint.init ws.nextId)).lookup i).bind fun chkpt =>
        chkpt.tells ws.waitForKeys key chkptId := by
    intro i
    unfold said
    by_cases hi : i = ws.nextId
    · rw [hi, hout, AList.lookup_insert]
      rfl
    · rw [AList.lookup_insert_ne hi]
  have hother : ∀ i, ws.oldestChkptId + 1 < i → said ws' key chkptId i = said ws key chkptId i := by
    intro i hi
    rw [hfresh]
    unfold said
    rw [hadv.lookup_other i (by omega) (by omega), hadv.waitForKeys_eq]
  have hbottom : visible [said ws' key chkptId (ws.oldestChkptId + 1)]
      = visible [said ws key chkptId (ws.oldestChkptId + 1),
        said ws key chkptId ws.oldestChkptId] := by
    rw [said_of_lookup hadv.parent_eq, hfresh, hadv.child_eq, Option.bind_some,
      said_of_lookup hadv.lookup_child, hadv.waitForKeys_eq]
    refine visible_inherit (fun hkeys => hadv.persistent hkeys key) ?_
    have hsound := (h.advanced hadv).sound _ _ hadv.lookup_child
    have hchild := hadv.child_eq
    rw [hsound.id_eq]
    by_cases hone : ws.oldestChkptId + 1 = ws.nextId
    · rw [hone, AList.lookup_insert] at hchild
      cases hchild
      exact hone
    · rw [AList.lookup_insert_ne hone] at hchild
      exact (h.sound _ _ hchild).id_eq.symm
  obtain ⟨m, hm⟩ : ∃ m, top = ws.oldestChkptId + 1 + m := ⟨top - (ws.oldestChkptId + 1), by omega⟩
  rw [show top - ws.oldestChkptId = m + 1 by omega,
    show top + 1 - ws.oldestChkptId = m + 1 + 1 by omega, List.range'_succ, List.range'_succ,
    List.range'_succ, List.reverse_cons, List.reverse_cons, List.reverse_cons, List.map_append,
    List.map_append, List.map_append, List.append_assoc]
  have hmap : (List.range' (ws.oldestChkptId + 1 + 1) m).reverse.map (said ws' key chkptId)
      = (List.range' (ws.oldestChkptId + 1 + 1) m).reverse.map (said ws key chkptId) := by
    refine List.map_congr_left ?_
    intro i hi
    rw [List.mem_reverse, List.mem_range'_1] at hi
    exact hother i (by omega)
  rw [hmap]
  exact visible_append_congr hbottom _

end Visible

/-! ## The window over whole runs -/

/-- A stack with one more id on top, of a checkpoint that does not exist. -/
theorem visible_range'_succ {ws : WorkingSet} {key : KeyBytes} {chkptId first m : ℕ}
    (hnone : ws.chkpts.lookup (first + m) = none) :
    visible ((List.range' first (m + 1)).reverse.map (said ws key chkptId))
      = visible ((List.range' first m).reverse.map (said ws key chkptId)) := by
  rw [List.range'_1_concat, List.reverse_append, List.reverse_singleton, List.singleton_append,
    List.map_cons]
  have hsaid : said ws key chkptId (first + m) = none := by
    unfold said
    rw [hnone]
    rfl
  rw [hsaid, visible_none]

theorem WindowInv.foundValue_advanced {size : ℕ} {waitForKeys : Bool} {ws ws' : WorkingSet}
    (h : WindowInv size waitForKeys ws) {parent child : Checkpoint}
    (hadv : Advanced ws ws' parent child) (deferredOps : Finset ℕ) (key : KeyBytes)
    {chkptId : ℕ} (hold : ws.oldestChkptId + 1 ≤ chkptId)
    (hnow : chkptId < ws.nextId ∨ chkptId ∉ deferredOps ∧ waitForKeys = false) :
    foundValue ws' deferredOps key chkptId = foundValue ws deferredOps key chkptId := by
  have h' := h.advanced hadv
  have hpos := h.size_pos
  have hle := h.size_le
  have holdest := h.oldest_eq
  have holdest' := h'.oldest_eq
  have hnewest := h.newest_eq
  have hnewest' := h'.newest_eq
  have hnext := hadv.nextId_eq
  rw [h.foundValue_eq deferredOps key (by omega) (hnow.imp_left fun hlt => by omega),
    h'.foundValue_eq deferredOps key (by omega) (hnow.imp_left fun hlt => by omega)]
  have hshift : ws'.oldestChkptId = ws.oldestChkptId + 1 := by omega
  unfold stackIds
  rw [hshift, hnewest, hnewest', hnext, Nat.add_sub_cancel]
  by_cases hlt : chkptId < ws.nextId
  · rw [min_eq_left (by omega), min_eq_left (by omega), Nat.add_sub_add_right]
    exact h.visible_advanced hadv key hold
  · -- a checkpoint of the future: the new checkpoint is on top of its stack
    rw [min_eq_right (by omega), min_eq_right (by omega), Nat.add_sub_add_right,
      h.visible_advanced hadv key (by omega),
      show ws.nextId + 1 - ws.oldestChkptId = ws.nextId - 1 + 1 - ws.oldestChkptId + 1 by omega]
    refine visible_range'_succ ?_
    rw [show ws.oldestChkptId + (ws.nextId - 1 + 1 - ws.oldestChkptId) = ws.nextId by omega,
      AList.lookup_eq_none, h.mem_iff]
    omega
