/-
# Pop removes a key

A pop of a key that an older checkpoint has leaves a tombstone, and so does a pop of a key
that persists.  A pop of any other key only takes it out of the map of its checkpoint, and
what the older checkpoints have for it is seen again.

`Shown` says, key by key, which keys `WorkingSet.keys` lists, and what `get` answers
follows from it.  A pop removes its key iff no older value is uncovered (`PopUncovers`),
and later calls bring the key back iff they put a value or drop a tombstone below
(`Uncovers`).
-/
import DragonRuntime.KeyMemoryReaders

open Overlay WorkingSet

/-! ## The keys that are listed -/

/-- The checkpoint lists the key for later checkpoints. -/
def KeyView.shows (waitForKeys : Bool) (view : KeyView) : Bool :=
  if waitForKeys then view.persist else view.value.isSome

/-- The checkpoint hides the key of the older checkpoints. -/
def KeyView.hides (waitForKeys : Bool) (view : KeyView) : Bool :=
  view.deleted && !view.shows waitForKeys

/-- A checkpoint before `c` lists the key, and none after it hides it. -/
def Shown (ws : WorkingSet) (key : KeyBytes) (c : ℕ) : Prop :=
  ∃ i, ws.oldestChkptId ≤ i ∧ i < c ∧ (viewAt ws key i).shows ws.waitForKeys = true ∧
    ∀ j, i < j → j < c → (viewAt ws key j).hides ws.waitForKeys = false

/-- No checkpoint after `c'` and up to `c` lists or hides the key. -/
def Silent (ws : WorkingSet) (key : KeyBytes) (c' c : ℕ) : Prop :=
  ∀ j, c' < j → j ≤ c → (viewAt ws key j).shows ws.waitForKeys = false ∧
    (viewAt ws key j).hides ws.waitForKeys = false

/-- The key is not there at checkpoint `c`. -/
structure Hidden (ws : WorkingSet) (key : KeyBytes) (c : ℕ) : Prop where
  not_own : (viewAt ws key c).value = none
  not_shown : ¬ Shown ws key (c + 1)

/-- A key that persists is in the map. -/
def PersistInv (ws : WorkingSet) : Prop :=
  ∀ key i, (viewAt ws key i).persist = true → (viewAt ws key i).value.isSome

section Listed

variable {size : ℕ} {waitForKeys : Bool} {ws ws' : WorkingSet} {key : KeyBytes} {c c' : ℕ}

/-- One checkpoint more. -/
theorem shown_succ (hc : ws.oldestChkptId ≤ c) :
    Shown ws key (c + 1) ↔ (viewAt ws key c).shows ws.waitForKeys = true ∨
      (viewAt ws key c).hides ws.waitForKeys = false ∧ Shown ws key c := by
  constructor
  · rintro ⟨i, hi, hic, hshows, hkeep⟩
    by_cases heq : i = c
    · subst heq
      exact Or.inl hshows
    · refine Or.inr ⟨hkeep c (by omega) (by omega), i, hi, by omega, hshows, ?_⟩
      exact fun j hij hjc => hkeep j hij (by omega)
  · rintro (hshows | ⟨hhides, i, hi, hic, hshows, hkeep⟩)
    · exact ⟨c, hc, Nat.lt_succ_self c, hshows, fun j hcj hjc => absurd hjc (by omega)⟩
    · refine ⟨i, hi, by omega, hshows, ?_⟩
      intro j hij hjc
      by_cases heq : j = c
      · subst heq
        exact hhides
      · exact hkeep j hij (by omega)

/-- A key that is listed up to `c` is listed after `c'`, or nothing after `c'` hides it and
it is listed up to `c'`. -/
theorem shown_split (hc' : ws.oldestChkptId ≤ c') (hle : c' ≤ c) :
    Shown ws key (c + 1) ↔
      (∃ i, c' < i ∧ i ≤ c ∧ (viewAt ws key i).shows ws.waitForKeys = true ∧
        ∀ j, i < j → j ≤ c → (viewAt ws key j).hides ws.waitForKeys = false) ∨
      (∀ j, c' < j → j ≤ c → (viewAt ws key j).hides ws.waitForKeys = false) ∧
        Shown ws key (c' + 1) := by
  constructor
  · rintro ⟨i, hi, hic, hshows, hkeep⟩
    by_cases hlater : c' < i
    · refine Or.inl ⟨i, hlater, by omega, hshows, ?_⟩
      exact fun j hij hjc => hkeep j hij (by omega)
    · refine Or.inr ⟨fun j hj hjc => hkeep j (by omega) (by omega), i, hi, by omega, hshows, ?_⟩
      exact fun j hij hjc => hkeep j hij (by omega)
  · rintro (⟨i, hi, hic, hshows, hkeep⟩ | ⟨hkeep, i, hi, hic, hshows, hkeep'⟩)
    · exact ⟨i, by omega, by omega, hshows, fun j hij hjc => hkeep j hij (by omega)⟩
    · refine ⟨i, hi, by omega, hshows, ?_⟩
      intro j hij hjc
      by_cases hlater : c' < j
      · exact hkeep j hlater (by omega)
      · exact hkeep' j hij (by omega)

/-- What is listed of a key that no checkpoint after `c'` lists. -/
theorem shown_iff_silent (hc' : ws.oldestChkptId ≤ c') (hle : c' ≤ c)
    (hnot : ∀ i, c' < i → i ≤ c → (viewAt ws key i).shows ws.waitForKeys = true →
      ∃ j, i < j ∧ j ≤ c ∧ (viewAt ws key j).hides ws.waitForKeys = true) :
    Shown ws key (c + 1) ↔ Silent ws key c' c ∧ Shown ws key (c' + 1) := by
  rw [shown_split hc' hle]
  constructor
  · rintro (⟨i, hi, hic, hshows, hkeep⟩ | ⟨hkeep, hshown⟩)
    · obtain ⟨j, hij, hjc, hhides⟩ := hnot i hi hic hshows
      rw [hkeep j hij hjc] at hhides
      cases hhides
    · refine ⟨?_, hshown⟩
      intro j hj hjc
      refine ⟨?_, hkeep j hj hjc⟩
      by_contra hshows
      rw [Bool.not_eq_false] at hshows
      obtain ⟨k, hjk, hkc, hhides⟩ := hnot j hj hjc hshows
      rw [hkeep k (by omega) hkc] at hhides
      cases hhides
  · rintro ⟨hsilent, hshown⟩
    exact Or.inr ⟨fun j hj hjc => (hsilent j hj hjc).2, hshown⟩

/-- A key that is hidden and listed by a later checkpoint is hidden after it. -/
theorem Hidden.exists_hides (h : Hidden ws key c) (hc' : ws.oldestChkptId ≤ c') {i : ℕ}
    (hi : c' < i) (hic : i ≤ c) (hshows : (viewAt ws key i).shows ws.waitForKeys = true) :
    ∃ j, i < j ∧ j ≤ c ∧ (viewAt ws key j).hides ws.waitForKeys = true := by
  by_contra hnone
  refine h.not_shown ⟨i, by omega, by omega, hshows, ?_⟩
  intro j hij hjc
  by_contra hhides
  rw [Bool.not_eq_false] at hhides
  exact hnone ⟨j, hij, by omega, hhides⟩

end Listed

/-! ## What the readers report -/

/-- Every reader reports the key absent at checkpoint `c`: with `wait_for_keys` a get may
wait for it. -/
structure ReportsAbsent (ws : WorkingSet) (deferredOps : Finset ℕ) (key : KeyBytes) (c : ℕ) :
    Prop where
  get : getOpPerform ws deferredOps c key = .ok (some none) ∨
    ws.waitForKeys = true ∧ getOpPerform ws deferredOps c key = .ok none
  contains : containsOpPerform ws deferredOps c key = .ok false
  keys : ∃ keys, ws.keys c = .ok keys ∧ key ∉ keys

section Readers

variable {size : ℕ} {waitForKeys : Bool} {ws ws' : WorkingSet} {key : KeyBytes} {c : ℕ}

theorem mem_mapKeys {chkpt : Checkpoint} : key ∈ chkpt.mapKeys ↔ key ∈ chkpt.map := by
  unfold Checkpoint.mapKeys
  rw [List.mem_toFinset, AList.mem_keys]

theorem shows_keyView (chkpt : Checkpoint) (key : KeyBytes) :
    (chkpt.keyView key).shows waitForKeys = true ↔
      key ∈ if waitForKeys then chkpt.persist else chkpt.mapKeys := by
  unfold KeyView.shows Checkpoint.keyView
  cases waitForKeys with
  | false => simp [mem_mapKeys, AList.lookup_isSome]
  | true => simp

theorem mem_keys_layer (chkpt : Checkpoint) (keys : Finset KeyBytes) :
    key ∈ keys \ chkpt.deleted ∪ (if waitForKeys then chkpt.persist else chkpt.mapKeys) ↔
      (chkpt.keyView key).shows waitForKeys = true ∨
        key ∈ keys ∧ (chkpt.keyView key).hides waitForKeys = false := by
  have hdeleted : (chkpt.keyView key).deleted = true ↔ key ∈ chkpt.deleted := by
    unfold Checkpoint.keyView
    simp
  rw [Finset.mem_union, Finset.mem_sdiff, ← shows_keyView, ← hdeleted]
  unfold KeyView.hides
  cases (chkpt.keyView key).shows waitForKeys with
  | true => simp
  | false => simp

/-- The loop of `keys` lists what its checkpoints list and none after them hides. -/
theorem keysLoop_listed (key : KeyBytes) (first n : ℕ) (keys : Finset KeyBytes)
    (hids : ∀ i, first ≤ i → i < first + n → i ∈ ws.chkpts) :
    ∃ keys', ws.keysLoop (List.range' first n) keys = .ok keys' ∧ (key ∈ keys' ↔
      (key ∈ keys ∧ ∀ j, first ≤ j → j < first + n →
        (viewAt ws key j).hides ws.waitForKeys = false) ∨
      ∃ i, first ≤ i ∧ i < first + n ∧ (viewAt ws key i).shows ws.waitForKeys = true ∧
        ∀ j, i < j → j < first + n → (viewAt ws key j).hides ws.waitForKeys = false) := by
  induction n generalizing first keys with
  | zero =>
    refine ⟨keys, rfl, ?_⟩
    constructor
    · exact fun hkey => Or.inl ⟨hkey, fun j h1 h2 => absurd h2 (by omega)⟩
    · rintro (⟨hkey, -⟩ | ⟨i, h1, h2, -⟩)
      · exact hkey
      · omega
  | succ n ih =>
    obtain ⟨chkpt, hchkpt⟩ := Option.isSome_iff_exists.mp
      (AList.lookup_isSome.mpr (hids first le_rfl (by omega)))
    obtain ⟨keys', hrun, hmem⟩ := ih (first + 1)
      (keys \ chkpt.deleted ∪ if ws.waitForKeys then chkpt.persist else chkpt.mapKeys)
      fun i h1 h2 => hids i (by omega) (by omega)
    refine ⟨keys', ?_, ?_⟩
    · rw [List.range'_succ, keysLoop, hchkpt]
      simp only
      split
      · rename_i hwait
        rw [if_pos hwait] at hrun
        exact hrun
      · rename_i hwait
        rw [if_neg hwait] at hrun
        exact hrun
    · rw [hmem, mem_keys_layer, ← viewAt_of_lookup hchkpt]
      constructor
      · rintro (⟨hshows | ⟨hkey, hhides⟩, hkeep⟩ | ⟨i, h1, h2, hshows, hkeep⟩)
        · exact Or.inr ⟨first, le_rfl, by omega, hshows,
            fun j hj hjn => hkeep j (by omega) (by omega)⟩
        · refine Or.inl ⟨hkey, ?_⟩
          intro j hj hjn
          by_cases hfirst : j = first
          · subst hfirst
            exact hhides
          · exact hkeep j (by omega) (by omega)
        · exact Or.inr ⟨i, by omega, by omega, hshows,
            fun j hj hjn => hkeep j hj (by omega)⟩
      · rintro (⟨hkey, hkeep⟩ | ⟨i, h1, h2, hshows, hkeep⟩)
        · exact Or.inl ⟨Or.inr ⟨hkey, hkeep first le_rfl (by omega)⟩,
            fun j hj hjn => hkeep j (by omega) (by omega)⟩
        · by_cases hfirst : i = first
          · subst hfirst
            exact Or.inl ⟨Or.inl hshows, fun j hj hjn => hkeep j (by omega) (by omega)⟩
          · exact Or.inr ⟨i, by omega, by omega, hshows,
              fun j hj hjn => hkeep j hj (by omega)⟩

/-- **`WorkingSet.keys`** lists exactly the keys that are not hidden. -/
theorem WindowInv.keys_hidden (h : WindowInv size waitForKeys ws) (key : KeyBytes)
    (hold : ws.oldestChkptId ≤ c) (hnew : c < ws.nextId) :
    ∃ keys, ws.keys c = .ok keys ∧ (key ∉ keys ↔ Hidden ws key c) := by
  have hpos := h.size_pos
  have hle := h.size_le
  have holdest := h.oldest_eq
  obtain ⟨chkpt, hchkpt⟩ := h.lookup_of_mem (i := c) (by omega) hnew
  obtain ⟨keys, hrun, hmem⟩ := keysLoop_listed key ws.oldestChkptId (c + 1 - ws.oldestChkptId) ∅
    fun i h1 h2 => (h.mem_iff i).mpr ⟨by omega, by omega⟩
  have hend : ws.oldestChkptId + (c + 1 - ws.oldestChkptId) = c + 1 := by omega
  rw [hend] at hmem
  have hshown : key ∈ keys ↔ Shown ws key (c + 1) := by
    rw [hmem]
    constructor
    · rintro (⟨hempty, -⟩ | hshown)
      · exact absurd hempty (Finset.notMem_empty key)
      · exact hshown
    · exact Or.inr
  have hown : key ∈ chkpt.mapKeys ↔ (viewAt ws key c).value ≠ none := by
    rw [mem_mapKeys, viewAt_of_lookup hchkpt]
    unfold Checkpoint.keyView
    rw [Ne, AList.lookup_eq_none, not_not]
  unfold WorkingSet.keys
  rw [if_neg (not_lt.mpr hold), h.newest_eq, min_eq_left (by omega)]
  simp only [hrun, hchkpt]
  refine ⟨keys ∪ chkpt.mapKeys, rfl, ?_⟩
  rw [Finset.mem_union, hshown, hown, not_or, not_not]
  constructor
  · rintro ⟨hnot, hnone⟩
    exact ⟨hnone, hnot⟩
  · rintro ⟨hnone, hnot⟩
    exact ⟨hnot, hnone⟩

/-- A value that is visible comes from a checkpoint over which all are silent. -/
theorem visible_range {first n : ℕ} {layer : ℕ → Option (Option ValList)} {valList : ValList}
    (hvisible : visible ((List.range' first n).reverse.map layer) = some valList) :
    ∃ i, first ≤ i ∧ i < first + n ∧ layer i = some (some valList) ∧
      ∀ j, i < j → j < first + n → layer j = none := by
  induction n with
  | zero => cases hvisible
  | succ n ih =>
    rw [List.range'_1_concat, List.reverse_append, List.reverse_singleton,
      List.singleton_append, List.map_cons] at hvisible
    cases hlayer : layer (first + n) with
    | none =>
      rw [hlayer, visible_none] at hvisible
      obtain ⟨i, h1, h2, hi, hnone⟩ := ih hvisible
      refine ⟨i, h1, by omega, hi, ?_⟩
      intro j hij hjn
      by_cases hlast : j = first + n
      · rw [hlast]
        exact hlayer
      · exact hnone j hij (by omega)
    | some said =>
      rw [hlayer, visible_some] at hvisible
      refine ⟨first + n, by omega, by omega, ?_, fun j hij hjn => absurd hjn (by omega)⟩
      rw [hlayer, hvisible]

/-- A checkpoint that tells a value shows the key, or is the checkpoint of the reader. -/
theorem WindowInv.said_value (h : WindowInv size waitForKeys ws) {i : ℕ} {valList : ValList}
    (hsaid : said ws key c i = some (some valList)) :
    (viewAt ws key i).value = some valList ∧
      (waitForKeys = true → (viewAt ws key i).persist = true ∨ c ≤ i) := by
  unfold said at hsaid
  cases hchkpt : ws.chkpts.lookup i with
  | none =>
    rw [hchkpt] at hsaid
    cases hsaid
  | some chkpt =>
    rw [hchkpt, Option.bind_some] at hsaid
    rw [viewAt_of_lookup hchkpt]
    have hid := (h.sound i chkpt hchkpt).id_eq
    cases hlookup : chkpt.map.lookup key with
    | none =>
      rw [Checkpoint.tells_of_notMem hlookup] at hsaid
      split at hsaid
      · cases hsaid
      · cases hsaid
    | some found =>
      rw [Checkpoint.tells_of_mem hlookup, h.waitForKeys_eq] at hsaid
      split at hsaid
      · cases hsaid
      · rename_i hshown
        cases hsaid
        refine ⟨hlookup, ?_⟩
        intro hwait
        by_contra hnot
        rw [not_or, not_le] at hnot
        refine hshown ⟨hwait, ?_, by omega⟩
        intro hpersist
        refine hnot.1 ?_
        unfold Checkpoint.keyView
        simp [hpersist]

theorem said_none {i : ℕ} (hsaid : said ws key c i = none) :
    (viewAt ws key i).deleted = false := by
  unfold said at hsaid
  cases hchkpt : ws.chkpts.lookup i with
  | none =>
    unfold viewAt keyViewAt
    rw [hchkpt]
    rfl
  | some chkpt =>
    rw [hchkpt, Option.bind_some] at hsaid
    rw [viewAt_of_lookup hchkpt]
    unfold Checkpoint.keyView
    cases hlookup : chkpt.map.lookup key with
    | none =>
      rw [Checkpoint.tells_of_notMem hlookup] at hsaid
      split at hsaid
      · cases hsaid
      · rename_i hdeleted
        exact decide_eq_false hdeleted
    | some found =>
      rw [Checkpoint.tells_of_mem hlookup] at hsaid
      split at hsaid
      · cases hsaid
      · cases hsaid

theorem WindowInv.visible_hidden (h : WindowInv size waitForKeys ws)
    (hhidden : Hidden ws key c) (hold : ws.oldestChkptId ≤ c) (hnew : c < ws.nextId) :
    visible ((stackIds ws c).map (said ws key c)) = none := by
  have hpos := h.size_pos
  have hle := h.size_le
  cases hvisible : visible ((stackIds ws c).map (said ws key c)) with
  | none => rfl
  | some valList =>
    exfalso
    unfold stackIds at hvisible
    rw [h.newest_eq, min_eq_left (by omega)] at hvisible
    obtain ⟨i, h1, h2, hsaid, hnone⟩ := visible_range hvisible
    obtain ⟨hvalue, hpersist⟩ := h.said_value hsaid
    by_cases hic : i = c
    · subst hic
      rw [hhidden.not_own] at hvalue
      cases hvalue
    · refine hhidden.not_shown ⟨i, h1, by omega, ?_, ?_⟩
      · unfold KeyView.shows
        rw [h.waitForKeys_eq]
        cases waitForKeys with
        | false =>
          rw [hvalue]
          rfl
        | true =>
          rcases hpersist rfl with hkeep | hle
          · exact hkeep
          · omega
      · intro j hij hjc
        unfold KeyView.hides
        rw [said_none (hnone j hij (by omega))]
        rfl

/-- **The readers agree**: a key is reported absent iff it is hidden. -/
theorem WindowInv.reportsAbsent_iff (h : WindowInv size waitForKeys ws) (deferredOps : Finset ℕ)
    (hold : ws.oldestChkptId ≤ c) (hnew : c < ws.nextId) :
    ReportsAbsent ws deferredOps key c ↔ Hidden ws key c := by
  have hpos := h.size_pos
  have hle := h.size_le
  have hnewest := h.newest_eq
  obtain ⟨keys, hkeys, hmem⟩ := h.keys_hidden key hold hnew
  constructor
  · rintro ⟨-, -, keys', hkeys', hnot⟩
    rw [hkeys] at hkeys'
    cases hkeys'
    exact hmem.mp hnot
  · intro hhidden
    have hvisible := h.visible_hidden hhidden hold hnew
    have hanswer : (ws.get deferredOps key c = .ok none ∧ ws.waitForKeys = true) ∨
        ∃ chkpt, ws.get deferredOps key c = .ok (some chkpt) ∧ chkpt.containsKey key = .ok false := by
      rcases h.get_spec deferredOps key hold with
        ⟨-, hlate, -⟩ | ⟨hrun, hwait, -⟩ | ⟨i, chkpt, hrun, hchkpt, hfound⟩
      · omega
      · exact Or.inl ⟨hrun, h.waitForKeys_eq.trans hwait⟩
      · refine Or.inr ⟨chkpt, hrun, ?_⟩
        rw [hvisible] at hfound
        rw [(h.sound i chkpt hchkpt).containsKey_eq,
          decide_eq_false (AList.lookup_eq_none.mp hfound.symm)]
    refine ⟨?_, ?_, keys, hkeys, hmem.mpr hhidden⟩
    · unfold getOpPerform
      rcases hanswer with ⟨hrun, hwait⟩ | ⟨chkpt, hrun, hcontains⟩
      · rw [hrun]
        exact Or.inr ⟨hwait, rfl⟩
      · rw [hrun]
        simp only [hcontains]
        exact Or.inl trivial
    · unfold containsOpPerform
      rw [if_neg (by omega)]
      rcases hanswer with ⟨hrun, -⟩ | ⟨chkpt, hrun, hcontains⟩
      · rw [hrun]
      · rw [hrun]
        simp only [hcontains]
        rw [if_neg (by omega)]

end Readers

/-! ## Calls on a key that is not there -/

/-- The pop takes the key out of its own checkpoint without a tombstone, and an older
checkpoint shows it. -/
def PopUncovers (ws : WorkingSet) (key : KeyBytes) (c : ℕ) : Prop :=
  (viewAt ws key c).value.isSome ∧ (viewAt ws key c).persist = false ∧
    (viewAt ws key c).deleted = false ∧ Shown ws key c

/-- The call puts a value for the key into checkpoint `c`. -/
def DictCall.writes (call : DictCall) (key : KeyBytes) (c : ℕ) : Bool :=
  match call with
  | .put _ chkptId _ k _ waitFor => decide (chkptId = c) && decide (k = key) && !waitFor
  | .batchPut _ chkptId _ k _ => decide (chkptId = c) && decide (k = key)
  | .fetchAdd _ chkptId k _ => decide (chkptId = c) && decide (k = key)
  | _ => false

/-- A value that is stored at an earlier checkpoint `c'` is seen at `c`, or the tombstone
that it replaces covered an older one. -/
def StoreUncovers (ws : WorkingSet) (key : KeyBytes) (c c' : ℕ) (persist : Bool) : Prop :=
  ws.oldestChkptId ≤ c' ∧ c' < c ∧ Silent ws key c' c ∧
    (ws.waitForKeys = false ∨ persist = true ∨ Shown ws key c')

/-- The call brings a key back that is not there at checkpoint `c`. -/
def Uncovers (ws : WorkingSet) (key : KeyBytes) (c : ℕ) : DictCall → Prop
  | .put _ c' persist k _ waitFor => k = key ∧ waitFor = false ∧ StoreUncovers ws key c c' persist
  | .batchPut _ c' persist k _ => k = key ∧ StoreUncovers ws key c c' persist
  | .fetchAdd _ c' k _ => k = key ∧ ws.oldestChkptId ≤ c' ∧ c' < c ∧ Silent ws key c' c ∧
      (viewAt ws key c').value = none
  | .clear _ c' => ws.oldestChkptId ≤ c' ∧ c' ≤ c ∧ Silent ws key c' c ∧ Shown ws key c'
  | _ => False

section Steps

variable {size : ℕ} {waitForKeys : Bool} {ws ws' : WorkingSet} {key : KeyBytes} {c c' : ℕ}

/-- Only the views before `c` matter. -/
theorem shown_congr (hold : ws'.oldestChkptId = ws.oldestChkptId)
    (hwait : ws'.waitForKeys = ws.waitForKeys)
    (hview : ∀ i, i < c → viewAt ws' key i = viewAt ws key i) :
    Shown ws' key c ↔ Shown ws key c := by
  unfold Shown
  rw [hold, hwait]
  constructor
  · rintro ⟨i, hi, hic, hshows, hkeep⟩
    refine ⟨i, hi, hic, by rwa [hview i hic] at hshows, ?_⟩
    intro j hij hjc
    rw [← hview j hjc]
    exact hkeep j hij hjc
  · rintro ⟨i, hi, hic, hshows, hkeep⟩
    refine ⟨i, hi, hic, by rwa [hview i hic], ?_⟩
    intro j hij hjc
    rw [hview j hjc]
    exact hkeep j hij hjc

theorem hidden_congr (hold : ws'.oldestChkptId = ws.oldestChkptId)
    (hwait : ws'.waitForKeys = ws.waitForKeys)
    (hview : ∀ i, i ≤ c → viewAt ws' key i = viewAt ws key i) :
    Hidden ws' key c ↔ Hidden ws key c := by
  have hshown : Shown ws' key (c + 1) ↔ Shown ws key (c + 1) :=
    shown_congr hold hwait fun i hi => hview i (by omega)
  constructor
  · rintro ⟨hown, hnot⟩
    exact ⟨by rwa [hview c le_rfl] at hown, fun h => hnot (hshown.mpr h)⟩
  · rintro ⟨hown, hnot⟩
    exact ⟨by rwa [hview c le_rfl], fun h => hnot (hshown.mp h)⟩

variable {view : KeyBytes → KeyView} {child parent chkpt : Checkpoint} {call : DictCall}

/-- **A change of one checkpoint** brings a hidden key back iff the checkpoint now shows it,
or no longer hides it, and the later checkpoints are silent. -/
theorem Hidden.changesAt (h : Hidden ws key c) (hchange : ChangesAt ws ws' c' view)
    (hwait : ws'.waitForKeys = ws.waitForKeys) (hc' : ws.oldestChkptId ≤ c') (hle : c' ≤ c)
    (hown : (viewAt ws' key c).value = none) :
    Hidden ws' key c ↔ ¬ (Silent ws key c' c ∧
      ((view key).shows ws.waitForKeys = true ∨
        (view key).hides ws.waitForKeys = false ∧ Shown ws key c')) := by
  have hold := hchange.oldest_eq
  have hlater : ∀ i, c' < i → viewAt ws' key i = viewAt ws key i := by
    intro i hi
    rw [hchange.viewAt_eq, if_neg (by omega)]
  have hearlier : ∀ i, i < c' → viewAt ws' key i = viewAt ws key i := by
    intro i hi
    rw [hchange.viewAt_eq, if_neg (by omega)]
  have hshown : Shown ws' key (c + 1) ↔ Silent ws' key c' c ∧ Shown ws' key (c' + 1) := by
    refine shown_iff_silent (by omega) hle ?_
    intro i hi hic hshows
    rw [hlater i hi, hwait] at hshows
    obtain ⟨j, hij, hjc, hhides⟩ := h.exists_hides hc' hi hic hshows
    refine ⟨j, hij, hjc, ?_⟩
    rw [hlater j (by omega), hwait]
    exact hhides
  have hsilent : Silent ws' key c' c ↔ Silent ws key c' c := by
    unfold Silent
    rw [hwait]
    constructor
    · intro hs j hj hjc
      rw [← hlater j hj]
      exact hs j hj hjc
    · intro hs j hj hjc
      rw [hlater j hj]
      exact hs j hj hjc
  have hbelow : Shown ws' key c' ↔ Shown ws key c' := shown_congr hold hwait hearlier
  have hat : Shown ws' key (c' + 1) ↔ (view key).shows ws.waitForKeys = true ∨
      (view key).hides ws.waitForKeys = false ∧ Shown ws key c' := by
    rw [shown_succ (by omega), hchange.viewAt_eq, if_pos rfl, hwait, hbelow]
  rw [← hsilent, ← hat, ← hshown]
  exact ⟨fun hh => hh.not_shown, fun hnot => ⟨hown, hnot⟩⟩

/-- A key that the child inherits was listed by the parent. -/
theorem Advanced.shows_parent (h : WindowInv size waitForKeys ws)
    (hadv : Advanced ws ws' parent child) (hparent : (viewAt ws key ws.oldestChkptId).value.isSome)
    (hchild : (viewAt ws key (ws.oldestChkptId + 1)).value.isSome = false) :
    (viewAt ws key ws.oldestChkptId).shows waitForKeys = true := by
  cases waitForKeys with
  | false => exact hparent
  | true =>
    by_contra hpersist
    rw [Bool.not_eq_true] at hpersist
    rw [hadv.persistent_view h hparent hpersist] at hchild
    cases hchild

/-- A key that is not kept in the child is taken from the parent. -/
theorem KeyView.inherit_cases (waitForKeys : Bool) (parent child : KeyView) :
    KeyView.inherit waitForKeys parent child = ⟨child.value, false, child.persist⟩ ∨
    (child.value.isSome = false ∧ child.deleted = false ∧ parent.value.isSome ∧
      KeyView.inherit waitForKeys parent child
        = ⟨parent.value, false, child.persist || waitForKeys⟩) := by
  unfold KeyView.inherit
  by_cases hkept : child.value.isSome ∨ child.deleted = true ∨ parent.value = none
  · rw [if_pos hkept]
    exact Or.inl rfl
  · rw [if_neg hkept]
    rw [not_or, not_or] at hkept
    obtain ⟨hvalue, hdeleted, hparent⟩ := hkept
    refine Or.inr ⟨by simpa using hvalue, by simpa using hdeleted, ?_, rfl⟩
    exact Option.isSome_iff_ne_none.mpr hparent

/-- **An advance brings no key back.** -/
theorem Hidden.advanced (hh : Hidden ws key c) (h : WindowInv size waitForKeys ws)
    (hadv : Advanced ws ws' parent child) (hold : ws'.oldestChkptId ≤ c) : Hidden ws' key c := by
  have h' := h.advanced hadv
  have hwait := h.waitForKeys_eq
  have hwait' := h'.waitForKeys_eq
  have holdest : ws'.oldestChkptId = ws.oldestChkptId + 1 := by
    have hle := h.size_le
    rw [h.oldest_eq, h'.oldest_eq, hadv.nextId_eq]
    omega
  have hlater : ∀ i, ws.oldestChkptId + 1 < i → viewAt ws' key i = viewAt ws key i := by
    intro i hi
    rw [hadv.viewAt_eq h key (by omega), if_neg (by omega)]
  have hheir := hadv.viewAt_eq h key (Nat.lt_succ_self ws.oldestChkptId)
  rw [if_pos rfl] at hheir
  -- a value of the parent that nothing above hides would be listed
  have hparent : (viewAt ws key ws.oldestChkptId).value.isSome →
      (viewAt ws key (ws.oldestChkptId + 1)).value.isSome = false →
      (viewAt ws key (ws.oldestChkptId + 1)).deleted = false →
      (∀ j, ws.oldestChkptId + 1 < j → j < c + 1 →
        (viewAt ws key j).hides waitForKeys = false) → Shown ws key (c + 1) := by
    intro hvalue hchild hdeleted hkeep
    refine ⟨ws.oldestChkptId, le_rfl, by omega, ?_, ?_⟩
    · rw [hwait]
      exact hadv.shows_parent h hvalue hchild
    · intro j hj hjc
      rw [hwait]
      by_cases hfirst : j = ws.oldestChkptId + 1
      · unfold KeyView.hides
        rw [hfirst, hdeleted]
        rfl
      · exact hkeep j (by omega) hjc
  constructor
  · by_cases hc : c = ws.oldestChkptId + 1
    · rw [hc, hheir]
      rcases KeyView.inherit_cases waitForKeys (viewAt ws key ws.oldestChkptId)
        (viewAt ws key (ws.oldestChkptId + 1)) with heq | ⟨hchild, hdeleted, hvalue, -⟩
      · rw [heq, ← hc]
        exact hh.not_own
      · refine absurd (hparent hvalue hchild hdeleted ?_) hh.not_shown
        intro j hj hjc
        omega
    · rw [hlater c (by omega)]
      exact hh.not_own
  · rintro ⟨i, hi, hic, hshows, hkeep⟩
    rw [hwait'] at hshows hkeep
    have hkeep' : ∀ j, i < j → j < c + 1 → (viewAt ws key j).hides waitForKeys = false := by
      intro j hij hjc
      rw [← hlater j (by omega)]
      exact hkeep j hij hjc
    by_cases hfirst : i = ws.oldestChkptId + 1
    · subst hfirst
      rw [hheir] at hshows
      rcases KeyView.inherit_cases waitForKeys (viewAt ws key ws.oldestChkptId)
        (viewAt ws key (ws.oldestChkptId + 1)) with heq | ⟨hchild, hdeleted, hvalue, -⟩
      · rw [heq] at hshows
        refine hh.not_shown ⟨ws.oldestChkptId + 1, Nat.le_succ _, hic, ?_, ?_⟩
        · rw [hwait]
          exact hshows
        · rw [hwait]
          exact hkeep'
      · exact hh.not_shown (hparent hvalue hchild hdeleted hkeep')
    · refine hh.not_shown ⟨i, by omega, hic, ?_, ?_⟩
      · rw [hwait, ← hlater i (by omega)]
        exact hshows
      · rw [hwait]
        exact hkeep'

/-! ## Keys that persist are in the map -/

theorem persistInv_init (start size : ℕ) (waitForKeys waitForWriters : Bool) :
    PersistInv (WorkingSet.init start size waitForKeys waitForWriters) := by
  intro key i hpersist
  rw [viewAt_init] at hpersist
  cases hpersist

theorem PersistInv.advanced (hp : PersistInv ws) (h : WindowInv size waitForKeys ws)
    (hadv : Advanced ws ws' parent child) : PersistInv ws' := by
  have h' := h.advanced hadv
  have holdest : ws'.oldestChkptId = ws.oldestChkptId + 1 := by
    have hle := h.size_le
    rw [h.oldest_eq, h'.oldest_eq, hadv.nextId_eq]
    omega
  intro key i hpersist
  by_cases hi : i ≤ ws.oldestChkptId
  · rw [h'.viewAt_outside key (Or.inl (by omega))] at hpersist
    cases hpersist
  · rw [hadv.viewAt_eq h key (by omega)] at hpersist ⊢
    by_cases hchild : i = ws.oldestChkptId + 1
    · rw [if_pos hchild] at hpersist ⊢
      rcases KeyView.inherit_cases waitForKeys (viewAt ws key ws.oldestChkptId)
        (viewAt ws key (ws.oldestChkptId + 1)) with heq | ⟨-, -, hvalue, heq⟩
      · rw [heq] at hpersist ⊢
        exact hp key _ hpersist
      · rw [heq]
        exact hvalue
    · rw [if_neg hchild] at hpersist ⊢
      exact hp key i hpersist

theorem DictCall.Changes.persist (hchanges : call.Changes c chkpt view)
    (hchkpt : ∀ k, (chkpt.keyView k).persist = true → (chkpt.keyView k).value.isSome) (k : KeyBytes)
    (hpersist : (view k).persist = true) : (view k).value.isSome := by
  have hwith : ∀ (key : KeyBytes) (new : KeyView), (new.persist = true → new.value.isSome) →
      (chkpt.viewWith key new k).persist = true → (chkpt.viewWith key new k).value.isSome := by
    intro key new hnew
    unfold Checkpoint.viewWith
    by_cases hk : k = key
    · rw [if_pos hk]
      exact hnew
    · rw [if_neg hk]
      exact hchkpt k
  cases call with
  | put _ _ _ key =>
    obtain ⟨-, -, rfl⟩ := hchanges
    exact hwith key _ (fun _ => rfl) hpersist
  | batchPut _ _ _ key =>
    obtain ⟨-, rfl⟩ := hchanges
    exact hwith key _ (fun _ => rfl) hpersist
  | fetchAdd _ _ key =>
    obtain ⟨-, valList, rfl⟩ := hchanges
    exact hwith key _ (fun _ => rfl) hpersist
  | pop _ _ _ key =>
    obtain ⟨-, rfl⟩ := hchanges
    refine hwith key _ ?_ hpersist
    unfold Checkpoint.popView
    by_cases hkey : key ∈ chkpt.map
    · rw [if_pos hkey]
      exact nofun
    · rw [if_neg hkey]
      intro hkeep
      exact absurd (AList.lookup_isSome.mp (hchkpt key hkeep)) hkey
  | clear =>
    obtain ⟨-, rfl⟩ := hchanges
    cases hpersist
  | get => cases hchanges
  | read => cases hchanges
  | access => cases hchanges
  | advance => cases hchanges

theorem PersistInv.dictCall (hp : PersistInv ws) (h : WindowInv size waitForKeys ws)
    (pickler : XPickler) (call : DictCall) : PersistInv (dictStep pickler ws call) := by
  obtain ⟨ws1, hadv, -, hstep⟩ := h.dictStep_cases pickler call
  obtain ⟨h1, hp1⟩ := hadv.invariant h hp fun ws ws1 parent child h hadv hp => hp.advanced h hadv
  intro key i hpersist
  rcases hstep with ⟨-, hsame⟩ | ⟨c, chkpt, view, -, hlookup, hchanges, hat⟩
  · rw [hsame.viewAt_eq] at hpersist ⊢
    exact hp1 key i hpersist
  · rw [hat.viewAt_eq] at hpersist ⊢
    by_cases hi : i = c
    · rw [if_pos hi] at hpersist ⊢
      refine hchanges.persist ?_ key hpersist
      intro k hk
      rw [← viewAt_of_lookup hlookup] at hk ⊢
      exact hp1 k c hk
    · rw [if_neg hi] at hpersist ⊢
      exact hp1 key i hpersist

/-! ## One call -/

/-- Under silent checkpoints, a hidden key is not listed up to `c'` either. -/
theorem Hidden.not_shown_below (hh : Hidden ws key c) (hc' : ws.oldestChkptId ≤ c') (hle : c' ≤ c)
    (hsilent : Silent ws key c' c) :
    (viewAt ws key c').shows ws.waitForKeys = false ∧
      ((viewAt ws key c').hides ws.waitForKeys = false → ¬ Shown ws key c') := by
  have hnot : ¬ Shown ws key (c' + 1) := by
    intro hshown
    exact hh.not_shown ((shown_split hc' hle).mpr
      (Or.inr ⟨fun j hj hjc => (hsilent j hj hjc).2, hshown⟩))
  rw [shown_succ hc', not_or, not_and] at hnot
  exact ⟨by simpa using hnot.1, hnot.2⟩

theorem DictCall.Changes.chkptId?_eq (hchanges : call.Changes c' chkpt view) :
    call.chkptId? = some c' := by
  cases call with
  | put => exact congrArg some hchanges.1
  | batchPut => exact congrArg some hchanges.1
  | fetchAdd => exact congrArg some hchanges.1
  | pop => exact congrArg some hchanges.1
  | clear => exact congrArg some hchanges.1
  | get => cases hchanges
  | read => cases hchanges
  | access => cases hchanges
  | advance => cases hchanges

theorem Uncovers.chkptId?_eq (hun : Uncovers ws key c call) :
    ∃ c', call.chkptId? = some c' ∧ ws.oldestChkptId ≤ c' ∧ c' ≤ c := by
  cases call with
  | put _ c' =>
    obtain ⟨-, -, hold, hlt, -⟩ := hun
    exact ⟨c', rfl, hold, hlt.le⟩
  | batchPut _ c' | fetchAdd _ c' =>
    obtain ⟨-, hold, hlt, -⟩ := hun
    exact ⟨c', rfl, hold, hlt.le⟩
  | clear _ c' =>
    obtain ⟨hold, hle, -⟩ := hun
    exact ⟨c', rfl, hold, hle⟩
  | pop => cases hun
  | get => cases hun
  | read => cases hun
  | access => cases hun
  | advance => cases hun

/-- A stored value brings a hidden key back iff it is seen at `c`. -/
theorem Hidden.store_iff (hh : Hidden ws key c) (hc' : ws.oldestChkptId ≤ c') (hlt : c' < c)
    {valList : ValList} {persist : Bool} :
    Silent ws key c' c ∧
      ((⟨some valList, false, persist || (viewAt ws key c').persist⟩ : KeyView).shows
          ws.waitForKeys = true ∨
        (⟨some valList, false, persist || (viewAt ws key c').persist⟩ : KeyView).hides
          ws.waitForKeys = false ∧ Shown ws key c') ↔
    StoreUncovers ws key c c' persist := by
  unfold StoreUncovers
  constructor
  · rintro ⟨hsilent, hseen⟩
    obtain ⟨hshows, -⟩ := hh.not_shown_below hc' hlt.le hsilent
    refine ⟨hc', hlt, hsilent, ?_⟩
    unfold KeyView.shows at hseen hshows
    cases hwait : ws.waitForKeys with
    | false => exact Or.inl rfl
    | true =>
      rw [hwait, if_pos rfl] at hshows
      rw [hwait, if_pos rfl, hshows, Bool.or_false] at hseen
      exact Or.inr (hseen.imp_right And.right)
  · rintro ⟨-, -, hsilent, hseen⟩
    refine ⟨hsilent, ?_⟩
    unfold KeyView.shows KeyView.hides
    rcases hseen with hwait | hpersist | hshown
    · rw [hwait]
      exact Or.inl rfl
    · rw [hpersist]
      exact Or.inl (by simp)
    · exact Or.inr ⟨rfl, hshown⟩

theorem Hidden.other_key (hh : Hidden ws key c) (hat : ChangesAt ws ws' c' view)
    (hwait : ws'.waitForKeys = ws.waitForKeys) (hview : view key = viewAt ws key c') :
    Hidden ws' key c := by
  refine (hidden_congr hat.oldest_eq hwait ?_).mpr hh
  intro i hi
  rw [hat.viewAt_eq]
  by_cases hic : i = c'
  · rw [if_pos hic, hview, hic]
  · rw [if_neg hic]

/-- **One change** of a checkpoint that is not after `c`. -/
theorem Hidden.changes_iff (hh : Hidden ws key c) (hp : PersistInv ws) (hc' : ws.oldestChkptId ≤ c')
    (hlookup : ws.chkpts.lookup c' = some chkpt) (hchanges : call.Changes c' chkpt view)
    (hat : ChangesAt ws ws' c' view) (hwait : ws'.waitForKeys = ws.waitForKeys) (hle : c' ≤ c)
    (hwrites : call.writes key c = false) : Hidden ws' key c ↔ ¬ Uncovers ws key c call := by
  have hview := viewAt_of_lookup hlookup
  have hlater : c' < c → (viewAt ws' key c).value = none := by
    intro hlt
    rw [hat.viewAt_eq, if_neg (by omega)]
    exact hh.not_own
  have hother : ∀ {k : KeyBytes} {new : KeyView}, view = chkpt.viewWith k new → k ≠ key →
      Hidden ws' key c := by
    rintro k new rfl hk
    refine hh.other_key hat hwait ?_
    unfold Checkpoint.viewWith
    rw [if_neg (Ne.symm hk), hview]
  have hsame : ∀ (k : KeyBytes) (new : KeyView), chkpt.viewWith k new k = new :=
    fun k new => if_pos rfl
  cases call with
  | put _ chkptId _ k =>
    obtain ⟨rfl, rfl, hnew⟩ := hchanges
    by_cases hk : k = key
    · subst hk
      have hlt : chkptId < c := by
        refine lt_of_le_of_ne hle ?_
        rintro rfl
        simp [DictCall.writes] at hwrites
      rw [hh.changesAt hat hwait hc' hle (hlater hlt), hnew, hsame, ← hview,
        hh.store_iff hc' hlt]
      simp [Uncovers]
    · exact iff_of_true (hother hnew hk) fun hun => hk hun.1
  | batchPut _ chkptId _ k =>
    obtain ⟨rfl, hnew⟩ := hchanges
    by_cases hk : k = key
    · subst hk
      have hlt : chkptId < c := by
        refine lt_of_le_of_ne hle ?_
        rintro rfl
        simp [DictCall.writes] at hwrites
      rw [hh.changesAt hat hwait hc' hle (hlater hlt), hnew, hsame, ← hview,
        hh.store_iff hc' hlt]
      simp [Uncovers]
    · exact iff_of_true (hother hnew hk) fun hun => hk hun.1
  | fetchAdd _ chkptId k =>
    obtain ⟨rfl, valList, hnew⟩ := hchanges
    by_cases hk : k = key
    · subst hk
      have hlt : chkptId < c := by
        refine lt_of_le_of_ne hle ?_
        rintro rfl
        simp [DictCall.writes] at hwrites
      rw [hh.changesAt hat hwait hc' hle (hlater hlt), hnew, hsame, ← hview, not_iff_not]
      constructor
      · rintro ⟨hsilent, hseen⟩
        refine ⟨rfl, hc', hlt, hsilent, ?_⟩
        -- a value that is there is replaced, and shows and hides as before
        by_contra hvalue
        obtain ⟨hshows, hhides⟩ := hh.not_shown_below hc' hle hsilent
        have hsome := Option.isSome_iff_ne_none.mpr hvalue
        have hnone : (viewAt ws k chkptId).value.isNone = false := by
          rw [← Option.not_isSome, hsome]
          rfl
        unfold KeyView.shows at hshows
        unfold KeyView.hides KeyView.shows at hseen hhides
        rw [hnone, Bool.or_false] at hseen
        rw [hsome] at hshows hhides
        rw [Option.isSome_some, hshows] at hseen
        rw [hshows] at hhides
        rcases hseen with hseen | ⟨hkeep, hshown⟩
        · cases hseen
        · exact hhides hkeep hshown
      · rintro ⟨-, -, -, hsilent, hvalue⟩
        refine ⟨hsilent, Or.inl ?_⟩
        unfold KeyView.shows
        rw [hvalue]
        simp
    · exact iff_of_true (hother hnew hk) fun hun => hk hun.1
  | pop _ _ chkptId k =>
    obtain ⟨rfl, hnew⟩ := hchanges
    refine iff_of_true ?_ nofun
    by_cases hk : k = key
    · subst hk
      have hnone : (chkpt.popView k).value = none := by
        unfold Checkpoint.popView
        split
        · rfl
        · rfl
      have hown : (viewAt ws' k c).value = none := by
        rw [hat.viewAt_eq]
        by_cases hic : c = chkptId
        · rw [if_pos hic, hnew, hsame]
          exact hnone
        · rw [if_neg hic]
          exact hh.not_own
      rw [hh.changesAt hat hwait hc' hle hown, hnew, hsame]
      rintro ⟨hsilent, hseen⟩
      obtain ⟨-, hhides⟩ := hh.not_shown_below hc' hle hsilent
      rw [hview] at hhides
      unfold Checkpoint.popView at hseen
      by_cases hkey : k ∈ chkpt.map
      · rw [if_pos hkey] at hseen
        unfold KeyView.hides KeyView.shows at hseen hhides
        rcases hseen with hseen | ⟨hkeep, hshown⟩
        · simp at hseen
        · refine hhides ?_ hshown
          simp at hkeep
          simp [hkeep]
      · have hpersist : (chkpt.keyView k).persist = false := by
          by_contra hpersist
          rw [Bool.not_eq_false, ← hview] at hpersist
          have hvalue := hp k chkptId hpersist
          rw [hview] at hvalue
          exact hkey (AList.lookup_isSome.mp hvalue)
        rw [if_neg hkey, hpersist] at hseen
        unfold KeyView.hides KeyView.shows at hseen
        simp at hseen
    · exact hother hnew hk
  | clear _ chkptId =>
    obtain ⟨rfl, rfl⟩ := hchanges
    have hown : (viewAt ws' key c).value = none := by
      rw [hat.viewAt_eq]
      by_cases hic : c = chkptId
      · rw [if_pos hic]
        rfl
      · rw [if_neg hic]
        exact hh.not_own
    rw [hh.changesAt hat hwait hc' hle hown, not_iff_not]
    have hshows : KeyView.empty.shows ws.waitForKeys = false := by
      unfold KeyView.shows
      split
      · rfl
      · rfl
    constructor
    · rintro ⟨hsilent, hseen⟩
      rw [hshows] at hseen
      exact ⟨hc', hle, hsilent, (hseen.resolve_left nofun).2⟩
    · rintro ⟨-, -, hsilent, hshown⟩
      exact ⟨hsilent, Or.inr ⟨rfl, hshown⟩⟩
  | get => cases hchanges
  | read => cases hchanges
  | access => cases hchanges
  | advance => cases hchanges

end Steps

/-! ## Runs -/

/-- The state of a run after a pop: while checkpoint `c` is in the window, the key is not
there. -/
structure Gone (size : ℕ) (waitForKeys : Bool) (ws : WorkingSet) (key : KeyBytes) (c : ℕ) :
    Prop where
  window : WindowInv size waitForKeys ws
  persist : PersistInv ws
  lt_next : c < ws.nextId
  hidden : ws.oldestChkptId ≤ c → Hidden ws key c

section Runs

variable {size : ℕ} {waitForKeys : Bool} {ws ws' : WorkingSet} {key : KeyBytes} {c : ℕ}

theorem Gone.advances (hg : Gone size waitForKeys ws key c) (hadv : Advances ws ws') :
    Gone size waitForKeys ws' key c := by
  have hrun := hadv.invariant (I := fun ws => Gone size waitForKeys ws key c) hg.window hg ?_
  · exact hrun.2
  · intro ws ws1 parent child h hadv hg
    have h1 := h.advanced hadv
    have hnext := hadv.nextId_eq
    have hlt := hg.lt_next
    refine ⟨h1, hg.persist.advanced h hadv, by omega, ?_⟩
    intro hold
    have holdest := h.oldest_eq
    have holdest1 := h1.oldest_eq
    exact (hg.hidden (by omega)).advanced h hadv hold

theorem Gone.sameKeys (hg : Gone size waitForKeys ws key c) (hsame : SameKeys ws ws')
    (h' : WindowInv size waitForKeys ws') (hp' : PersistInv ws') :
    Gone size waitForKeys ws' key c := by
  refine ⟨h', hp', ?_, ?_⟩
  · rw [hsame.nextId_eq]
    exact hg.lt_next
  · intro hold
    rw [hsame.oldest_eq] at hold
    refine (hidden_congr hsame.oldest_eq ?_ fun i _ => hsame.viewAt_eq key i).mpr (hg.hidden hold)
    rw [h'.waitForKeys_eq, hg.window.waitForKeys_eq]

/-- **Step lemma.**  A call that does not store the key at `c` keeps it away iff it does not
uncover it. -/
theorem Gone.dictStep_iff (hg : Gone size waitForKeys ws key c) (pickler : XPickler)
    {call : DictCall} (hwrites : call.writes key c = false) :
    Gone size waitForKeys (dictStep pickler ws call) key c ↔
      (ws.oldestChkptId ≤ c → ¬ Uncovers ws key c call) := by
  have h := hg.window
  have h' := h.dictCall pickler call
  have hp' := hg.persist.dictCall h pickler call
  have hlt := hg.lt_next
  obtain ⟨ws1, hadv, hstay, hstep⟩ := h.dictStep_cases pickler call
  have hg1 := hg.advances hadv
  have h1 := hg1.window
  have hwait : (dictStep pickler ws call).waitForKeys = ws1.waitForKeys := by
    rw [h'.waitForKeys_eq, h1.waitForKeys_eq]
  rcases hstep with ⟨hidle, hsame⟩ | ⟨c', chkpt, view, -, hlookup, hchanges, hat⟩
  · -- nothing changes: the checkpoint of the call does not exist, or has the key
    refine iff_of_true (hg1.sameKeys hsame h' hp') ?_
    intro hold hun
    obtain ⟨c', hid, hold', hle⟩ := hun.chkptId?_eq
    have hws := hstay c' hid (by omega)
    subst hws
    obtain ⟨chkpt, hlookup⟩ := h.lookup_of_mem (i := c') (by rw [← h.oldest_eq]; exact hold')
      (by omega)
    cases call with
    | put =>
      cases hid
      have hnone := hidle hun.2.1
      rw [hlookup] at hnone
      cases hnone
    | batchPut =>
      cases hid
      have hnone : ws1.chkpts.lookup c' = none := hidle
      rw [hlookup] at hnone
      cases hnone
    | fetchAdd =>
      cases hid
      obtain ⟨rfl, -, -, -, hvalue⟩ := hun
      rcases hidle with hnone | hsome
      · rw [hlookup] at hnone
        cases hnone
      · rw [hvalue] at hsome
        cases hsome
    | clear =>
      cases hid
      have hnone : ws1.chkpts.lookup c' = none := hidle
      rw [hlookup] at hnone
      cases hnone
    | pop => cases hun
    | get => cases hun
    | read => cases hun
    | access => cases hun
    | advance => cases hun
  · have hid := hchanges.chkptId?_eq
    have hnext := hat.nextId_eq
    have holdest := hat.oldest_eq
    have hlt1 := hg1.lt_next
    have hmem := (h1.mem_iff c').mp (by
      rw [← AList.lookup_isSome, hlookup]
      rfl)
    rw [← h1.oldest_eq] at hmem
    by_cases hlater : c < c'
    · -- a later checkpoint
      refine iff_of_true ⟨h', hp', by omega, ?_⟩ ?_
      · intro hold
        refine (hidden_congr holdest hwait ?_).mpr (hg1.hidden (by omega))
        intro i hi
        rw [hat.viewAt_eq, if_neg (by omega)]
      · intro _ hun
        obtain ⟨c'', hid', -, hle⟩ := hun.chkptId?_eq
        rw [hid] at hid'
        cases hid'
        omega
    · have hws := hstay c' hid (by omega)
      subst hws
      have hold : ws1.oldestChkptId ≤ c := by omega
      have hiff := (hg.hidden hold).changes_iff hg.persist hmem.1 hlookup hchanges hat hwait
        (not_lt.mp hlater) hwrites
      constructor
      · intro hg' _
        exact hiff.mp (hg'.hidden (by omega))
      · intro hnot
        exact ⟨h', hp', by omega, fun _ => hiff.mpr (hnot hold)⟩

/-- **A successful pop** removes its key iff it does not uncover an older value. -/
theorem WindowInv.gone_pop_iff (h : WindowInv size waitForKeys ws) (hp : PersistInv ws)
    (pickler : XPickler) {deferredOps : Finset ℕ} (clientId : ℕ)
    (hpop : popSucceeds ws deferredOps c key = true) :
    ws.oldestChkptId ≤ c ∧ c < ws.nextId ∧
      (Gone size waitForKeys (dictStep pickler ws (.pop deferredOps clientId c key)) key c ↔
        ¬ PopUncovers ws key c) := by
  have h' := h.dictCall pickler (.pop deferredOps clientId c key)
  have hp' := hp.dictCall h pickler (.pop deferredOps clientId c key)
  rcases h.popOp_cases deferredOps clientId c key with
    ⟨hfails, -⟩ | ⟨-, chkpt, chkpt', hlookup, hperform, -, hkeys⟩
  · rw [hfails] at hpop
    cases hpop
  · have hat := (changesAt_setChkpt ws c chkpt').congr hkeys
    generalize ws.setChkpt c chkpt' = ws' at *
    have hstep : dictStep pickler ws (.pop deferredOps clientId c key) = ws' := by
      unfold dictStep
      simp only [hperform]
    rw [hstep] at h' hp' ⊢
    have hmem := (h.mem_iff c).mp (by
      rw [← AList.lookup_isSome, hlookup]
      rfl)
    rw [← h.oldest_eq] at hmem
    refine ⟨hmem.1, hmem.2, ?_⟩
    have hview := viewAt_of_lookup hlookup key
    have hwait : ws'.waitForKeys = ws.waitForKeys := by
      rw [h'.waitForKeys_eq, h.waitForKeys_eq]
    have hat' : viewAt ws' key c = chkpt.popView key := by
      rw [hat.viewAt_eq, if_pos rfl]
      exact if_pos rfl
    have hbelow : Shown ws' key c ↔ Shown ws key c := by
      refine shown_congr hat.oldest_eq hwait ?_
      intro i hi
      rw [hat.viewAt_eq, if_neg (by omega)]
    have hshown : Shown ws' key (c + 1) ↔ PopUncovers ws key c := by
      rw [shown_succ (by rw [hat.oldest_eq]; exact hmem.1), hat', hbelow, hwait]
      unfold PopUncovers
      rw [hview]
      unfold Checkpoint.popView
      by_cases hkey : key ∈ chkpt.map
      · have hsome : (chkpt.keyView key).value.isSome = true := AList.lookup_isSome.mpr hkey
        rw [if_pos hkey, hsome]
        unfold KeyView.hides KeyView.shows
        simp [and_assoc]
      · have hnone : (chkpt.keyView key).value = none := AList.lookup_eq_none.mpr hkey
        have hpersist : (chkpt.keyView key).persist = false := by
          by_contra hpersist
          rw [Bool.not_eq_false, ← hview] at hpersist
          have hvalue := hp key c hpersist
          rw [hview, hnone] at hvalue
          cases hvalue
        rw [if_neg hkey, hnone, hpersist]
        unfold KeyView.hides KeyView.shows
        simp
    have hown : (viewAt ws' key c).value = none := by
      rw [hat']
      unfold Checkpoint.popView
      split
      · rfl
      · rfl
    have hold : ws'.oldestChkptId ≤ c := by
      rw [hat.oldest_eq]
      exact hmem.1
    rw [← hshown]
    constructor
    · exact fun hg => (hg.hidden hold).not_shown
    · intro hnot
      refine ⟨h', hp', ?_, fun _ => ⟨hown, hnot⟩⟩
      rw [hat.nextId_eq]
      exact hmem.2

theorem gone_iff_reportsAbsent (h : WindowInv size waitForKeys ws) (hp : PersistInv ws)
    (hlt : c < ws.nextId) :
    Gone size waitForKeys ws key c ↔
      (ws.oldestChkptId ≤ c → ∀ deferredOps, ReportsAbsent ws deferredOps key c) := by
  constructor
  · intro hg hold deferredOps
    exact (h.reportsAbsent_iff deferredOps hold hlt).mpr (hg.hidden hold)
  · intro habsent
    refine ⟨h, hp, hlt, ?_⟩
    intro hold
    exact (h.reportsAbsent_iff ∅ hold hlt).mp (habsent hold ∅)

theorem persistInv_calls (pickler : XPickler) (start : ℕ) {size : ℕ} (hsize : 0 < size)
    (waitForKeys waitForWriters : Bool) (calls : List DictCall) :
    PersistInv (calls.foldl (dictStep pickler)
      (WorkingSet.init start size waitForKeys waitForWriters)) := by
  have hrun := List.foldlRecOn (motive := fun ws => WindowInv size waitForKeys ws ∧ PersistInv ws)
    calls (dictStep pickler) ⟨windowInv_init start hsize waitForKeys waitForWriters,
      persistInv_init start size waitForKeys waitForWriters⟩ fun ws hinv call _ =>
        ⟨hinv.1.dictCall pickler call, hinv.2.dictCall hinv.1 pickler call⟩
  exact hrun.2

theorem WindowInv.nextId_le_dictStep (h : WindowInv size waitForKeys ws) (pickler : XPickler)
    (call : DictCall) : ws.nextId ≤ (dictStep pickler ws call).nextId := by
  obtain ⟨ws1, hadv, -, hstep⟩ := h.dictStep_cases pickler call
  have hle := (hadv.invariant (I := fun ws1 => ws.nextId ≤ ws1.nextId) h le_rfl (by
    intro ws1 ws2 parent child _ hadv hle
    rw [hadv.nextId_eq]
    omega)).2
  rcases hstep with ⟨-, hsame⟩ | ⟨c, chkpt, view, -, -, -, hat⟩
  · rw [hsame.nextId_eq]
    exact hle
  · rw [hat.nextId_eq]
    exact hle

/-- After a pop that answers `SUCCESS`: every reader reports the key absent as long as the
checkpoint is in the window iff the pop does not uncover an older value and no later call brings the
key back. -/
theorem WindowInv.pop_removes_iff (h : WindowInv size waitForKeys ws) (hp : PersistInv ws)
    (pickler : XPickler) {deferredOps : Finset ℕ} (clientId : ℕ)
    (hpop : popSucceeds ws deferredOps c key = true) {later : List DictCall}
    (hlater : ∀ call ∈ later, call.writes key c = false) :
    (∀ pre, pre <+: later →
      (pre.foldl (dictStep pickler)
        (dictStep pickler ws (.pop deferredOps clientId c key))).oldestChkptId ≤ c →
      ∀ deferredOps', ReportsAbsent (pre.foldl (dictStep pickler)
        (dictStep pickler ws (.pop deferredOps clientId c key))) deferredOps' key c) ↔
    ¬ PopUncovers ws key c ∧
      Runs.Legal (dictStep pickler)
        (fun ws call => ws.oldestChkptId ≤ c → ¬ Uncovers ws key c call)
        (dictStep pickler ws (.pop deferredOps clientId c key)) later := by
  obtain ⟨-, hlt, hgone⟩ := h.gone_pop_iff hp pickler clientId hpop
  -- the invariants of the run, which need no condition
  have hinv := fun pre : List DictCall => List.foldlRecOn
    (motive := fun ws => WindowInv size waitForKeys ws ∧ PersistInv ws ∧ c < ws.nextId)
    pre (dictStep pickler) (b := dictStep pickler ws (.pop deferredOps clientId c key))
    ⟨h.dictCall pickler _, hp.dictCall h pickler _,
      hlt.trans_le (h.nextId_le_dictStep pickler _)⟩ fun ws hinv call _ =>
        ⟨hinv.1.dictCall pickler call, hinv.2.1.dictCall hinv.1 pickler call,
          hinv.2.2.trans_le (hinv.1.nextId_le_dictStep pickler call)⟩
  have hreport : (∀ pre, pre <+: later →
      (pre.foldl (dictStep pickler)
        (dictStep pickler ws (.pop deferredOps clientId c key))).oldestChkptId ≤ c →
      ∀ deferredOps', ReportsAbsent (pre.foldl (dictStep pickler)
        (dictStep pickler ws (.pop deferredOps clientId c key))) deferredOps' key c) ↔
      ∀ pre, pre <+: later → Gone size waitForKeys (pre.foldl (dictStep pickler)
        (dictStep pickler ws (.pop deferredOps clientId c key))) key c := by
    refine forall₂_congr ?_
    intro pre _
    obtain ⟨h, hp, hlt⟩ := hinv pre
    exact (gone_iff_reportsAbsent h hp hlt).symm
  rw [hreport, ← hgone]
  have hexact : ∀ hfirst, (∀ pre, pre <+: later → Gone size waitForKeys (pre.foldl
      (dictStep pickler) (dictStep pickler ws (.pop deferredOps clientId c key))) key c) ↔ _ :=
    fun hfirst => Runs.forall_prefix_inv_iff_legal
      (I := fun ws => Gone size waitForKeys ws key c)
      (fun ws call hcall hg => hg.dictStep_iff pickler (hlater call hcall)) hfirst
  constructor
  · intro hall
    have hfirst := hall [] List.nil_prefix
    exact ⟨hfirst, (hexact hfirst).mp hall⟩
  · rintro ⟨hfirst, hlegal⟩
    exact (hexact hfirst).mpr hlegal

end Runs

/-! ## With the memory of the keys -/

/-- `ReportsAbsent`, where no reader raises because it compares freed memory. -/
structure KeyMemory.TellsAbsent (mem : KeyMemory) (ws : WorkingSet) (deferredOps : Finset ℕ)
    (key : KeyBytes) (c : ℕ) : Prop where
  get : mem.getOp ws deferredOps key c = some (.ok (some none)) ∨
    ws.waitForKeys = true ∧ mem.getOp ws deferredOps key c = some (.ok none)
  contains : mem.containsOp ws deferredOps key c = some (.ok false)
  keys : ∃ keys, mem.keys ws c = some (.ok keys) ∧ key ∉ keys

theorem KeyMemory.tellsAbsent_iff {mem : KeyMemory} {ws : WorkingSet} {deferredOps : Finset ℕ}
    {key : KeyBytes} {c : ℕ} : mem.TellsAbsent ws deferredOps key c ↔
      ReportsAbsent ws deferredOps key c ∧ mem.Live ws deferredOps key c := by
  constructor
  · rintro ⟨hget, hcontains, keys, hkeys, hkey⟩
    obtain ⟨hquiet, hcontains⟩ := answer_eq_some.mp hcontains
    obtain ⟨hquiet', hkeys⟩ := answer_eq_some.mp hkeys
    rcases hget with hget | ⟨hwait, hget⟩
    · obtain ⟨hlookup, hget⟩ := answer_eq_some.mp hget
      exact ⟨⟨Or.inl hget, hcontains, keys, hkeys, hkey⟩, hlookup, hquiet, hquiet'⟩
    · obtain ⟨hlookup, hget⟩ := answer_eq_some.mp hget
      exact ⟨⟨Or.inr ⟨hwait, hget⟩, hcontains, keys, hkeys, hkey⟩, hlookup, hquiet, hquiet'⟩
  · rintro ⟨⟨hget, hcontains, keys, hkeys, hkey⟩, hlookup, hquiet, hquiet'⟩
    refine ⟨?_, answer_eq_some.mpr ⟨hquiet, hcontains⟩, keys,
      answer_eq_some.mpr ⟨hquiet', hkeys⟩, hkey⟩
    rcases hget with hget | ⟨hwait, hget⟩
    · exact Or.inl (answer_eq_some.mpr ⟨hlookup, hget⟩)
    · exact Or.inr ⟨hwait, answer_eq_some.mpr ⟨hlookup, hget⟩⟩

/-- **When pop removes.**  After any calls, let a pop of `key` at checkpoint `c` answer `SUCCESS`,
let no later call store the key at `c`, and let none of these calls compare memory of a key that has
been freed.  Every reader reports the key absent at `c`, as long as `c` is in the window, iff the
pop does not uncover an older value, no later call brings the key back, and no reader of the key at
`c` meets freed memory. -/
theorem workingSet_pop_removes_iff (pickler : XPickler) (start workingSetSize : ℕ)
    (hsize : 1 ≤ workingSetSize) (waitForKeys waitForWriters : Bool)
    (calls : List (ℕ × DictCall)) (ws : WorkingSet) (mem : KeyMemory)
    (hrun : memoryRun pickler (WorkingSet.init start workingSetSize waitForKeys waitForWriters)
      KeyMemory.init calls = some (ws, mem))
    (deferredOps : Finset ℕ) (op clientId c : ℕ) (key : KeyBytes)
    (hpop : popSucceeds ws deferredOps c key = true) (popped : WorkingSet × KeyMemory)
    (hpopped : memoryStep pickler (ws, mem) (op, .pop deferredOps clientId c key) = some popped)
    (later : List (ℕ × DictCall)) (hlater : ∀ call ∈ later, call.2.writes key c = false)
    (hruns : (memoryRun pickler popped.1 popped.2 later).isSome) :
    (∀ pre, pre <+: later → ∀ s, memoryRun pickler popped.1 popped.2 pre = some s →
      s.1.oldestChkptId ≤ c → ∀ deferredOps', s.2.TellsAbsent s.1 deferredOps' key c) ↔
    ¬ PopUncovers ws key c ∧
      Runs.Legal (dictStep pickler)
        (fun ws call => ws.oldestChkptId ≤ c → ¬ Uncovers ws key c call)
        popped.1 (later.map Prod.snd) ∧
      ∀ pre, pre <+: later → ∀ s, memoryRun pickler popped.1 popped.2 pre = some s →
        s.1.oldestChkptId ≤ c → ∀ deferredOps', s.2.Live s.1 deferredOps' key c := by
  have hws : ws = (calls.map Prod.snd).foldl (dictStep pickler)
      (WorkingSet.init start workingSetSize waitForKeys waitForWriters) := ws_of_memoryRun hrun
  have h : WindowInv workingSetSize waitForKeys ws := by
    rw [hws]
    exact windowInv_calls pickler start hsize waitForKeys waitForWriters _
  have hp : PersistInv ws := by
    rw [hws]
    exact persistInv_calls pickler start hsize waitForKeys waitForWriters _
  obtain ⟨mem1, -, rfl⟩ := Option.map_eq_some_iff.mp hpopped
  have hlater' : ∀ call ∈ later.map Prod.snd, call.writes key c = false := by
    intro call hcall
    obtain ⟨call', hcall', rfl⟩ := List.mem_map.mp hcall
    exact hlater call' hcall'
  have hbytes := h.pop_removes_iff hp pickler clientId hpop hlater'
  -- the states of the run with memory are those of the run without
  have hreports : (∀ pre, pre <+: later.map Prod.snd →
      (pre.foldl (dictStep pickler)
        (dictStep pickler ws (.pop deferredOps clientId c key))).oldestChkptId ≤ c →
      ∀ deferredOps', ReportsAbsent (pre.foldl (dictStep pickler)
        (dictStep pickler ws (.pop deferredOps clientId c key))) deferredOps' key c) ↔
      ∀ pre, pre <+: later → ∀ s, memoryRun pickler
        (dictStep pickler ws (.pop deferredOps clientId c key)) mem1 pre = some s →
        s.1.oldestChkptId ≤ c → ∀ deferredOps', ReportsAbsent s.1 deferredOps' key c := by
    constructor
    · intro hall pre hpre s hs
      rw [ws_of_memoryRun hs]
      exact hall _ (hpre.map Prod.snd)
    · intro hall pre hpre
      obtain ⟨pre', hpre', rfl⟩ := List.prefix_map_iff.mp hpre
      obtain ⟨s, hs⟩ := exists_memoryRun_prefix hruns hpre'
      rw [← ws_of_memoryRun hs]
      exact hall pre' hpre' s hs
  rw [← and_assoc, ← hbytes, hreports]
  simp only [KeyMemory.tellsAbsent_iff]
  constructor
  · intro hall
    exact ⟨fun pre hpre s hs hold deferredOps' => (hall pre hpre s hs hold deferredOps').1,
      fun pre hpre s hs hold deferredOps' => (hall pre hpre s hs hold deferredOps').2⟩
  · rintro ⟨habsent, hlive⟩ pre hpre s hs hold deferredOps'
    exact ⟨habsent pre hpre s hs hold deferredOps', hlive pre hpre s hs hold deferredOps'⟩

/-- A pop that leaves a tombstone at checkpoint `1`, and a later put at checkpoint `0`. -/
theorem workingSet_pop_removes_example :
    ∃ ws mem popped s, memoryRun XPickler.scalars (WorkingSet.init 0 2 false false) KeyMemory.init
        [(0, .put 7 0 false [1] [[5]] false)] = some (ws, mem) ∧
      popSucceeds ws ∅ 1 [1] = true ∧
      memoryStep XPickler.scalars (ws, mem) (1, .pop ∅ 7 1 [1]) = some popped ∧
      memoryRun XPickler.scalars popped.1 popped.2 [(2, .put 8 0 false [1] [[9]] false)] = some s ∧
      ((∀ pre, pre <+: [(2, .put 8 0 false [1] [[9]] false)] → ∀ s,
          memoryRun XPickler.scalars popped.1 popped.2 pre = some s → s.1.oldestChkptId ≤ 1 →
          ∀ deferredOps', s.2.TellsAbsent s.1 deferredOps' [1] 1) ↔
        ¬ PopUncovers ws [1] 1 ∧
          Runs.Legal (dictStep XPickler.scalars)
            (fun ws call => ws.oldestChkptId ≤ 1 → ¬ Uncovers ws [1] 1 call)
            popped.1 [.put 8 0 false [1] [[9]] false] ∧
          ∀ pre, pre <+: [(2, .put 8 0 false [1] [[9]] false)] → ∀ s,
            memoryRun XPickler.scalars popped.1 popped.2 pre = some s → s.1.oldestChkptId ≤ 1 →
            ∀ deferredOps', s.2.Live s.1 deferredOps' [1] 1) := by
  refine ⟨_, _, _, _, rfl, by decide +kernel, rfl, rfl, ?_⟩
  exact workingSet_pop_removes_iff XPickler.scalars 0 2 (by decide) false false
    [(0, .put 7 0 false [1] [[5]] false)] _ _ rfl ∅ 1 7 1 [1] (by decide +kernel) _ rfl
    [(2, .put 8 0 false [1] [[9]] false)] (by decide) rfl

/-- The key is put at checkpoints `0` and `1`, and the pop at `1` uncovers the value of
checkpoint `0`. -/
theorem workingSet_pop_uncovers_older :
    ∃ ws mem popped, memoryRun XPickler.scalars (WorkingSet.init 0 2 false false) KeyMemory.init
        [(0, .put 7 0 false [1] [[5]] false), (1, .put 7 1 false [1] [[6]] false)]
          = some (ws, mem) ∧
      popSucceeds ws ∅ 1 [1] = true ∧
      memoryStep XPickler.scalars (ws, mem) (2, .pop ∅ 7 1 [1]) = some popped ∧
      popped.2.getOp popped.1 ∅ [1] 1 = some (.ok (some (some [[5]]))) ∧
      ¬ popped.2.TellsAbsent popped.1 ∅ [1] 1 := by
  refine ⟨_, _, _, rfl, by decide +kernel, rfl, by decide +kernel, ?_⟩
  rintro ⟨hnone | ⟨-, hnone⟩, -, -⟩
  · revert hnone
    decide +kernel
  · revert hnone
    decide +kernel
