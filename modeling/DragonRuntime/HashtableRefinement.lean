/-
# The hashtable refines a finite map

`TableHolds ht n M` says that a table of `n` slots holds the map `M`.  Every call keeps
it for the map that the call is to leave behind; only a removal whose walk to the left
passes slot `0` may break it, since the source then computes a wrong slot when
`num_slots` does not divide `2^64` (`ClearsWrongSlot`).
-/
import DragonRuntime.HashtableSteps
import DragonRuntime.Runs

open LinearProbing DragonHashtable

variable {keyLen valueLen : ℕ}

/-! ## Tables and maps -/

/-- A finite map from keys to values. -/
abbrev KeyMap (keyLen valueLen : ℕ) : Type := Words keyLen → Option (Words valueLen)

/-- The table of `n` slots holds the map `M`. -/
structure TableHolds (ht : DragonHashtable keyLen valueLen) (n : ℕ)
    (M : KeyMap keyLen valueLen) : Prop extends TableInv ht n where
  numKvs_le : ht.numKvs ≤ n / 2
  holds : ∀ k v, M k = some v ↔ ∃ i < n, ht.cell i = .entry k v

section Holds

variable {ht : DragonHashtable keyLen valueLen} {n : ℕ} {M : KeyMap keyLen valueLen}
  {key : Words keyLen} {value : Words valueLen}

theorem TableHolds.absent_of_none (h : TableHolds ht n M) (hkey : M key = none) :
    Absent n ht.cell key := by
  intro i hi v hcell
  have := (h.holds key v).mpr ⟨i, hi, hcell⟩
  rw [hkey] at this
  cases this

theorem TableHolds.search_of_none (h : TableHolds ht n M) (hkey : M key = none) :
    ∃ e, ht.search key = .error e := by
  rcases search_absent h.toTableInv (h.absent_of_none hkey) with ⟨-, hs⟩ | ⟨-, hs⟩
  · exact ⟨_, hs⟩
  · exact ⟨_, hs⟩

/-- **`dragon_hashtable_get`** returns the value of the map. -/
theorem TableHolds.get_iff (h : TableHolds ht n M) (key : Words keyLen)
    (value : Words valueLen) : dragonHashtableGet ht key = .ok value ↔ M key = some value := by
  unfold dragonHashtableGet
  cases hM : M key with
  | none =>
    obtain ⟨e, he⟩ := h.search_of_none hM
    rw [he]
    exact ⟨nofun, nofun⟩
  | some v =>
    obtain ⟨i, hi, hcell⟩ := (h.holds key v).mp hM
    have hslot := (cell_eq_entry_iff.mp hcell).2.2
    rw [search_found h.toTableInv hi hcell]
    simp only [hslot]
    constructor
    · intro heq
      rw [Except.ok.inj heq]
    · intro heq
      rw [Option.some.inj heq]

theorem TableHolds.cleanup (h : TableHolds ht n M) : TableHolds ht.cleanup n M := by
  obtain ⟨hinv, hkvs, -, -, hiff⟩ := cleanup_eq h.toTableInv
  refine ⟨hinv, by rw [hkvs]; exact h.numKvs_le, ?_⟩
  intro k v
  rw [h.holds, hiff]

/-- **`dragon_hashtable_add`** of an absent key: it fails iff the table is full, and
else stores the entry. -/
theorem TableHolds.add (h : TableHolds ht n M) (hkey : M key = none)
    (value : Words valueLen) :
    (n / 2 ≤ ht.numKvs ∧ dragonHashtableAdd ht key value = (.error .hashtableFull, ht)) ∨
    ∃ ht', dragonHashtableAdd ht key value = (.ok (), ht') ∧
      TableHolds ht' n (Function.update M key (some value)) := by
  have hpos := h.num_pos
  unfold dragonHashtableAdd
  rw [h.numSlots_eq]
  by_cases hfull : n / 2 ≤ ht.numKvs
  · exact Or.inl ⟨hfull, if_pos hfull⟩
  · right
    rw [if_neg hfull]
    have hc := h.cleanup
    have hkvs := (cleanup_eq h.toTableInv).2.1
    obtain ⟨i, hi, hfree, hadd, hinv⟩ := addEntry_eq hc.toTableInv
      (hc.absent_of_none hkey) (by omega) value
    refine ⟨_, hadd, hinv, ?_, ?_⟩
    · show ht.cleanup.numKvs + 1 ≤ n / 2
      omega
    · intro k v
      rw [entries_withEntry hc.toTableShape hi hfree, ← hc.holds, Function.update_apply]
      by_cases hk : k = key
      · subst hk
        rw [if_pos rfl, hkey]
        simp [eq_comm]
      · rw [if_neg hk]
        simp [hk]

/-- A removal of the key would free a wrong slot: the walk to the left from the key's
slot passes slot `0` and goes on at a placeholder that is not the last slot. -/
def ClearsWrongSlot (ht : DragonHashtable keyLen valueLen) (key : Words keyLen) : Prop :=
  ∃ idx ∈ (ht.cleanup.search key).toOption, WrapsOntoPlaceholder ht.cleanup ht.numSlots idx

instance (ht : DragonHashtable keyLen valueLen) (key : Words keyLen) :
    Decidable (ClearsWrongSlot ht key) := by
  unfold ClearsWrongSlot; infer_instance

/-- **`dragon_hashtable_remove`** of a stored key. -/
theorem TableHolds.remove (h : TableHolds ht n M) (hkey : M key = some value)
    (hsafe : ¬ ClearsWrongSlot ht key) :
    ∃ ht', dragonHashtableRemove ht key = (.ok (), ht') ∧
      ht'.numKvs < n / 2 ∧ TableHolds ht' n (Function.update M key none) := by
  have hc := h.cleanup
  obtain ⟨i, hi, hcell⟩ := (hc.holds key value).mp hkey
  have hsearch := search_found hc.toTableInv hi hcell
  have hwrap : ¬ WrapsOntoPlaceholder ht.cleanup n i := by
    intro hw
    apply hsafe
    refine ⟨i, by rw [hsearch]; rfl, ?_⟩
    rw [h.numSlots_eq]
    exact hw
  obtain ⟨hcounts, hprobed⟩ := tableInv_iff.mp hc.toTableInv
  obtain ⟨ht', hremove, hcounts', hkvs, hent, hprobed'⟩ :=
    removeEntry_eq hcounts hi (by rw [hcell]; rfl)
  have hinv := tableInv_iff.mpr ⟨hcounts', hprobed' hprobed hwrap⟩
  have hle := hc.numKvs_le
  refine ⟨ht', ?_, by omega, hinv, by omega, ?_⟩
  · unfold dragonHashtableRemove
    simp only [hsearch]
    exact hremove
  · intro k v
    rw [Function.update_apply]
    by_cases hk : k = key
    · subst hk
      rw [if_pos rfl]
      refine ⟨nofun, ?_⟩
      rintro ⟨j, hj, hjc⟩
      obtain ⟨hji, hjc'⟩ := (hent j k v).mp hjc
      exact absurd (hc.probed.unique j i k v value hj hi hjc' hcell) hji
    · rw [if_neg hk, hc.holds]
      constructor
      · rintro ⟨j, hj, hjc⟩
        refine ⟨j, hj, (hent j k v).mpr ⟨?_, hjc⟩⟩
        rintro rfl
        rw [hjc] at hcell
        cases hcell
        exact hk rfl
      · rintro ⟨j, hj, hjc⟩
        exact ⟨j, hj, ((hent j k v).mp hjc).2⟩

/-- `dragon_hashtable_remove` of an absent key fails and keeps the map. -/
theorem TableHolds.remove_of_none (h : TableHolds ht n M) (hkey : M key = none) :
    ∃ e, ht.cleanup.search key = .error e ∧
      dragonHashtableRemove ht key = (.error e, ht.cleanup) := by
  obtain ⟨e, he⟩ := h.cleanup.search_of_none hkey
  refine ⟨e, he, ?_⟩
  unfold dragonHashtableRemove
  simp only [he]

/-- **`dragon_hashtable_replace`.**  It fails iff the key is absent and the table is
full, and else stores the entry. -/
theorem TableHolds.replace (h : TableHolds ht n M) (hsafe : ¬ ClearsWrongSlot ht key)
    (value : Words valueLen) :
    (∃ ht', dragonHashtableReplace ht key value = (.error .hashtableFull, ht') ∧
      TableHolds ht' n M) ∨
    ∃ ht', dragonHashtableReplace ht key value = (.ok (), ht') ∧
      TableHolds ht' n (Function.update M key (some value)) := by
  have hpos := h.num_pos
  have hslots := h.numSlots_eq
  unfold dragonHashtableReplace
  rw [if_neg (by omega)]
  cases hM : M key with
  | none =>
    obtain ⟨e, -, hremove⟩ := h.remove_of_none hM
    rw [hremove]
    rcases h.cleanup.add hM value with ⟨-, hadd⟩ | hadd
    · exact Or.inl ⟨_, hadd, h.cleanup⟩
    · exact Or.inr hadd
  | some v =>
    obtain ⟨ht', hremove, hroom, hholds⟩ := h.remove hM hsafe
    rw [hremove]
    right
    rcases hholds.add (Function.update_self _ _ _) value with ⟨hfull, -⟩ |
      ⟨ht'', hadd, hholds'⟩
    · omega
    · rw [Function.update_idem] at hholds'
      exact ⟨ht'', hadd, hholds'⟩

end Holds

/-! ## Initialisation -/

/-- A table without slots, which `max_entries` gives whose double wraps to zero. -/
structure NoSlots (ht : DragonHashtable keyLen valueLen) : Prop where
  numSlots_eq : ht.numSlots = 0
  numKvs_eq : ht.numKvs = 0
  numPlaceholders_eq : ht.numPlaceholders = 0

namespace NoSlots

variable {ht : DragonHashtable keyLen valueLen} (h : NoSlots ht) (key : Words keyLen)
  (value : Words valueLen)
include h

theorem cleanup_eq : ht.cleanup = ht :=
  if_neg (by rw [h.numPlaceholders_eq]; exact Nat.not_lt_zero _)

theorem search_eq : ht.search key = .error .sigfpe := if_pos h.numSlots_eq

theorem get_eq : dragonHashtableGet ht key = .error .sigfpe := by
  unfold dragonHashtableGet
  rw [h.search_eq]

theorem add_eq : dragonHashtableAdd ht key value = (.error .hashtableFull, ht) :=
  if_pos (by rw [h.numSlots_eq, h.numKvs_eq])

theorem remove_eq : dragonHashtableRemove ht key = (.error .sigfpe, ht) := by
  unfold dragonHashtableRemove
  simp only [h.cleanup_eq, h.search_eq]

theorem replace_eq : dragonHashtableReplace ht key value = (.error .sigfpe, ht) :=
  if_pos h.numSlots_eq

end NoSlots

/-- **A new table** holds nothing; it has no slots, or at least two. -/
theorem tableHolds_of_init {slots : ℕ → Words keyLen × Words valueLen}
    {allocated placeholder : ℕ → BitVec 8} {maxEntries : ℕ}
    {ht : DragonHashtable keyLen valueLen}
    (hinit : dragonHashtableInit slots allocated placeholder maxEntries = .ok ht) :
    NoSlots ht ∧ numSlotsOf maxEntries = 0 ∨
      TableHolds ht (numSlotsOf maxEntries) fun _ => none := by
  unfold dragonHashtableInit at hinit
  split at hinit
  · cases hinit
  split at hinit
  · cases hinit
  cases hinit
  by_cases hzero : numSlotsOf maxEntries = 0
  · exact Or.inl ⟨⟨hzero, rfl, rfl⟩, hzero⟩
  right
  have hbounds : 1 < numSlotsOf maxEntries ∧ numSlotsOf maxEntries ≤ 2 ^ 64 := by
    unfold numSlotsOf at hzero ⊢
    omega
  have hempty : ∀ i < numSlotsOf maxEntries,
      (dragonBitsetInit allocated (numSlotsOf maxEntries)).bit i = false :=
    fun i hi => bit_dragonBitsetClear _ hi
  refine ⟨tableInv_of_empty ⟨hbounds.1, hbounds.2, rfl, rfl, rfl, ?_⟩ hempty rfl rfl,
    Nat.zero_le _, ?_⟩
  · intro i hi hp
    have hfalse : (dragonBitsetInit placeholder (numSlotsOf maxEntries)).bit i = false :=
      bit_dragonBitsetClear _ hi
    simp only [hfalse] at hp
    cases hp
  · intro k v
    refine ⟨nofun, ?_⟩
    rintro ⟨i, hi, hcell⟩
    have halloc := (cell_eq_entry_iff.mp hcell).1
    simp only [hempty i hi] at halloc
    cases halloc

/-! ## The system -/

/-- A call that changes the table. -/
inductive HashtableOp (keyLen valueLen : ℕ) : Type where
  | add (key : Words keyLen) (value : Words valueLen)
  | replace (key : Words keyLen) (value : Words valueLen)
  | remove (key : Words keyLen)

/-- One call, on the table and on the map of the stored keys: a key is stored once it
has been added or replaced with success, until it is removed with success. -/
def tableStep (s : DragonHashtable keyLen valueLen × KeyMap keyLen valueLen) :
    HashtableOp keyLen valueLen → DragonHashtable keyLen valueLen × KeyMap keyLen valueLen
  | .add key value =>
    match dragonHashtableAdd s.1 key value with
    | (.ok (), ht) => (ht, Function.update s.2 key (some value))
    | (.error _, ht) => (ht, s.2)
  | .replace key value =>
    match dragonHashtableReplace s.1 key value with
    | (.ok (), ht) => (ht, Function.update s.2 key (some value))
    | (.error _, ht) => (ht, s.2)
  | .remove key =>
    match dragonHashtableRemove s.1 key with
    | (.ok (), ht) => (ht, Function.update s.2 key none)
    | (.error _, ht) => (ht, s.2)

/-- `dragon_hashtable_add` is called for keys that are not stored. -/
def FreshAdd (s : DragonHashtable keyLen valueLen × KeyMap keyLen valueLen) :
    HashtableOp keyLen valueLen → Prop
  | .add key _ => s.2 key = none
  | _ => True

/-- The call frees no wrong slot. -/
def FreesRightSlots (s : DragonHashtable keyLen valueLen × KeyMap keyLen valueLen) :
    HashtableOp keyLen valueLen → Prop
  | .add _ _ => True
  | .replace key _ => ¬ ClearsWrongSlot s.1 key
  | .remove key => ¬ ClearsWrongSlot s.1 key

/-- **One call** keeps the map. -/
theorem TableHolds.step {n : ℕ} {s : DragonHashtable keyLen valueLen × KeyMap keyLen valueLen}
    {op : HashtableOp keyLen valueLen} (h : TableHolds s.1 n s.2) (hfresh : FreshAdd s op)
    (hright : FreesRightSlots s op) :
    TableHolds (tableStep s op).1 n (tableStep s op).2 := by
  cases op with
  | add _ value =>
    rcases h.add hfresh value with ⟨-, hadd⟩ | ⟨ht', hadd, hholds⟩
    · simpa only [tableStep, hadd] using h
    · simpa only [tableStep, hadd] using hholds
  | replace _ value =>
    rcases h.replace hright value with ⟨ht', hreplace, hholds⟩ |
      ⟨ht', hreplace, hholds⟩
    · simpa only [tableStep, hreplace] using hholds
    · simpa only [tableStep, hreplace] using hholds
  | remove key =>
    cases hM : s.2 key with
    | none =>
      obtain ⟨e, -, hremove⟩ := h.remove_of_none hM
      simpa only [tableStep, hremove] using h.cleanup
    | some value =>
      obtain ⟨ht', hremove, -, hholds⟩ := h.remove hM hright
      simpa only [tableStep, hremove] using hholds

/-- No call changes a table without slots. -/
theorem NoSlots.step {s : DragonHashtable keyLen valueLen × KeyMap keyLen valueLen}
    (h : NoSlots s.1) (op : HashtableOp keyLen valueLen) : tableStep s op = s := by
  cases op with
  | add key value => simp only [tableStep, h.add_eq]
  | replace key value => simp only [tableStep, h.replace_eq]
  | remove key => simp only [tableStep, h.remove_eq]

theorem NoSlots.run {s : DragonHashtable keyLen valueLen × KeyMap keyLen valueLen}
    (h : NoSlots s.1) (ops : List (HashtableOp keyLen valueLen)) : ops.foldl tableStep s = s := by
  induction ops with
  | nil => rfl
  | cons op ops ih => rw [List.foldl_cons, h.step op, ih]

section Runs

variable {slots : ℕ → Words keyLen × Words valueLen} {allocated placeholder : ℕ → BitVec 8}
  {maxEntries : ℕ} {ht : DragonHashtable keyLen valueLen}
  {ops : List (HashtableOp keyLen valueLen)}
  {s : DragonHashtable keyLen valueLen × KeyMap keyLen valueLen}

/-- **One run** keeps the map; a table without slots stays as it is. -/
theorem tableHolds_of_run
    (hinit : dragonHashtableInit slots allocated placeholder maxEntries = .ok ht)
    (hops : Runs.Legal tableStep (fun s op => FreshAdd s op ∧ FreesRightSlots s op)
      (ht, fun _ => none) ops)
    (hs : s = ops.foldl tableStep (ht, fun _ => none)) :
    (NoSlots s.1 ∧ s.2 = fun _ => none) ∨ TableHolds s.1 (numSlotsOf maxEntries) s.2 := by
  subst hs
  rcases tableHolds_of_init hinit with ⟨hnone, -⟩ | hstart
  · rw [NoSlots.run (s := (ht, fun _ => none)) hnone ops]
    exact Or.inl ⟨hnone, rfl⟩
  · exact Or.inr (hops.invariant (I := fun s => TableHolds s.1 (numSlotsOf maxEntries) s.2)
      (fun _ _ h hop => h.step hop.1 hop.2) hstart)

end Runs

/-! ## Stored keys -/

/-- The one-word key or value `x`. -/
def word (x : ℕ) : Words 1 := fun _ => UInt64.ofNat x

/-- A new table of three entries, with keys and values of one word. -/
def smallTable : DragonHashtable 1 1 :=
  ⟨6, 0, 0, dragonBitsetInit (fun _ => 0) 6, dragonBitsetInit (fun _ => 0) 6,
    fun _ => (word 0, word 0)⟩

/-- Some slot other than the last one that a probe for the key looks at is not
allocated. -/
def SeesFreeSlot (ht : DragonHashtable keyLen valueLen) (key : Words keyLen) : Prop :=
  ∃ j < ht.numSlots, ht.allocated.bit j = false ∧
    j ≠ (ht.startIdx key + (ht.numSlots - 1)) % ht.numSlots

instance (ht : DragonHashtable keyLen valueLen) (key : Words keyLen) :
    Decidable (SeesFreeSlot ht key) := by
  unfold SeesFreeSlot; infer_instance

theorem NoSlots.not_seesFreeSlot {ht : DragonHashtable keyLen valueLen} (h : NoSlots ht)
    {key : Words keyLen} : ¬ SeesFreeSlot ht key := by
  rintro ⟨j, hj, -⟩
  rw [h.numSlots_eq] at hj
  exact absurd hj (Nat.not_lt_zero j)

section Absent

variable {ht : DragonHashtable keyLen valueLen} {n : ℕ} {M : KeyMap keyLen valueLen}
  {key : Words keyLen}

theorem TableHolds.search_notFound_iff (h : TableHolds ht n M) (hkey : M key = none) :
    ht.search key = .error .hashtableKeyNotFound ↔ SeesFreeSlot ht key := by
  have hsees : SeesFreeSlot ht key ↔
      ∃ j < n, ht.allocated.bit j = false ∧ j ≠ lastSlot n key := by
    unfold SeesFreeSlot lastSlot
    rw [h.numSlots_eq, h.startIdx_eq]
  rw [hsees]
  rcases search_absent h.toTableInv (h.absent_of_none hkey) with ⟨hfree, hs⟩ | ⟨hnone, hs⟩
  · exact ⟨fun _ => hfree, fun _ => hs⟩
  · rw [hs]
    exact ⟨nofun, fun hfree => absurd hfree hnone⟩

theorem TableHolds.seesFreeSlot_of_clean (h : TableHolds ht n M)
    (hzero : ht.numPlaceholders = 0) (hkvs : ht.numKvs + 2 ≤ n) (key : Words keyLen) :
    SeesFreeSlot ht key := by
  have hpos := h.num_pos
  -- at least two slots hold no entry
  have hcard : 1 < ((Finset.range n).filter fun i => ¬ (ht.cell i).isEntry = true).card := by
    have hsum := Finset.card_filter_add_card_filter_not (s := Finset.range n)
      (fun i => (ht.cell i).isEntry = true)
    have htally := h.numKvs_eq
    unfold tally at htally
    rw [Finset.card_range] at hsum
    omega
  have hfree : ∀ j < n, (ht.cell j).isEntry = false → ht.allocated.bit j = false := by
    intro j hj hentry
    rw [cell_isEntry] at hentry
    have hnot : ht.placeholder.bit j = false := by
      by_contra hp
      have htally := h.numPlaceholders_eq
      rw [hzero] at htally
      unfold tally at htally
      have hempty := Finset.card_eq_zero.mp htally.symm
      have hmem : j ∈ (Finset.range n).filter fun i => (ht.cell i).isPlaceholder = true :=
        Finset.mem_filter.mpr ⟨Finset.mem_range.mpr hj, by
          rw [h.isPlaceholder_eq hj]; simpa using hp⟩
      rw [hempty] at hmem
      exact absurd hmem (Finset.notMem_empty j)
    simpa [hnot] using hentry
  obtain ⟨i, hi, j, hj, hij⟩ := Finset.one_lt_card.mp hcard
  rw [Finset.mem_filter, Finset.mem_range] at hi hj
  unfold SeesFreeSlot
  rw [h.numSlots_eq]
  by_cases hlast : i = (ht.startIdx key + (n - 1)) % n
  · exact ⟨j, hj.1, hfree j hj.1 (by simpa using hj.2), fun heq => hij (hlast.trans heq.symm)⟩
  · exact ⟨i, hi.1, hfree i hi.1 (by simpa using hi.2), hlast⟩

theorem TableHolds.cleanup_notFound_iff (h : TableHolds ht n M) (hkey : M key = none) :
    ht.cleanup.search key = .error .hashtableKeyNotFound ↔
      ht.numSlots / 2 < ht.numPlaceholders ∨ SeesFreeSlot ht key := by
  have hpos := h.num_pos
  obtain ⟨hinv, hkvs, hmany, hfew, -⟩ := cleanup_eq h.toTableInv
  rw [h.cleanup.search_notFound_iff hkey, h.numSlots_eq]
  by_cases hph : n / 2 < ht.numPlaceholders
  · have hsum := tally_entry_add_placeholder_le n ht.cell
    rw [← h.numKvs_eq, ← h.numPlaceholders_eq] at hsum
    have hclean := h.cleanup.seesFreeSlot_of_clean (hmany hph) (by omega) key
    exact ⟨fun _ => Or.inl hph, fun _ => hclean⟩
  · rw [hfew hph]
    exact ⟨Or.inr, fun hor => hor.resolve_left hph⟩

end Absent

/-- A new table of one entry. -/
def tinyTable : DragonHashtable 1 1 :=
  ⟨2, 0, 0, dragonBitsetInit (fun _ => 0) 2, dragonBitsetInit (fun _ => 0) 2,
    fun _ => (word 0, word 0)⟩
