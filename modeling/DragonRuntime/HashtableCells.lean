/-
# The hashtable as a ring of cells

The two bitsets and the slots of a table make a ring of cells in the sense of
`LinearProbing`.  `TableInv` is the invariant of a table: the entries can be reached by
probing, and the two counters count the entries and the placeholders.
-/
import DragonRuntime.Hashtable
import DragonRuntime.LinearProbing

open LinearProbing DragonHashtable

variable {keyLen valueLen : ℕ}

/-! ## Cells -/

namespace DragonHashtable

/-- Slot `i` of the table, as a cell. -/
def cell (ht : DragonHashtable keyLen valueLen) (i : ℕ) : Cell (Words keyLen) (Words valueLen) :=
  if ht.allocated.bit i then
    if ht.placeholder.bit i then .placeholder
    else .entry (ht.slots i).1 (ht.slots i).2
  else .empty

/-- The first slot of a key in a table of `n` slots. -/
def home (n : ℕ) (key : Words keyLen) : ℕ := (hash key).toNat % n

end DragonHashtable

theorem keysEqual_iff (key1 key2 : Words keyLen) : keysEqual key1 key2 = true ↔ key1 = key2 := by
  unfold keysEqual
  rw [List.all_eq_true]
  constructor
  · intro h
    funext i
    simpa using h i (List.mem_finRange i)
  · rintro rfl i -
    simp

section Cells

variable {ht : DragonHashtable keyLen valueLen} {i : ℕ}

theorem cell_eq_empty_iff : ht.cell i = .empty ↔ ht.allocated.bit i = false := by
  unfold cell
  cases ht.allocated.bit i <;> cases ht.placeholder.bit i <;> simp

theorem cell_eq_placeholder_iff :
    ht.cell i = .placeholder ↔ ht.allocated.bit i = true ∧ ht.placeholder.bit i = true := by
  unfold cell
  cases ht.allocated.bit i <;> cases ht.placeholder.bit i <;> simp

theorem cell_eq_entry_iff {key : Words keyLen} {value : Words valueLen} :
    ht.cell i = .entry key value ↔ ht.allocated.bit i = true ∧ ht.placeholder.bit i = false ∧
      ht.slots i = (key, value) := by
  unfold cell
  cases ht.allocated.bit i <;> cases ht.placeholder.bit i <;> simp [Prod.ext_iff]

theorem cell_isEntry :
    (ht.cell i).isEntry = (ht.allocated.bit i && !ht.placeholder.bit i) := by
  unfold cell
  cases ht.allocated.bit i <;> cases ht.placeholder.bit i <;> simp [Cell.isEntry]

end Cells

/-! ## The invariant -/

/-- A table of `n` slots whose placeholders are allocated. -/
structure TableShape (ht : DragonHashtable keyLen valueLen) (n : ℕ) : Prop where
  num_pos : 1 < n
  num_le : n ≤ 2 ^ 64
  numSlots_eq : ht.numSlots = n
  allocated_size : ht.allocated.size = n
  placeholder_size : ht.placeholder.size = n
  allocated_of_placeholder : ∀ i < n, ht.placeholder.bit i = true → ht.allocated.bit i = true

/-- The entries are reachable and the placeholders are counted. -/
structure TableRing (ht : DragonHashtable keyLen valueLen) (n : ℕ) : Prop
    extends TableShape ht n where
  probed : Probed n (home n) ht.cell
  numPlaceholders_eq : ht.numPlaceholders = tally Cell.isPlaceholder n ht.cell

/-- The entries are reachable and both counters are right. -/
structure TableInv (ht : DragonHashtable keyLen valueLen) (n : ℕ) : Prop
    extends TableRing ht n where
  numKvs_eq : ht.numKvs = tally Cell.isEntry n ht.cell

/-- The placeholders are counted, wherever the entries are. -/
structure TableTally (ht : DragonHashtable keyLen valueLen) (n : ℕ) : Prop
    extends TableShape ht n where
  numPlaceholders_eq : ht.numPlaceholders = tally Cell.isPlaceholder n ht.cell

/-- Both counters are right, wherever the entries are. -/
structure TableCounts (ht : DragonHashtable keyLen valueLen) (n : ℕ) : Prop
    extends TableTally ht n where
  numKvs_eq : ht.numKvs = tally Cell.isEntry n ht.cell

theorem tableInv_iff {ht : DragonHashtable keyLen valueLen} {n : ℕ} :
    TableInv ht n ↔ TableCounts ht n ∧ Probed n (home n) ht.cell :=
  ⟨fun h => ⟨⟨⟨h.toTableShape, h.numPlaceholders_eq⟩, h.numKvs_eq⟩, h.probed⟩,
    fun h => ⟨⟨h.1.toTableShape, h.2, h.1.numPlaceholders_eq⟩, h.1.numKvs_eq⟩⟩

section Shape

variable {ht : DragonHashtable keyLen valueLen} {n i : ℕ}

theorem TableShape.get_allocated (h : TableShape ht n) (hi : i < n) :
    dragonBitsetGet ht.allocated i = .ok (ht.allocated.bit i) :=
  dragonBitsetGet_of_lt (by rw [h.allocated_size]; exact hi)

theorem TableShape.get_placeholder (h : TableShape ht n) (hi : i < n) :
    dragonBitsetGet ht.placeholder i = .ok (ht.placeholder.bit i) :=
  dragonBitsetGet_of_lt (by rw [h.placeholder_size]; exact hi)

theorem TableShape.home_lt (h : TableShape ht n) (key : Words keyLen) : home n key < n :=
  Nat.mod_lt _ (by have := h.num_pos; omega)

theorem TableShape.startIdx_eq (h : TableShape ht n) (key : Words keyLen) :
    ht.startIdx key = home n key := by
  unfold startIdx home
  rw [h.numSlots_eq]

theorem TableShape.isPlaceholder_eq (h : TableShape ht n) (hi : i < n) :
    (ht.cell i).isPlaceholder = ht.placeholder.bit i := by
  have hsub := h.allocated_of_placeholder i hi
  unfold cell
  cases ha : ht.allocated.bit i <;> cases hp : ht.placeholder.bit i <;>
    simp_all [Cell.isPlaceholder]

/-- The walk from `start` is back after exactly `n` steps. -/
theorem walk_eq_start_iff {start t : ℕ} (hstart : start < n) (ht : t < n) :
    (start + (t + 1)) % n = start ↔ t + 1 = n := by
  constructor
  · intro h
    by_contra hne
    have h0 : (start + (t + 1)) % n = (start + 0) % n := by
      rw [h, Nat.add_zero, Nat.mod_eq_of_lt hstart]
    have := walk_injective (show t + 1 < n by omega) (show 0 < n by omega) h0
    omega
  · intro h
    rw [h, Nat.add_mod_right, Nat.mod_eq_of_lt hstart]

end Shape

/-! ## The search for a free slot -/

section AddLoop

variable {ht : DragonHashtable keyLen valueLen} {n : ℕ}

/-- The loop of `dragon_hashtable_add` stops at the first cell that is not an entry. -/
theorem addLoop_eq (h : TableShape ht n) {start : ℕ} (hstart : start < n) (fuel t : ℕ)
    (hfuel : t + fuel = n)
    (hsome : ∃ d, t ≤ d ∧ d < n ∧ (ht.cell ((start + d) % n)).isEntry = false) :
    ∃ d, t ≤ d ∧ d < n ∧ (∀ t', t ≤ t' → t' < d → (ht.cell ((start + t') % n)).isEntry = true) ∧
      (ht.cell ((start + d) % n)).isEntry = false ∧
      addLoop ht start fuel ((start + t) % n)
        = .ok ((start + d) % n, ht.placeholder.bit ((start + d) % n)) := by
  induction fuel generalizing t with
  | zero =>
    obtain ⟨d, h1, h2, -⟩ := hsome
    omega
  | succ fuel ih =>
    have hlt : (start + t) % n < n := Nat.mod_lt _ (by omega)
    unfold addLoop
    rw [h.get_allocated hlt, h.get_placeholder hlt]
    simp only
    have hstops : (!ht.allocated.bit ((start + t) % n)
        || ht.placeholder.bit ((start + t) % n)) = !(ht.cell ((start + t) % n)).isEntry := by
      rw [cell_isEntry, Bool.not_and, Bool.not_not]
    by_cases hentry : (ht.cell ((start + t) % n)).isEntry = true
    · obtain ⟨d, h1, h2, hd⟩ := hsome
      have htd : t + 1 ≤ d := by
        rcases Nat.eq_or_lt_of_le h1 with rfl | hlt'
        · rw [hentry] at hd
          cases hd
        · exact hlt'
      have hwrap : ¬ ((start + t) % n + 1) % n = start := by
        rw [step_mod, walk_eq_start_iff hstart (by omega)]
        omega
      obtain ⟨d', h1', h2', hbefore, hfree, hloop⟩ := ih (t + 1) (by omega) ⟨d, htd, h2, hd⟩
      refine ⟨d', by omega, h2', ?_, hfree, ?_⟩
      · intro t' ht' htd'
        rcases Nat.eq_or_lt_of_le ht' with rfl | hlt'
        · exact hentry
        · exact hbefore t' hlt' htd'
      · rw [hstops, hentry, h.numSlots_eq, if_neg (by simp), if_neg hwrap, step_mod]
        exact hloop
    · rw [Bool.not_eq_true] at hentry
      refine ⟨t, le_rfl, by omega, fun t' h1 h2 => by omega, hentry, ?_⟩
      rw [hstops, hentry, Bool.not_false, if_pos rfl]

end AddLoop

/-! ## The search for a key -/

section Search

variable {ht : DragonHashtable keyLen valueLen} {n : ℕ} {key : Words keyLen}

/-- The cell at `i` does not end the search for `key`. -/
def Passes (ht : DragonHashtable keyLen valueLen) (key : Words keyLen) (i : ℕ) : Prop :=
  ht.cell i ≠ .empty ∧ ∀ value, ht.cell i ≠ .entry key value

/-- The bits and the key of such a cell. -/
theorem Passes.tests {i : ℕ} (hpass : Passes ht key i) :
    ht.allocated.bit i = true ∧
      (!ht.placeholder.bit i && keysEqual key (ht.slots i).1) = false := by
  have halloc : ht.allocated.bit i = true := by
    by_contra hne
    exact hpass.1 (cell_eq_empty_iff.mpr (by simpa using hne))
  refine ⟨halloc, ?_⟩
  by_contra hne
  rw [Bool.not_eq_false, Bool.and_eq_true, Bool.not_eq_true', keysEqual_iff] at hne
  exact hpass.2 (ht.slots i).2
    (cell_eq_entry_iff.mpr ⟨halloc, hne.1, Prod.ext hne.2.symm rfl⟩)

/-- One round of the search over a cell that does not end it. -/
theorem searchLoop_passes (h : TableShape ht n) {start : ℕ} (hstart : start < n)
    (fuel : ℕ) {t : ℕ} (ht' : t + 1 < n) (hpass : Passes ht key ((start + t) % n)) :
    searchLoop ht key start (fuel + 1) ((start + t) % n)
      = searchLoop ht key start fuel ((start + (t + 1)) % n) := by
  have hlt : (start + t) % n < n := Nat.mod_lt _ (by omega)
  obtain ⟨halloc, hkey⟩ := hpass.tests
  have hwrap : ¬ ((start + t) % n + 1) % n = start := by
    rw [step_mod, walk_eq_start_iff hstart (by omega)]
    omega
  conv_lhs => unfold searchLoop
  rw [h.get_allocated hlt, halloc]
  simp only [h.get_placeholder hlt, hkey, h.numSlots_eq]
  rw [if_neg (by simp), if_neg hwrap, step_mod]

theorem searchLoop_walk (h : TableShape ht n) {start : ℕ} (hstart : start < n) {d : ℕ}
    (hd : d < n) (hpass : ∀ t < d, Passes ht key ((start + t) % n)) (t : ℕ) (htd : t ≤ d) :
    searchLoop ht key start (n - t) ((start + t) % n)
      = searchLoop ht key start (n - d) ((start + d) % n) := by
  induction htd using Nat.decreasingInduction with
  | self => rfl
  | of_succ t ht' ih =>
    rw [show n - t = n - (t + 1) + 1 by omega,
      searchLoop_passes h hstart _ (by omega) (hpass t ht')]
    exact ih

theorem TableShape.search_eq (h : TableShape ht n) (key : Words keyLen) :
    ht.search key = searchLoop ht key (ht.startIdx key) ht.numSlots (ht.startIdx key) := by
  have hpos := h.num_pos
  have hslots := h.numSlots_eq
  exact if_neg (by omega)

/-- **The search finds** a stored key. -/
theorem search_found (h : TableInv ht n) {i : ℕ} {value : Words valueLen} (hi : i < n)
    (hcell : ht.cell i = .entry key value) : ht.search key = .ok i := by
  obtain ⟨d, hd, hdi, hpath⟩ := h.probed.path i key value hi hcell
  have hstart := h.home_lt key
  have hpass : ∀ t < d, Passes ht key ((home n key + t) % n) :=
    fun t htd => h.probed.before hi hcell hd hdi hpath htd
  have hwalk := searchLoop_walk h.toTableShape hstart hd hpass 0 (Nat.zero_le d)
  rw [Nat.sub_zero, Nat.add_zero, Nat.mod_eq_of_lt hstart] at hwalk
  rw [h.search_eq, h.startIdx_eq, h.numSlots_eq, hwalk, hdi, show n - d = n - d - 1 + 1 by omega]
  obtain ⟨ha, hp, hslot⟩ := cell_eq_entry_iff.mp hcell
  have hkey : keysEqual key (ht.slots i).1 = true := by
    rw [hslot, keysEqual_iff]
  unfold searchLoop
  rw [h.get_allocated hi, ha]
  simp only [h.get_placeholder hi, hp, hkey]
  simp

/-- The slot right before the first slot of a key. -/
def lastSlot (n : ℕ) (key : Words keyLen) : ℕ := (home n key + (n - 1)) % n

/-- **The search for an absent key** fails with `KEY_NOT_FOUND` iff some slot other than
the last one it looks at is not allocated; else it fails with `DRAGON_FAILURE`. -/
theorem search_absent (h : TableInv ht n) (habs : Absent n ht.cell key) :
    ((∃ j < n, ht.allocated.bit j = false ∧ j ≠ lastSlot n key) ∧
      ht.search key = .error .hashtableKeyNotFound) ∨
    ((¬ ∃ j < n, ht.allocated.bit j = false ∧ j ≠ lastSlot n key) ∧
      ht.search key = .error .failure) := by
  have hpos := h.num_pos
  have hstart := h.home_lt key
  have hnokey : ∀ i < n, ∀ value, ht.cell i ≠ .entry key value := habs
  have hmod : ∀ t, (home n key + t) % n < n := fun t => Nat.mod_lt _ (by omega)
  -- a slot other than the last one is at a distance below `n - 1`
  have hdist : (∃ j < n, ht.allocated.bit j = false ∧ j ≠ lastSlot n key) ↔
      ∃ d < n - 1, ht.cell ((home n key + d) % n) = .empty := by
    constructor
    · rintro ⟨j, hj, hfree, hne⟩
      obtain ⟨d, hd, hdj⟩ := exists_walk (home n key) hj
      refine ⟨d, ?_, ?_⟩
      · by_contra hge
        apply hne
        unfold lastSlot
        rw [← hdj, show d = n - 1 by omega]
      · rw [hdj]
        exact cell_eq_empty_iff.mpr hfree
    · rintro ⟨d, hd, hcell⟩
      refine ⟨_, hmod d, cell_eq_empty_iff.mp hcell, ?_⟩
      intro heq
      have := walk_injective (show d < n by omega) (show n - 1 < n by omega) heq
      omega
  have hbegin : ht.search key
      = searchLoop ht key (home n key) (n - 0) ((home n key + 0) % n) := by
    rw [h.search_eq, h.startIdx_eq, h.numSlots_eq, Nat.sub_zero, Nat.add_zero, Nat.mod_eq_of_lt hstart]
  -- what the search does at an unallocated slot at distance `d`
  have hend : ∀ d < n, ht.cell ((home n key + d) % n) = .empty →
      searchLoop ht key (home n key) (n - d) ((home n key + d) % n)
        = if d + 1 = n then .error .failure else .error .hashtableKeyNotFound := by
    intro d hd hcell
    rw [show n - d = n - d - 1 + 1 by omega]
    unfold searchLoop
    rw [h.get_allocated (hmod d), cell_eq_empty_iff.mp hcell]
    simp only [h.numSlots_eq, step_mod, walk_eq_start_iff hstart hd]
  rw [hdist]
  by_cases hsome : ∃ d < n - 1, ht.cell ((home n key + d) % n) = .empty
  · left
    refine ⟨hsome, ?_⟩
    classical
    -- the first unallocated slot
    obtain ⟨hd, hcell⟩ := Nat.find_spec hsome
    have hpass : ∀ t < Nat.find hsome, Passes ht key ((home n key + t) % n) := by
      intro t ht'
      refine ⟨fun hempty => ?_, hnokey _ (hmod t)⟩
      exact Nat.find_min hsome ht' ⟨by omega, hempty⟩
    rw [hbegin, searchLoop_walk h.toTableShape hstart (by omega) hpass 0 (Nat.zero_le _),
      hend _ (by omega) hcell, if_neg (by omega)]
  · right
    refine ⟨hsome, ?_⟩
    push Not at hsome
    have hpass : ∀ t < n - 1, Passes ht key ((home n key + t) % n) :=
      fun t ht' => ⟨hsome t ht', hnokey _ (hmod t)⟩
    rw [hbegin, searchLoop_walk h.toTableShape hstart (by omega) hpass 0 (Nat.zero_le _)]
    by_cases hlast : ht.cell ((home n key + (n - 1)) % n) = .empty
    · rw [hend _ (by omega) hlast, if_pos (by omega)]
    · -- the last slot is allocated as well, and the turn is complete
      have hpasses : Passes ht key ((home n key + (n - 1)) % n) :=
        ⟨hlast, hnokey _ (hmod (n - 1))⟩
      obtain ⟨halloc, hkey⟩ := hpasses.tests
      have hwrap : ((home n key + (n - 1)) % n + 1) % n = home n key := by
        rw [step_mod, walk_eq_start_iff hstart (by omega)]
        omega
      rw [show n - (n - 1) = 0 + 1 by omega]
      unfold searchLoop
      rw [h.get_allocated (hmod _), halloc]
      simp only [h.get_placeholder (hmod _), hkey, h.numSlots_eq]
      rw [if_neg (by simp), if_pos hwrap]

end Search
