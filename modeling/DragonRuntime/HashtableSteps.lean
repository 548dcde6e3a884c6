/-
# What the calls of the hashtable do

Each write of the table changes one cell of its ring.  The walk to the left is right as long as it
does not pass slot `0`, or `num_slots` divides `2^64`; `WrapsOntoPlaceholder` is the case in which
it goes wrong.
-/
import DragonRuntime.HashtableCells

open LinearProbing DragonHashtable

variable {keyLen valueLen : ℕ}

section Updates

variable {ht ht' : DragonHashtable keyLen valueLen} {n i : ℕ}
  {c : Cell (Words keyLen) (Words valueLen)}

/-- A write that touches one slot changes one cell. -/
theorem cell_eq_update
    (hother : ∀ j, j ≠ i → ht'.allocated.bit j = ht.allocated.bit j ∧
      ht'.placeholder.bit j = ht.placeholder.bit j ∧ ht'.slots j = ht.slots j)
    (hi : ht'.cell i = c) : ht'.cell = Function.update ht.cell i c := by
  funext j
  by_cases hji : j = i
  · subst hji
    rw [Function.update_self, hi]
  · obtain ⟨ha, hp, hs⟩ := hother j hji
    rw [Function.update_of_ne hji]
    unfold cell
    rw [ha, hp, hs]

/-- The counter of the placeholders after a change of one cell. -/
theorem TableTally.update (h : TableTally ht n) (hs : TableShape ht' n) (hi : i < n)
    (hcell : ht'.cell = Function.update ht.cell i c)
    (hcount : ht'.numPlaceholders + (if (ht.cell i).isPlaceholder then 1 else 0)
      = ht.numPlaceholders + if c.isPlaceholder then 1 else 0) : TableTally ht' n := by
  refine ⟨hs, ?_⟩
  have htally := tally_update ht.cell Cell.isPlaceholder hi c
  rw [hcell]
  have := h.numPlaceholders_eq
  omega

theorem TableCounts.update (h : TableCounts ht n) (hs : TableShape ht' n) (hi : i < n)
    (hcell : ht'.cell = Function.update ht.cell i c)
    (hcount : ht'.numPlaceholders + (if (ht.cell i).isPlaceholder then 1 else 0)
      = ht.numPlaceholders + if c.isPlaceholder then 1 else 0)
    (hkvs : ht'.numKvs + (if (ht.cell i).isEntry then 1 else 0)
      = ht.numKvs + if c.isEntry then 1 else 0) : TableCounts ht' n := by
  refine ⟨h.toTableTally.update hs hi hcell hcount, ?_⟩
  have htally := tally_update ht.cell Cell.isEntry hi c
  rw [hcell]
  have := h.numKvs_eq
  omega

theorem TableTally.numPlaceholders_pos (h : TableTally ht n) (hi : i < n)
    (hp : ht.placeholder.bit i = true) : 0 < ht.numPlaceholders := by
  rw [h.numPlaceholders_eq]
  unfold tally
  rw [Finset.card_pos]
  exact ⟨i, Finset.mem_filter.mpr ⟨Finset.mem_range.mpr hi, by
    rw [h.isPlaceholder_eq hi, hp]⟩⟩

end Updates

/-! ## Adding -/

section Add

variable {ht : DragonHashtable keyLen valueLen} {n : ℕ} {key : Words keyLen}
  {value : Words valueLen}

/-- The table after `addEntry` has put an entry into slot `i`. -/
def DragonHashtable.withEntry (ht : DragonHashtable keyLen valueLen) (i : ℕ)
    (key : Words keyLen) (value : Words valueLen) : DragonHashtable keyLen valueLen :=
  { ht with
    slots := Function.update ht.slots i (key, value)
    allocated := ht.allocated.withBit i
    placeholder := if ht.placeholder.bit i then ht.placeholder.withoutBit i else ht.placeholder
    numPlaceholders := if ht.placeholder.bit i then ht.numPlaceholders - 1
      else ht.numPlaceholders
    numKvs := ht.numKvs + 1 }

theorem bit_placeholder_withEntry (h : TableShape ht n) {i : ℕ} (hi : i < n) (j : ℕ) :
    (ht.withEntry i key value).placeholder.bit j
      = (!decide (j = i) && ht.placeholder.bit j) := by
  have hsize : i < ht.placeholder.size := by rw [h.placeholder_size]; exact hi
  unfold DragonHashtable.withEntry
  simp only
  cases hp : ht.placeholder.bit i with
  | true => simp [bit_withoutBit hsize]
  | false =>
    by_cases hj : j = i
    · subst hj
      simp [hp]
    · simp [hj]

theorem bit_allocated_withEntry (h : TableShape ht n) {i : ℕ} (hi : i < n) (j : ℕ) :
    (ht.withEntry i key value).allocated.bit j = (decide (j = i) || ht.allocated.bit j) :=
  bit_withBit (by rw [h.allocated_size]; exact hi) j

theorem TableShape.withEntry (h : TableShape ht n) {i : ℕ} (hi : i < n) :
    TableShape (ht.withEntry i key value) n := by
  refine ⟨h.num_pos, h.num_le, h.numSlots_eq, ?_, ?_, ?_⟩
  · exact (size_withBit _ _).trans h.allocated_size
  · unfold DragonHashtable.withEntry
    simp only
    split
    · exact (size_withoutBit _ _).trans h.placeholder_size
    · exact h.placeholder_size
  · intro j hj hp
    rw [bit_placeholder_withEntry h hi, Bool.and_eq_true] at hp
    rw [bit_allocated_withEntry h hi, h.allocated_of_placeholder j hj hp.2, Bool.or_true]

theorem cell_withEntry (h : TableShape ht n) {i : ℕ} (hi : i < n) :
    (ht.withEntry i key value).cell = Function.update ht.cell i (.entry key value) := by
  apply cell_eq_update
  · intro j hji
    rw [bit_allocated_withEntry h hi, bit_placeholder_withEntry h hi]
    exact ⟨by simp [hji], by simp [hji], Function.update_of_ne hji _ _⟩
  · rw [cell_eq_entry_iff, bit_allocated_withEntry h hi, bit_placeholder_withEntry h hi]
    exact ⟨by simp, by simp, Function.update_self _ _ _⟩

theorem entries_withEntry (h : TableShape ht n) {i : ℕ} (hi : i < n)
    (hfree : (ht.cell i).isEntry = false) (key : Words keyLen) (value : Words valueLen)
    (k : Words keyLen) (v : Words valueLen) :
    (∃ j < n, (ht.withEntry i key value).cell j = .entry k v) ↔
      (∃ j < n, ht.cell j = .entry k v) ∨ (k, v) = (key, value) := by
  rw [cell_withEntry h hi]
  constructor
  · rintro ⟨j, hj, hjc⟩
    by_cases hji : j = i
    · subst hji
      rw [Function.update_self] at hjc
      cases hjc
      exact Or.inr rfl
    · rw [Function.update_of_ne hji] at hjc
      exact Or.inl ⟨j, hj, hjc⟩
  · rintro (⟨j, hj, hjc⟩ | heq)
    · have hji : j ≠ i := by
        rintro rfl
        rw [hjc] at hfree
        cases hfree
      exact ⟨j, hj, by rw [Function.update_of_ne hji]; exact hjc⟩
    · obtain ⟨rfl, rfl⟩ := Prod.mk.inj heq
      exact ⟨i, hi, Function.update_self _ _ _⟩

/-- **Adding an entry.**  It goes into the first cell of its probe that is not an entry, if there
is one. -/
theorem addEntry_counts (h : TableCounts ht n) (hroom : ht.numKvs < n) (key : Words keyLen)
    (value : Words valueLen) :
    ∃ d < n, (∀ t < d, ht.cell ((home n key + t) % n) ≠ .empty) ∧
      (ht.cell ((home n key + d) % n)).isEntry = false ∧
      addEntry ht key value = (.ok (), ht.withEntry ((home n key + d) % n) key value) ∧
      TableCounts (ht.withEntry ((home n key + d) % n) key value) n := by
  have hs := h.toTableShape
  have hstart := h.home_lt key
  -- some cell is not an entry
  obtain ⟨j, hj, hfree⟩ := exists_not_of_tally_lt (by rw [← h.numKvs_eq]; exact hroom)
  obtain ⟨e, he, hej⟩ := exists_walk (home n key) hj
  obtain ⟨d, -, hd, hbefore, hcell, hloop⟩ := addLoop_eq hs hstart n 0 (by omega)
    ⟨e, Nat.zero_le e, he, by rw [hej]; exact hfree⟩
  rw [Nat.add_zero, Nat.mod_eq_of_lt hstart] at hloop
  have hi : (home n key + d) % n < n := Nat.mod_lt _ (by omega)
  have hset : dragonBitsetSet ht.allocated ((home n key + d) % n)
      = .ok (ht.allocated.withBit ((home n key + d) % n)) :=
    dragonBitsetSet_eq_withBit (by rw [h.allocated_size]; exact hi)
  have hreset : dragonBitsetReset ht.placeholder ((home n key + d) % n)
      = .ok (ht.placeholder.withoutBit ((home n key + d) % n)) :=
    dragonBitsetReset_eq_withoutBit (by rw [h.placeholder_size]; exact hi)
  refine ⟨d, hd, ?_, hcell, ?_, ?_⟩
  · intro t htd hempty
    have := hbefore t (Nat.zero_le t) htd
    rw [hempty] at this
    cases this
  · unfold addEntry
    rw [h.startIdx_eq, h.numSlots_eq]
    simp only [hloop, hset, hreset]
    unfold DragonHashtable.withEntry
    cases ht.placeholder.bit ((home n key + d) % n) <;> simp [h.numSlots_eq]
  · refine h.update (hs.withEntry hi) hi (cell_withEntry hs hi) ?_ ?_
    · rw [hs.isPlaceholder_eq hi]
      unfold DragonHashtable.withEntry
      simp only [Cell.isPlaceholder]
      cases hp : ht.placeholder.bit ((home n key + d) % n) with
      | true =>
        -- a placeholder that is filled was counted
        have := h.numPlaceholders_pos hi hp
        simp
        omega
      | false => simp
    · rw [hcell]
      unfold DragonHashtable.withEntry
      simp [Cell.isEntry]

/-- An absent key can be reached where it is put. -/
theorem addEntry_eq (h : TableInv ht n) (habs : Absent n ht.cell key)
    (hroom : ht.numKvs < n) (value : Words valueLen) :
    ∃ i < n, (ht.cell i).isEntry = false ∧
      addEntry ht key value = (.ok (), ht.withEntry i key value) ∧
      TableInv (ht.withEntry i key value) n := by
  obtain ⟨hcounts, hprobed⟩ := tableInv_iff.mp h
  obtain ⟨d, hd, hpath, hfree, hadd, hcounts'⟩ := addEntry_counts hcounts hroom key value
  have hi : (home n key + d) % n < n := Nat.mod_lt _ (by omega)
  refine ⟨_, hi, hfree, hadd, tableInv_iff.mpr ⟨hcounts', ?_⟩⟩
  rw [cell_withEntry h.toTableShape hi]
  exact hprobed.insert value hd rfl hpath habs

end Add

/-! ## The walk to the left -/

section ClearLeft

variable {ht : DragonHashtable keyLen valueLen} {n : ℕ}

theorem prevIdx_of_pos {idx : ℕ} (hpos : 0 < idx) (hidx : idx < n) (hn : n ≤ 2 ^ 64) :
    prevIdx idx n = idx - 1 := by
  unfold prevIdx
  rw [show idx + 2 ^ 64 - 1 = idx - 1 + 2 ^ 64 by omega, Nat.add_mod_right,
    Nat.mod_eq_of_lt (show idx - 1 < 2 ^ 64 by omega), Nat.mod_eq_of_lt (by omega)]

theorem prevIdx_lt (idx : ℕ) (hn : 0 < n) : prevIdx idx n < n := Nat.mod_lt _ hn

/-- The table after slot `i` has been freed. -/
def DragonHashtable.withoutSlot (ht : DragonHashtable keyLen valueLen) (i : ℕ) :
    DragonHashtable keyLen valueLen :=
  { ht with
    allocated := ht.allocated.withoutBit i
    placeholder := ht.placeholder.withoutBit i
    numPlaceholders := ht.numPlaceholders - 1 }

theorem bit_placeholder_withoutSlot (h : TableShape ht n) {i : ℕ} (hi : i < n) (j : ℕ) :
    (ht.withoutSlot i).placeholder.bit j = (!decide (j = i) && ht.placeholder.bit j) :=
  bit_withoutBit (by rw [h.placeholder_size]; exact hi) j

theorem bit_allocated_withoutSlot (h : TableShape ht n) {i : ℕ} (hi : i < n) (j : ℕ) :
    (ht.withoutSlot i).allocated.bit j = (!decide (j = i) && ht.allocated.bit j) :=
  bit_withoutBit (by rw [h.allocated_size]; exact hi) j

theorem cell_withoutSlot (h : TableShape ht n) {i : ℕ} (hi : i < n) :
    (ht.withoutSlot i).cell = Function.update ht.cell i .empty := by
  apply cell_eq_update
  · intro j hji
    rw [bit_allocated_withoutSlot h hi, bit_placeholder_withoutSlot h hi]
    exact ⟨by simp [hji], by simp [hji], rfl⟩
  · rw [cell_eq_empty_iff, bit_allocated_withoutSlot h hi]
    simp

theorem TableTally.withoutSlot (h : TableTally ht n) {i : ℕ} (hi : i < n)
    (hp : ht.placeholder.bit i = true) : TableTally (ht.withoutSlot i) n ∧
      (ht.withoutSlot i).numPlaceholders + 1 = ht.numPlaceholders := by
  have hs := h.toTableShape
  have hpos := h.numPlaceholders_pos hi hp
  have hcount : (ht.withoutSlot i).numPlaceholders + 1 = ht.numPlaceholders := by
    show ht.numPlaceholders - 1 + 1 = ht.numPlaceholders
    omega
  refine ⟨h.update ⟨h.num_pos, h.num_le, h.numSlots_eq, ?_, ?_, ?_⟩ hi (cell_withoutSlot hs hi)
    ?_, hcount⟩
  · exact (size_withoutBit _ _).trans h.allocated_size
  · exact (size_withoutBit _ _).trans h.placeholder_size
  · intro j hj hpj
    rw [bit_placeholder_withoutSlot hs hi, Bool.and_eq_true] at hpj
    rw [bit_allocated_withoutSlot hs hi, Bool.and_eq_true]
    exact ⟨hpj.1, h.allocated_of_placeholder j hj hpj.2⟩
  · rw [hs.isPlaceholder_eq hi, hp]
    simp only [↓reduceIte, Cell.isPlaceholder, Bool.false_eq_true, Nat.add_zero]
    exact hcount

/-- **The walk to the left** frees placeholders and nothing else.  The entries stay reachable, if it
starts at the left of an empty cell or at a cell where it stops at once, and if it stops before slot
`0`, or goes on from slot `0` to the last slot, or stops where it goes on. -/
theorem clearLeft_eq (fuel : ℕ) (h : TableTally ht n) {idx : ℕ} (hidx : idx < n)
    (hfuel : ht.numPlaceholders < fuel) :
    ∃ ht', clearLeft fuel ht idx = (.ok (), ht') ∧ TableTally ht' n ∧ ht'.numKvs = ht.numKvs ∧
      (∀ j key value, ht'.cell j = .entry key value ↔ ht.cell j = .entry key value) ∧
      (Probed n (home n) ht.cell →
        (ht.placeholder.bit idx = true → ht.cell ((idx + 1) % n) = .empty) →
        (prevIdx 0 n = n - 1 ∨ ht.placeholder.bit (prevIdx 0 n) = false ∨
          ∃ j ≤ idx, ht.placeholder.bit j = false) → Probed n (home n) ht'.cell) := by
  induction fuel generalizing ht idx with
  | zero => omega
  | succ fuel ih =>
    have hs := h.toTableShape
    have hpos := h.num_pos
    unfold clearLeft
    rw [h.get_placeholder hidx]
    cases hp : ht.placeholder.bit idx with
    | false => exact ⟨ht, rfl, h, rfl, fun _ _ _ => Iff.rfl, fun hprobed _ _ => hprobed⟩
    | true =>
      have hresetP : dragonBitsetReset ht.placeholder idx
          = .ok (ht.placeholder.withoutBit idx) :=
        dragonBitsetReset_eq_withoutBit (by rw [h.placeholder_size]; exact hidx)
      have hresetA : dragonBitsetReset ht.allocated idx
          = .ok (ht.allocated.withoutBit idx) :=
        dragonBitsetReset_eq_withoutBit (by rw [h.allocated_size]; exact hidx)
      obtain ⟨htally, hcount⟩ := h.withoutSlot hidx hp
      have hcell := cell_withoutSlot hs hidx
      have hhere : (ht.withoutSlot idx).cell idx = .empty := by
        rw [hcell, Function.update_self]
      -- the entries are where they were
      have hentries : ∀ j key value, (ht.withoutSlot idx).cell j = .entry key value ↔
          ht.cell j = .entry key value := by
        intro j key value
        rw [hcell]
        by_cases hj : j = idx
        · subst hj
          rw [Function.update_self, cell_eq_placeholder_iff.mpr
            ⟨h.allocated_of_placeholder j hidx hp, hp⟩]
          exact ⟨nofun, nofun⟩
        · rw [Function.update_of_ne hj]
      obtain ⟨ht', hloop, htally', hkvs, hent, hprobed'⟩ :=
        ih htally (prevIdx_lt idx (by omega)) (by omega)
      refine ⟨ht', ?_, htally', hkvs, fun j key value =>
        (hent j key value).trans (hentries j key value), fun hprobed hnext hwrap => hprobed' ?_ ?_ ?_⟩
      · rw [← h.numSlots_eq] at hloop
        simp only [hresetP, hresetA]
        exact hloop
      · rw [hcell]
        exact hprobed.clear (hnext rfl)
      · intro hbit
        rcases Nat.eq_zero_or_pos idx with rfl | hidx0
        · rcases hwrap with hlast | hstop | ⟨j, hj, hjf⟩
          · rw [hlast, show n - 1 + 1 = n by omega, Nat.mod_self]
            exact hhere
          · rw [bit_placeholder_withoutSlot hs hidx, hstop, Bool.and_false] at hbit
            cases hbit
          · rw [show j = 0 by omega, hp] at hjf
            cases hjf
        · rw [prevIdx_of_pos hidx0 hidx h.num_le, show idx - 1 + 1 = idx by omega,
            Nat.mod_eq_of_lt hidx]
          exact hhere
      · rcases hwrap with hlast | hstop | ⟨j, hj, hjf⟩
        · exact Or.inl hlast
        · right
          left
          rw [bit_placeholder_withoutSlot hs hidx, hstop, Bool.and_false]
        · right
          right
          have hji : j ≠ idx := by
            rintro rfl
            rw [hp] at hjf
            cases hjf
          rw [prevIdx_of_pos (by omega) hidx h.num_le]
          exact ⟨j, by omega, by
            rw [bit_placeholder_withoutSlot hs hidx, hjf, Bool.and_false]⟩

end ClearLeft

/-! ## Removing -/

section Remove

variable {ht : DragonHashtable keyLen valueLen} {n idx : ℕ}

/-- The walk to the left from slot `idx` passes slot `0` and goes on at a placeholder
that is not the last slot. -/
def WrapsOntoPlaceholder (ht : DragonHashtable keyLen valueLen) (n idx : ℕ) : Prop :=
  ht.allocated.bit ((idx + 1) % n) = false ∧ (∀ j < idx, ht.placeholder.bit j = true) ∧
    prevIdx 0 n ≠ n - 1 ∧ ht.placeholder.bit (prevIdx 0 n) = true

instance (ht : DragonHashtable keyLen valueLen) (n idx : ℕ) :
    Decidable (WrapsOntoPlaceholder ht n idx) := by
  unfold WrapsOntoPlaceholder; infer_instance

/-- The table after the entry of slot `i` has become a placeholder. -/
def DragonHashtable.withPlaceholder (ht : DragonHashtable keyLen valueLen) (i : ℕ) :
    DragonHashtable keyLen valueLen :=
  { ht with
    placeholder := ht.placeholder.withBit i
    numPlaceholders := ht.numPlaceholders + 1
    numKvs := ht.numKvs - 1 }

/-- The table after the slot of an entry has been freed, with the counter of the entries
still to be lowered. -/
def DragonHashtable.withoutEntry (ht : DragonHashtable keyLen valueLen) (i : ℕ) :
    DragonHashtable keyLen valueLen :=
  { ht with allocated := ht.allocated.withoutBit i }

theorem cell_withPlaceholder (h : TableShape ht n) (hidx : idx < n)
    (halloc : ht.allocated.bit idx = true) :
    (ht.withPlaceholder idx).cell = Function.update ht.cell idx .placeholder := by
  have hsize : idx < ht.placeholder.size := by rw [h.placeholder_size]; exact hidx
  apply cell_eq_update
  · intro j hji
    refine ⟨rfl, ?_, rfl⟩
    show (ht.placeholder.withBit idx).bit j = _
    rw [bit_withBit hsize]
    simp [hji]
  · rw [cell_eq_placeholder_iff]
    refine ⟨halloc, ?_⟩
    show (ht.placeholder.withBit idx).bit idx = true
    rw [bit_withBit hsize]
    simp

theorem cell_withoutEntry (h : TableShape ht n) (hidx : idx < n) :
    (ht.withoutEntry idx).cell = Function.update ht.cell idx .empty := by
  have hsize : idx < ht.allocated.size := by rw [h.allocated_size]; exact hidx
  apply cell_eq_update
  · intro j hji
    refine ⟨?_, rfl, rfl⟩
    show (ht.allocated.withoutBit idx).bit j = _
    rw [bit_withoutBit hsize]
    simp [hji]
  · rw [cell_eq_empty_iff]
    show (ht.allocated.withoutBit idx).bit idx = false
    rw [bit_withoutBit hsize]
    simp

theorem TableCounts.numKvs_pos (h : TableCounts ht n) (hidx : idx < n)
    (hcell : (ht.cell idx).isEntry = true) : 0 < ht.numKvs := by
  rw [h.numKvs_eq]
  unfold tally
  rw [Finset.card_pos]
  exact ⟨idx, Finset.mem_filter.mpr ⟨Finset.mem_range.mpr hidx, hcell⟩⟩

theorem TableCounts.withPlaceholder (h : TableCounts ht n) (hidx : idx < n)
    (hcell : (ht.cell idx).isEntry = true) : TableCounts (ht.withPlaceholder idx) n := by
  have hs := h.toTableShape
  have hsize : idx < ht.placeholder.size := by rw [h.placeholder_size]; exact hidx
  have hpos := h.numKvs_pos hidx hcell
  have hbits := hcell
  rw [cell_isEntry, Bool.and_eq_true, Bool.not_eq_true'] at hbits
  refine h.update ⟨h.num_pos, h.num_le, h.numSlots_eq, h.allocated_size, ?_, ?_⟩ hidx
    (cell_withPlaceholder hs hidx hbits.1) ?_ ?_
  · exact (size_withBit _ _).trans h.placeholder_size
  · intro j hj hpj
    have hpj' : (ht.placeholder.withBit idx).bit j = true := hpj
    rw [bit_withBit hsize, Bool.or_eq_true, decide_eq_true_iff] at hpj'
    rcases hpj' with rfl | hold
    · exact hbits.1
    · exact h.allocated_of_placeholder j hj hold
  · rw [hs.isPlaceholder_eq hidx, hbits.2]
    rfl
  · rw [hcell]
    show ht.numKvs - 1 + 1 = ht.numKvs
    omega

theorem TableCounts.withoutEntry (h : TableCounts ht n) (hidx : idx < n)
    (hcell : (ht.cell idx).isEntry = true) : TableTally (ht.withoutEntry idx) n ∧
      ht.numKvs = tally Cell.isEntry n (ht.withoutEntry idx).cell + 1 := by
  have hs := h.toTableShape
  have hsize : idx < ht.allocated.size := by rw [h.allocated_size]; exact hidx
  have hupdate := cell_withoutEntry hs hidx
  have hbits := hcell
  rw [cell_isEntry, Bool.and_eq_true, Bool.not_eq_true'] at hbits
  refine ⟨h.toTableTally.update ⟨h.num_pos, h.num_le, h.numSlots_eq, ?_, h.placeholder_size, ?_⟩
    hidx hupdate ?_, ?_⟩
  · exact (size_withoutBit _ _).trans h.allocated_size
  · intro j hj hpj
    have hpj' : ht.placeholder.bit j = true := hpj
    have hji : j ≠ idx := by
      rintro rfl
      rw [hbits.2] at hpj'
      cases hpj'
    show (ht.allocated.withoutBit idx).bit j = true
    rw [bit_withoutBit hsize, h.allocated_of_placeholder j hj hpj']
    simp [hji]
  · rw [hs.isPlaceholder_eq hidx, hbits.2]
    rfl
  · have htally := tally_update ht.cell Cell.isEntry hidx .empty
    rw [hcell] at htally
    simp only [↓reduceIte, Cell.isEntry, Bool.false_eq_true, Nat.add_zero] at htally
    rw [hupdate, h.numKvs_eq]
    exact htally.symm

/-- A cell that is no entry after a change of one entry's cell. -/
theorem update_entry_iff {cells : ℕ → Cell (Words keyLen) (Words valueLen)}
    {c : Cell (Words keyLen) (Words valueLen)} (hc : c.isEntry = false) (j : ℕ)
    (k : Words keyLen) (v : Words valueLen) :
    Function.update cells idx c j = .entry k v ↔ j ≠ idx ∧ cells j = .entry k v := by
  by_cases hj : j = idx
  · subst hj
    rw [Function.update_self]
    refine ⟨?_, fun h' => absurd rfl h'.1⟩
    rintro rfl
    cases hc
  · rw [Function.update_of_ne hj]
    exact ⟨fun h' => ⟨hj, h'⟩, fun h' => h'.2⟩

theorem tally_isEntry_congr {ht' : DragonHashtable keyLen valueLen}
    (hent : ∀ j k v, ht'.cell j = .entry k v ↔ ht.cell j = .entry k v) :
    tally Cell.isEntry n ht'.cell = tally Cell.isEntry n ht.cell := by
  have hsome : ∀ c : Cell (Words keyLen) (Words valueLen),
      c.isEntry = true ↔ ∃ k v, c = .entry k v := by
    intro c
    cases c <;> simp [Cell.isEntry]
  unfold tally
  congr 1
  ext j
  rw [Finset.mem_filter, Finset.mem_filter, hsome, hsome]
  exact and_congr_right fun _ => exists_congr fun k => exists_congr fun v => hent j k v

/-- The walk that starts after an entry's slot has been freed. -/
theorem clearLeft_withoutEntry (h : TableCounts ht n) (hidx : idx < n)
    (hcell : (ht.cell idx).isEntry = true) (hnext : ht.allocated.bit ((idx + 1) % n) = false) :
    ∃ ht', clearLeft (n + 1) (ht.withoutEntry idx) (prevIdx idx n) = (.ok (), ht') ∧
      TableTally ht' n ∧ ht'.numKvs = ht.numKvs ∧
      (∀ j k v, ht'.cell j = .entry k v ↔ (ht.withoutEntry idx).cell j = .entry k v) ∧
      (Probed n (home n) ht.cell → ¬ WrapsOntoPlaceholder ht n idx →
        Probed n (home n) ht'.cell) := by
  have hpos := h.num_pos
  have hfuel : ht.numPlaceholders < n + 1 := by
    have := tally_le Cell.isPlaceholder n ht.cell
    rw [h.numPlaceholders_eq]
    omega
  obtain ⟨ht', hloop, htally, hkvs, hent, hprobed'⟩ := clearLeft_eq (n + 1)
    (h.withoutEntry hidx hcell).1 (prevIdx_lt idx (by omega)) hfuel
  refine ⟨ht', hloop, htally, hkvs, hent, fun hprobed hsafe => ?_⟩
  have hupdate := cell_withoutEntry h.toTableShape hidx
  have hhere : (ht.withoutEntry idx).cell idx = .empty := by
    rw [hupdate, Function.update_self]
  have hwrap : prevIdx 0 n = n - 1 ∨ ht.placeholder.bit (prevIdx 0 n) = false ∨
      ∃ j < idx, ht.placeholder.bit j = false := by
    by_contra hnone
    push Not at hnone
    exact hsafe ⟨hnext, fun j hj => by simpa using hnone.2.2 j hj, hnone.1,
      by simpa using hnone.2.1⟩
  refine hprobed' ?_ ?_ ?_
  · rw [hupdate]
    exact hprobed.clear (cell_eq_empty_iff.mpr hnext)
  · -- the walk starts at the left of the freed slot, or stops at once
    intro hbit
    have hbit' : ht.placeholder.bit (prevIdx idx n) = true := hbit
    rcases Nat.eq_zero_or_pos idx with rfl | hidx0
    · rcases hwrap with hlast | hstop | ⟨j, hj, -⟩
      · rw [hlast, show n - 1 + 1 = n by omega, Nat.mod_self]
        exact hhere
      · rw [hstop] at hbit'
        cases hbit'
      · omega
    · rw [prevIdx_of_pos hidx0 hidx h.num_le, show idx - 1 + 1 = idx by omega,
        Nat.mod_eq_of_lt hidx]
      exact hhere
  · rcases hwrap with hlast | hstop | ⟨j, hj, hjf⟩
    · exact Or.inl hlast
    · exact Or.inr (Or.inl hstop)
    · rw [prevIdx_of_pos (by omega) hidx h.num_le]
      exact Or.inr (Or.inr ⟨j, by omega, hjf⟩)

/-- **Removing an entry** takes the entry of its slot away and no other.  The other entries stay
reachable, unless the walk to the left goes on at a wrong placeholder. -/
theorem removeEntry_eq (h : TableCounts ht n) (hidx : idx < n)
    (hcell : (ht.cell idx).isEntry = true) :
    ∃ ht', removeEntry ht idx = (.ok (), ht') ∧ TableCounts ht' n ∧
      ht'.numKvs + 1 = ht.numKvs ∧
      (∀ j k v, ht'.cell j = .entry k v ↔ j ≠ idx ∧ ht.cell j = .entry k v) ∧
      (Probed n (home n) ht.cell → ¬ WrapsOntoPlaceholder ht n idx →
        Probed n (home n) ht'.cell) := by
  have hpos := h.num_pos
  have hkvs := h.numKvs_pos hidx hcell
  have hbits := hcell
  rw [cell_isEntry, Bool.and_eq_true, Bool.not_eq_true'] at hbits
  have hget : dragonBitsetGet ht.allocated ((idx + 1) % ht.numSlots)
      = .ok (ht.allocated.bit ((idx + 1) % n)) := by
    rw [h.numSlots_eq]
    exact h.get_allocated (Nat.mod_lt _ (by omega))
  unfold removeEntry
  rw [hget]
  cases hnext : ht.allocated.bit ((idx + 1) % n) with
  | true =>
    have hset : dragonBitsetSet ht.placeholder idx = .ok (ht.placeholder.withBit idx) :=
      dragonBitsetSet_eq_withBit (by rw [h.placeholder_size]; exact hidx)
    have hupdate := cell_withPlaceholder h.toTableShape hidx hbits.1
    refine ⟨ht.withPlaceholder idx, ?_, h.withPlaceholder hidx hcell, ?_, ?_, ?_⟩
    · simp only [hset]
      rfl
    · show ht.numKvs - 1 + 1 = ht.numKvs
      omega
    · intro j k v
      rw [hupdate]
      exact update_entry_iff rfl j k v
    · intro hprobed _
      rw [hupdate]
      exact hprobed.mark idx
  | false =>
    have hreset : dragonBitsetReset ht.allocated idx = .ok (ht.allocated.withoutBit idx) :=
      dragonBitsetReset_eq_withoutBit (by rw [h.allocated_size]; exact hidx)
    obtain ⟨-, htally⟩ := h.withoutEntry hidx hcell
    obtain ⟨ht', hloop, hph, hnum, hent, hprobed'⟩ := clearLeft_withoutEntry h hidx hcell hnext
    have hsame := tally_isEntry_congr (n := n) hent
    refine ⟨{ ht' with numKvs := ht'.numKvs - 1 }, ?_, ⟨⟨⟨hph.num_pos, hph.num_le,
      hph.numSlots_eq, hph.allocated_size, hph.placeholder_size,
      hph.allocated_of_placeholder⟩, hph.numPlaceholders_eq⟩, ?_⟩, ?_, ?_, hprobed'⟩
    · rw [← h.numSlots_eq] at hloop
      unfold DragonHashtable.withoutEntry at hloop
      simp only [hreset, hloop]
    · show ht'.numKvs - 1 = tally Cell.isEntry n ht'.cell
      omega
    · show ht'.numKvs - 1 + 1 = ht.numKvs
      omega
    · intro j k v
      show ht'.cell j = .entry k v ↔ _
      rw [hent j k v, cell_withoutEntry h.toTableShape hidx]
      exact update_entry_iff rfl j k v

end Remove

/-! ## Rehashing -/

section Rehash

variable {ht : DragonHashtable keyLen valueLen} {n : ℕ}

/-- The loop collects all entries when it looks for their number. -/
theorem collectEntries_eq (h : TableShape ht n) (fuel idx : ℕ) (hfuel : n < idx + fuel) :
    collectEntries ht fuel idx (entriesFrom n ht.cell idx).length
      = .ok (entriesFrom n ht.cell idx) := by
  induction fuel generalizing idx with
  | zero =>
    rw [entriesFrom_of_le (by omega)]
    rfl
  | succ fuel ih =>
    by_cases hidx : idx < n
    · have hbits : (ht.cell idx).isEntry
          = (ht.allocated.bit idx && !ht.placeholder.bit idx) := cell_isEntry
      have hrest := ih (idx + 1) (by omega)
      rw [entriesFrom_succ hidx]
      cases hcell : ht.cell idx with
      | entry =>
        obtain ⟨ha, hp, hslot⟩ := cell_eq_entry_iff.mp hcell
        show collectEntries ht (fuel + 1) idx ((entriesFrom n ht.cell (idx + 1)).length + 1) = _
        unfold collectEntries
        rw [h.get_allocated hidx, h.get_placeholder hidx]
        simp only [ha, hp, Bool.not_false, Bool.and_self, ↓reduceIte, hrest, hslot]
        rfl
      | _ =>
        -- the slot holds no entry
        rw [hcell] at hbits
        show collectEntries ht (fuel + 1) idx (entriesFrom n ht.cell (idx + 1)).length
          = .ok (entriesFrom n ht.cell (idx + 1))
        cases hcount : (entriesFrom n ht.cell (idx + 1)).length with
        | zero =>
          rw [List.length_eq_zero_iff.mp hcount]
          rfl
        | succ count =>
          unfold collectEntries
          rw [h.get_allocated hidx, h.get_placeholder hidx]
          simp only [← hbits, Cell.isEntry, Bool.false_eq_true, ↓reduceIte]
          rw [← hcount]
          exact hrest
    · rw [entriesFrom_of_le (Nat.not_lt.mp hidx)]
      rfl

/-- The second loop of `_rehash` adds the entries. -/
theorem readdEntries_eq (entries : List (Words keyLen × Words valueLen)) (h : TableCounts ht n)
    (hnone : ht.numPlaceholders = 0) (hroom : ht.numKvs + entries.length ≤ n / 2) :
    ∃ ht', readdEntries entries ht = (.ok (), ht') ∧ TableCounts ht' n ∧
      ht'.numPlaceholders = 0 ∧
      (entriesFrom n ht'.cell 0).Perm (entriesFrom n ht.cell 0 ++ entries) ∧
      (Probed n (home n) ht.cell → (entries.map Prod.fst).Nodup →
        (∀ k v, (k, v) ∈ entries → Absent n ht.cell k) → Probed n (home n) ht'.cell) := by
  induction entries generalizing ht with
  | nil =>
    refine ⟨ht, rfl, h, hnone, ?_, fun hprobed _ _ => hprobed⟩
    rw [List.append_nil]
  | cons entry rest ih =>
    obtain ⟨key, value⟩ := entry
    rw [List.length_cons] at hroom
    have hpos := h.num_pos
    obtain ⟨d, hd, hpath, hfree, hadd, hcounts⟩ := addEntry_counts h (by omega) key value
    have hi : (home n key + d) % n < n := Nat.mod_lt _ (by omega)
    have hcell : (ht.withEntry ((home n key + d) % n) key value).cell
        = Function.update ht.cell ((home n key + d) % n) (.entry key value) :=
      cell_withEntry h.toTableShape hi
    have hnone' : (ht.withEntry ((home n key + d) % n) key value).numPlaceholders = 0 := by
      unfold DragonHashtable.withEntry
      simp only [hnone]
      split <;> rfl
    have hkvs' : (ht.withEntry ((home n key + d) % n) key value).numKvs = ht.numKvs + 1 := rfl
    obtain ⟨ht', hloop, hcounts', hzero, hperm, hprobed'⟩ :=
      ih hcounts hnone' (by rw [hkvs']; omega)
    refine ⟨ht', ?_, hcounts', hzero, ?_, ?_⟩
    · unfold readdEntries
      rw [h.numSlots_eq, if_neg (by omega), hadd]
      exact hloop
    · rw [hcell] at hperm
      refine hperm.trans ?_
      refine ((entriesFrom_insert hi hfree key value 0 (Nat.zero_le _)).append_right rest).trans ?_
      exact List.perm_middle.symm
    · intro hprobed hnodup habs
      rw [List.map_cons, List.nodup_cons] at hnodup
      refine hprobed' ?_ hnodup.2 ?_
      · rw [hcell]
        exact hprobed.insert value hd rfl hpath (habs key value List.mem_cons_self)
      · intro k v hmem j hj w hjc
        rcases (entries_withEntry h.toTableShape hi hfree key value k w).mp ⟨j, hj, hjc⟩ with
          ⟨j', hj', hjc'⟩ | heq
        · exact habs k v (List.mem_cons_of_mem _ hmem) j' hj' w hjc'
        · obtain ⟨rfl, -⟩ := Prod.mk.inj heq
          exact hnodup.1 (List.mem_map.mpr ⟨(k, v), hmem, rfl⟩)

theorem tableInv_of_empty (h : TableShape ht n)
    (hempty : ∀ i < n, ht.allocated.bit i = false) (hkvs : ht.numKvs = 0)
    (hplaceholders : ht.numPlaceholders = 0) : TableInv ht n := by
  have hcell : ∀ i < n, ht.cell i = .empty := fun i hi => cell_eq_empty_iff.mpr (hempty i hi)
  have htally : ∀ p : Cell (Words keyLen) (Words valueLen) → Bool, p .empty = false →
      tally p n ht.cell = 0 := by
    intro p hp
    unfold tally
    rw [Finset.card_eq_zero, Finset.filter_eq_empty_iff]
    intro i hi
    rw [hcell i (Finset.mem_range.mp hi), hp]
    exact Bool.false_ne_true
  refine ⟨⟨h, ⟨?_, ?_⟩, ?_⟩, ?_⟩
  · intro i k v hi hentry
    rw [hcell i hi] at hentry
    cases hentry
  · intro i j k v w hi _ hentry
    rw [hcell i hi] at hentry
    cases hentry
  · rw [hplaceholders, htally _ rfl]
  · rw [hkvs, htally _ rfl]

/-- The table that `_rehash` starts again from. -/
def DragonHashtable.cleared (ht : DragonHashtable keyLen valueLen) :
    DragonHashtable keyLen valueLen :=
  { ht with
    allocated := dragonBitsetClear ht.allocated
    placeholder := dragonBitsetClear ht.placeholder
    numPlaceholders := 0
    numKvs := 0 }

theorem bit_allocated_cleared (h : TableShape ht n) {i : ℕ} (hi : i < n) :
    ht.cleared.allocated.bit i = false :=
  bit_dragonBitsetClear _ (by rw [h.allocated_size]; exact hi)

theorem tableInv_cleared (h : TableShape ht n) : TableInv ht.cleared n := by
  refine tableInv_of_empty ⟨h.num_pos, h.num_le, h.numSlots_eq, h.allocated_size,
    h.placeholder_size, ?_⟩ (fun i hi => bit_allocated_cleared h hi) rfl rfl
  intro i hi hp
  have hfalse : ht.cleared.placeholder.bit i = false :=
    bit_dragonBitsetClear _ (by rw [h.placeholder_size]; exact hi)
  rw [hfalse] at hp
  cases hp

/-- **Rehashing** keeps the entries and leaves no placeholder. -/
theorem rehash_eq (h : TableCounts ht n) (hroom : ht.numKvs ≤ n / 2) :
    (rehash ht).1 = .ok () ∧ TableCounts (rehash ht).2 n ∧ (rehash ht).2.numPlaceholders = 0 ∧
      (entriesFrom n (rehash ht).2.cell 0).Perm (entriesFrom n ht.cell 0) ∧
      (Probed n (home n) ht.cell → Probed n (home n) (rehash ht).2.cell) := by
  have hall : ht.numKvs = (entriesFrom n ht.cell 0).length := by
    rw [h.numKvs_eq, length_entriesFrom]
  obtain ⟨hcounts₀, hprobed₀⟩ := tableInv_iff.mp (tableInv_cleared h.toTableShape)
  have hempty : ∀ i < n, ht.cleared.cell i = .empty :=
    fun i hi => cell_eq_empty_iff.mpr (bit_allocated_cleared h.toTableShape hi)
  have hnil : entriesFrom n ht.cleared.cell 0 = [] := by
    rw [List.eq_nil_iff_forall_not_mem]
    rintro ⟨k, v⟩ hmem
    obtain ⟨i, -, hi, hcell⟩ := mem_entriesFrom.mp hmem
    rw [hempty i hi] at hcell
    cases hcell
  obtain ⟨ht', hreadd, hcounts, hzero, hperm, hprobed'⟩ := readdEntries_eq
    (entriesFrom n ht.cell 0) hcounts₀ rfl
    (by rw [← hall]; show 0 + ht.numKvs ≤ n / 2; omega)
  have hrehash : rehash ht = (.ok (), ht') := by
    unfold rehash
    rw [h.numSlots_eq, hall, collectEntries_eq h.toTableShape _ 0 (by omega)]
    unfold DragonHashtable.cleared at hreadd
    rw [h.numSlots_eq] at hreadd
    exact hreadd
  rw [hnil, List.nil_append] at hperm
  rw [hrehash]
  refine ⟨rfl, hcounts, hzero, hperm, fun hprobed => hprobed' hprobed₀ (hprobed.nodup_keys 0) ?_⟩
  intro k v _ i hi w hcell
  rw [hempty i hi] at hcell
  cases hcell

theorem cleanup_counts (h : TableCounts ht n) :
    TableCounts ht.cleanup n ∧ ht.cleanup.numKvs = ht.numKvs ∧
      (n / 2 < ht.numPlaceholders → ht.cleanup.numPlaceholders = 0) ∧
      (¬ n / 2 < ht.numPlaceholders → ht.cleanup = ht) ∧
      (entriesFrom n ht.cleanup.cell 0).Perm (entriesFrom n ht.cell 0) ∧
      (Probed n (home n) ht.cell → Probed n (home n) ht.cleanup.cell) := by
  unfold cleanup
  rw [h.numSlots_eq]
  by_cases hmany : n / 2 < ht.numPlaceholders
  · rw [if_pos hmany]
    have hsum := tally_entry_add_placeholder_le n ht.cell
    rw [← h.numKvs_eq, ← h.numPlaceholders_eq] at hsum
    obtain ⟨-, hcounts, hzero, hperm, hprobed⟩ := rehash_eq h (by omega)
    refine ⟨hcounts, ?_, fun _ => hzero, fun hno => absurd hmany hno, hperm, hprobed⟩
    rw [hcounts.numKvs_eq, h.numKvs_eq, ← length_entriesFrom, ← length_entriesFrom,
      hperm.length_eq]
  · rw [if_neg hmany]
    exact ⟨h, rfl, fun hyes => absurd hyes hmany, fun _ => rfl, List.Perm.refl _, id⟩

theorem cleanup_eq (h : TableInv ht n) :
    TableInv ht.cleanup n ∧ ht.cleanup.numKvs = ht.numKvs ∧
      (n / 2 < ht.numPlaceholders → ht.cleanup.numPlaceholders = 0) ∧
      (¬ n / 2 < ht.numPlaceholders → ht.cleanup = ht) ∧
      ∀ k v, (∃ i < n, ht.cleanup.cell i = .entry k v) ↔ ∃ i < n, ht.cell i = .entry k v := by
  obtain ⟨hcounts, hprobed⟩ := tableInv_iff.mp h
  obtain ⟨hcounts', hkvs, hmany, hfew, hperm, hprobed'⟩ := cleanup_counts hcounts
  refine ⟨tableInv_iff.mpr ⟨hcounts', hprobed' hprobed⟩, hkvs, hmany, hfew, fun k v => ?_⟩
  have hmem : ∀ cells : ℕ → Cell (Words keyLen) (Words valueLen),
      (∃ i < n, cells i = .entry k v) ↔ (k, v) ∈ entriesFrom n cells 0 := by
    intro cells
    rw [mem_entriesFrom]
    exact exists_congr fun i => ⟨fun hi => ⟨Nat.zero_le i, hi⟩, fun hi => hi.2⟩
  rw [hmem, hmem, hperm.mem_iff]

end Rehash
