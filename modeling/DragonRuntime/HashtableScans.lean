/-
# Scans of the hashtable (`src/lib/hashtable.c`)

The iterator walks over the slots once; the statistics follow the chain of every slot to its end.
Both go by the two bitsets, which stay in step with the two counters in every run
(`tableSound_of_run`), also where a removal frees a wrong slot and keys can no longer be reached.

Conventions:

* the doubles of the statistics are exact quotients;
* `none` stands for a walk along a chain that has not ended within the rounds that are given.
-/
import DragonRuntime.HashtableRefinement

open LinearProbing DragonHashtable

variable {keyLen valueLen : ℕ}

namespace DragonHashtable

/-! ## The iterator -/

/-- The loop of `dragon_hashtable_iterator_next`: the entry, and the index that it leaves. -/
def iteratorLoop (ht : DragonHashtable keyLen valueLen) :
    ℕ → ℕ → Except DragonError (Words keyLen × Words valueLen) × ℕ
  | 0, index => (.error .failure, index)
  | fuel + 1, index =>
    if ht.numSlots ≤ index then (.error .hashtableIterationComplete, index)
    else
      match dragonBitsetGet ht.allocated index with
      | .error e => (.error e, index)
      | .ok allocated =>
        match dragonBitsetGet ht.placeholder index with
        | .error e => (.error e, index)
        | .ok placeholder =>
          if allocated && !placeholder then (.ok (ht.slots index), index + 1)
          else iteratorLoop ht fuel (index + 1)

/-! ## The statistics -/

/-- The inner loop of `dragon_hashtable_stats`: the length of the chain at a slot. -/
def chainLoop (ht : DragonHashtable keyLen valueLen) :
    ℕ → ℕ → ℕ → Option (Except DragonError ℕ)
  | 0, _, _ => none
  | fuel + 1, idx, chainLength =>
    match dragonBitsetGet ht.allocated idx with
    | .error e => some (.error e)
    | .ok false => some (.ok chainLength)
    | .ok true =>
      match dragonBitsetGet ht.placeholder idx with
      | .error e => some (.error e)
      | .ok _ =>
        chainLoop ht fuel (if idx + 1 = ht.numSlots then 0 else idx + 1) (chainLength + 1)

/-- The outer loop: the sum and the maximum of the lengths from slot `k` on. -/
def statsLoop (ht : DragonHashtable keyLen valueLen) (fuel : ℕ) :
    ℕ → ℕ → ℕ → ℕ → Option (Except DragonError (ℕ × ℕ))
  | 0, _, total, longest => some (.ok (total, longest))
  | slots + 1, k, total, longest =>
    match chainLoop ht fuel k 0 with
    | none => none
    | some (.error e) => some (.error e)
    | some (.ok chainLength) =>
      statsLoop ht fuel slots (k + 1) (total + chainLength)
        (if longest < chainLength then chainLength else longest)

end DragonHashtable

/-- `dragonHashtableStats_t` -/
structure DragonHashtableStats where
  loadFactor : ℚ
  capacity : ℕ
  numItems : ℕ
  keyLen : ℕ
  valueLen : ℕ
  avgChainLength : ℚ
  maxChainLength : ℕ

/-- `dragon_hashtable_iterator_init` -/
def dragonHashtableIteratorInit : ℕ := 0

/-- `dragon_hashtable_iterator_next` -/
def dragonHashtableIteratorNext (ht : DragonHashtable keyLen valueLen) (index : ℕ) :
    Except DragonError (Words keyLen × Words valueLen) × ℕ :=
  ht.iteratorLoop (ht.numSlots + 1) index

/-- What the next calls of `dragon_hashtable_iterator_next` return. -/
def iteratorCalls (ht : DragonHashtable keyLen valueLen) :
    ℕ → ℕ → List (Except DragonError (Words keyLen × Words valueLen))
  | 0, _ => []
  | calls + 1, index =>
    (dragonHashtableIteratorNext ht index).1 ::
      iteratorCalls ht calls (dragonHashtableIteratorNext ht index).2

/-- `dragon_hashtable_stats`, where each walk along a chain gets `fuel` rounds. -/
def dragonHashtableStats (ht : DragonHashtable keyLen valueLen) (fuel : ℕ) :
    Option (Except DragonError DragonHashtableStats) :=
  (ht.statsLoop fuel ht.numSlots 0 0 0).map fun r => r.map fun lengths =>
    { loadFactor := ht.numKvs / ht.numSlots
      capacity := ht.numSlots * 50 / 100
      numItems := ht.numKvs
      keyLen := keyLen * 8
      valueLen := valueLen * 8
      avgChainLength := if ht.numKvs = 0 then 0 else lengths.1 / ht.numKvs
      maxChainLength := lengths.2 }

/-- `dragon_hashtable_dump_to_fd`: what it prints before the two bitsets. -/
def dragonHashtableDump (ht : DragonHashtable keyLen valueLen) (fuel : ℕ) :
    Option (Except DragonError (ℕ × ℕ × DragonHashtableStats)) :=
  (dragonHashtableStats ht fuel).map fun r => r.map fun stats => (ht.numSlots, ht.numKvs, stats)

/-! ## The counters in every run -/

/-- The counters are right, and the table is at most half full. -/
structure TableSound (ht : DragonHashtable keyLen valueLen) (n : ℕ) : Prop
    extends TableCounts ht n where
  numKvs_le : ht.numKvs ≤ n / 2

section Sound

variable {ht : DragonHashtable keyLen valueLen} {n : ℕ}

theorem cell_of_searchLoop (h : TableShape ht n) {key : Words keyLen} {start i : ℕ} (fuel : ℕ)
    {idx : ℕ} (hidx : idx < n) (hs : searchLoop ht key start fuel idx = .ok i) :
    i < n ∧ ∃ value, ht.cell i = .entry key value := by
  induction fuel generalizing idx with
  | zero => cases hs
  | succ fuel ih =>
    unfold searchLoop at hs
    rw [h.get_allocated hidx] at hs
    cases ha : ht.allocated.bit idx with
    | false =>
      simp only [ha] at hs
      split at hs <;> cases hs
    | true =>
      simp only [ha, h.get_placeholder hidx, h.numSlots_eq] at hs
      split at hs
      · rename_i hfound
        cases hs
        rw [Bool.and_eq_true, Bool.not_eq_true'] at hfound
        obtain rfl := (keysEqual_iff _ _).mp hfound.2
        exact ⟨hidx, _, cell_eq_entry_iff.mpr ⟨ha, hfound.1, rfl⟩⟩
      · split at hs
        · cases hs
        · exact ih (Nat.mod_lt _ (by omega)) hs

theorem TableSound.cleanup (h : TableSound ht n) : TableSound ht.cleanup n := by
  obtain ⟨hcounts, hkvs, -⟩ := cleanup_counts h.toTableCounts
  exact ⟨hcounts, by rw [hkvs]; exact h.numKvs_le⟩

theorem TableSound.add (h : TableSound ht n) (key : Words keyLen) (value : Words valueLen) :
    TableSound (dragonHashtableAdd ht key value).2 n := by
  unfold dragonHashtableAdd
  rw [h.numSlots_eq]
  split
  · exact h
  · have hpos := h.num_pos
    have hkvs := (cleanup_counts h.toTableCounts).2.1
    obtain ⟨d, -, -, -, hadd, hcounts⟩ :=
      addEntry_counts h.cleanup.toTableCounts (by omega) key value
    rw [hadd]
    refine ⟨hcounts, ?_⟩
    show ht.cleanup.numKvs + 1 ≤ n / 2
    omega

theorem TableSound.remove (h : TableSound ht n) (key : Words keyLen) :
    TableSound (dragonHashtableRemove ht key).2 n := by
  have hc := h.cleanup
  unfold dragonHashtableRemove
  cases hs : ht.cleanup.search key with
  | error e => simpa only [hs] using hc
  | ok i =>
    have hstart : ht.cleanup.startIdx key < n := by
      rw [hc.startIdx_eq]
      exact hc.home_lt key
    obtain ⟨hi, value, hentry⟩ := cell_of_searchLoop hc.toTableShape _ hstart (hc.search_eq key ▸ hs)
    obtain ⟨ht', hremove, hcounts, hkvs, -⟩ :=
      removeEntry_eq hc.toTableCounts hi (by rw [hentry]; rfl)
    simp only [hs, hremove]
    have := hc.numKvs_le
    exact ⟨hcounts, by omega⟩

/-- **One call** keeps the counters right. -/
theorem TableSound.step {s : DragonHashtable keyLen valueLen × KeyMap keyLen valueLen}
    (h : TableSound s.1 n) (op : HashtableOp keyLen valueLen) :
    TableSound (tableStep s op).1 n := by
  cases op with
  | add key value =>
    have htable : (tableStep s (.add key value)).1 = (dragonHashtableAdd s.1 key value).2 := by
      dsimp only [tableStep]
      split <;> simp [*]
    exact htable ▸ h.add key value
  | replace key value =>
    have htable : (tableStep s (.replace key value)).1 =
        (dragonHashtableReplace s.1 key value).2 := by
      dsimp only [tableStep]
      split <;> simp [*]
    have hpos := h.num_pos
    have hslots := h.numSlots_eq
    rw [htable]
    unfold dragonHashtableReplace
    rw [if_neg (by omega)]
    exact (h.remove key).add key value
  | remove key =>
    have htable : (tableStep s (.remove key)).1 = (dragonHashtableRemove s.1 key).2 := by
      dsimp only [tableStep]
      split <;> simp [*]
    exact htable ▸ h.remove key

/-- **The states of a run** are sound, or the table has no slots and is as it was made. -/
theorem tableSound_of_run {slots : ℕ → Words keyLen × Words valueLen}
    {allocated placeholder : ℕ → BitVec 8} {maxEntries : ℕ}
    (hinit : dragonHashtableInit slots allocated placeholder maxEntries = .ok ht)
    (ops : List (HashtableOp keyLen valueLen)) :
    NoSlots (ops.foldl tableStep (ht, fun _ => none)).1 ∧ numSlotsOf maxEntries = 0 ∨
      TableSound (ops.foldl tableStep (ht, fun _ => none)).1 (numSlotsOf maxEntries) := by
  rcases tableHolds_of_init hinit with ⟨hnone, hzero⟩ | hstart
  · rw [NoSlots.run (s := (ht, fun _ => none)) hnone ops]
    exact Or.inl ⟨hnone, hzero⟩
  have hlegal : Runs.Legal tableStep (fun _ _ => True)
      ((ht, fun _ => none) : _ × KeyMap keyLen valueLen) ops :=
    Runs.legal_iff_forall.mpr fun _ _ _ _ => trivial
  exact Or.inr (hlegal.invariant (I := fun s => TableSound s.1 (numSlotsOf maxEntries))
    (fun s op h _ => h.step op) ⟨(tableInv_iff.mp hstart.toTableInv).1, hstart.numKvs_le⟩)

end Sound

/-! ## Iterating -/

section Iteration

variable {ht : DragonHashtable keyLen valueLen} {n : ℕ}

/-- One call: the first entry from the index on, or the end of the iteration. -/
theorem iteratorLoop_eq (h : TableShape ht n) (fuel idx : ℕ) (hfuel : n ≤ idx + fuel) :
    (entriesFrom n ht.cell idx = [] ∧ ∃ idx', n ≤ idx' ∧
      ht.iteratorLoop (fuel + 1) idx = (.error .hashtableIterationComplete, idx')) ∨
    ∃ pair idx', entriesFrom n ht.cell idx = pair :: entriesFrom n ht.cell idx' ∧
      ht.iteratorLoop (fuel + 1) idx = (.ok pair, idx') := by
  induction fuel generalizing idx with
  | zero =>
    unfold iteratorLoop
    rw [Nat.add_zero] at hfuel
    rw [h.numSlots_eq, if_pos hfuel]
    exact Or.inl ⟨entriesFrom_of_le hfuel, idx, hfuel, rfl⟩
  | succ fuel ih =>
    unfold iteratorLoop
    rw [h.numSlots_eq]
    by_cases hidx : idx < n
    · rw [if_neg (by omega), h.get_allocated hidx, h.get_placeholder hidx]
      have hbits : (ht.cell idx).isEntry
          = (ht.allocated.bit idx && !ht.placeholder.bit idx) := cell_isEntry
      rw [entriesFrom_succ hidx]
      simp only [← hbits]
      cases hcell : ht.cell idx with
      | entry key value =>
        right
        refine ⟨(key, value), idx + 1, rfl, ?_⟩
        rw [(cell_eq_entry_iff.mp hcell).2.2]
        rfl
      | _ => exact ih (idx + 1) (by omega)
    · rw [if_pos (by omega)]
      exact Or.inl ⟨entriesFrom_of_le (Nat.not_lt.mp hidx), idx, Nat.not_lt.mp hidx, rfl⟩

/-- **The iteration** yields the entries in the order of their slots, and then only its end. -/
theorem iteratorCalls_eq (h : TableShape ht n) (calls idx : ℕ) :
    iteratorCalls ht calls idx = ((entriesFrom n ht.cell idx).map Except.ok ++
      List.replicate calls (Except.error DragonError.hashtableIterationComplete)).take calls := by
  induction calls generalizing idx with
  | zero => rfl
  | succ calls ih =>
    unfold iteratorCalls
    rw [ih]
    unfold dragonHashtableIteratorNext
    rw [h.numSlots_eq]
    rcases iteratorLoop_eq h n idx (by omega) with ⟨hnil, idx', hle, hloop⟩ |
      ⟨pair, idx', hcons, hloop⟩
    · rw [hloop, hnil, entriesFrom_of_le hle]
      rfl
    · rw [hloop, hcons, List.map_cons, List.cons_append, List.take_succ_cons]
      congr 1
      -- one more end at the end makes no difference
      rw [List.replicate_succ', ← List.append_assoc]
      refine (List.take_append_of_le_length ?_).symm
      rw [List.length_append, List.length_replicate]
      exact Nat.le_add_left _ _

end Iteration

/-! ## Chains -/

section Chains

variable {ht : DragonHashtable keyLen valueLen} {n : ℕ}

theorem chainLoop_allocated (h : TableShape ht n) {idx : ℕ} (hidx : idx < n)
    (ha : ht.allocated.bit idx = true) (fuel chainLength : ℕ) :
    ht.chainLoop (fuel + 1) idx chainLength
      = ht.chainLoop fuel ((idx + 1) % n) (chainLength + 1) := by
  have hnext : (if idx + 1 = n then 0 else idx + 1) = (idx + 1) % n := by
    split
    · rename_i heq
      rw [heq, Nat.mod_self]
    · rw [Nat.mod_eq_of_lt (by omega)]
  conv_lhs => unfold chainLoop
  rw [h.get_allocated hidx, ha, h.numSlots_eq, hnext]
  simp only [h.get_placeholder hidx]

/-- A walk along allocated slots only never ends. -/
theorem chainLoop_of_full (h : TableShape ht n) (hfull : ∀ i < n, ht.allocated.bit i = true)
    (fuel : ℕ) {idx : ℕ} (hidx : idx < n) (chainLength : ℕ) :
    ht.chainLoop fuel idx chainLength = none := by
  induction fuel generalizing idx chainLength with
  | zero => rfl
  | succ fuel ih =>
    rw [chainLoop_allocated h hidx (hfull idx hidx)]
    exact ih (Nat.mod_lt _ (by omega)) _

/-- A walk ends at the latest at an unallocated slot that is `d` steps ahead. -/
theorem chainLoop_of_free (h : TableShape ht n) {j : ℕ} (hfree : ht.allocated.bit j = false)
    (d : ℕ) {idx : ℕ} (hidx : idx < n) (hd : (idx + d) % n = j) (fuel : ℕ) (hfuel : d < fuel)
    (chainLength : ℕ) : ∃ length, ht.chainLoop fuel idx chainLength = some (.ok length) := by
  induction d generalizing idx fuel chainLength with
  | zero =>
    obtain ⟨fuel, rfl⟩ := Nat.exists_eq_succ_of_ne_zero (Nat.ne_of_gt hfuel)
    rw [Nat.add_zero, Nat.mod_eq_of_lt hidx] at hd
    refine ⟨chainLength, ?_⟩
    unfold chainLoop
    rw [h.get_allocated hidx, hd, hfree]
  | succ d ih =>
    obtain ⟨fuel, rfl⟩ := Nat.exists_eq_succ_of_ne_zero (Nat.ne_of_gt (Nat.zero_lt_of_lt hfuel))
    cases ha : ht.allocated.bit idx with
    | false =>
      refine ⟨chainLength, ?_⟩
      unfold chainLoop
      rw [h.get_allocated hidx, ha]
    | true =>
      rw [chainLoop_allocated h hidx ha]
      refine ih (Nat.mod_lt _ (by omega)) ?_ fuel (by omega) _
      rw [Nat.mod_add_mod, Nat.add_assoc, Nat.add_comm 1 d]
      exact hd

theorem TableCounts.card_allocated (h : TableCounts ht n) :
    ((Finset.range n).filter fun i => ht.allocated.bit i = true).card
      = ht.numKvs + ht.numPlaceholders := by
  rw [h.numKvs_eq, h.numPlaceholders_eq]
  unfold tally
  rw [← Finset.card_union_of_disjoint, ← Finset.filter_or]
  · congr 1
    apply Finset.filter_congr
    intro i hi
    rw [h.isPlaceholder_eq (Finset.mem_range.mp hi), cell_isEntry]
    have hsub := h.allocated_of_placeholder i (Finset.mem_range.mp hi)
    cases ha : ht.allocated.bit i <;> cases hp : ht.placeholder.bit i <;> simp_all
  · rw [Finset.disjoint_filter]
    intro i _ hentry hplace
    cases hc : ht.cell i <;> rw [hc] at hentry hplace
    · cases hentry
    · cases hentry
    · cases hplace

theorem TableCounts.exists_free_iff (h : TableCounts ht n) :
    (∃ i < n, ht.allocated.bit i = false) ↔ ht.numKvs + ht.numPlaceholders < n := by
  rw [← h.card_allocated]
  constructor
  · rintro ⟨i, hi, hfree⟩
    have hlt : (Finset.range n).filter (fun i => ht.allocated.bit i = true) ⊂ Finset.range n := by
      rw [Finset.filter_ssubset]
      exact ⟨i, Finset.mem_range.mpr hi, by simp [hfree]⟩
    exact (Finset.card_lt_card hlt).trans_eq (Finset.card_range n)
  · intro hlt
    by_contra hall
    push Not at hall
    rw [Finset.filter_true_of_mem, Finset.card_range] at hlt
    · exact absurd hlt (Nat.lt_irrefl n)
    · intro i hi
      simpa using hall i (Finset.mem_range.mp hi)

theorem statsLoop_of_free (h : TableShape ht n) {j : ℕ} (hj : j < n)
    (hfree : ht.allocated.bit j = false) (slots k : ℕ) (hk : k + slots = n) (total longest : ℕ) :
    ∃ lengths, ht.statsLoop n slots k total longest = some (.ok lengths) := by
  induction slots generalizing k total longest with
  | zero => exact ⟨_, rfl⟩
  | succ slots ih =>
    obtain ⟨d, hd, hdj⟩ := exists_walk k hj
    obtain ⟨length, hchain⟩ := chainLoop_of_free h hfree d (by omega) hdj n hd 0
    unfold statsLoop
    rw [hchain]
    exact ih (k + 1) (by omega) _ _

/-- **A walk around** a table with slots ends iff some slot is free. -/
theorem TableCounts.stats_returns_iff (h : TableCounts ht n) :
    (∀ k < n, (∃ fuel length, ht.chainLoop fuel k 0 = some (.ok length)) ↔
      ∃ i < n, ht.allocated.bit i = false) ∧
    ((∃ fuel stats, dragonHashtableStats ht fuel = some (.ok stats)) ↔
      ∃ i < n, ht.allocated.bit i = false) := by
  have hpos := h.num_pos
  have hfull : ∀ k < n, (∃ fuel length, ht.chainLoop fuel k 0 = some (.ok length)) →
      ∃ i < n, ht.allocated.bit i = false := by
    rintro k hk ⟨fuel, length, hchain⟩
    by_contra hnone
    push Not at hnone
    rw [chainLoop_of_full h.toTableShape (fun i hi => by simpa using hnone i hi) fuel hk] at hchain
    cases hchain
  refine ⟨fun k hk => ⟨hfull k hk, ?_⟩, ?_, ?_⟩
  · rintro ⟨j, hj, hfree⟩
    obtain ⟨d, -, hdj⟩ := exists_walk k hj
    exact ⟨d + 1, chainLoop_of_free h.toTableShape hfree d hk hdj _ (Nat.lt_succ_self d) 0⟩
  · rintro ⟨fuel, stats, hreturn⟩
    refine hfull 0 (by omega) ⟨fuel, ?_⟩
    unfold dragonHashtableStats at hreturn
    obtain ⟨r, hloop, hr⟩ := Option.map_eq_some_iff.mp hreturn
    rw [h.numSlots_eq, show n = n - 1 + 1 by omega] at hloop
    unfold statsLoop at hloop
    cases hchain : ht.chainLoop fuel 0 0 with
    | none =>
      rw [hchain] at hloop
      cases hloop
    | some r' =>
      rw [hchain] at hloop
      cases r' with
      | error e =>
        cases hloop
        cases hr
      | ok length => exact ⟨length, rfl⟩
  · rintro ⟨j, hj, hfree⟩
    obtain ⟨lengths, hloop⟩ := statsLoop_of_free h.toTableShape hj hfree n 0 (Nat.zero_add _) 0 0
    refine ⟨n, ?_⟩
    unfold dragonHashtableStats
    rw [h.numSlots_eq, hloop]
    exact ⟨_, rfl⟩

end Chains

/-- The dump returns where the statistics do. -/
theorem dragonHashtableDump_returns_iff (ht : DragonHashtable keyLen valueLen) :
    (∃ fuel dump, dragonHashtableDump ht fuel = some (.ok dump)) ↔
      ∃ fuel stats, dragonHashtableStats ht fuel = some (.ok stats) := by
  unfold dragonHashtableDump
  constructor
  · rintro ⟨fuel, dump, hdump⟩
    obtain ⟨r, hr, hmap⟩ := Option.map_eq_some_iff.mp hdump
    cases r with
    | error e => cases hmap
    | ok stats => exact ⟨fuel, stats, hr⟩
  · rintro ⟨fuel, stats, hstats⟩
    exact ⟨fuel, _, by rw [hstats]; rfl⟩

/-- A table without slots has no chain to walk along. -/
theorem NoSlots.stats_returns {ht : DragonHashtable keyLen valueLen} (h : NoSlots ht) :
    ∃ fuel stats, dragonHashtableStats ht fuel = some (.ok stats) := by
  have hloop : ht.statsLoop 0 ht.numSlots 0 0 0 = some (.ok (0, 0)) := by
    rw [h.numSlots_eq]
    rfl
  unfold dragonHashtableStats
  exact ⟨0, _, by rw [hloop]; rfl⟩

/-! ## Statistics of the states of a run -/

/-- A new table of two entries, with keys and values of one word. -/
def fourSlots : DragonHashtable 1 1 :=
  ⟨4, 0, 0, dragonBitsetInit (fun _ => 0) 4, dragonBitsetInit (fun _ => 0) 4,
    fun _ => (word 0, word 0)⟩

/-- The keys `0` to `3` are added; `0` and `1` are removed again in between. -/
def fillingCalls : List (HashtableOp 1 1) :=
  [.add (word 0) (word 7), .add (word 1) (word 7), .remove (word 0), .add (word 2) (word 7),
    .remove (word 1), .add (word 3) (word 7)]

theorem legal_fillingCalls :
    Runs.Legal tableStep FreshAdd (fourSlots, fun _ => none) fillingCalls := by
  refine ⟨?_, ?_, trivial, ?_, trivial, ?_, trivial⟩ <;>
  · unfold FreshAdd
    decide +kernel

/-- The iterator yields the pairs of the map, each once, and then only its end. -/
def YieldsOnce (ht : DragonHashtable keyLen valueLen) (M : KeyMap keyLen valueLen) : Prop :=
  ∃ pairs : List (Words keyLen × Words valueLen), pairs.Nodup ∧
    (∀ k v, (k, v) ∈ pairs ↔ M k = some v) ∧
    ∀ calls, iteratorCalls ht calls dragonHashtableIteratorInit = (pairs.map Except.ok ++
      List.replicate calls (Except.error DragonError.hashtableIterationComplete)).take calls

/-- The two counters and the two bitsets are in step. -/
structure CountersRight (ht : DragonHashtable keyLen valueLen) : Prop where
  allocated_of_placeholder : ∀ i < ht.numSlots, ht.placeholder.bit i = true →
    ht.allocated.bit i = true
  numPlaceholders_eq : ht.numPlaceholders
    = ((Finset.range ht.numSlots).filter fun i => ht.placeholder.bit i = true).card
  numKvs_eq : ht.numKvs
    = ((Finset.range ht.numSlots).filter fun i => ht.allocated.bit i = true).card
      - ((Finset.range ht.numSlots).filter fun i => ht.placeholder.bit i = true).card
  numKvs_le : ht.numKvs ≤ ht.numSlots / 2

theorem TableSound.countersRight {ht : DragonHashtable keyLen valueLen} {n : ℕ}
    (h : TableSound ht n) : CountersRight ht := by
  have hplace : ht.numPlaceholders
      = ((Finset.range n).filter fun i => ht.placeholder.bit i = true).card := by
    rw [h.numPlaceholders_eq]
    unfold tally
    congr 1
    apply Finset.filter_congr
    intro i hi
    rw [h.isPlaceholder_eq (Finset.mem_range.mp hi)]
  have hcard := h.card_allocated
  constructor <;> rw [h.numSlots_eq]
  · exact h.allocated_of_placeholder
  · exact hplace
  · omega
  · exact h.numKvs_le

theorem NoSlots.countersRight {ht : DragonHashtable keyLen valueLen} (h : NoSlots ht) :
    CountersRight ht := by
  constructor <;> rw [h.numSlots_eq]
  · exact fun i hi => absurd hi (Nat.not_lt_zero i)
  · exact h.numPlaceholders_eq
  · exact h.numKvs_eq
  · exact h.numKvs_eq.le

/-- A table without slots yields nothing but the end. -/
theorem NoSlots.iteratorCalls_eq {ht : DragonHashtable keyLen valueLen} (h : NoSlots ht)
    (calls : ℕ) : iteratorCalls ht calls dragonHashtableIteratorInit
      = ((([] : List (Words keyLen × Words valueLen)).map Except.ok) ++
        List.replicate calls (Except.error DragonError.hashtableIterationComplete)).take calls := by
  rw [List.map_nil, List.nil_append, List.take_of_length_le (List.length_replicate ..).le]
  have hnext : ∀ index, dragonHashtableIteratorNext ht index
      = (.error .hashtableIterationComplete, index) := by
    intro index
    unfold dragonHashtableIteratorNext iteratorLoop
    exact if_pos (by rw [h.numSlots_eq]; exact Nat.zero_le index)
  induction calls with
  | zero => rfl
  | succ calls ih =>
    unfold iteratorCalls
    rw [hnext, ih, List.replicate_succ]

/-- Two additions that share their first slot, and a removal that then frees a wrong slot. -/
def losingCalls : List (HashtableOp 1 1) :=
  [.add (word 5) (word 1), .add (word 11) (word 2), .remove (word 5), .add (word 2) (word 3),
    .remove (word 2), .replace (word 11) (word 4)]

/-- The pairs in the slots, as the iterator yields them. -/
def DragonHashtable.entries (ht : DragonHashtable keyLen valueLen) :
    List (Words keyLen × Words valueLen) :=
  entriesFrom ht.numSlots ht.cell 0

/-- Each call changes what the table holds by its own pair at most, and an addition fails only
where nothing more is to be held. -/
structure BagCalls (ht : DragonHashtable keyLen valueLen) (capacity : ℕ) : Prop where
  add : ∀ key value, ht.entries.length < capacity ∧ (dragonHashtableAdd ht key value).1 = .ok () ∧
      (dragonHashtableAdd ht key value).2.entries.Perm ((key, value) :: ht.entries) ∨
    ht.entries.length = capacity ∧ dragonHashtableAdd ht key value = (.error .hashtableFull, ht)
  remove : ∀ key, (∃ value, (dragonHashtableRemove ht key).1 = .ok () ∧
      ht.entries.Perm ((key, value) :: (dragonHashtableRemove ht key).2.entries)) ∨
    (∃ e, (dragonHashtableRemove ht key).1 = .error e) ∧
      (dragonHashtableRemove ht key).2.entries.Perm ht.entries

section Bag

variable {ht : DragonHashtable keyLen valueLen} {n : ℕ}

theorem TableShape.entries_eq (h : TableShape ht n) : ht.entries = entriesFrom n ht.cell 0 := by
  unfold entries
  rw [h.numSlots_eq]

theorem TableSound.cleanup_entries (h : TableSound ht n) :
    ht.cleanup.entries.Perm ht.entries := by
  rw [h.entries_eq, h.cleanup.entries_eq]
  exact (cleanup_counts h.toTableCounts).2.2.2.2.1

theorem TableSound.bag_add (h : TableSound ht n) (hroom : ht.numKvs < n / 2) (key : Words keyLen)
    (value : Words valueLen) : (dragonHashtableAdd ht key value).1 = .ok () ∧
      (dragonHashtableAdd ht key value).2.entries.Perm ((key, value) :: ht.entries) := by
  have hkvs := (cleanup_counts h.toTableCounts).2.1
  obtain ⟨d, -, -, hfree, hadd, hcounts⟩ :=
    addEntry_counts h.cleanup.toTableCounts (by omega) key value
  have hlt : (home n key + d) % n < n := Nat.mod_lt _ (by omega)
  have hcall : dragonHashtableAdd ht key value = ht.cleanup.addEntry key value :=
    if_neg (by rw [h.numSlots_eq]; omega)
  rw [hcall, hadd]
  refine ⟨rfl, ?_⟩
  rw [hcounts.entries_eq, cell_withEntry h.cleanup.toTableShape hlt]
  refine (entriesFrom_insert hlt hfree key value 0 (Nat.zero_le _)).trans ?_
  rw [← h.cleanup.entries_eq]
  exact h.cleanup_entries.cons _

/-- Where one entry has gone, the others and that one are what was held. -/
theorem entriesFrom_remove {cells cells' : ℕ → Cell (Words keyLen) (Words valueLen)} {i : ℕ}
    (hi : i < n) {key : Words keyLen} {value : Words valueLen} (hcell : cells i = .entry key value)
    (hrest : ∀ j k v, cells' j = .entry k v ↔ j ≠ i ∧ cells j = .entry k v) :
    (entriesFrom n cells 0).Perm ((key, value) :: entriesFrom n cells' 0) := by
  have hgone : (cells' i).isEntry = false := by
    cases hc : cells' i with
    | entry k v => exact absurd rfl ((hrest i k v).mp hc).1
    | _ => rfl
  refine List.Perm.trans (List.Perm.of_eq ?_) (entriesFrom_insert hi hgone key value 0 (Nat.zero_le i))
  unfold entriesFrom
  refine List.filterMap_congr fun j _ => ?_
  by_cases hj : j = i
  · subst hj
    rw [hcell, Function.update_self]
  · rw [Function.update_of_ne hj]
    have hsame := fun k v => (hrest j k v).trans (and_iff_right hj)
    cases hc : cells j with
    | entry k v => rw [(hsame k v).mpr hc]
    | _ =>
      cases hc' : cells' j with
      | entry k v => simp [(hsame k v).mp hc'] at hc
      | _ => rfl

theorem TableSound.bag_remove (h : TableSound ht n) (key : Words keyLen) :
    (∃ value, (dragonHashtableRemove ht key).1 = .ok () ∧
      ht.entries.Perm ((key, value) :: (dragonHashtableRemove ht key).2.entries)) ∨
    (∃ e, (dragonHashtableRemove ht key).1 = .error e) ∧
      (dragonHashtableRemove ht key).2.entries.Perm ht.entries := by
  have hc := h.cleanup
  unfold dragonHashtableRemove
  cases hs : ht.cleanup.search key with
  | error e =>
    simp only [hs]
    exact Or.inr ⟨⟨e, rfl⟩, h.cleanup_entries⟩
  | ok i =>
    have hstart : ht.cleanup.startIdx key < n := by
      rw [hc.startIdx_eq]
      exact hc.home_lt key
    obtain ⟨hi, value, hcell⟩ := cell_of_searchLoop hc.toTableShape _ hstart (hc.search_eq key ▸ hs)
    obtain ⟨ht', hremove, hcounts, -, hrest, -⟩ :=
      removeEntry_eq hc.toTableCounts hi (by rw [hcell]; rfl)
    simp only [hs, hremove]
    refine Or.inl ⟨value, trivial, h.cleanup_entries.symm.trans ?_⟩
    rw [hc.entries_eq, hcounts.entries_eq]
    exact entriesFrom_remove hi hcell hrest

/-- A table without slots is the empty bag. -/
theorem NoSlots.bag (h : NoSlots ht) : BagCalls ht (0 / 2) := by
  have hempty : ht.entries = [] := by
    unfold entries
    rw [h.numSlots_eq]
    exact entriesFrom_of_le (Nat.le_refl 0)
  refine ⟨fun key value => Or.inr ⟨by rw [hempty]; rfl, h.add_eq key value⟩, fun key => Or.inr ?_⟩
  rw [h.remove_eq]
  exact ⟨⟨_, rfl⟩, List.Perm.refl _⟩

end Bag
