/-
# Filtering the managers of a dictionary (`filter_aggregator` of `src/dragon/data/ddict/ddict.py`)

A filter runs code on every manager and merges the values that the managers put out.  An aggregator
of more managers than the branching factor divides them among aggregators that it starts, one of
at most as many managers starts a process for each of them, and one of a single manager runs the
filter code itself.  Whoever starts processes merges what they put out with a priority queue.

Conventions:

* a queue between two processes is the list of the values that are put in it, in the order in
  which they are got; the filter code of a manager puts out the values of its stream;
* the recursion over the processes that are started is given fuel, `none` if it runs out;
* an entry of the priority queue carries what is left of its queue instead of the index of it.
-/
import DragonRuntime.KWayMerge

namespace ManagerFilter

/-! ## The division of the managers -/

/-- `num_divisions` and `division_sz` of so many managers, more than the branching factor. -/
def divisionSz (branchingFactor numManagers : ℕ) : ℕ :=
  let numDivisions := numManagers / branchingFactor
  let numDivisions := if numDivisions = 1 then 2 else numDivisions
  let numDivisions := if numDivisions > branchingFactor then branchingFactor else numDivisions
  let divisionSz := numManagers / numDivisions
  if divisionSz * numDivisions < numManagers then divisionSz + 1 else divisionSz

/-- With a branching factor of two or more there are some divisions, none of them of all the
managers and no more of them than the branching factor. -/
theorem divisionSz_spec {branchingFactor numManagers : ℕ} (hbranch : 2 ≤ branchingFactor)
    (hmany : branchingFactor < numManagers) :
    0 < divisionSz branchingFactor numManagers ∧
      divisionSz branchingFactor numManagers < numManagers ∧
        numManagers ≤ branchingFactor * divisionSz branchingFactor numManagers := by
  have hdiv : 1 ≤ numManagers / branchingFactor := (Nat.one_le_div_iff (by omega)).mpr hmany.le
  obtain ⟨numDivisions, hnum, htwo, hle⟩ : ∃ numDivisions,
      divisionSz branchingFactor numManagers =
        (if numManagers / numDivisions * numDivisions < numManagers then
          numManagers / numDivisions + 1 else numManagers / numDivisions) ∧
      2 ≤ numDivisions ∧ numDivisions ≤ branchingFactor := by
    refine ⟨_, rfl, ?_, ?_⟩ <;> split_ifs <;> omega
  rw [hnum]
  have hmod := Nat.div_add_mod numManagers numDivisions
  have hlt := Nat.mod_lt numManagers (show 0 < numDivisions by omega)
  have hhalf : numManagers / numDivisions ≤ numManagers / 2 := Nat.div_le_div_left htwo (by omega)
  have hpos : 1 ≤ numManagers / numDivisions := (Nat.one_le_div_iff (by omega)).mpr (by omega)
  have hcomm := Nat.mul_comm numDivisions (numManagers / numDivisions)
  have hcover : ∀ sz, numManagers ≤ sz * numDivisions → numManagers ≤ branchingFactor * sz := by
    intro sz hsz
    calc numManagers ≤ sz * numDivisions := hsz
      _ ≤ sz * branchingFactor := Nat.mul_le_mul_left sz hle
      _ = branchingFactor * sz := Nat.mul_comm _ _
  split_ifs with hrest
  · refine ⟨by omega, by omega, hcover _ ?_⟩
    rw [Nat.add_mul]
    omega
  · exact ⟨by omega, by omega, hcover _ (by omega)⟩

/-- With a branching factor of one there is one division, of all the managers. -/
theorem divisionSz_one {numManagers : ℕ} (hmany : 1 < numManagers) :
    divisionSz 1 numManagers = numManagers := by
  have hmany' : ¬ numManagers = 1 := by omega
  simp only [divisionSz, Nat.div_one, hmany', if_false, gt_iff_lt, hmany, if_true, mul_one,
    lt_self_iff_false]

variable {M V : Type*}

/-- The subsets of so many managers that are handed to aggregators, one after the other. -/
def subsets (sz : ℕ) (managersHosts : List M) : List (List M) :=
  if _h : 0 < managersHosts.length ∧ 0 < sz then
    managersHosts.take sz :: subsets sz (managersHosts.drop sz)
  else []
termination_by managersHosts.length
decreasing_by
  rw [List.length_drop]
  omega

variable {sz : ℕ} {l managersHosts : List M} {α β : Type*}

/-- **Induction along the division.** -/
theorem subsets_induction (hsz : 0 < sz) {P : List M → Prop} (hnil : P [])
    (htake : ∀ l, 0 < l.length → P (l.drop sz) → P l) (l : List M) : P l := by
  induction hn : l.length using Nat.strong_induction_on generalizing l with
  | _ n ih =>
    rcases Nat.eq_zero_or_pos l.length with hzero | hpos
    · rw [List.length_eq_zero_iff.mp hzero]
      exact hnil
    · refine htake l hpos (ih _ ?_ _ rfl)
      rw [List.length_drop]
      omega

theorem subsets_nil (sz : ℕ) : subsets sz ([] : List M) = [] := by
  rw [subsets, dif_neg (by simp)]

theorem subsets_of_pos (hsz : 0 < sz) (hl : 0 < l.length) :
    subsets sz l = l.take sz :: subsets sz (l.drop sz) := by
  rw [subsets, dif_pos ⟨hl, hsz⟩]

theorem flatten_subsets (hsz : 0 < sz) (l : List M) : (subsets sz l).flatten = l := by
  induction l using subsets_induction hsz with
  | hnil => rw [subsets_nil]; rfl
  | htake l hl ih => rw [subsets_of_pos hsz hl, List.flatten_cons, ih, List.take_append_drop]

/-- A subset is not empty, and it has at most so many managers. -/
theorem length_of_mem_subsets (hsz : 0 < sz) {part : List M} (hpart : part ∈ subsets sz l) :
    0 < part.length ∧ part.length ≤ sz := by
  induction l using subsets_induction hsz with
  | hnil =>
    rw [subsets_nil] at hpart
    cases hpart
  | htake l hl ih =>
    rw [subsets_of_pos hsz hl, List.mem_cons] at hpart
    rcases hpart with rfl | hpart
    · rw [List.length_take]
      omega
    · exact ih hpart

theorem length_subsets_le (hsz : 0 < sz) {k : ℕ} (hk : l.length ≤ k * sz) :
    (subsets sz l).length ≤ k := by
  induction l using subsets_induction hsz generalizing k with
  | hnil =>
    rw [subsets_nil]
    exact Nat.zero_le k
  | htake l hl ih =>
    rw [subsets_of_pos hsz hl, List.length_cons]
    cases k with
    | zero => omega
    | succ k =>
      refine Nat.succ_le_succ (ih ?_)
      rw [List.length_drop]
      rw [Nat.succ_mul] at hk
      omega

/-! ## The aggregators -/

/-- What came of a filter: the values that were put out, the managers that were filtered, and how
many processes an aggregator has started at most. -/
structure Filtered (M V : Type*) where
  out : List V
  managers : List M
  fanOut : ℕ

variable {lt : V → V → Bool} (heap : EntryHeap lt) (stream : M → List V) (branchingFactor : ℕ)

/-- The priority queue is primed with the first item of each queue, and merged. -/
def mergeQueues (filterQueues : List (List V)) : List V :=
  heap.merge (filterQueues.flatMap MergeEntry.ofQueue)

/-- `filter_aggregator` -/
def filterAggregator : ℕ → List M → Option (Filtered M V)
  | 0, _ => none
  | fuel + 1, managersHosts =>
    match managersHosts with
    | [managerId] => some ⟨stream managerId, [managerId], 0⟩
    | _ =>
      if managersHosts.length > branchingFactor then do
        let parts := subsets (divisionSz branchingFactor managersHosts.length) managersHosts
        let started ← parts.mapM (filterAggregator fuel)
        some ⟨mergeQueues heap (started.map Filtered.out),
          started.flatMap Filtered.managers,
          (started.map Filtered.fanOut).foldl max parts.length⟩
      else
        some ⟨mergeQueues heap (managersHosts.map stream), managersHosts,
          managersHosts.length⟩

theorem mergeQueues_perm (filterQueues : List (List V)) :
    (mergeQueues heap filterQueues).Perm filterQueues.flatten := by
  refine (heap.merge_perm _).trans ?_
  rw [List.flatMap_assoc, List.flatten_eq_flatMap]
  refine List.Perm.of_eq (List.flatMap_congr fun q _ => ?_)
  exact MergeEntry.flatMap_items_ofQueue q

theorem mergeQueues_inOrder (hlt : StrictWeakOrder lt) {filterQueues : List (List V)}
    (horder : ∀ q ∈ filterQueues, InOrder lt q) : InOrder lt (mergeQueues heap filterQueues) := by
  refine heap.merge_inOrder hlt fun e he => ?_
  obtain ⟨q, hq, he⟩ := List.mem_flatMap.mp he
  rw [MergeEntry.items_of_mem_ofQueue he]
  exact horder q hq

/-- What a filter of these managers is to come to. -/
structure IsFilterOf (lt : V → V → Bool) (stream : M → List V) (branchingFactor : ℕ)
    (managersHosts : List M) (r : Filtered M V) : Prop where
  managers_perm : r.managers.Perm managersHosts
  out_perm : r.out.Perm (managersHosts.flatMap stream)
  inOrder : StrictWeakOrder lt → (∀ m ∈ managersHosts, InOrder lt (stream m)) → InOrder lt r.out
  fanOut_le : r.fanOut ≤ max 2 branchingFactor

variable {heap stream branchingFactor}

theorem forall₂_of_mapM {f : α → Option β} {l : List α} {l' : List β} (h : l.mapM f = some l') :
    List.Forall₂ (fun a b => f a = some b) l l' := by
  induction l generalizing l' with
  | nil =>
    obtain rfl : [] = l' := by simpa using h
    exact List.Forall₂.nil
  | cons a l ih =>
    simp only [List.mapM_cons, Option.bind_eq_bind, Option.bind_eq_some_iff, Option.pure_def,
      Option.some.injEq] at h
    obtain ⟨b, hb, rest, hrest, rfl⟩ := h
    exact List.Forall₂.cons hb (ih hrest)

theorem exists_mapM {f : α → Option β} {l : List α} (h : ∀ a ∈ l, ∃ b, f a = some b) :
    ∃ l', l.mapM f = some l' := by
  induction l with
  | nil => exact ⟨[], rfl⟩
  | cons a l ih =>
    obtain ⟨b, hb⟩ := h a List.mem_cons_self
    obtain ⟨l', hl'⟩ := ih fun c hc => h c (List.mem_cons_of_mem a hc)
    exact ⟨b :: l', by simp [List.mapM_cons, hb, hl']⟩

theorem foldl_max_le {l : List ℕ} {a k : ℕ} (ha : a ≤ k) (hl : ∀ x ∈ l, x ≤ k) :
    l.foldl max a ≤ k := by
  induction l generalizing a with
  | nil => exact ha
  | cons x l ih =>
    refine ih (max_le ha (hl x List.mem_cons_self)) fun y hy => ?_
    exact hl y (List.mem_cons_of_mem x hy)

theorem started_perm {parts : List (List M)} {started : List (Filtered M V)}
    (h : List.Forall₂ (IsFilterOf lt stream branchingFactor) parts started) :
    (started.flatMap Filtered.managers).Perm parts.flatten ∧
      (started.map Filtered.out).flatten.Perm (parts.flatten.flatMap stream) := by
  induction h with
  | nil => exact ⟨List.Perm.nil, List.Perm.nil⟩
  | cons hpart _ ih =>
    refine ⟨?_, ?_⟩
    · rw [List.flatMap_cons, List.flatten_cons]
      exact hpart.managers_perm.append ih.1
    · rw [List.map_cons, List.flatten_cons, List.flatten_cons, List.flatMap_append]
      exact hpart.out_perm.append ih.2

theorem exists_of_mem_started {R : α → β → Prop} {l : List α} {l' : List β}
    (h : List.Forall₂ R l l') {b : β} (hb : b ∈ l') : ∃ a ∈ l, R a b := by
  induction h with
  | nil => cases hb
  | cons hab _ ih =>
    rcases List.mem_cons.mp hb with rfl | hb
    · exact ⟨_, List.mem_cons_self, hab⟩
    · obtain ⟨a, ha, hr⟩ := ih hb
      exact ⟨a, List.mem_cons_of_mem _ ha, hr⟩

/-- **Step lemma of the recursion.**  An aggregator that has started aggregators. -/
theorem isFilterOf_parts {parts : List (List M)} {started : List (Filtered M V)}
    (hflatten : parts.flatten = managersHosts) (hlength : parts.length ≤ max 2 branchingFactor)
    (h : List.Forall₂ (IsFilterOf lt stream branchingFactor) parts started) :
    IsFilterOf lt stream branchingFactor managersHosts
      ⟨mergeQueues heap (started.map Filtered.out), started.flatMap Filtered.managers,
        (started.map Filtered.fanOut).foldl max parts.length⟩ where
  managers_perm := hflatten ▸ (started_perm h).1
  out_perm := (mergeQueues_perm heap _).trans (hflatten ▸ (started_perm h).2)
  inOrder hlt horder := by
    refine mergeQueues_inOrder heap hlt fun q hq => ?_
    obtain ⟨r, hr, rfl⟩ := List.mem_map.mp hq
    obtain ⟨part, hpart, hfilter⟩ := exists_of_mem_started h hr
    refine hfilter.inOrder hlt fun m hm => horder m ?_
    rw [← hflatten]
    exact List.mem_flatten_of_mem hpart hm
  fanOut_le := by
    refine foldl_max_le hlength fun k hk => ?_
    obtain ⟨r, hr, rfl⟩ := List.mem_map.mp hk
    obtain ⟨part, -, hfilter⟩ := exists_of_mem_started h hr
    exact hfilter.fanOut_le

/-! ## The recursion -/

theorem filterAggregator_of_le (fuel : ℕ) (hmany : managersHosts.length ≠ 1)
    (hle : managersHosts.length ≤ branchingFactor) :
    filterAggregator heap stream branchingFactor (fuel + 1) managersHosts =
      some ⟨mergeQueues heap (managersHosts.map stream), managersHosts,
        managersHosts.length⟩ := by
  rw [filterAggregator.eq_def]
  split
  · rename_i heq
    cases heq
  · rename_i heq
    obtain rfl : fuel = _ := Nat.succ.inj heq
    split
    · exact absurd rfl hmany
    · rw [if_neg (by omega)]

theorem filterAggregator_of_lt (fuel : ℕ) (hmany : managersHosts.length ≠ 1)
    (hlt : branchingFactor < managersHosts.length) :
    filterAggregator heap stream branchingFactor (fuel + 1) managersHosts =
      ((subsets (divisionSz branchingFactor managersHosts.length) managersHosts).mapM
        (filterAggregator heap stream branchingFactor fuel)).bind fun started =>
          some ⟨mergeQueues heap (started.map Filtered.out),
            started.flatMap Filtered.managers,
            (started.map Filtered.fanOut).foldl max
              (subsets (divisionSz branchingFactor managersHosts.length)
                managersHosts).length⟩ := by
  rw [filterAggregator.eq_def]
  split
  · rename_i heq
    cases heq
  · rename_i heq
    obtain rfl : fuel = _ := Nat.succ.inj heq
    split
    · exact absurd rfl hmany
    · rw [if_pos hlt]
      rfl

theorem isFilterOf_singleton (managerId : M) :
    IsFilterOf lt stream branchingFactor [managerId] ⟨stream managerId, [managerId], 0⟩ where
  managers_perm := List.Perm.refl _
  out_perm := List.Perm.of_eq (List.flatMap_singleton stream managerId).symm
  inOrder _ horder := horder managerId List.mem_cons_self
  fanOut_le := Nat.zero_le _

theorem isFilterOf_managers (hle : managersHosts.length ≤ max 2 branchingFactor) :
    IsFilterOf lt stream branchingFactor managersHosts
      ⟨mergeQueues heap (managersHosts.map stream), managersHosts, managersHosts.length⟩ where
  managers_perm := List.Perm.refl _
  out_perm := by
    rw [List.flatMap_def]
    exact mergeQueues_perm heap _
  inOrder hlt horder := by
    refine mergeQueues_inOrder heap hlt fun q hq => ?_
    obtain ⟨m, hm, rfl⟩ := List.mem_map.mp hq
    exact horder m hm
  fanOut_le := hle

theorem isFilterOf_filterAggregator (hbranch : 2 ≤ branchingFactor) {fuel : ℕ} {r : Filtered M V}
    (h : filterAggregator heap stream branchingFactor fuel managersHosts = some r) :
    IsFilterOf lt stream branchingFactor managersHosts r := by
  induction fuel generalizing managersHosts r with
  | zero => cases h
  | succ fuel ih =>
    by_cases hmany : managersHosts.length = 1
    · obtain ⟨managerId, rfl⟩ := List.length_eq_one_iff.mp hmany
      obtain rfl := Option.some.inj h
      exact isFilterOf_singleton managerId
    · rcases Nat.lt_or_ge branchingFactor managersHosts.length with hlt | hle
      · obtain ⟨hpos, -, hcover⟩ := divisionSz_spec hbranch hlt
        rw [filterAggregator_of_lt fuel hmany hlt, Option.bind_eq_some_iff] at h
        obtain ⟨started, hstarted, hr⟩ := h
        obtain rfl := Option.some.inj hr
        refine isFilterOf_parts (flatten_subsets hpos managersHosts) ?_ ?_
        · exact (length_subsets_le hpos hcover).trans (le_max_right 2 branchingFactor)
        · exact (forall₂_of_mapM hstarted).imp fun _ _ hpart => ih hpart
      · rw [filterAggregator_of_le fuel hmany hle] at h
        obtain rfl := Option.some.inj h
        exact isFilterOf_managers (hle.trans (le_max_right 2 branchingFactor))

/-- With a branching factor of two or more the subsets get smaller, and the recursion ends. -/
theorem exists_filterAggregator (heap : EntryHeap lt) (stream : M → List V)
    (hbranch : 2 ≤ branchingFactor) {fuel : ℕ} (hne : 0 < managersHosts.length)
    (hfuel : managersHosts.length ≤ fuel) :
    ∃ r, filterAggregator heap stream branchingFactor fuel managersHosts = some r := by
  induction fuel generalizing managersHosts with
  | zero => omega
  | succ fuel ih =>
    by_cases hmany : managersHosts.length = 1
    · obtain ⟨managerId, rfl⟩ := List.length_eq_one_iff.mp hmany
      exact ⟨_, rfl⟩
    · rcases Nat.lt_or_ge branchingFactor managersHosts.length with hlt | hle
      · obtain ⟨hpos, hless, -⟩ := divisionSz_spec hbranch hlt
        obtain ⟨started, hstarted⟩ := exists_mapM
          (f := filterAggregator heap stream branchingFactor fuel)
          (l := subsets (divisionSz branchingFactor managersHosts.length) managersHosts)
          fun part hpart => by
            obtain ⟨hpart, hsz⟩ := length_of_mem_subsets hpos hpart
            exact ih hpart (by omega)
        rw [filterAggregator_of_lt fuel hmany hlt, hstarted]
        exact ⟨_, rfl⟩
      · exact ⟨_, filterAggregator_of_le fuel hmany hle⟩

/-- With a branching factor of one, an aggregator of two or more managers starts one with the same
managers. -/
theorem filterAggregator_one (fuel : ℕ) (hmany : 1 < managersHosts.length) :
    filterAggregator heap stream 1 fuel managersHosts = none := by
  induction fuel with
  | zero => rfl
  | succ fuel ih =>
    have hpos : 0 < managersHosts.length := by omega
    rw [filterAggregator_of_lt fuel (by omega) hmany, divisionSz_one hmany,
      subsets_of_pos hpos hpos, List.mapM_cons, List.take_length, ih]
    rfl

/-- The filter ends, and comes to a filter of the managers, precisely if the branching factor is
two or more or there is one manager. -/
theorem filter_iff (heap : EntryHeap lt) (stream : M → List V) (hbranch : 1 ≤ branchingFactor)
    {managersHosts : List M} (hne : managersHosts ≠ []) :
    (∃ fuel r, filterAggregator heap stream branchingFactor fuel managersHosts = some r ∧
      IsFilterOf lt stream branchingFactor managersHosts r) ↔
      2 ≤ branchingFactor ∨ managersHosts.length = 1 := by
  have hpos := List.length_pos_iff.mpr hne
  constructor
  · rintro ⟨fuel, r, hr, -⟩
    by_contra hneither
    obtain rfl : branchingFactor = 1 := by omega
    rw [filterAggregator_one fuel (by omega)] at hr
    cases hr
  · rintro (htwo | hone)
    · obtain ⟨r, hr⟩ := exists_filterAggregator heap stream htwo hpos le_rfl
      exact ⟨_, r, hr, isFilterOf_filterAggregator htwo hr⟩
    · obtain ⟨managerId, rfl⟩ := List.length_eq_one_iff.mp hone
      exact ⟨1, _, rfl, isFilterOf_singleton managerId⟩

/-- Five managers with two values each, and a branching factor of two. -/
theorem filter_iff_five :
    (∃ fuel r, filterAggregator (scanHeap fun a b : ℕ => decide (a < b)) (fun m => [m, m + 10]) 2
        fuel [0, 1, 2, 3, 4] = some r ∧
      IsFilterOf (fun a b : ℕ => decide (a < b)) (fun m => [m, m + 10]) 2 [0, 1, 2, 3, 4] r) ↔
      2 ≤ 2 ∨ [0, 1, 2, 3, 4].length = 1 :=
  filter_iff _ _ (by decide) (by decide)

/-- Two managers and a branching factor of one. -/
theorem filter_does_not_end :
    ¬ ∀ (branchingFactor : ℕ) (managersHosts : List ℕ), 1 ≤ branchingFactor →
      managersHosts ≠ [] →
      ∃ fuel r, filterAggregator (scanHeap fun a b : ℕ => decide (a < b)) (fun m => [m])
          branchingFactor fuel managersHosts = some r ∧
        IsFilterOf (fun a b : ℕ => decide (a < b)) (fun m => [m]) branchingFactor managersHosts
          r := by
  intro h
  obtain ⟨fuel, r, hr, -⟩ := h 1 [0, 1] (by decide) (by decide)
  rw [filterAggregator_one fuel (by decide)] at hr
  cases hr

end ManagerFilter
