/-
# Linear probing with placeholders

General mathematics of open addressing on a ring of `n` cells, over arbitrary keys and
values.  A key `k` starts its probe at the cell `home k`, and reaches its entry over cells that are
not empty (`Probed`).
-/
import Mathlib

namespace LinearProbing

/-- One cell of the ring. -/
inductive Cell (κ ν : Type*) : Type _ where
  | empty
  | placeholder
  | entry (key : κ) (value : ν)

namespace Cell

variable {κ ν : Type*}

/-- The cell holds an entry. -/
def isEntry : Cell κ ν → Bool
  | entry _ _ => true
  | _ => false

/-- The cell is a placeholder. -/
def isPlaceholder : Cell κ ν → Bool
  | placeholder => true
  | _ => false

/-- The entry of the cell. -/
def toPair : Cell κ ν → Option (κ × ν)
  | entry key value => some (key, value)
  | _ => none

end Cell

variable {κ ν : Type*} {n : ℕ} {home : κ → ℕ} {cells : ℕ → Cell κ ν}

/-! ## The ring -/

/-- The first `n` steps of a walk around the ring visit different cells. -/
theorem walk_injective {h t t' : ℕ} (ht : t < n) (ht' : t' < n)
    (heq : (h + t) % n = (h + t') % n) : t = t' := by
  have hmod : t % n = t' % n := Nat.ModEq.add_left_cancel' h heq
  rwa [Nat.mod_eq_of_lt ht, Nat.mod_eq_of_lt ht'] at hmod

/-- Every cell is visited in the first `n` steps. -/
theorem exists_walk (h : ℕ) {i : ℕ} (hi : i < n) : ∃ d < n, (h + d) % n = i := by
  refine ⟨(i + (n - h % n)) % n, Nat.mod_lt _ (by omega), ?_⟩
  have hlt : h % n < n := Nat.mod_lt _ (by omega)
  rw [Nat.add_mod, Nat.mod_mod, ← Nat.add_mod,
    show h + (i + (n - h % n)) = i + (h - h % n) + n by have := Nat.mod_le h n; omega,
    Nat.add_mod_right]
  have hdvd : h - h % n = n * (h / n) := by
    have := Nat.div_add_mod h n
    omega
  rw [hdvd, Nat.add_mul_mod_self_left, Nat.mod_eq_of_lt hi]

theorem step_mod (h t n : ℕ) : ((h + t) % n + 1) % n = (h + (t + 1)) % n := by
  rw [Nat.mod_add_mod, Nat.add_assoc]

/-! ## Reachable entries -/

/-- Every entry is reached from its home over cells that are not empty, and no key is
stored twice. -/
structure Probed (n : ℕ) (home : κ → ℕ) (cells : ℕ → Cell κ ν) : Prop where
  path : ∀ i k v, i < n → cells i = .entry k v →
    ∃ d < n, (home k + d) % n = i ∧ ∀ t < d, cells ((home k + t) % n) ≠ .empty
  unique : ∀ i j k v w, i < n → j < n → cells i = .entry k v → cells j = .entry k w → i = j

/-- No cell holds the key. -/
def Absent (n : ℕ) (cells : ℕ → Cell κ ν) (k : κ) : Prop :=
  ∀ i < n, ∀ v, cells i ≠ .entry k v

/-- Before it reaches its entry a probe meets neither an empty cell nor its key. -/
theorem Probed.before (h : Probed n home cells) {i d t : ℕ} {k : κ} {v : ν} (hi : i < n)
    (hcell : cells i = .entry k v) (hd : d < n) (hdi : (home k + d) % n = i)
    (hpath : ∀ t < d, cells ((home k + t) % n) ≠ .empty) (ht : t < d) :
    cells ((home k + t) % n) ≠ .empty ∧ ∀ w, cells ((home k + t) % n) ≠ .entry k w := by
  refine ⟨hpath t ht, ?_⟩
  intro w hw
  have hlt : (home k + t) % n < n := Nat.mod_lt _ (by omega)
  have hsame := h.unique _ _ k w v hlt hi hw hcell
  have := walk_injective (show t < n by omega) hd (hsame.trans hdi.symm)
  omega

/-- **Insert** an absent key into a cell that its probe reaches. -/
theorem Probed.insert (h : Probed n home cells) {i d : ℕ} {k : κ} (v : ν) (hd : d < n)
    (hdi : (home k + d) % n = i) (hpath : ∀ t < d, cells ((home k + t) % n) ≠ .empty)
    (habs : Absent n cells k) : Probed n home (Function.update cells i (.entry k v)) := by
  -- no cell becomes empty
  have hkeep : ∀ j, cells j ≠ .empty → Function.update cells i (.entry k v) j ≠ .empty := by
    intro j hj
    by_cases hji : j = i
    · subst hji
      rw [Function.update_self]
      exact fun h' => by cases h'
    · rwa [Function.update_of_ne hji]
  refine ⟨?_, ?_⟩
  · intro j k' v' hj hcell
    by_cases hji : j = i
    · subst hji
      rw [Function.update_self] at hcell
      cases hcell
      exact ⟨d, hd, hdi, fun t ht => hkeep _ (hpath t ht)⟩
    · rw [Function.update_of_ne hji] at hcell
      obtain ⟨d', hd', hdj, hpath'⟩ := h.path j k' v' hj hcell
      exact ⟨d', hd', hdj, fun t ht => hkeep _ (hpath' t ht)⟩
  · intro j j' k' w w' hj hj' hc hc'
    by_cases hji : j = i
    · by_cases hji' : j' = i
      · omega
      · subst hji
        rw [Function.update_self] at hc
        cases hc
        rw [Function.update_of_ne hji'] at hc'
        exact absurd hc' (habs j' hj' w')
    · rw [Function.update_of_ne hji] at hc
      by_cases hji' : j' = i
      · subst hji'
        rw [Function.update_self] at hc'
        cases hc'
        exact absurd hc (habs j hj w)
      · rw [Function.update_of_ne hji'] at hc'
        exact h.unique j j' k' w w' hj hj' hc hc'

/-- A change of one cell that makes no entry and empties no cell on a path. -/
theorem Probed.update_of_not_entry (h : Probed n home cells) {i : ℕ} {c : Cell κ ν}
    (hc : c.isEntry = false)
    (hpath : c = .empty → ∀ (k : κ) (d : ℕ), d < n →
      (∀ t < d, cells ((home k + t) % n) ≠ .empty) →
      cells ((home k + d) % n) ≠ .empty → ∀ t < d, (home k + t) % n ≠ i) :
    Probed n home (Function.update cells i c) := by
  have hold : ∀ j k v, Function.update cells i c j = .entry k v → cells j = .entry k v := by
    intro j k v hj
    by_cases hji : j = i
    · subst hji
      rw [Function.update_self] at hj
      rw [hj] at hc
      cases hc
    · rwa [Function.update_of_ne hji] at hj
  refine ⟨?_, ?_⟩
  · intro j k v hj hcell
    obtain ⟨d, hd, hdj, hway⟩ := h.path j k v hj (hold j k v hcell)
    refine ⟨d, hd, hdj, ?_⟩
    intro t ht
    by_cases hti : (home k + t) % n = i
    · rw [hti, Function.update_self]
      rintro rfl
      have hend : cells ((home k + d) % n) ≠ .empty := by
        rw [hdj, hold j k v hcell]
        exact fun h' => by cases h'
      exact hpath rfl k d hd hway hend t ht hti
    · rw [Function.update_of_ne hti]
      exact hway t ht
  · intro j j' k v w hj hj' hcell hcell'
    exact h.unique j j' k v w hj hj' (hold _ _ _ hcell) (hold _ _ _ hcell')

/-- **Mark** a cell as a placeholder. -/
theorem Probed.mark (h : Probed n home cells) (i : ℕ) :
    Probed n home (Function.update cells i .placeholder) :=
  h.update_of_not_entry rfl fun hc => by cases hc

/-- **Clear** a cell whose successor is empty. -/
theorem Probed.clear (h : Probed n home cells) {i : ℕ}
    (hnext : cells ((i + 1) % n) = .empty) :
    Probed n home (Function.update cells i .empty) := by
  refine h.update_of_not_entry rfl ?_
  intro _ k d hd hway hend t ht hti
  -- the probe goes on from cell `i` to the next one
  have hsucc : (home k + (t + 1)) % n = (i + 1) % n := by
    rw [← step_mod, hti]
  rcases Nat.eq_or_lt_of_le ht with heq | hlt
  · rw [← heq, hsucc] at hend
    exact hend hnext
  · exact hway (t + 1) hlt (by rw [hsucc]; exact hnext)

/-! ## Counting cells -/

/-- The number of cells of a kind. -/
def tally (p : Cell κ ν → Bool) (n : ℕ) (cells : ℕ → Cell κ ν) : ℕ :=
  ((Finset.range n).filter fun i => p (cells i) = true).card

/-- How the tally changes with one cell. -/
theorem tally_update (cells : ℕ → Cell κ ν) (p : Cell κ ν → Bool) {i : ℕ} (hi : i < n)
    (c : Cell κ ν) :
    tally p n (Function.update cells i c) + (if p (cells i) then 1 else 0)
      = tally p n cells + if p c then 1 else 0 := by
  unfold tally
  simp only [Finset.card_filter]
  have hmem : i ∈ Finset.range n := Finset.mem_range.mpr hi
  rw [← Finset.add_sum_erase _ _ hmem, ← Finset.add_sum_erase (Finset.range n) (fun j =>
    if p (cells j) = true then 1 else 0) hmem]
  have hrest : ∑ j ∈ (Finset.range n).erase i,
      (if p (Function.update cells i c j) = true then 1 else 0)
      = ∑ j ∈ (Finset.range n).erase i, if p (cells j) = true then 1 else 0 := by
    apply Finset.sum_congr rfl
    intro j hj
    rw [Function.update_of_ne (Finset.ne_of_mem_erase hj)]
  rw [hrest, Function.update_self]
  omega

theorem tally_le (p : Cell κ ν → Bool) (n : ℕ) (cells : ℕ → Cell κ ν) :
    tally p n cells ≤ n := by
  unfold tally
  exact (Finset.card_filter_le _ _).trans (Finset.card_range n).le

/-- Entries and placeholders together are at most `n` cells. -/
theorem tally_entry_add_placeholder_le (n : ℕ) (cells : ℕ → Cell κ ν) :
    tally Cell.isEntry n cells + tally Cell.isPlaceholder n cells ≤ n := by
  unfold tally
  have hdisj : Disjoint ((Finset.range n).filter fun i => (cells i).isEntry = true)
      ((Finset.range n).filter fun i => (cells i).isPlaceholder = true) := by
    rw [Finset.disjoint_filter]
    intro i _ h1 h2
    cases hc : cells i <;> simp [hc, Cell.isEntry, Cell.isPlaceholder] at h1 h2
  rw [← Finset.card_union_of_disjoint hdisj, ← Finset.filter_or]
  exact (Finset.card_filter_le _ _).trans (Finset.card_range n).le

/-- Fewer than `n` cells of a kind leave one of another kind. -/
theorem exists_not_of_tally_lt {p : Cell κ ν → Bool} (h : tally p n cells < n) :
    ∃ i < n, p (cells i) = false := by
  by_contra hall
  push Not at hall
  have : tally p n cells = n := by
    unfold tally
    rw [Finset.filter_true_of_mem, Finset.card_range]
    intro i hi
    simpa using hall i (Finset.mem_range.mp hi)
  omega

/-! ## The list of the entries -/

/-- The entries of the cells from `idx` on, in the order of the cells. -/
def entriesFrom (n : ℕ) (cells : ℕ → Cell κ ν) (idx : ℕ) : List (κ × ν) :=
  (List.range' idx (n - idx)).filterMap fun i => (cells i).toPair

theorem entriesFrom_of_le {idx : ℕ} (h : n ≤ idx) : entriesFrom n cells idx = [] := by
  unfold entriesFrom
  rw [Nat.sub_eq_zero_of_le h]
  rfl

theorem entriesFrom_succ {idx : ℕ} (h : idx < n) :
    entriesFrom n cells idx = (cells idx).toPair.toList ++ entriesFrom n cells (idx + 1) := by
  unfold entriesFrom
  rw [show n - idx = n - (idx + 1) + 1 by omega, List.range'_succ, List.filterMap_cons]
  cases (cells idx).toPair <;> rfl

theorem mem_entriesFrom {idx : ℕ} {k : κ} {v : ν} :
    (k, v) ∈ entriesFrom n cells idx ↔ ∃ i, idx ≤ i ∧ i < n ∧ cells i = .entry k v := by
  unfold entriesFrom
  rw [List.mem_filterMap]
  refine exists_congr fun i => ?_
  rw [List.mem_range'_1, ← and_assoc]
  refine and_congr (by omega) ?_
  cases cells i <;> simp [Cell.toPair]

theorem length_entriesFrom (n : ℕ) (cells : ℕ → Cell κ ν) :
    (entriesFrom n cells 0).length = tally Cell.isEntry n cells := by
  unfold entriesFrom tally
  rw [Nat.sub_zero, ← List.range_eq_range', List.length_filterMap_eq_countP,
    List.countP_eq_length_filter]
  show _ = ((Multiset.range n).filter fun i => (cells i).isEntry = true).card
  unfold Multiset.range
  rw [Multiset.filter_coe, Multiset.coe_card]
  congr 2
  funext i
  cases cells i <;> rfl

theorem entriesFrom_congr {cells' : ℕ → Cell κ ν} {idx : ℕ}
    (h : ∀ i, idx ≤ i → cells i = cells' i) :
    entriesFrom n cells idx = entriesFrom n cells' idx := by
  unfold entriesFrom
  apply List.filterMap_congr
  intro i hi
  rw [h i (List.mem_range'_1.mp hi).1]

/-- The entries after a cell that held none has been filled. -/
theorem entriesFrom_insert {i : ℕ} (hi : i < n) (hfree : (cells i).isEntry = false) (k : κ) (v : ν)
    (idx : ℕ) (hle : idx ≤ i) : (entriesFrom n (Function.update cells i (.entry k v)) idx).Perm
      ((k, v) :: entriesFrom n cells idx) := by
  induction hle using Nat.decreasingInduction with
  | self =>
    have hnone : (cells i).toPair = none := by
      cases hc : cells i with
      | entry =>
        rw [hc] at hfree
        cases hfree
      | _ => rfl
    have hrest : entriesFrom n (Function.update cells i (.entry k v)) (i + 1)
        = entriesFrom n cells (i + 1) :=
      entriesFrom_congr fun j hj => Function.update_of_ne (by omega) _ _
    rw [entriesFrom_succ hi, entriesFrom_succ hi, hnone, Function.update_self, hrest]
    exact List.Perm.refl _
  | of_succ idx _ ih =>
    rw [entriesFrom_succ (by omega), entriesFrom_succ (show idx < n by omega),
      Function.update_of_ne (by omega)]
    exact (ih.append_left _).trans List.perm_middle

theorem Probed.nodup_keys (h : Probed n home cells) (idx : ℕ) :
    ((entriesFrom n cells idx).map Prod.fst).Nodup := by
  by_cases hidx : idx < n
  · have ih := h.nodup_keys (idx + 1)
    rw [entriesFrom_succ hidx]
    cases hc : cells idx with
    | entry =>
      refine List.nodup_cons.mpr ⟨?_, ih⟩
      intro hmem
      obtain ⟨⟨k', w⟩, hkw, rfl⟩ := List.mem_map.mp hmem
      obtain ⟨j, hle, hj, hcj⟩ := mem_entriesFrom.mp hkw
      have := h.unique idx j _ _ _ hidx hj hc hcj
      omega
    | _ => exact ih
  · rw [entriesFrom_of_le (Nat.not_lt.mp hidx)]
    exact List.nodup_nil
termination_by n - idx

end LinearProbing
