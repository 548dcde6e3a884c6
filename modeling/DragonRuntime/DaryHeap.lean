/-
# Heap order with an arbitrary fan-out

A heap of fan-out `b` is kept in an array in level order: the parent of entry `c > 0` is
entry `(c - 1) / b`.  This module has the order of such a heap and the two ways of repairing it
that a priority queue uses: an entry moves up while its parent is larger (`OrderedAbove`), or down
while its least child is smaller (`OrderedBelow`).
-/
import Mathlib

namespace DaryHeap

/-- The parent of entry `c > 0`. -/
def parent (b c : ℕ) : ℕ := (c - 1) / b

theorem parent_lt (b : ℕ) {c : ℕ} (hc : 0 < c) : parent b c < c := by
  have : (c - 1) / b ≤ c - 1 := Nat.div_le_self _ _
  unfold parent
  omega

/-- The children of entry `i` are the `b` entries from `b * i + 1` on. -/
theorem parent_eq_iff {b c i : ℕ} (hb : 0 < b) (hc : 0 < c) :
    parent b c = i ↔ b * i + 1 ≤ c ∧ c < b * i + 1 + b := by
  unfold parent
  rw [Nat.div_eq_iff hb, Nat.mul_comm i b]
  omega

section Order

variable {β : Type*} [LinearOrder β]

/-- No entry of the first `n` is below its parent. -/
def Ordered (b : ℕ) (key : ℕ → β) (n : ℕ) : Prop :=
  ∀ c, 0 < c → c < n → key (parent b c) ≤ key c

/-- The order holds except, it may be, between entry `i` and its parent. -/
structure OrderedAbove (b : ℕ) (key : ℕ → β) (n i : ℕ) : Prop where
  other : ∀ c, 0 < c → c < n → c ≠ i → key (parent b c) ≤ key c
  grand : ∀ c, 0 < c → c < n → parent b c = i → 0 < i → key (parent b i) ≤ key c

/-- The order holds except, it may be, between entry `i` and its children. -/
structure OrderedBelow (b : ℕ) (key : ℕ → β) (n i : ℕ) : Prop where
  other : ∀ c, 0 < c → c < n → parent b c ≠ i → key (parent b c) ≤ key c
  grand : ∀ c, 0 < c → c < n → parent b c = i → 0 < i → key (parent b i) ≤ key c

variable {b : ℕ} {key : ℕ → β} {n i : ℕ}

/-- **The root is least.** -/
theorem Ordered.root_le (h : Ordered b key n) {c : ℕ} (hc : c < n) : key 0 ≤ key c := by
  induction c using Nat.strong_induction_on with
  | _ c ih =>
    rcases Nat.eq_zero_or_pos c with rfl | hpos
    · exact le_rfl
    · have hlt := parent_lt b hpos
      exact (ih (parent b c) hlt (by omega)).trans (h c hpos hc)

/-! ## Moving up -/

theorem Ordered.orderedAbove_last {key' : ℕ → β} (h : Ordered b key n)
    (hsame : ∀ c < n, key' c = key c) : OrderedAbove b key' (n + 1) n := by
  refine ⟨?_, ?_⟩
  · intro c hpos hc hne
    have hlt := parent_lt b hpos
    rw [hsame c (by omega), hsame _ (by omega)]
    exact h c hpos (by omega)
  · intro c hpos hc hparent
    have hlt := parent_lt b hpos
    omega

/-- **One step up.** -/
theorem OrderedAbove.swap_parent (h : OrderedAbove b key n i) (hpos : 0 < i) (hi : i < n)
    (hlt : key i < key (parent b i)) :
    OrderedAbove b (key ∘ Equiv.swap i (parent b i)) n (parent b i) := by
  have hq := parent_lt b hpos
  set q := parent b i with hqdef
  have hother : ∀ c, c ≠ i → c ≠ q → (key ∘ Equiv.swap i q) c = key c := by
    intro c hci hcq
    rw [Function.comp_apply, Equiv.swap_apply_of_ne_of_ne hci hcq]
  have hkeyi : (key ∘ Equiv.swap i q) i = key q := by
    rw [Function.comp_apply, Equiv.swap_apply_left]
  have hkeyq : (key ∘ Equiv.swap i q) q = key i := by
    rw [Function.comp_apply, Equiv.swap_apply_right]
  refine ⟨?_, ?_⟩
  · intro c hc hcn hcq
    by_cases hci : c = i
    · subst hci
      rw [← hqdef, hkeyi, hkeyq]
      exact hlt.le
    · rw [hother c hci hcq]
      by_cases hpi : parent b c = i
      · rw [hpi, hkeyi]
        exact h.grand c hc hcn hpi hpos
      · have hle := h.other c hc hcn hci
        by_cases hpq : parent b c = q
        · rw [hpq] at hle ⊢
          rw [hkeyq]
          exact hlt.le.trans hle
        · rw [hother _ hpi hpq]
          exact hle
  · intro c hc hcn hpc hq0
    have hqq := parent_lt b hq0
    have hup : key (parent b q) ≤ key q := h.other q hq0 (by omega) (by omega)
    rw [hother (parent b q) (by omega) (by omega)]
    by_cases hci : c = i
    · rw [hci, hkeyi]
      exact hup
    · have hcq : q < c := by
        rw [← hpc]
        exact parent_lt b hc
      rw [hother c hci (by omega)]
      have hle := h.other c hc hcn hci
      rw [hpc] at hle
      exact hup.trans hle

/-- The entry has moved up far enough. -/
theorem OrderedAbove.ordered (h : OrderedAbove b key n i)
    (hstop : 0 < i → key (parent b i) ≤ key i) : Ordered b key n := by
  intro c hc hcn
  by_cases hci : c = i
  · subst hci
    exact hstop hc
  · exact h.other c hc hcn hci

/-! ## Moving down -/

/-- The last entry takes the place of the root. -/
theorem Ordered.orderedBelow_root (h : Ordered b key (n + 1)) :
    OrderedBelow b (key ∘ Equiv.swap 0 n) n 0 := by
  refine ⟨?_, fun c _ _ _ h0 => absurd h0 (lt_irrefl 0)⟩
  intro c hc hcn hparent
  have hlt := parent_lt b hc
  rw [Function.comp_apply, Function.comp_apply,
    Equiv.swap_apply_of_ne_of_ne (by omega) (by omega),
    Equiv.swap_apply_of_ne_of_ne (by omega) (by omega)]
  exact h c hc (by omega)

/-- **One step down**, to a least child. -/
theorem OrderedBelow.swap_child {j : ℕ} (h : OrderedBelow b key n i) (hj : 0 < j) (hjn : j < n)
    (hparent : parent b j = i) (hlt : key j < key i)
    (hleast : ∀ c, 0 < c → c < n → parent b c = i → key j ≤ key c) :
    OrderedBelow b (key ∘ Equiv.swap i j) n j := by
  have hij : i < j := by
    rw [← hparent]
    exact parent_lt b hj
  have hother : ∀ c, c ≠ i → c ≠ j → (key ∘ Equiv.swap i j) c = key c := by
    intro c hci hcj
    rw [Function.comp_apply, Equiv.swap_apply_of_ne_of_ne hci hcj]
  have hkeyi : (key ∘ Equiv.swap i j) i = key j := by
    rw [Function.comp_apply, Equiv.swap_apply_left]
  have hkeyj : (key ∘ Equiv.swap i j) j = key i := by
    rw [Function.comp_apply, Equiv.swap_apply_right]
  refine ⟨?_, ?_⟩
  · intro c hc hcn hpj
    by_cases hcj : c = j
    · rw [hcj, hparent, hkeyi, hkeyj]
      exact hlt.le
    · by_cases hci : c = i
      · subst hci
        have hpc := parent_lt b hc
        rw [hkeyi, hother _ (by omega) hpj]
        exact h.grand j hj hjn hparent hc
      · rw [hother c hci hcj]
        by_cases hpi : parent b c = i
        · rw [hpi, hkeyi]
          exact hleast c hc hcn hpi
        · rw [hother _ hpi hpj]
          exact h.other c hc hcn hpi
  · intro c hc hcn hpc _
    have hjc : j < c := by
      rw [← hpc]
      exact parent_lt b hc
    rw [hparent, hkeyi, hother c (by omega) (by omega)]
    have hle := h.other c hc hcn (by omega)
    rwa [hpc] at hle

/-- The entry has moved down far enough. -/
theorem OrderedBelow.ordered (h : OrderedBelow b key n i)
    (hstop : ∀ c, 0 < c → c < n → parent b c = i → key i ≤ key c) : Ordered b key n := by
  intro c hc hcn
  by_cases hpi : parent b c = i
  · rw [hpi]
    exact hstop c hc hcn hpi
  · exact h.other c hc hcn hpi

end Order

/-! ## The entries as a multiset -/

section Content

variable {α : Type*} {entry : ℕ → α} {n : ℕ}

/-- The first `n` entries. -/
def content (entry : ℕ → α) (n : ℕ) : Multiset α := (Multiset.range n).map entry

@[simp] theorem card_content (entry : ℕ → α) (n : ℕ) : (content entry n).card = n := by
  rw [content, Multiset.card_map, Multiset.card_range]

theorem mem_content {x : α} : x ∈ content entry n ↔ ∃ c < n, entry c = x := by
  simp [content]

theorem content_succ (entry : ℕ → α) (n : ℕ) :
    content entry (n + 1) = entry n ::ₘ content entry n := by
  rw [content, Multiset.range_succ, Multiset.map_cons, content]

theorem content_congr {entry' : ℕ → α} (h : ∀ c < n, entry' c = entry c) :
    content entry' n = content entry n := by
  refine Multiset.map_congr rfl ?_
  intro c hc
  exact h c (Multiset.mem_range.mp hc)

/-- Exchanging two entries keeps the multiset. -/
theorem content_swap {i j : ℕ} (hi : i < n) (hj : j < n) :
    content (entry ∘ Equiv.swap i j) n = content entry n := by
  have hrange : (Multiset.range n).map (Equiv.swap i j) = Multiset.range n := by
    refine (Multiset.Nodup.ext ?_ (Multiset.nodup_range n)).mpr ?_
    · exact (Multiset.nodup_range n).map (Equiv.swap i j).injective
    · intro c
      rw [Multiset.mem_map]
      constructor
      · rintro ⟨c', hc', rfl⟩
        rw [Multiset.mem_range] at hc' ⊢
        rw [Equiv.swap_apply_def]
        split_ifs <;> omega
      · intro hc
        rw [Multiset.mem_range] at hc
        refine ⟨Equiv.swap i j c, ?_, Equiv.swap_apply_self i j c⟩
        rw [Multiset.mem_range, Equiv.swap_apply_def]
        split_ifs <;> omega
  unfold content
  rw [← Multiset.map_map, hrange]

end Content

end DaryHeap
