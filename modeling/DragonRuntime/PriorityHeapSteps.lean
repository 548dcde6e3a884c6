/-
# What the loops of the priority heap do

The flat array is seen as a sequence of items (`item`).  Each loop of
`priority_heap.c` gets one lemma in these terms: `_heap_swap` exchanges two items,
`_insert_item` puts an item into the heap and keeps the heap order, and `_heap_maxify`
restores the order below the root, provided that the index of no first child wraps around
to a place that is in use (`ChildWraps`).
-/
import DragonRuntime.PriorityHeap
import DragonRuntime.DaryHeap

open DaryHeap

namespace DragonPriorityHeap

variable {nvalsPerKey : ℕ}

/-- The item in place `c`. -/
def item (heap : DragonPriorityHeap nvalsPerKey) (c : ℕ) : HeapItem nvalsPerKey :=
  (heap.priority c, fun k => heap.harr ((1 + nvalsPerKey) * c + (k + 1)))

variable {c i k m stepsize child fuel : ℕ} {heap : DragonPriorityHeap nvalsPerKey}

theorem word_inj (hk : k < stepsize) (hm : m < stepsize) :
    stepsize * c + k = stepsize * i + m ↔ c = i ∧ k = m := by
  constructor
  · intro h
    have hdiv : (stepsize * c + k) / stepsize = (stepsize * i + m) / stepsize := by rw [h]
    have hmod : (stepsize * c + k) % stepsize = (stepsize * i + m) % stepsize := by rw [h]
    rw [Nat.mul_add_div (by omega), Nat.mul_add_div (by omega), Nat.div_eq_of_lt hk,
      Nat.div_eq_of_lt hm] at hdiv
    rw [Nat.mul_add_mod, Nat.mul_add_mod, Nat.mod_eq_of_lt hk, Nat.mod_eq_of_lt hm] at hmod
    exact ⟨by omega, hmod⟩
  · rintro ⟨rfl, rfl⟩
    rfl

/-! ## `_heap_swap` -/

/-- One turn of the loop exchanges one word of the two items. -/
theorem swapWord_apply (i j : ℕ) (harr : ℕ → ℕ) (hk : k < stepsize) (hm : m < stepsize) :
    swapWord stepsize i j harr m (stepsize * c + k)
      = if k = m then harr (stepsize * Equiv.swap i j c + k) else harr (stepsize * c + k) := by
  unfold swapWord
  by_cases hkm : k = m
  · subst hkm
    rw [if_pos rfl]
    by_cases hcj : c = j
    · subst hcj
      simp only [Function.update_self, Equiv.swap_apply_right]
    · have hne : stepsize * c + k ≠ stepsize * j + k := fun h => hcj ((word_inj hk hk).mp h).1
      simp only [Function.update_of_ne hne]
      by_cases hci : c = i
      · subst hci
        simp only [Function.update_self, Equiv.swap_apply_left]
      · have hne' : stepsize * c + k ≠ stepsize * i + k := fun h => hci ((word_inj hk hk).mp h).1
        simp only [Function.update_of_ne hne', Equiv.swap_apply_of_ne_of_ne hci hcj]
  · rw [if_neg hkm]
    have hne : ∀ i, stepsize * c + k ≠ stepsize * i + m := by
      intro i h
      exact hkm ((word_inj hk hm).mp h).2
    simp only [Function.update_of_ne (hne j), Function.update_of_ne (hne i)]

/-- After `m` turns the first `m` words are exchanged. -/
theorem foldl_swapWord (i j : ℕ) (harr : ℕ → ℕ) (hk : k < stepsize) (hm : m ≤ stepsize) :
    (List.range m).foldl (swapWord stepsize i j) harr (stepsize * c + k)
      = if k < m then harr (stepsize * Equiv.swap i j c + k) else harr (stepsize * c + k) := by
  induction m generalizing c with
  | zero => simp
  | succ m ih =>
    have ih' := fun c => ih (c := c) (by omega)
    rw [List.range_succ, List.foldl_append, List.foldl_cons, List.foldl_nil,
      swapWord_apply i j _ hk (by omega), ih', ih']
    by_cases hkm : k = m
    · rw [if_pos hkm, if_neg (by omega), if_pos (by omega)]
    · rw [if_neg hkm]
      by_cases hlt : k < m
      · rw [if_pos hlt, if_pos (by omega)]
      · rw [if_neg hlt, if_neg (by omega)]

/-- **`_heap_swap`** exchanges two items. -/
theorem item_heapSwap (heap : DragonPriorityHeap nvalsPerKey) (i j : ℕ) :
    (heap.heapSwap i j).item = heap.item ∘ Equiv.swap i j := by
  have hword : ∀ c k, k < 1 + nvalsPerKey →
      (heap.heapSwap i j).harr ((1 + nvalsPerKey) * c + k)
        = heap.harr ((1 + nvalsPerKey) * Equiv.swap i j c + k) := by
    intro c k hk
    refine (foldl_swapWord i j heap.harr hk le_rfl).trans ?_
    rw [if_pos hk]
  funext c
  refine Prod.ext (hword c 0 (by omega)) ?_
  funext k
  exact hword c (k + 1) (by omega)

theorem priority_heapSwap (heap : DragonPriorityHeap nvalsPerKey) (i j : ℕ) :
    (heap.heapSwap i j).priority = heap.priority ∘ Equiv.swap i j := by
  funext c
  exact congrArg Prod.fst (congrFun (item_heapSwap heap i j) c)

/-- Everything but the words of the items. -/
def SameHeader (heap heap' : DragonPriorityHeap nvalsPerKey) : Prop :=
  heap'.base = heap.base ∧ heap'.capacity = heap.capacity ∧ heap'.curLen = heap.curLen ∧
    heap'.curLastPri = heap.curLastPri

theorem SameHeader.refl (heap : DragonPriorityHeap nvalsPerKey) : SameHeader heap heap :=
  ⟨rfl, rfl, rfl, rfl⟩

theorem SameHeader.trans {heap' heap'' : DragonPriorityHeap nvalsPerKey} (h : SameHeader heap heap')
    (h' : SameHeader heap' heap'') : SameHeader heap heap'' := by
  obtain ⟨h1, h2, h3, h4⟩ := h
  obtain ⟨h1', h2', h3', h4'⟩ := h'
  exact ⟨h1'.trans h1, h2'.trans h2, h3'.trans h3, h4'.trans h4⟩

theorem sameHeader_heapSwap (heap : DragonPriorityHeap nvalsPerKey) (i j : ℕ) :
    SameHeader heap (heap.heapSwap i j) := ⟨rfl, rfl, rfl, rfl⟩

/-! ## `_raise_priority` and `_insert_item` -/

/-- **The loop of `_raise_priority`** ends with an ordered heap of the same items. -/
theorem raiseLoop_spec {n : ℕ} (horder : OrderedAbove heap.base heap.priority n child)
    (hchild : child < n) (hn : n ≤ 2 ^ 64) (hfuel : child ≤ fuel) :
    SameHeader heap (raiseLoop fuel heap child) ∧
      Ordered heap.base (raiseLoop fuel heap child).priority n ∧
      content (raiseLoop fuel heap child).item n = content heap.item n := by
  induction fuel generalizing heap child with
  | zero =>
    refine ⟨SameHeader.refl heap, ?_, rfl⟩
    exact horder.ordered fun hpos => absurd hpos (by omega)
  | succ fuel ih =>
    rw [raiseLoop]
    by_cases hpos : 0 < child
    · have hparent : (child + 2 ^ 64 - 1) % 2 ^ 64 / heap.base = parent heap.base child := by
        unfold parent
        rw [show child + 2 ^ 64 - 1 = child - 1 + 2 ^ 64 by omega, Nat.add_mod_right,
          Nat.mod_eq_of_lt (by omega)]
      have hlt := parent_lt heap.base hpos
      rw [hparent]
      by_cases hless : heap.priority child < heap.priority (parent heap.base child)
      · rw [if_pos ⟨hpos, hless⟩]
        have hswap : OrderedAbove (heap.heapSwap child (parent heap.base child)).base
            (heap.heapSwap child (parent heap.base child)).priority n
            (parent heap.base child) := by
          rw [priority_heapSwap]
          exact horder.swap_parent hpos hchild hless
        have hparent' : parent heap.base child < n := by omega
        obtain ⟨hheader, hord, hcontent⟩ := ih hswap hparent' (by omega)
        refine ⟨(sameHeader_heapSwap heap _ _).trans hheader, hord, ?_⟩
        rw [hcontent, item_heapSwap, content_swap hchild (by omega)]
      · rw [if_neg fun h => hless h.2]
        exact ⟨SameHeader.refl heap, horder.ordered fun _ => not_lt.mp hless, rfl⟩
    · rw [if_neg fun h => hpos h.1]
      exact ⟨SameHeader.refl heap, horder.ordered fun h => absurd h hpos, rfl⟩

theorem raiseLoop_stop (hstop : ¬ (0 < child ∧ heap.priority child
      < heap.priority ((child + 2 ^ 64 - 1) % 2 ^ 64 / heap.base))) :
    raiseLoop fuel heap child = heap := by
  cases fuel with
  | zero => rfl
  | succ fuel =>
    rw [raiseLoop]
    exact if_neg hstop

theorem raiseLoop_turn {parent : ℕ} (hparent : (child + 2 ^ 64 - 1) % 2 ^ 64 / heap.base = parent)
    (hturn : 0 < child ∧ heap.priority child < heap.priority parent) :
    raiseLoop (fuel + 1) heap child = raiseLoop fuel (heap.heapSwap child parent) parent := by
  subst hparent
  rw [raiseLoop]
  exact if_pos hturn

/-- The words that the loop of `_insert_item` writes. -/
theorem writeVals_apply (harr : ℕ → ℕ) (c : ℕ) (vals : Fin nvalsPerKey → ℕ) :
    (∀ k : Fin nvalsPerKey,
      writeVals harr c vals ((1 + nvalsPerKey) * c + (k + 1)) = vals k) ∧
    ∀ x, (∀ k : Fin nvalsPerKey, x ≠ (1 + nvalsPerKey) * c + (k + 1)) →
      writeVals harr c vals x = harr x := by
  have hfold : ∀ (ks : List (Fin nvalsPerKey)) (harr : ℕ → ℕ) (x : ℕ),
      (∀ k ∈ ks, x = (1 + nvalsPerKey) * c + (k + 1) →
        ks.foldl (fun harr (k : Fin nvalsPerKey) =>
          Function.update harr ((1 + nvalsPerKey) * c + (k + 1)) (vals k)) harr x = vals k) ∧
      ((∀ k ∈ ks, x ≠ (1 + nvalsPerKey) * c + (k + 1)) →
        ks.foldl (fun harr (k : Fin nvalsPerKey) =>
          Function.update harr ((1 + nvalsPerKey) * c + (k + 1)) (vals k)) harr x = harr x) := by
    intro ks
    induction ks with
    | nil => exact fun harr x => ⟨nofun, fun _ => rfl⟩
    | cons k ks ih =>
      intro harr x
      obtain ⟨ihin, ihout⟩ := ih (Function.update harr ((1 + nvalsPerKey) * c + (k + 1)) (vals k)) x
      rw [List.foldl_cons]
      refine ⟨?_, ?_⟩
      · intro k' hmem hx
        by_cases hin : k' ∈ ks
        · exact ihin k' hin hx
        · obtain rfl := (List.mem_cons.mp hmem).resolve_right hin
          rw [ihout, hx, Function.update_self]
          intro k'' hk'' hx'
          have hkk : (k' : ℕ) = k'' := by omega
          exact hin (Fin.ext hkk ▸ hk'')
      · intro hne
        rw [ihout fun k' hk' => hne k' (List.mem_cons_of_mem _ hk'),
          Function.update_of_ne (hne k List.mem_cons_self)]
  unfold writeVals
  refine ⟨fun k => (hfold _ harr _).1 k (List.mem_finRange k) rfl, fun x hx => ?_⟩
  exact (hfold _ harr x).2 fun k _ => hx k

/-- The heap right before the loop of `_raise_priority` in `_insert_item`. -/
def placed (heap : DragonPriorityHeap nvalsPerKey) (vals : Fin nvalsPerKey → ℕ)
    (priority : ℕ) : DragonPriorityHeap nvalsPerKey :=
  { heap with
    harr := Function.update (writeVals heap.harr heap.curLen vals)
      ((1 + nvalsPerKey) * heap.curLen) priority }

/-- The new item is in the first free place and the others are untouched. -/
theorem item_placed (heap : DragonPriorityHeap nvalsPerKey) (vals : Fin nvalsPerKey → ℕ)
    (priority : ℕ) :
    (heap.placed vals priority).item = Function.update heap.item heap.curLen (priority, vals) := by
  obtain ⟨hin, hout⟩ := writeVals_apply heap.harr heap.curLen vals
  funext c
  by_cases hc : c = heap.curLen
  · subst hc
    rw [Function.update_self]
    refine Prod.ext (Function.update_self _ _ _) ?_
    funext k
    exact (Function.update_of_ne (by omega) _ _).trans (hin k)
  · rw [Function.update_of_ne hc]
    have hword : ∀ k, k < 1 + nvalsPerKey →
        (heap.placed vals priority).harr ((1 + nvalsPerKey) * c + k)
          = heap.harr ((1 + nvalsPerKey) * c + k) := by
      intro k hk
      have hne : ∀ m, m < 1 + nvalsPerKey →
          (1 + nvalsPerKey) * c + k ≠ (1 + nvalsPerKey) * heap.curLen + m := by
        intro m hm h
        exact hc ((word_inj hk hm).mp h).1
      have h0 := hne 0 (by omega)
      rw [Nat.add_zero] at h0
      exact (Function.update_of_ne h0 _ _).trans (hout _ fun k' => hne (k' + 1) (by omega))
    refine Prod.ext (hword 0 (by omega)) ?_
    funext k
    exact hword (k + 1) (by omega)

theorem priority_placed (heap : DragonPriorityHeap nvalsPerKey) (vals : Fin nvalsPerKey → ℕ)
    (priority : ℕ) :
    (heap.placed vals priority).priority
      = Function.update heap.priority heap.curLen priority := by
  funext c
  have hitem := congrArg Prod.fst (congrFun (item_placed heap vals priority) c)
  by_cases hc : c = heap.curLen
  · subst hc
    rw [Function.update_self] at hitem ⊢
    exact hitem
  · rw [Function.update_of_ne hc] at hitem ⊢
    exact hitem

theorem insertItem_stays (heap : DragonPriorityHeap nvalsPerKey) (vals : Fin nvalsPerKey → ℕ)
    (priority : ℕ) (hlen : 0 < heap.curLen → (heap.curLen + 2 ^ 64 - 1) % 2 ^ 64 / heap.base
      < heap.curLen ∧ heap.priority ((heap.curLen + 2 ^ 64 - 1) % 2 ^ 64 / heap.base) ≤ priority) :
    heap.insertItem vals priority
      = { heap.placed vals priority with curLen := (heap.curLen + 1) % 2 ^ 64 } := by
  have hloop : raiseLoop heap.curLen (heap.placed vals priority) heap.curLen
      = heap.placed vals priority := by
    refine raiseLoop_stop ?_
    rintro ⟨hpos, hless⟩
    obtain ⟨hlt, hle⟩ := hlen hpos
    rw [priority_placed, Function.update_self, Function.update_of_ne] at hless
    · exact absurd hless (not_lt.mpr hle)
    · exact Nat.ne_of_lt hlt
  have hinsert : heap.insertItem vals priority
      = { raiseLoop heap.curLen (heap.placed vals priority) heap.curLen with
          curLen := ((raiseLoop heap.curLen (heap.placed vals priority) heap.curLen).curLen + 1)
            % 2 ^ 64 } := rfl
  rw [hinsert, hloop]
  rfl

/-- **`_insert_item`** adds the item and keeps the order. -/
theorem insertItem_spec (horder : Ordered heap.base heap.priority heap.curLen)
    (hlen : heap.curLen + 1 < 2 ^ 64) (vals : Fin nvalsPerKey → ℕ) (priority : ℕ) :
    let heap' := heap.insertItem vals priority
    heap'.base = heap.base ∧ heap'.capacity = heap.capacity ∧
      heap'.curLastPri = heap.curLastPri ∧ heap'.curLen = heap.curLen + 1 ∧
      Ordered heap'.base heap'.priority heap'.curLen ∧
      content heap'.item heap'.curLen
        = (priority, vals) ::ₘ content heap.item heap.curLen := by
  intro heap'
  have hsame : ∀ c < heap.curLen,
      (heap.placed vals priority).item c = heap.item c := by
    intro c hc
    rw [item_placed, Function.update_of_ne (by omega)]
  have habove : OrderedAbove (heap.placed vals priority).base
      (heap.placed vals priority).priority (heap.curLen + 1) heap.curLen :=
    horder.orderedAbove_last fun c hc => congrArg Prod.fst (hsame c hc)
  obtain ⟨⟨hbase, hcap, hcur, hlast⟩, hord, hcontent⟩ :=
    raiseLoop_spec habove (Nat.lt_succ_self _) (by omega) (le_refl heap.curLen)
  have hcur' : heap'.curLen = heap.curLen + 1 := by
    show ((raiseLoop heap.curLen (heap.placed vals priority) heap.curLen).curLen + 1) % 2 ^ 64 = _
    rw [hcur]
    exact Nat.mod_eq_of_lt hlen
  have hbase' : heap'.base = heap.base := hbase
  refine ⟨hbase', hcap, hlast, hcur', ?_, ?_⟩
  · rw [hbase', hcur']
    exact hord
  · rw [hcur']
    refine hcontent.trans ?_
    rw [content_succ, content_congr hsame, item_placed, Function.update_self]

/-! ## `_heap_maxify` -/

/-- The index of the first child of a place in use wraps around to a place in use. -/
def ChildWraps (heap : DragonPriorityHeap nvalsPerKey) (n : ℕ) : Prop :=
  ∃ i < n, 2 ^ 64 ≤ heap.base * i + 1 ∧ (heap.base * i + 1) % 2 ^ 64 < n

instance (heap : DragonPriorityHeap nvalsPerKey) (n : ℕ) : Decidable (ChildWraps heap n) := by
  unfold ChildWraps; infer_instance

/-- What the inner loop has found after `m` turns from `first` on: the first least of
place `i` and the places it has looked at. -/
theorem foldl_higherOf (heap : DragonPriorityHeap nvalsPerKey) (i first m : ℕ) :
    let highest := (List.range m).foldl
      (fun highest k => heap.higherOf highest (first + k)) i
    (highest = i ∨ first ≤ highest ∧ highest < first + m ∧ highest < heap.curLen ∧
      heap.priority highest < heap.priority i) ∧
    heap.priority highest ≤ heap.priority i ∧
    ∀ c, first ≤ c → c < first + m → c < heap.curLen →
      heap.priority highest ≤ heap.priority c := by
  induction m with
  | zero => exact ⟨Or.inl rfl, le_rfl, fun c h1 h2 => absurd h2 (by omega)⟩
  | succ m ih =>
    simp only [List.range_succ, List.foldl_append, List.foldl_cons, List.foldl_nil] at ih ⊢
    obtain ⟨hwhere, hle, hall⟩ := ih
    set highest := (List.range m).foldl
      (fun highest k => heap.higherOf highest (first + k)) i
    unfold higherOf
    by_cases hlen : first + m < heap.curLen
    · rw [if_pos hlen]
      by_cases hless : heap.priority (first + m) < heap.priority highest
      · rw [if_pos hless]
        refine ⟨Or.inr ⟨by omega, by omega, hlen, lt_of_lt_of_le hless hle⟩,
          hless.le.trans hle, ?_⟩
        intro c h1 h2 h3
        rcases Nat.lt_succ_iff_lt_or_eq.mp (show c < first + m + 1 by omega) with hc | rfl
        · exact hless.le.trans (hall c h1 hc h3)
        · exact le_rfl
      · rw [if_neg hless]
        refine ⟨?_, hle, ?_⟩
        · rcases hwhere with heq | ⟨h1, h2, h3⟩
          · exact Or.inl heq
          · exact Or.inr ⟨h1, by omega, h3⟩
        · intro c h1 h2 h3
          rcases Nat.lt_succ_iff_lt_or_eq.mp (show c < first + m + 1 by omega) with hc | rfl
          · exact hall c h1 hc h3
          · exact not_lt.mp hless
    · rw [if_neg hlen]
      refine ⟨?_, hle, ?_⟩
      · rcases hwhere with heq | ⟨h1, h2, h3⟩
        · exact Or.inl heq
        · exact Or.inr ⟨h1, by omega, h3⟩
      · intro c h1 h2 h3
        exact hall c h1 (by omega) h3

/-- What the inner loop of `_heap_maxify` finds, with the indices as the source computes
them. -/
theorem highestOf_least (heap : DragonPriorityHeap nvalsPerKey) (i : ℕ) :
    let first := (heap.base * i + 1) % 2 ^ 64
    let m := (first + heap.base) % 2 ^ 64 - first
    (heap.highestOf i = i ∨ first ≤ heap.highestOf i ∧ heap.highestOf i < first + m ∧
      heap.highestOf i < heap.curLen ∧ heap.priority (heap.highestOf i) < heap.priority i) ∧
    heap.priority (heap.highestOf i) ≤ heap.priority i ∧
    ∀ c, first ≤ c → c < first + m → c < heap.curLen →
      heap.priority (heap.highestOf i) ≤ heap.priority c :=
  foldl_higherOf heap i _ _

/-- **The inner loop of `_heap_maxify`** finds place `i` or a child of it that is in use
and is least among them. -/
theorem highestOf_spec (hbase : 0 < heap.base) (hbase' : heap.base < 2 ^ 32)
    (hlen : heap.curLen ≤ 2 ^ 60) (hwrap : ¬ ChildWraps heap heap.curLen) (hi : i < heap.curLen) :
    (heap.highestOf i = i ∨ 0 < heap.highestOf i ∧ heap.highestOf i < heap.curLen ∧
      parent heap.base (heap.highestOf i) = i ∧
      heap.priority (heap.highestOf i) < heap.priority i) ∧
    ∀ c, 0 < c → c < heap.curLen → parent heap.base c = i →
      heap.priority (heap.highestOf i) ≤ heap.priority c := by
  obtain ⟨hwhere, -, hall⟩ := highestOf_least heap i
  -- a first child in use has not wrapped around, and then neither has the bound of the loop
  have hfirst : (heap.base * i + 1) % 2 ^ 64 < heap.curLen →
      (heap.base * i + 1) % 2 ^ 64 = heap.base * i + 1 := by
    intro hlt
    by_contra hne
    refine hwrap ⟨i, hi, ?_, hlt⟩
    by_contra hsmall
    exact hne (Nat.mod_eq_of_lt (by omega))
  have hbound : (heap.base * i + 1) % 2 ^ 64 < heap.curLen →
      ((heap.base * i + 1) % 2 ^ 64 + heap.base) % 2 ^ 64 = heap.base * i + 1 + heap.base := by
    intro hlt
    have heq := hfirst hlt
    rw [heq] at hlt ⊢
    exact Nat.mod_eq_of_lt (by omega)
  refine ⟨?_, ?_⟩
  · rcases hwhere with heq | ⟨h1, h2, h3, h4⟩
    · exact Or.inl heq
    · right
      have hlt : (heap.base * i + 1) % 2 ^ 64 < heap.curLen := lt_of_le_of_lt h1 h3
      rw [hbound hlt, hfirst hlt] at h2
      rw [hfirst hlt] at h1
      have hpos : 0 < heap.highestOf i := by omega
      exact ⟨hpos, h3, (parent_eq_iff hbase hpos).mpr ⟨h1, by omega⟩, h4⟩
  · intro c hc hcn hparent
    obtain ⟨h1, h2⟩ := (parent_eq_iff hbase hc).mp hparent
    have hlt : (heap.base * i + 1) % 2 ^ 64 < heap.curLen := by
      rw [Nat.mod_eq_of_lt (by omega)]
      omega
    refine hall c ?_ ?_ hcn
    · rw [hfirst hlt]
      exact h1
    · rw [hbound hlt, hfirst hlt]
      omega

/-- **`_heap_maxify`** ends within as many turns as there are places in use from `i` on,
with an ordered heap of the same items. -/
theorem heapMaxify_spec (hbase : 0 < heap.base) (hbase' : heap.base < 2 ^ 32)
    (hlen : heap.curLen ≤ 2 ^ 60) (hwrap : ¬ ChildWraps heap heap.curLen) (hi : i < heap.curLen)
    (horder : OrderedBelow heap.base heap.priority heap.curLen i) (hfuel : heap.curLen ≤ fuel + i) :
    ∃ heap', heapMaxify fuel heap i = some heap' ∧ SameHeader heap heap' ∧
      Ordered heap.base heap'.priority heap.curLen ∧
      content heap'.item heap.curLen = content heap.item heap.curLen := by
  induction fuel generalizing heap i with
  | zero => omega
  | succ fuel ih =>
    obtain ⟨hwhere, hall⟩ := highestOf_spec hbase hbase' hlen hwrap hi
    rw [heapMaxify]
    by_cases hstay : heap.highestOf i = i
    · rw [if_neg (not_not.mpr hstay.symm)]
      rw [hstay] at hall
      exact ⟨heap, rfl, SameHeader.refl heap, horder.ordered hall, rfl⟩
    · rw [if_pos (Ne.symm hstay)]
      obtain ⟨hpos, hin, hparent, hless⟩ := hwhere.resolve_left hstay
      have hgt := parent_lt heap.base hpos
      have hswap : OrderedBelow (heap.heapSwap i (heap.highestOf i)).base
          (heap.heapSwap i (heap.highestOf i)).priority
          (heap.heapSwap i (heap.highestOf i)).curLen (heap.highestOf i) := by
        rw [priority_heapSwap]
        exact horder.swap_child hpos hin hparent hless hall
      have hfuel' : (heap.heapSwap i (heap.highestOf i)).curLen ≤ fuel + heap.highestOf i := by
        show heap.curLen ≤ _
        omega
      have hbase1 : 0 < (heap.heapSwap i (heap.highestOf i)).base := hbase
      obtain ⟨heap', hrun, hheader, hord, hcontent⟩ := ih hbase1 hbase' hlen hwrap hin hswap
        hfuel'
      refine ⟨heap', hrun, (sameHeader_heapSwap heap _ _).trans hheader, hord, ?_⟩
      refine hcontent.trans ?_
      rw [item_heapSwap]
      exact content_swap hi hin

end DragonPriorityHeap
