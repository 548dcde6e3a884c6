/-
# The order in which items leave the priority heap

The system: a priority heap together with a record of the run (`HeapRecord`), the regular
items in the order of their insertion, the regular items in the order in which they have
left, and the urgent items that are held.  The invariant `QueueInv` says that the heap is
ordered and holds exactly the items that the record says.

The runs are those whose every extraction finds a heap in which no index of a first child
wraps around to a place in use: `_heap_maxify` computes `base * i + 1` in 64 bits and then
takes a place near the root for a child of `i`.
-/
import DragonRuntime.PriorityHeapSteps
import DragonRuntime.Runs

open DaryHeap DragonPriorityHeap

variable {nvalsPerKey : ℕ}

/-! ## The system -/

/-- The record of a run. -/
structure HeapRecord (nvalsPerKey : ℕ) where
  /-- The regular items, in the order of their insertion. -/
  inserted : List (Fin nvalsPerKey → ℕ)
  /-- The regular items that have left, in the order in which they did. -/
  left : List (Fin nvalsPerKey → ℕ)
  /-- The urgent items that are held. -/
  urgent : Multiset (Fin nvalsPerKey → ℕ)

namespace HeapRecord

/-- No item has been inserted. -/
def empty : HeapRecord nvalsPerKey := ⟨[], [], 0⟩

/-- The regular items that have not left; the `k`-th item of all has priority `k`. -/
def waiting (rec : HeapRecord nvalsPerKey) : List (HeapItem nvalsPerKey) :=
  ((rec.inserted.drop rec.left.length).zipIdx (rec.left.length + 1)).map Prod.swap

/-- The items inserted and not extracted. -/
def held (rec : HeapRecord nvalsPerKey) : Multiset (HeapItem nvalsPerKey) :=
  rec.urgent.map (fun vals => (0, vals)) + (rec.waiting : Multiset (HeapItem nvalsPerKey))

end HeapRecord

/-- A call of the heap. -/
inductive QueueOp (nvalsPerKey : ℕ) : Type where
  | insertItem (vals : Fin nvalsPerKey → ℕ)
  | insertUrgentItem (vals : Fin nvalsPerKey → ℕ)
  | extractHighestPriority

/-- One call, on the heap and on the record; `none` if it does not end within `fuel`
turns. -/
def queueStep (fuel : ℕ) (s : DragonPriorityHeap nvalsPerKey × HeapRecord nvalsPerKey) :
    QueueOp nvalsPerKey → Option (DragonPriorityHeap nvalsPerKey × HeapRecord nvalsPerKey)
  | .insertItem vals =>
    match dragonPriorityHeapInsertItem s.1 vals with
    | (.ok (), heap) => some (heap, { s.2 with inserted := s.2.inserted ++ [vals] })
    | (.error _, heap) => some (heap, s.2)
  | .insertUrgentItem vals =>
    match dragonPriorityHeapInsertUrgentItem s.1 vals with
    | (.ok (), heap) => some (heap, { s.2 with urgent := vals ::ₘ s.2.urgent })
    | (.error _, heap) => some (heap, s.2)
  | .extractHighestPriority =>
    (dragonPriorityHeapExtractHighestPriority fuel s.1).map fun
      | (.ok (priority, vals), heap) =>
        if priority = 0 then (heap, { s.2 with urgent := s.2.urgent.erase vals })
        else (heap, { s.2 with left := s.2.left ++ [vals] })
      | (.error _, heap) => (heap, s.2)

/-- A call after a run; there is none after a call that has not ended. -/
def queueRunStep (fuel : ℕ)
    (s : Option (DragonPriorityHeap nvalsPerKey × HeapRecord nvalsPerKey))
    (op : QueueOp nvalsPerKey) :
    Option (DragonPriorityHeap nvalsPerKey × HeapRecord nvalsPerKey) :=
  s.bind fun s => queueStep fuel s op

/-- There are fewer than `2^64 - 1` regular insertions, and no index wraps around in an
extraction. -/
def QueueLegal (s : Option (DragonPriorityHeap nvalsPerKey × HeapRecord nvalsPerKey))
    (op : QueueOp nvalsPerKey) : Prop :=
  ∀ s' ∈ s, match op with
    | .insertItem _ => s'.2.inserted.length + 1 < 2 ^ 64 - 1
    | .insertUrgentItem _ => True
    | .extractHighestPriority => ¬ ChildWraps s'.1 (s'.1.curLen - 1)

/-! ## The record -/

namespace HeapRecord

variable {rec : HeapRecord nvalsPerKey}

theorem mem_held {x : HeapItem nvalsPerKey} :
    x ∈ rec.held ↔ x.1 = 0 ∧ x.2 ∈ rec.urgent ∨ x ∈ rec.waiting := by
  unfold held
  rw [Multiset.mem_add, Multiset.mem_map, Multiset.mem_coe]
  refine or_congr_left ?_
  constructor
  · rintro ⟨vals, hmem, rfl⟩
    exact ⟨rfl, hmem⟩
  · rintro ⟨hzero, hmem⟩
    exact ⟨x.2, hmem, Prod.ext hzero.symm rfl⟩

theorem one_le_of_mem_waiting {x : HeapItem nvalsPerKey} (hx : x ∈ rec.waiting) :
    rec.left.length + 1 ≤ x.1 := by
  obtain ⟨⟨vals, priority⟩, hmem, rfl⟩ := List.mem_map.mp hx
  exact List.le_snd_of_mem_zipIdx hmem

/-- A further regular item waits behind the others. -/
theorem waiting_insert (hle : rec.left.length ≤ rec.inserted.length)
    (vals : Fin nvalsPerKey → ℕ) :
    ({ rec with inserted := rec.inserted ++ [vals] } : HeapRecord nvalsPerKey).waiting
      = rec.waiting ++ [(rec.inserted.length + 1, vals)] := by
  unfold waiting
  simp only
  rw [List.drop_append_of_le_length hle, List.zipIdx_append, List.map_append,
    List.length_drop]
  simp only [List.zipIdx_singleton, List.map_cons, List.map_nil, Prod.swap_prod_mk]
  rw [show rec.left.length + 1 + (rec.inserted.length - rec.left.length)
    = rec.inserted.length + 1 by omega]

theorem held_insert (hle : rec.left.length ≤ rec.inserted.length)
    (vals : Fin nvalsPerKey → ℕ) :
    ({ rec with inserted := rec.inserted ++ [vals] } : HeapRecord nvalsPerKey).held
      = (rec.inserted.length + 1, vals) ::ₘ rec.held := by
  unfold held
  rw [waiting_insert hle, ← Multiset.coe_add, ← add_assoc, Multiset.coe_singleton,
    add_comm _ ({_} : Multiset _), Multiset.singleton_add]

theorem held_urgent (vals : Fin nvalsPerKey → ℕ) :
    ({ rec with urgent := vals ::ₘ rec.urgent } : HeapRecord nvalsPerKey).held
      = (0, vals) ::ₘ rec.held := by
  unfold held
  rw [Multiset.map_cons, Multiset.cons_add]
  rfl

theorem held_erase_urgent {vals : Fin nvalsPerKey → ℕ} (hmem : vals ∈ rec.urgent) :
    rec.held = (0, vals) ::ₘ
      ({ rec with urgent := rec.urgent.erase vals } : HeapRecord nvalsPerKey).held := by
  have hcons : vals ::ₘ rec.urgent.erase vals = rec.urgent := Multiset.cons_erase hmem
  unfold held
  conv_lhs => rw [← hcons]
  rw [Multiset.map_cons, Multiset.cons_add]
  rfl

/-- The waiting items are empty, or the first one is the next regular item. -/
theorem waiting_cases (rec : HeapRecord nvalsPerKey) :
    rec.waiting = [] ∨ ∃ vals, rec.inserted[rec.left.length]? = some vals ∧
      rec.waiting = (rec.left.length + 1, vals) ::
        ({ rec with left := rec.left ++ [vals] } : HeapRecord nvalsPerKey).waiting := by
  unfold waiting
  cases hdrop : rec.inserted.drop rec.left.length with
  | nil => exact Or.inl rfl
  | cons vals rest =>
    right
    have hget : rec.inserted[rec.left.length]? = some vals := by
      rw [← List.head?_drop, hdrop, List.head?_cons]
    have hrest : rec.inserted.drop (rec.left.length + 1) = rest := by
      rw [← List.tail_drop, hdrop, List.tail_cons]
    refine ⟨vals, hget, ?_⟩
    simp only [List.zipIdx_cons, List.map_cons, Prod.swap_prod_mk, List.length_append,
      List.length_cons, List.length_nil, Nat.zero_add, hrest]

/-- An item of least priority is urgent, or there is no urgent item and it is the next
regular item. -/
theorem least_cases {x : HeapItem nvalsPerKey} (hx : x ∈ rec.held)
    (hleast : ∀ y ∈ rec.held, x.1 ≤ y.1) :
    (x.1 = 0 ∧ x.2 ∈ rec.urgent) ∨
    (x.1 = rec.left.length + 1 ∧ rec.urgent = 0 ∧
      rec.inserted[rec.left.length]? = some x.2 ∧
      rec.waiting = x ::
        ({ rec with left := rec.left ++ [x.2] } : HeapRecord nvalsPerKey).waiting) := by
  rcases mem_held.mp hx with hurgent | hwaiting
  · exact Or.inl hurgent
  · right
    have hpos := one_le_of_mem_waiting hwaiting
    have hnone : rec.urgent = 0 := by
      by_contra hne
      obtain ⟨vals, hvals⟩ := Multiset.exists_mem_of_ne_zero hne
      have hle : x.1 ≤ 0 := hleast (0, vals) (mem_held.mpr (Or.inl ⟨rfl, hvals⟩))
      omega
    rcases rec.waiting_cases with hnil | ⟨vals, hget, hcons⟩
    · rw [hnil] at hwaiting
      exact absurd hwaiting List.not_mem_nil
    · have hfirst : (rec.left.length + 1, vals) ∈ rec.waiting := by
        rw [hcons]
        exact List.mem_cons_self
      have hle := hleast _ (mem_held.mpr (Or.inr hfirst))
      have hx' : x = (rec.left.length + 1, vals) := by
        rw [hcons] at hwaiting
        refine (List.mem_cons.mp hwaiting).resolve_right fun hrest => ?_
        have := one_le_of_mem_waiting hrest
        simp only [List.length_append, List.length_cons, List.length_nil] at this hle
        omega
      subst hx'
      exact ⟨rfl, hnone, hget, hcons⟩

end HeapRecord

/-! ## The invariant -/

/-- The heap is ordered and holds the items of the record. -/
structure QueueInv (capacity : ℕ) (heap : DragonPriorityHeap nvalsPerKey)
    (rec : HeapRecord nvalsPerKey) : Prop where
  base_pos : 0 < heap.base
  base_lt : heap.base < 2 ^ 32
  capacity_eq : heap.capacity = capacity
  capacity_le : capacity ≤ 2 ^ 60
  curLen_le : heap.curLen ≤ capacity
  ordered : Ordered heap.base heap.priority heap.curLen
  content_eq : content heap.item heap.curLen = rec.held
  left_prefix : rec.left <+: rec.inserted
  lastPri_eq : heap.curLastPri = rec.inserted.length
  inserted_lt : rec.inserted.length < 2 ^ 64 - 1

section Invariant

variable {capacity fuel : ℕ} {heap : DragonPriorityHeap nvalsPerKey}
  {rec : HeapRecord nvalsPerKey}

theorem queueInv_init {harr : ℕ → ℕ} {base : ℕ} (hbase : base < 2 ^ 32)
    (hfit : dragonPriorityHeapSize capacity nvalsPerKey ≤ 2 ^ 64)
    (hinit : dragonPriorityHeapInit harr base capacity = .ok heap) :
    QueueInv capacity heap HeapRecord.empty := by
  unfold dragonPriorityHeapInit at hinit
  split at hinit
  · cases hinit
  · split at hinit
    · cases hinit
    · rename_i hnvals hpos
      cases hinit
      have hcap : capacity ≤ 2 ^ 60 := by
        unfold dragonPriorityHeapSize at hfit
        have : capacity * 2 ≤ capacity * (1 + nvalsPerKey) := Nat.mul_le_mul_left _ (by omega)
        omega
      exact ⟨Nat.pos_of_ne_zero hpos, hbase, rfl, hcap, Nat.zero_le _,
        fun c _ hc => absurd hc (Nat.not_lt_zero c), rfl, List.prefix_refl _, rfl,
        show 0 < 2 ^ 64 - 1 by decide⟩

theorem QueueInv.card_held (h : QueueInv capacity heap rec) : rec.held.card = heap.curLen := by
  rw [← h.content_eq, card_content]

/-- **`dragon_priority_heap_insert_item`** fails iff the heap is full, and else adds the
next regular item. -/
theorem QueueInv.insertItem (h : QueueInv capacity heap rec) (vals : Fin nvalsPerKey → ℕ) :
    (rec.held.card = capacity ∧
      dragonPriorityHeapInsertItem heap vals = (.error .priorityHeapFull, heap)) ∨
    (rec.held.card ≠ capacity ∧ ∃ heap', dragonPriorityHeapInsertItem heap vals = (.ok (), heap') ∧
      (rec.inserted.length + 1 < 2 ^ 64 - 1 →
        QueueInv capacity heap' { rec with inserted := rec.inserted ++ [vals] })) := by
  have hcard := h.card_held
  have hcap := h.capacity_le
  have hle := h.curLen_le
  have hlast := h.lastPri_eq
  have hlt := h.inserted_lt
  unfold dragonPriorityHeapInsertItem
  by_cases hfull : heap.curLen = capacity
  · rw [if_pos (by rw [hfull, h.capacity_eq])]
    exact Or.inl ⟨by omega, rfl⟩
  · rw [if_neg (by rw [h.capacity_eq]; exact hfull)]
    refine Or.inr ⟨by omega, _, rfl, ?_⟩
    intro hroom
    have hpri : (heap.curLastPri + 1) % 2 ^ 64 = rec.inserted.length + 1 := by
      rw [hlast, Nat.mod_eq_of_lt (by omega)]
    rw [hpri]
    obtain ⟨hbase, hcapacity, hlastPri, hcur, hord, hcontent⟩ :=
      insertItem_spec h.ordered (by omega) vals (rec.inserted.length + 1)
    refine ⟨by rw [hbase]; exact h.base_pos, by rw [hbase]; exact h.base_lt,
      by rw [hcapacity]; exact h.capacity_eq, hcap, ?_, hord, ?_,
      h.left_prefix.trans (List.prefix_append _ _), ?_, ?_⟩
    · show (heap.insertItem vals _).curLen ≤ capacity
      omega
    · refine hcontent.trans ?_
      rw [h.content_eq, HeapRecord.held_insert h.left_prefix.length_le]
    · show ((heap.insertItem vals _).curLastPri + 1) % 2 ^ 64 = (rec.inserted ++ [vals]).length
      rw [hlastPri, hpri, List.length_append, List.length_singleton]
    · show (rec.inserted ++ [vals]).length < 2 ^ 64 - 1
      rw [List.length_append, List.length_singleton]
      exact hroom

/-- **`dragon_priority_heap_insert_urgent_item`** fails iff the heap is full, and else adds
an urgent item. -/
theorem QueueInv.insertUrgentItem (h : QueueInv capacity heap rec)
    (vals : Fin nvalsPerKey → ℕ) :
    (rec.held.card = capacity ∧
      dragonPriorityHeapInsertUrgentItem heap vals = (.error .priorityHeapFull, heap)) ∨
    (rec.held.card ≠ capacity ∧
      ∃ heap', dragonPriorityHeapInsertUrgentItem heap vals = (.ok (), heap') ∧
        QueueInv capacity heap' { rec with urgent := vals ::ₘ rec.urgent }) := by
  have hcard := h.card_held
  have hcap := h.capacity_le
  have hle := h.curLen_le
  unfold dragonPriorityHeapInsertUrgentItem
  by_cases hfull : heap.curLen = capacity
  · rw [if_pos (by rw [hfull, h.capacity_eq])]
    exact Or.inl ⟨by omega, rfl⟩
  · rw [if_neg (by rw [h.capacity_eq]; exact hfull)]
    refine Or.inr ⟨by omega, _, rfl, ?_⟩
    obtain ⟨hbase, hcapacity, hlastPri, hcur, hord, hcontent⟩ :=
      insertItem_spec h.ordered (by omega) vals 0
    refine ⟨by rw [hbase]; exact h.base_pos, by rw [hbase]; exact h.base_lt,
      by rw [hcapacity]; exact h.capacity_eq, hcap, by omega, hord, ?_, h.left_prefix,
      hlastPri.trans h.lastPri_eq, h.inserted_lt⟩
    rw [hcontent, h.content_eq, HeapRecord.held_urgent]

theorem extract_eq (fuel : ℕ) {n : ℕ} (hn : heap.curLen = n + 1) :
    dragonPriorityHeapExtractHighestPriority fuel heap =
      if 0 < n then
        (heapMaxify fuel (({ heap with curLen := n } : DragonPriorityHeap nvalsPerKey).heapSwap 0 n)
          0).map fun heap' => (.ok (heap.item 0), heap')
      else some (.ok (heap.item 0), { heap with curLen := n }) := by
  have hpeek : dragonPriorityHeapPeekHighestPriority heap = .ok (heap.item 0) := by
    unfold dragonPriorityHeapPeekHighestPriority item DragonPriorityHeap.priority
    rw [if_neg (by omega), Nat.mul_zero]
    simp only [Nat.zero_add]
  unfold dragonPriorityHeapExtractHighestPriority dragonPriorityHeapPopHighestPriority
  rw [hpeek, if_neg (by omega)]
  simp only [hn, Nat.add_sub_cancel]
  by_cases hpos : 0 < n
  · rw [if_pos hpos, if_pos hpos, Option.map_map]
    rfl
  · rw [if_neg hpos, if_neg hpos]
    rfl

/-- **`dragon_priority_heap_extract_highest_priority`** ends, and returns and removes the
item at the root. -/
theorem extract_spec (hbase : 0 < heap.base) (hbase' : heap.base < 2 ^ 32)
    (hlen : heap.curLen ≤ 2 ^ 60) (horder : Ordered heap.base heap.priority heap.curLen)
    (hpos : 0 < heap.curLen) (hwrap : ¬ ChildWraps heap (heap.curLen - 1))
    (hfuel : heap.curLen ≤ fuel) :
    ∃ heap', dragonPriorityHeapExtractHighestPriority fuel heap = some (.ok (heap.item 0), heap') ∧
      heap'.base = heap.base ∧ heap'.capacity = heap.capacity ∧
      heap'.curLastPri = heap.curLastPri ∧ heap'.curLen = heap.curLen - 1 ∧
      Ordered heap'.base heap'.priority heap'.curLen ∧
      content heap.item heap.curLen = heap.item 0 ::ₘ content heap'.item heap'.curLen := by
  obtain ⟨n, hn⟩ : ∃ n, heap.curLen = n + 1 := ⟨heap.curLen - 1, by omega⟩
  rw [extract_eq fuel hn]
  rw [hn] at hwrap horder hlen hfuel ⊢
  rw [Nat.add_sub_cancel] at hwrap ⊢
  by_cases hzero : n = 0
  · -- the last item: nothing to move down
    subst hzero
    rw [if_neg (lt_irrefl 0)]
    refine ⟨_, rfl, rfl, rfl, rfl, rfl, fun c _ hc => absurd hc (Nat.not_lt_zero c), ?_⟩
    rw [content_succ]
    rfl
  · rw [if_pos (Nat.pos_of_ne_zero hzero)]
    set short : DragonPriorityHeap nvalsPerKey := { heap with curLen := n } with hshort
    have hitem : (short.heapSwap 0 n).item = heap.item ∘ Equiv.swap 0 n := item_heapSwap short 0 n
    have hbelow : OrderedBelow heap.base (short.heapSwap 0 n).priority n 0 := by
      rw [priority_heapSwap]
      exact horder.orderedBelow_root
    have hlen' : (short.heapSwap 0 n).curLen ≤ 2 ^ 60 := by
      show n ≤ 2 ^ 60
      omega
    have hfuel' : (short.heapSwap 0 n).curLen ≤ fuel + 0 := by
      show n ≤ fuel
      omega
    have hbase1 : 0 < (short.heapSwap 0 n).base := hbase
    have hpos' : 0 < (short.heapSwap 0 n).curLen := Nat.pos_of_ne_zero hzero
    obtain ⟨heap', hrun, ⟨h1, h2, h3, h4⟩, hord, hcontent⟩ := heapMaxify_spec hbase1 hbase' hlen'
      hwrap hpos' hbelow hfuel'
    refine ⟨heap', ?_, h1, h2, h4, h3, ?_, ?_⟩
    · rw [hrun]
      rfl
    · rw [h1, h3]
      exact hord
    · have hlast : (heap.item ∘ Equiv.swap 0 n) n = heap.item 0 := by
        rw [Function.comp_apply, Equiv.swap_apply_right]
      rw [h3]
      refine Eq.trans ?_ (congrArg _ hcontent.symm)
      show content heap.item (n + 1) = _ ::ₘ content (short.heapSwap 0 n).item n
      rw [hitem, ← hlast, ← content_succ, content_swap (by omega) (by omega)]

/-- **Extraction and the record.**  The item that leaves is of least priority: an urgent
one if there is any, and else the next regular one. -/
theorem QueueInv.extract (h : QueueInv capacity heap rec) (hheld : rec.held ≠ 0)
    (hwrap : ¬ ChildWraps heap (heap.curLen - 1)) (hfuel : capacity ≤ fuel) :
    ∃ item heap', dragonPriorityHeapExtractHighestPriority fuel heap = some (.ok item, heap') ∧
      (∀ y ∈ rec.held, item.1 ≤ y.1) ∧
      rec.held = item ::ₘ content heap'.item heap'.curLen ∧
      ((item.1 = 0 ∧ item.2 ∈ rec.urgent ∧
          QueueInv capacity heap' { rec with urgent := rec.urgent.erase item.2 }) ∨
        (item.1 ≠ 0 ∧ rec.urgent = 0 ∧ rec.inserted[rec.left.length]? = some item.2 ∧
          QueueInv capacity heap' { rec with left := rec.left ++ [item.2] })) := by
  have hcard := h.card_held
  have hcap := h.capacity_le
  have hle := h.curLen_le
  have hpos : 0 < heap.curLen := by
    rw [← hcard]
    exact Multiset.card_pos.mpr hheld
  obtain ⟨heap', hrun, hbase, hcapacity, hlast, hcur, hord, hcontent⟩ := extract_spec
    h.base_pos h.base_lt (by omega) h.ordered hpos hwrap (hle.trans hfuel)
  have hleast : ∀ y ∈ rec.held, (heap.item 0).1 ≤ y.1 := by
    intro y hy
    rw [← h.content_eq] at hy
    obtain ⟨c, hc, rfl⟩ := mem_content.mp hy
    exact h.ordered.root_le hc
  rw [h.content_eq] at hcontent
  have hmem : heap.item 0 ∈ rec.held := by
    rw [hcontent]
    exact Multiset.mem_cons_self _ _
  refine ⟨heap.item 0, heap', hrun, hleast, hcontent, ?_⟩
  -- what stays true of the heap, whichever item has left
  have hinv : ∀ rec' : HeapRecord nvalsPerKey, rec.held = heap.item 0 ::ₘ rec'.held →
      rec'.left <+: rec'.inserted → rec'.inserted = rec.inserted →
      QueueInv capacity heap' rec' := by
    intro rec' hheld' hprefix hinserted
    refine ⟨by rw [hbase]; exact h.base_pos, by rw [hbase]; exact h.base_lt,
      hcapacity.trans h.capacity_eq, hcap, by omega, hord, ?_, hprefix, ?_, ?_⟩
    · exact (Multiset.cons_inj_right _).mp (hcontent.symm.trans hheld')
    · rw [hlast, hinserted]
      exact h.lastPri_eq
    · rw [hinserted]
      exact h.inserted_lt
  rcases HeapRecord.least_cases hmem hleast with ⟨hzero, hurgent⟩ | ⟨hpri, hnone, hget, hwaiting⟩
  · refine Or.inl ⟨hzero, hurgent, hinv _ ?_ h.left_prefix rfl⟩
    have hitem : heap.item 0 = (0, (heap.item 0).2) := Prod.ext hzero rfl
    rw [hitem]
    exact HeapRecord.held_erase_urgent hurgent
  · refine Or.inr ⟨by omega, hnone, hget, hinv _ ?_ ?_ rfl⟩
    · unfold HeapRecord.held
      rw [hwaiting, ← Multiset.cons_coe, Multiset.add_cons]
    · obtain ⟨rest, hrest⟩ := h.left_prefix
      rw [← hrest, List.getElem?_append_right le_rfl, Nat.sub_self] at hget
      cases rest with
      | nil => cases hget
      | cons vals rest =>
        cases hget
        refine ⟨rest, ?_⟩
        rw [List.append_assoc]
        exact hrest

theorem QueueInv.extract_empty (h : QueueInv capacity heap rec) (hheld : rec.held = 0) :
    dragonPriorityHeapExtractHighestPriority fuel heap
      = some (.error .priorityHeapEmpty, heap) := by
  have hzero : heap.curLen = 0 := by
    rw [← h.card_held, hheld]
    rfl
  unfold dragonPriorityHeapExtractHighestPriority dragonPriorityHeapPeekHighestPriority
  rw [if_pos hzero]

/-- **Step lemma.** -/
theorem queueRunStep_inv (hfuel : capacity ≤ fuel)
    (s : Option (DragonPriorityHeap nvalsPerKey × HeapRecord nvalsPerKey))
    (op : QueueOp nvalsPerKey) (h : ∃ s' ∈ s, QueueInv capacity s'.1 s'.2)
    (hop : QueueLegal s op) :
    ∃ s' ∈ queueRunStep fuel s op, QueueInv capacity s'.1 s'.2 := by
  obtain ⟨s', hs, h⟩ := h
  have hlegal := hop s' hs
  rw [Option.mem_def] at hs
  subst hs
  have hstep : queueRunStep fuel (some s') op = queueStep fuel s' op := rfl
  rw [hstep]
  cases op with
  | insertItem vals =>
    rcases h.insertItem vals with ⟨-, hrun⟩ | ⟨-, heap', hrun, hinv⟩
    · simp only [queueStep, hrun]
      exact ⟨_, rfl, h⟩
    · simp only [queueStep, hrun]
      exact ⟨_, rfl, hinv hlegal⟩
  | insertUrgentItem vals =>
    rcases h.insertUrgentItem vals with ⟨-, hrun⟩ | ⟨-, heap', hrun, hinv⟩
    · simp only [queueStep, hrun]
      exact ⟨_, rfl, h⟩
    · simp only [queueStep, hrun]
      exact ⟨_, rfl, hinv⟩
  | extractHighestPriority =>
    by_cases hheld : s'.2.held = 0
    · simp only [queueStep, h.extract_empty hheld]
      exact ⟨_, rfl, h⟩
    · obtain ⟨item, heap', hrun, -, -, hcases⟩ := h.extract hheld hlegal hfuel
      simp only [queueStep, hrun, Option.map_some]
      rcases hcases with ⟨hzero, -, hinv⟩ | ⟨hpos, -, -, hinv⟩
      · rw [if_pos hzero]
        exact ⟨_, rfl, hinv⟩
      · rw [if_neg hpos]
        exact ⟨_, rfl, hinv⟩

end Invariant

/-- A call that fails with one code under a condition and else succeeds. -/
theorem outcome_iff {α : Type*} {e : DragonError} {r : Except DragonError Unit × α} {P : Prop}
    (h : P ∧ r.1 = .error e ∨ ¬ P ∧ r.1 = .ok ()) :
    (r.1 = .error e ↔ P) ∧ (Succeeds r.1 ↔ ¬ P) := by
  rcases h with ⟨hP, hr⟩ | ⟨hP, hr⟩
  · rw [hr]
    exact ⟨iff_of_true rfl hP, iff_of_false (not_succeeds_error e) (not_not.mpr hP)⟩
  · rw [hr]
    exact ⟨iff_of_false nofun hP, iff_of_true (succeeds_ok ()) hP⟩

/-- **Queue order of the priority heap.**  Every run whose extractions find no index that
wraps around ends in a state in which: the heap holds exactly the items inserted and not
extracted, with their values; the regular items have left in the order of their insertion;
an insertion fails, with `FULL`, iff `capacity` items are held; and an extraction from a
heap that is not empty, if again no index wraps around, ends and returns an item of least
priority, which is urgent if an urgent item is held and else the next regular item. -/
theorem dragonPriorityHeap_queue_order (harr : ℕ → ℕ) (base capacity fuel : ℕ)
    (hbase : base < 2 ^ 32) (hfit : dragonPriorityHeapSize capacity nvalsPerKey ≤ 2 ^ 64)
    (hfuel : capacity ≤ fuel) (heap : DragonPriorityHeap nvalsPerKey)
    (hinit : dragonPriorityHeapInit harr base capacity = .ok heap)
    (ops : List (QueueOp nvalsPerKey))
    (hops : Runs.Legal (queueRunStep fuel) QueueLegal (some (heap, HeapRecord.empty)) ops) :
    ∃ s ∈ ops.foldl (queueRunStep fuel) (some (heap, HeapRecord.empty)),
      content s.1.item s.1.curLen = s.2.held ∧
      s.2.left <+: s.2.inserted ∧
      (∀ vals,
        ((dragonPriorityHeapInsertItem s.1 vals).1 = .error .priorityHeapFull ↔
          s.2.held.card = capacity) ∧
        (Succeeds (dragonPriorityHeapInsertItem s.1 vals).1 ↔ s.2.held.card ≠ capacity) ∧
        ((dragonPriorityHeapInsertUrgentItem s.1 vals).1 = .error .priorityHeapFull ↔
          s.2.held.card = capacity) ∧
        (Succeeds (dragonPriorityHeapInsertUrgentItem s.1 vals).1 ↔
          s.2.held.card ≠ capacity)) ∧
      (s.2.held = 0 → dragonPriorityHeapExtractHighestPriority fuel s.1
        = some (.error .priorityHeapEmpty, s.1)) ∧
      (s.2.held ≠ 0 → ¬ ChildWraps s.1 (s.1.curLen - 1) →
        ∃ item heap',
          dragonPriorityHeapExtractHighestPriority fuel s.1 = some (.ok item, heap') ∧
          (∀ y ∈ s.2.held, item.1 ≤ y.1) ∧
          s.2.held = item ::ₘ content heap'.item heap'.curLen ∧
          (item.1 = 0 ∧ item.2 ∈ s.2.urgent ∨
            item.1 ≠ 0 ∧ s.2.urgent = 0 ∧ s.2.inserted[s.2.left.length]? = some item.2)) := by
  obtain ⟨s, hs, h⟩ := hops.invariant
    (I := fun s => ∃ s' ∈ s, QueueInv capacity s'.1 s'.2) (queueRunStep_inv hfuel)
    ⟨_, rfl, queueInv_init hbase hfit hinit⟩
  refine ⟨s, hs, h.content_eq, h.left_prefix, ?_, h.extract_empty, ?_⟩
  · intro vals
    obtain ⟨hfull, hroom⟩ := outcome_iff (r := dragonPriorityHeapInsertItem s.1 vals)
      (P := s.2.held.card = capacity) <| by
        rcases h.insertItem vals with ⟨hfull, hrun⟩ | ⟨hroom, heap', hrun, -⟩
        · exact Or.inl ⟨hfull, by rw [hrun]⟩
        · exact Or.inr ⟨hroom, by rw [hrun]⟩
    obtain ⟨hfull', hroom'⟩ := outcome_iff (r := dragonPriorityHeapInsertUrgentItem s.1 vals)
      (P := s.2.held.card = capacity) <| by
        rcases h.insertUrgentItem vals with ⟨hfull, hrun⟩ | ⟨hroom, heap', hrun, -⟩
        · exact Or.inl ⟨hfull, by rw [hrun]⟩
        · exact Or.inr ⟨hroom, by rw [hrun]⟩
    exact ⟨hfull, hroom, hfull', hroom'⟩
  · intro hheld hwrap
    obtain ⟨item, heap', hrun, hleast, hcontent, hcases⟩ := h.extract hheld hwrap hfuel
    refine ⟨item, heap', hrun, hleast, hcontent, ?_⟩
    rcases hcases with ⟨hzero, hurgent, -⟩ | ⟨hpos, hnone, hget, -⟩
    · exact Or.inl ⟨hzero, hurgent⟩
    · exact Or.inr ⟨hpos, hnone, hget⟩

/-- Fan-out two: two regular items, an urgent one, and two extractions leave the second
regular item. -/
theorem dragonPriorityHeap_queue_order_example :
    ∃ s ∈ [QueueOp.insertItem (fun _ => 7), .insertItem (fun _ => 8),
        .insertUrgentItem (fun _ => 9), .extractHighestPriority, .extractHighestPriority].foldl
        (queueRunStep 3)
        (some ((⟨2, 3, 0, 0, fun _ => 0⟩ : DragonPriorityHeap 1), HeapRecord.empty)),
      content s.1.item s.1.curLen = s.2.held ∧ s.2.left <+: s.2.inserted := by
  obtain ⟨s, hs, hheld, hprefix, -⟩ := dragonPriorityHeap_queue_order
    (fun _ => 0) 2 3 3 (by decide) (by decide) le_rfl
    (⟨2, 3, 0, 0, fun _ => 0⟩ : DragonPriorityHeap 1) rfl
    [QueueOp.insertItem (fun _ => 7), .insertItem (fun _ => 8), .insertUrgentItem (fun _ => 9),
      .extractHighestPriority, .extractHighestPriority]
    (by
      refine ⟨?_, ?_, fun s _ => trivial, ?_, ?_, trivial⟩
      all_goals
        intro s hs
        cases hs
        decide +kernel)
  exact ⟨s, hs, hheld, hprefix⟩

/-! ## An index that wraps around

With the fan-out `2^32 - 1`, the first child of place `2^32 + 1` is `0` modulo `2^64`.
Once the places up to there are in use, the item that `_heap_maxify` moves down can come
back to the root, and the loop does not end. -/

/-- The widest fan-out, and room for the items of the run. -/
def wideHeap : DragonPriorityHeap 1 :=
  { base := 2 ^ 32 - 1
    capacity := 2 ^ 32 + 3
    curLen := 0
    curLastPri := 0
    harr := fun _ => 0 }

/-- `n` regular items, an urgent one, and a last regular one. -/
def wideRun (n : ℕ) : List (QueueOp 1) :=
  List.replicate n (QueueOp.insertItem fun _ => 0)
    ++ [QueueOp.insertUrgentItem fun _ => 0, QueueOp.insertItem fun _ => 0]

/-- `n` regular items, in the order of their places. -/
structure Filled (heap : DragonPriorityHeap 1) (n : ℕ) : Prop where
  base_eq : heap.base = 2 ^ 32 - 1
  capacity_eq : heap.capacity = 2 ^ 32 + 3
  curLen_eq : heap.curLen = n
  lastPri_eq : heap.curLastPri = n
  priority_eq : ∀ c < n, heap.priority c = c + 1

theorem filled_succ {heap : DragonPriorityHeap 1} {n : ℕ} (h : Filled heap n)
    (hn : n ≤ 2 ^ 32) (vals : Fin 1 → ℕ) :
    ∃ heap', dragonPriorityHeapInsertItem heap vals = (.ok (), heap') ∧ Filled heap' (n + 1) := by
  have hcur := h.curLen_eq
  unfold dragonPriorityHeapInsertItem
  rw [if_neg (by rw [hcur, h.capacity_eq]; omega), h.lastPri_eq, Nat.mod_eq_of_lt (by omega)]
  refine ⟨_, rfl, ?_⟩
  rw [insertItem_stays]
  · refine ⟨h.base_eq, h.capacity_eq, ?_, ?_, ?_⟩
    · show (heap.curLen + 1) % 2 ^ 64 = n + 1
      rw [hcur, Nat.mod_eq_of_lt (by omega)]
    · show (heap.curLastPri + 1) % 2 ^ 64 = n + 1
      rw [h.lastPri_eq, Nat.mod_eq_of_lt (by omega)]
    · intro c hc
      show (heap.placed vals (n + 1)).priority c = c + 1
      rw [priority_placed, hcur]
      by_cases hcn : c = n
      · rw [hcn, Function.update_self]
      · rw [Function.update_of_ne hcn]
        exact h.priority_eq c (by omega)
  · intro hpos
    rw [hcur] at hpos ⊢
    have hparent : (n + 2 ^ 64 - 1) % 2 ^ 64 / heap.base < n := by
      rw [show n + 2 ^ 64 - 1 = n - 1 + 2 ^ 64 by omega, Nat.add_mod_right,
        Nat.mod_eq_of_lt (by omega)]
      exact lt_of_le_of_lt (Nat.div_le_self _ _) (by omega)
    refine ⟨hparent, ?_⟩
    rw [h.priority_eq _ hparent]
    omega

theorem filled_run (fuel n : ℕ) (hn : n ≤ 2 ^ 32 + 1) :
    ∃ s, (List.replicate n (QueueOp.insertItem fun _ => 0)).foldl (queueRunStep fuel)
        (some (wideHeap, HeapRecord.empty)) = some s ∧ Filled s.1 n := by
  induction n with
  | zero =>
    refine ⟨_, rfl, ⟨rfl, rfl, rfl, rfl, ?_⟩⟩
    intro c hc
    exact absurd hc (Nat.not_lt_zero c)
  | succ n ih =>
    obtain ⟨s, hrun, hfilled⟩ := ih (by omega)
    obtain ⟨heap', hinsert, hfilled'⟩ := filled_succ hfilled (by omega) fun _ => 0
    rw [List.replicate_succ', List.foldl_append, hrun]
    refine ⟨(heap', { s.2 with inserted := s.2.inserted ++ [fun _ => 0] }), ?_, hfilled'⟩
    simp only [List.foldl_cons, List.foldl_nil, queueRunStep, Option.bind_some, queueStep,
      hinsert]

/-- The two lowest priorities are in two of the places `0`, `1` and `2^32 + 1`. -/
structure Tangled (heap : DragonPriorityHeap 1) (i : ℕ) : Prop where
  base_eq : heap.base = 2 ^ 32 - 1
  place : i = 0 ∨ i = 1 ∨ i = 2 ^ 32 + 1
  high : 3 ≤ heap.priority i
  zero_le : i ≠ 0 → heap.priority 0 ≤ 2
  one_le : i ≠ 1 → heap.priority 1 ≤ 2
  last_le : i ≠ 2 ^ 32 + 1 → heap.priority (2 ^ 32 + 1) ≤ 2
  other : ∀ c, 1 < c → c < 2 ^ 32 + 1 → 3 ≤ heap.priority c

/-- One turn of `_heap_maxify` keeps the tangle. -/
theorem Tangled.turn {heap : DragonPriorityHeap 1} {i : ℕ} (h : Tangled heap i)
    (hlen : heap.curLen = 2 ^ 32 + 2) :
    i ≠ heap.highestOf i ∧ Tangled (heap.heapSwap i (heap.highestOf i)) (heap.highestOf i) := by
  obtain ⟨hwhere, -, hall⟩ := highestOf_least heap i
  rw [h.base_eq, hlen] at hwhere hall
  have hhigh := h.high
  -- a place that the inner loop looks at has one of the two lowest priorities
  have hlow : heap.priority (heap.highestOf i) ≤ 2 := by
    rcases h.place with hi | hi | hi
    · have := hall 1 (by rw [hi]; decide) (by rw [hi]; decide) (by decide)
      have := h.one_le (by omega)
      omega
    · have := hall (2 ^ 32 + 1) (by rw [hi]; decide) (by rw [hi]; decide) (by decide)
      have := h.last_le (by omega)
      omega
    · have := hall 0 (by rw [hi]; decide) (by rw [hi]; decide) (by decide)
      have := h.zero_le (by omega)
      omega
  have hne : i ≠ heap.highestOf i := by
    intro heq
    rw [← heq] at hlow
    omega
  have hplace : heap.highestOf i = 0 ∨ heap.highestOf i = 1 ∨ heap.highestOf i = 2 ^ 32 + 1 := by
    have hin := (hwhere.resolve_left (Ne.symm hne)).2.2.1
    by_contra hnone
    have := h.other (heap.highestOf i) (by omega) (by omega)
    omega
  have hkeep : ∀ c, (i ≠ c → heap.priority c ≤ 2) → heap.highestOf i ≠ c →
      (heap.heapSwap i (heap.highestOf i)).priority c ≤ 2 := by
    intro c hc hj
    rw [priority_heapSwap, Function.comp_apply]
    by_cases hi : i = c
    · subst hi
      rw [Equiv.swap_apply_left]
      exact hlow
    · rw [Equiv.swap_apply_of_ne_of_ne (Ne.symm hi) (Ne.symm hj)]
      exact hc hi
  refine ⟨hne, h.base_eq, hplace, ?_, hkeep 0 h.zero_le, hkeep 1 h.one_le,
    hkeep _ h.last_le, ?_⟩
  · rw [priority_heapSwap, Function.comp_apply, Equiv.swap_apply_right]
    exact hhigh
  · intro c h1 h2
    have hi := h.place
    rw [priority_heapSwap, Function.comp_apply,
      Equiv.swap_apply_of_ne_of_ne (by omega) (by omega)]
    exact h.other c h1 h2

/-- `_heap_maxify` does not end on a tangle. -/
theorem Tangled.heapMaxify_eq_none {heap : DragonPriorityHeap 1} {i : ℕ} (h : Tangled heap i)
    (hlen : heap.curLen = 2 ^ 32 + 2) (fuel : ℕ) : heapMaxify fuel heap i = none := by
  induction fuel generalizing heap i with
  | zero => rfl
  | succ fuel ih =>
    obtain ⟨hne, hnext⟩ := h.turn hlen
    rw [heapMaxify]
    simp only [if_pos hne]
    exact ih hnext hlen

/-- The heap after the urgent item: it has gone up to the root through place `1`. -/
structure Crossed (heap : DragonPriorityHeap 1) : Prop where
  base_eq : heap.base = 2 ^ 32 - 1
  capacity_eq : heap.capacity = 2 ^ 32 + 3
  curLen_eq : heap.curLen = 2 ^ 32 + 2
  lastPri_eq : heap.curLastPri = 2 ^ 32 + 1
  one_le : heap.priority 1 ≤ 2
  last_le : heap.priority (2 ^ 32 + 1) ≤ 2
  other : ∀ c, 1 < c → c < 2 ^ 32 + 1 → 3 ≤ heap.priority c

theorem crossed_of_filled {heap : DragonPriorityHeap 1} (h : Filled heap (2 ^ 32 + 1))
    (vals : Fin 1 → ℕ) :
    ∃ heap', dragonPriorityHeapInsertUrgentItem heap vals = (.ok (), heap') ∧ Crossed heap' := by
  have hcur := h.curLen_eq
  have hbase := h.base_eq
  have hplaced : (heap.placed vals 0).priority
      = Function.update heap.priority (2 ^ 32 + 1) 0 := by
    rw [priority_placed, hcur]
  set first := (heap.placed vals 0).heapSwap (2 ^ 32 + 1) 1 with hfirst
  set second := first.heapSwap 1 0 with hsecond
  have hpri1 : first.priority
      = Function.update heap.priority (2 ^ 32 + 1) 0 ∘ Equiv.swap (2 ^ 32 + 1) 1 := by
    rw [hfirst, priority_heapSwap, hplaced]
  have hpri2 : second.priority = first.priority ∘ Equiv.swap 1 0 := priority_heapSwap first 1 0
  have hone : heap.priority 1 = 2 := h.priority_eq 1 (by omega)
  have hzero : heap.priority 0 = 1 := h.priority_eq 0 (by omega)
  have hfirst1 : first.priority 1 = 0 := by
    rw [hpri1, Function.comp_apply, Equiv.swap_apply_right, Function.update_self]
  have hfirst0 : first.priority 0 = 1 := by
    rw [hpri1, Function.comp_apply, Equiv.swap_apply_of_ne_of_ne (by omega) (by omega),
      Function.update_of_ne (by omega), hzero]
  have hfirstp : first.priority (2 ^ 32 + 1) = 2 := by
    rw [hpri1, Function.comp_apply, Equiv.swap_apply_left, Function.update_of_ne (by omega), hone]
  -- two turns of the loop, to place `1` and to the root
  have hturn1 : raiseLoop (2 ^ 32 - 1 + 1 + 1) (heap.placed vals 0) (2 ^ 32 + 1)
      = raiseLoop (2 ^ 32 - 1 + 1) first 1 := by
    refine raiseLoop_turn ?_ ⟨by omega, ?_⟩
    · show (2 ^ 32 + 1 + 2 ^ 64 - 1) % 2 ^ 64 / heap.base = 1
      rw [hbase]
      decide
    · rw [hplaced, Function.update_self, Function.update_of_ne (by omega), hone]
      omega
  have hturn2 : raiseLoop (2 ^ 32 - 1 + 1) first 1 = raiseLoop (2 ^ 32 - 1) second 0 := by
    refine raiseLoop_turn ?_ ⟨by omega, ?_⟩
    · show (1 + 2 ^ 64 - 1) % 2 ^ 64 / heap.base = 0
      rw [hbase]
      decide
    · rw [hfirst0, hfirst1]
      omega
  have hstop : raiseLoop (2 ^ 32 - 1) second 0 = second :=
    raiseLoop_stop fun hturn => absurd hturn.1 (lt_irrefl 0)
  have hinsert : heap.insertItem vals 0 = { second with curLen := (second.curLen + 1) % 2 ^ 64 } := by
    have hloop : raiseLoop heap.curLen (heap.placed vals 0) heap.curLen = second := by
      rw [hcur]
      exact (hturn1.trans hturn2).trans hstop
    have hunfold : heap.insertItem vals 0
        = { raiseLoop heap.curLen (heap.placed vals 0) heap.curLen with
            curLen := ((raiseLoop heap.curLen (heap.placed vals 0) heap.curLen).curLen + 1)
              % 2 ^ 64 } := rfl
    rw [hunfold, hloop]
  unfold dragonPriorityHeapInsertUrgentItem
  rw [if_neg (by rw [hcur, h.capacity_eq]; omega), hinsert]
  refine ⟨_, rfl, ⟨hbase, h.capacity_eq, ?_, h.lastPri_eq, ?_, ?_, ?_⟩⟩
  · show (heap.curLen + 1) % 2 ^ 64 = _
    rw [hcur]
    decide
  · show second.priority 1 ≤ 2
    rw [hpri2, Function.comp_apply, Equiv.swap_apply_left, hfirst0]
    omega
  · show second.priority (2 ^ 32 + 1) ≤ 2
    rw [hpri2, Function.comp_apply, Equiv.swap_apply_of_ne_of_ne (by omega) (by omega), hfirstp]
  · intro c h1 h2
    show 3 ≤ second.priority c
    rw [hpri2, Function.comp_apply, Equiv.swap_apply_of_ne_of_ne (by omega) (by omega), hpri1,
      Function.comp_apply, Equiv.swap_apply_of_ne_of_ne (by omega) (by omega),
      Function.update_of_ne (by omega), h.priority_eq c h2]
    omega

theorem extract_never_ends {heap : DragonPriorityHeap 1} (hbase : heap.base = 2 ^ 32 - 1)
    (hlen : heap.curLen = 2 ^ 32 + 2 + 1) (hhigh : 3 ≤ heap.priority (2 ^ 32 + 2))
    (hone : heap.priority 1 ≤ 2) (hlast : heap.priority (2 ^ 32 + 1) ≤ 2)
    (hother : ∀ c, 1 < c → c < 2 ^ 32 + 1 → 3 ≤ heap.priority c) (fuel : ℕ) :
    dragonPriorityHeapExtractHighestPriority fuel heap = none := by
  rw [extract_eq fuel hlen, if_pos (by omega), Option.map_eq_none_iff]
  refine Tangled.heapMaxify_eq_none ?_ rfl fuel
  refine ⟨hbase, Or.inl rfl, ?_, fun hne => absurd rfl hne, ?_, ?_, ?_⟩
  · rw [priority_heapSwap, Function.comp_apply, Equiv.swap_apply_left]
    exact hhigh
  · intro _
    rw [priority_heapSwap, Function.comp_apply,
      Equiv.swap_apply_of_ne_of_ne (by omega) (by omega)]
    exact hone
  · intro _
    rw [priority_heapSwap, Function.comp_apply,
      Equiv.swap_apply_of_ne_of_ne (by omega) (by omega)]
    exact hlast
  · intro c h1 h2
    rw [priority_heapSwap, Function.comp_apply,
      Equiv.swap_apply_of_ne_of_ne (by omega) (by omega)]
    exact hother c h1 h2

theorem Crossed.extract_eq_none {heap : DragonPriorityHeap 1} (h : Crossed heap)
    (vals : Fin 1 → ℕ) :
    ∃ heap', dragonPriorityHeapInsertItem heap vals = (.ok (), heap') ∧
      ∀ fuel, dragonPriorityHeapExtractHighestPriority fuel heap' = none := by
  have hcur := h.curLen_eq
  have hbase := h.base_eq
  have hparent : (heap.curLen + 2 ^ 64 - 1) % 2 ^ 64 / heap.base = 1 := by
    rw [hcur, hbase]
    decide
  have hstays := insertItem_stays heap vals (2 ^ 32 + 2) fun _ => by
    rw [hparent, hcur]
    exact ⟨by omega, h.one_le.trans (by decide)⟩
  have hpri : (heap.placed vals (2 ^ 32 + 2)).priority
      = Function.update heap.priority (2 ^ 32 + 2) (2 ^ 32 + 2) := by
    rw [priority_placed, hcur]
  have hpri' : ∀ c < 2 ^ 32 + 2, (heap.placed vals (2 ^ 32 + 2)).priority c = heap.priority c := by
    intro c hc
    rw [hpri, Function.update_of_ne (by omega)]
  unfold dragonPriorityHeapInsertItem
  rw [if_neg (by rw [hcur, h.capacity_eq]; omega), h.lastPri_eq,
    show (2 ^ 32 + 1 + 1) % 2 ^ 64 = 2 ^ 32 + 2 by decide, hstays]
  refine ⟨_, rfl, extract_never_ends hbase ?_ ?_ ?_ ?_ ?_⟩
  · show (heap.curLen + 1) % 2 ^ 64 = 2 ^ 32 + 2 + 1
    rw [hcur]
    decide
  · show 3 ≤ (heap.placed vals (2 ^ 32 + 2)).priority (2 ^ 32 + 2)
    rw [hpri, Function.update_self]
    omega
  · show (heap.placed vals (2 ^ 32 + 2)).priority 1 ≤ 2
    rw [hpri' 1 (by omega)]
    exact h.one_le
  · show (heap.placed vals (2 ^ 32 + 2)).priority (2 ^ 32 + 1) ≤ 2
    rw [hpri' _ (by omega)]
    exact h.last_le
  · intro c h1 h2
    show 3 ≤ (heap.placed vals (2 ^ 32 + 2)).priority c
    rw [hpri' c (by omega)]
    exact h.other c h1 h2

/-- An urgent item is held and the extraction does not end. -/
theorem dragonPriorityHeap_extract_never_ends :
    dragonPriorityHeapInit (fun _ => 0) (2 ^ 32 - 1) (2 ^ 32 + 3) = .ok wideHeap ∧
    ∀ fuel,
      (∃ s ∈ (wideRun (2 ^ 32 + 1)).foldl (queueRunStep fuel)
        (some (wideHeap, HeapRecord.empty)), s.2.urgent ≠ 0) ∧
      (wideRun (2 ^ 32 + 1) ++ [QueueOp.extractHighestPriority]).foldl (queueRunStep fuel)
        (some (wideHeap, HeapRecord.empty)) = none := by
  refine ⟨rfl, fun fuel => ?_⟩
  obtain ⟨s, hrun, hfilled⟩ := filled_run fuel (2 ^ 32 + 1) le_rfl
  obtain ⟨heap1, hurgent, hcrossed⟩ := crossed_of_filled hfilled fun _ => 0
  obtain ⟨heap2, hinsert, hnone⟩ := hcrossed.extract_eq_none fun _ => 0
  have hend : (wideRun (2 ^ 32 + 1)).foldl (queueRunStep fuel)
      (some (wideHeap, HeapRecord.empty))
      = some (heap2, ⟨s.2.inserted ++ [fun _ => 0], s.2.left, (fun _ => 0) ::ₘ s.2.urgent⟩) := by
    unfold wideRun
    rw [List.foldl_append, hrun]
    simp only [List.foldl_cons, List.foldl_nil, queueRunStep, Option.bind_some, queueStep,
      hurgent, hinsert]
  refine ⟨⟨_, hend, Multiset.cons_ne_zero⟩, ?_⟩
  rw [List.foldl_append, hend]
  simp only [List.foldl_cons, List.foldl_nil, queueRunStep, Option.bind_some, queueStep, hnone,
    Option.map_none]
