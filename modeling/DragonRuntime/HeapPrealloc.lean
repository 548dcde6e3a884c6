/-
# Preallocated blocks

A preallocated block is remembered by one bit, on its first segment.  A free never
merges over such a bit, so a preallocated block that is handed out whole comes back
whole.  A malloc of a smaller size may however cut the block: its lower half keeps the
bit, and the two halves never merge again.
-/
import DragonRuntime.HeapHistory
import DragonRuntime.BitsetRefinement

open Buddy DragonDynHeap

/-! ## Free sets with a right cache -/

/-- The members of a bitset, as far as its bits go. -/
def DragonBitSet.members (set : DragonBitSet) : Finset ℕ :=
  (Finset.range set.size).filter fun i => set.bit i = true

/-- Length and cached first member agree with the bits. -/
def DragonBitSet.Cached (set : DragonBitSet) : Prop :=
  Represents set set.size set.members

section Cached

variable {set : DragonBitSet} {n i : ℕ} {S : Finset ℕ}

theorem Represents.eq_members (h : Represents set n S) : S = set.members := by
  ext j
  unfold DragonBitSet.members
  rw [Finset.mem_filter, Finset.mem_range, h.size_eq]
  constructor
  · intro hj
    have hlt := h.lt_of_mem j hj
    exact ⟨hlt, (h.bit_iff j hlt).mpr hj⟩
  · rintro ⟨hlt, hbit⟩
    exact (h.bit_iff j hlt).mp hbit

theorem Represents.cached (h : Represents set n S) : set.Cached := by
  unfold DragonBitSet.Cached
  rw [← h.eq_members, h.size_eq]
  exact h

theorem members_withBit (hi : i < set.size) :
    (set.withBit i).members = insert i set.members := by
  ext j
  unfold DragonBitSet.members
  rw [Finset.mem_insert, Finset.mem_filter, Finset.mem_filter, Finset.mem_range,
    Finset.mem_range, size_withBit, bit_withBit hi]
  by_cases hj : j = i
  · simp [hj, hi]
  · simp [hj]

theorem members_withoutBit (hi : i < set.size) :
    (set.withoutBit i).members = set.members.erase i := by
  ext j
  unfold DragonBitSet.members
  rw [Finset.mem_erase, Finset.mem_filter, Finset.mem_filter, Finset.mem_range,
    Finset.mem_range, size_withoutBit, bit_withoutBit hi]
  by_cases hj : j = i
  · simp [hj]
  · simp [hj]

theorem DragonBitSet.Cached.withBit (h : set.Cached) (hi : i < set.size) :
    (set.withBit i).Cached := by
  obtain ⟨set', hset, hrep⟩ := Represents.insert h hi
  rw [dragonBitsetSet_eq_withBit hi] at hset
  rw [Except.ok.inj hset]
  exact hrep.cached

/-- Resetting a bit keeps the cache right, unless the scan skips the next member. -/
theorem DragonBitSet.Cached.withoutBit (h : set.Cached) (hi : i < set.size)
    (hskip : ¬ ResetSkips set.size set.members i) : (set.withoutBit i).Cached := by
  obtain ⟨set', hset, hrep⟩ := Represents.reset_iff h hi
  rw [dragonBitsetReset_eq_withoutBit hi] at hset
  rw [Except.ok.inj hset]
  exact (hrep.mpr hskip).cached

/-- A right cache answers `dragon_bitset_first`: the end of the iteration iff there is
no member. -/
theorem DragonBitSet.Cached.first_cases (h : set.Cached) :
    (set.members = ∅ ∧ dragonBitsetFirst set = .error .bitsetIterationComplete) ∨
    ∃ b, b ∈ set.members ∧ dragonBitsetFirst set = .ok b := by
  have hfirst := Represents.first h
  unfold iterationAnswer at hfirst
  by_cases hempty : set.members = ∅
  · rw [if_pos hempty] at hfirst
    exact Or.inl ⟨hempty, hfirst⟩
  · rw [if_neg hempty] at hfirst
    exact Or.inr ⟨_, firstOr_mem (Finset.nonempty_iff_ne_empty.mpr hempty) _, hfirst⟩

theorem not_resetSkips_of_card_le_one (hcard : S.card ≤ 1) (hi : i ∈ S) :
    ¬ ResetSkips n S i := by
  rintro ⟨-, -, -, -, -, m, hm, -⟩
  have hempty : S.erase i = ∅ := by
    rw [← Finset.card_eq_zero, Finset.card_erase_of_mem hi]
    omega
  rw [hempty] at hm
  exact absurd hm (Finset.notMem_empty m)

end Cached

/-- Every free set of the heap has a right cache. -/
def CachesRight (heap : DragonDynHeap) (n : ℕ) : Prop :=
  ∀ k < n, (heap.free k).Cached

section Caches

variable {heap : DragonDynHeap} {n m p q k b size : ℕ}

theorem HeapShape.mem_members_iff (h : HeapShape heap n m) (hr : InRange n (k, b)) :
    b ∈ (heap.free k).members ↔ heap.freeMap k b = true := by
  unfold DragonBitSet.members freeMap
  rw [Finset.mem_filter, Finset.mem_range]
  exact and_iff_right (h.lt_size hr)

theorem CachesRight.afterSplit (hc : CachesRight heap n) (h : HeapShape heap n m)
    (hr : InRange n (k, b))
    (hskip : ¬ ResetSkips (heap.free k).size (heap.free k).members b) :
    CachesRight (heap.afterSplit p k b) n := by
  intro j hj
  unfold DragonDynHeap.afterSplit
  simp only
  by_cases hjk : j = k
  · subst hjk
    rw [if_pos rfl]
    exact (hc j hj).withoutBit (h.lt_size hr) hskip
  · rw [if_neg hjk]
    split
    · rename_i hpj
      have hupper : InRange n (j, b * 2 ^ (k - j) + 1) := by
        have hlow := hr.lower (p := j) (by omega)
        have hsib := hlow.sibling (by have := hr.1; simp only at this; omega)
        rwa [sibling_of_even (mul_pow_even hpj.2)] at hsib
      exact (hc j hj).withBit (h.lt_size hupper)
    · exact hc j hj

theorem CachesRight.afterJoin (hc : CachesRight heap n) (h : HeapShape heap n m)
    (hr : InRange n (p, b)) (hpq : p ≤ q) (hqn : q < n)
    (hskip : ∀ j, p ≤ j → j < q →
      ¬ ResetSkips (heap.free j).size (heap.free j).members (sibling (b / 2 ^ (j - p)))) :
    CachesRight (heap.afterJoin p q b) n := by
  intro j hj
  unfold DragonDynHeap.afterJoin DragonDynHeap.setFree DragonDynHeap.afterRaise
  simp only
  by_cases hjq : j = q
  · subst hjq
    rw [Function.update_self]
    exact (hc j hj).withBit (h.lt_size (hr.upper hpq hqn))
  · rw [Function.update_of_ne hjq]
    split
    · rename_i hpj
      have hsib : InRange n (j, sibling (b / 2 ^ (j - p))) :=
        (hr.upper hpj.1 (by omega)).sibling (by omega)
      exact (hc j hj).withoutBit (h.lt_size hsib) (hskip j hpj.1 hpj.2)
    · exact hc j hj

end Caches

/-! ## The two conditions -/

/-- `_split` would cut a block whose first segment carries the preallocated bit. -/
def SplitsPreallocated (heap : DragonDynHeap) : HeapOp → Prop
  | .malloc size => ∃ p ∈ powerof2 size heap.segmentSize,
      ∃ b ∈ (splitSearch heap (heap.numBlockSizes - 1 - p) p).2.toOption,
        p < (splitSearch heap (heap.numBlockSizes - 1 - p) p).1 ∧
        heap.preMap (b * 2 ^ (splitSearch heap (heap.numBlockSizes - 1 - p) p).1) = true
  | .free _ _ => False

/-- The call would reset a bit of a free set in a way that loses the first member: the
bit of the block that `_split` takes, or the bit of a buddy that `_free_and_merge`
joins. -/
def SkipsInFreeSets (heap : DragonDynHeap) : HeapOp → Prop
  | .malloc size => ∃ p ∈ powerof2 size heap.segmentSize,
      ∃ b ∈ (splitSearch heap (heap.numBlockSizes - 1 - p) p).2.toOption,
        ResetSkips (heap.free (splitSearch heap (heap.numBlockSizes - 1 - p) p).1).size
          (heap.free (splitSearch heap (heap.numBlockSizes - 1 - p) p).1).members b
  | .free offset size => heap.preMap (offset / heap.segmentSize) = false ∧
      ∃ p ∈ powerof2 size heap.segmentSize, ∃ j < heap.numBlockSizes - 1, p ≤ j ∧
        (∀ i < j + 1, p ≤ i →
          heap.freeMap i (buddy (offset / (heap.segmentSize * 2 ^ p) / 2 ^ (i - p))) = true ∧
          heap.preMap (buddy (offset / (heap.segmentSize * 2 ^ p) / 2 ^ (i - p)) * 2 ^ i)
            = false) ∧
        ResetSkips (heap.free j).size (heap.free j).members
          (buddy (offset / (heap.segmentSize * 2 ^ p) / 2 ^ (j - p)))

instance (heap : DragonDynHeap) (op : HeapOp) : Decidable (SplitsPreallocated heap op) := by
  cases op <;> unfold SplitsPreallocated <;> infer_instance

instance (heap : DragonDynHeap) (op : HeapOp) : Decidable (SkipsInFreeSets heap op) := by
  cases op <;> unfold SkipsInFreeSets <;> infer_instance

section Conditions

variable {heap : DragonDynHeap} {n m p q k b size : ℕ}

/-- A malloc that does not cut a preallocated block. -/
theorem TakesBlock.unmarked_of_lt (ht : TakesBlock heap n m size p k b)
    (h : HeapShape heap n m) (hkeep : ¬ SplitsPreallocated heap (.malloc size))
    (hpk : p < k) : heap.preMap (b * 2 ^ k) = false := by
  by_contra hmark
  apply hkeep
  unfold SplitsPreallocated
  refine ⟨p, ?_, b, ?_, ?_⟩
  · rw [h.segmentSize_eq]
    exact ht.power
  · rw [h.numBlockSizes_eq, ht.search]
    rfl
  · rw [h.numBlockSizes_eq, ht.search]
    exact ⟨hpk, by simpa using hmark⟩

theorem TakesBlock.not_resetSkips (ht : TakesBlock heap n m size p k b)
    (h : HeapShape heap n m) (hskip : ¬ SkipsInFreeSets heap (.malloc size)) :
    ¬ ResetSkips (heap.free k).size (heap.free k).members b := by
  intro hreset
  apply hskip
  unfold SkipsInFreeSets
  refine ⟨p, ?_, b, ?_, ?_⟩
  · rw [h.segmentSize_eq]
    exact ht.power
  · rw [h.numBlockSizes_eq, ht.search]
    rfl
  · rw [h.numBlockSizes_eq, ht.search]
    exact hreset

theorem JoinsUpTo.not_resetSkips {offset : ℕ} (hj : JoinsUpTo heap n p b q)
    (h : HeapShape heap n m) (ha : AllocatedAt n m (offset, size) p b)
    (hskip : ¬ SkipsInFreeSets heap (.free offset size)) {j : ℕ} (hpj : p ≤ j) (hjq : j < q) :
    ¬ ResetSkips (heap.free j).size (heap.free j).members (sibling (b / 2 ^ (j - p))) := by
  intro hreset
  have hblock : offset / (heap.segmentSize * 2 ^ p) = b := by
    have hoff : offset = b * 2 ^ (m + p) := ha.offset_eq
    rw [h.segmentSize_eq, ← pow_add, hoff]
    exact mul_pow_div_pow b (m + p)
  have hsegment : offset / heap.segmentSize = b * 2 ^ p := by
    have hoff : offset = b * 2 ^ (m + p) := ha.offset_eq
    rw [h.segmentSize_eq, hoff, pow_add, mul_comm (2 ^ m), ← mul_assoc]
    exact Nat.mul_div_cancel _ (Nat.two_pow_pos m)
  apply hskip
  unfold SkipsInFreeSets
  refine ⟨?_, p, ?_, j, ?_, hpj, ?_, ?_⟩
  · rw [hsegment]
    by_contra hmark
    have := hj.marked (by simpa using hmark)
    omega
  · rw [h.segmentSize_eq]
    exact ha.power
  · rw [h.numBlockSizes_eq]
    have := hj.lt
    omega
  · intro i hi hpi
    rw [hblock]
    exact hj.way i hpi (by omega)
  · rw [hblock]
    exact hreset

end Conditions

/-! ## Preallocated blocks stay whole -/

/-- Every marked segment is the first one of a block that is free or live as a whole. -/
def MarkedWhole (heap : DragonDynHeap) (n m : ℕ) (live : List (ℕ × ℕ)) : Prop :=
  ∀ s < 2 ^ (n - 1), heap.preMap s = true →
    ∃ k b, InRange n (k, b) ∧ s = b * 2 ^ k ∧
      (heap.freeMap k b = true ∨ (k, b) ∈ live.map (liveBlock m))

/-- The blocks that `heap₀` has free over its marked segments are free or live in
`heap`, and the marks are the same. -/
structure HeapWhole (heap₀ heap : DragonDynHeap) (n m : ℕ) (live : List (ℕ × ℕ)) : Prop
    extends HeapPairs heap n m live where
  marks : heap.preMap = heap₀.preMap
  whole : ∀ k b, InRange n (k, b) → heap₀.preMap (b * 2 ^ k) = true →
    heap₀.freeMap k b = true → heap.freeMap k b = true ∨ (k, b) ∈ live.map (liveBlock m)

section Whole

variable {heap₀ heap : DragonDynHeap} {n m p q k b size : ℕ} {live : List (ℕ × ℕ)}

variable {c j : ℕ} {op : HeapOp} {s : DragonDynHeap × List (ℕ × ℕ)}

/-- Splitting leaves every free block but the one it takes. -/
theorem splitMap_of_ne {F : ℕ → ℕ → Bool} (hF : F j c = true) (hne : ¬ (j = k ∧ c = b)) :
    splitMap F p k b j c = true := by
  unfold splitMap
  rw [if_neg hne]
  split
  · rfl
  · exact hF

/-- Joining leaves every free block but the siblings on its way. -/
theorem joinMap_of_ne {F : ℕ → ℕ → Bool} (hF : F j c = true)
    (hne : ¬ (p ≤ j ∧ j < q ∧ c = sibling (b / 2 ^ (j - p)))) : joinMap F p q b j c = true := by
  unfold joinMap
  by_cases hput : j = q ∧ c = b / 2 ^ (q - p)
  · obtain ⟨rfl, rfl⟩ := hput
    rw [setBlock_same]
  · rw [setBlock_ne hput]
    unfold raiseMap
    rw [if_neg hne]
    exact hF

theorem freeMap_afterJoin_of_marked (h : HeapShape heap n m) (hr : InRange n (p, b))
    (hj : JoinsUpTo heap n p b q) (hF : heap.freeMap j c = true)
    (hmark : heap.preMap (c * 2 ^ j) = true) : (heap.afterJoin p q b).freeMap j c = true := by
  rw [h.freeMap_afterJoin hr hj.le hj.lt]
  apply joinMap_of_ne hF
  rintro ⟨hpj, hjq, rfl⟩
  rw [(hj.way j hpj hjq).2] at hmark
  cases hmark

/-- A marked block that is freed comes back as it was. -/
theorem freeMap_afterJoin_self (h : HeapShape heap n m) (hr : InRange n (p, b))
    (hj : JoinsUpTo heap n p b q) (hmark : heap.preMap (b * 2 ^ p) = true) :
    (heap.afterJoin p q b).freeMap p b = true := by
  have hqp := hj.marked hmark
  subst hqp
  rw [h.freeMap_afterJoin hr hj.le hj.lt]
  unfold joinMap
  rw [Nat.sub_self, pow_zero, Nat.div_one, setBlock_same]

/-- The block of a live allocation is the one that is freed, or it stays live. -/
theorem mem_map_erase_or {alloc block : ℕ × ℕ} (ha : alloc ∈ live)
    (hmem : block ∈ live.map (liveBlock m)) :
    block = liveBlock m alloc ∨ block ∈ (live.erase alloc).map (liveBlock m) := by
  have hperm := (List.perm_cons_erase ha).map (liveBlock m)
  have hcons := hperm.mem_iff.mp hmem
  rw [List.map_cons] at hcons
  exact List.mem_cons.mp hcons

/-- **One call** that cuts no preallocated block keeps them whole. -/
theorem HeapWhole.step (h : HeapWhole heap₀ s.1 n m s.2) (hop : FreesLive s op)
    (hkeep : ¬ SplitsPreallocated s.1 op) :
    HeapWhole heap₀ (heapStep s op).1 n m (heapStep s op).2 := by
  have hs := h.shape
  refine ⟨h.toHeapPairs.step hop, ?_, ?_⟩
  · rw [h.toHeapInv.preMap_step hop]
    exact h.marks
  intro j c hr hmark hF
  have hmark' : s.1.preMap (c * 2 ^ j) = true := by rw [h.marks]; exact hmark
  rcases h.toHeapInv.step_cases hop with ⟨size, -, hstep⟩ |
    ⟨size, p, k, b, rfl, htake, halloc, hstep⟩ |
    ⟨offset, size, p, b, q, rfl, hmem, halloc, hjoin, hstep⟩
  · rw [hstep]
    exact h.whole j c hr hmark hF
  · rw [hstep]
    rcases h.whole j c hr hmark hF with hfree | hlive
    · by_cases hsame : j = k ∧ c = b
      · -- the malloc takes this very block, so it takes it whole
        obtain ⟨rfl, rfl⟩ := hsame
        right
        have hpj : p = j := by
          rcases Nat.eq_or_lt_of_le htake.le with heq | hlt
          · exact heq
          · rw [htake.unmarked_of_lt hs hkeep hlt] at hmark'
            cases hmark'
        rw [List.map_cons, halloc.liveBlock_eq, hpj, Nat.sub_self, pow_zero, Nat.mul_one]
        exact List.mem_cons_self
      · left
        show (s.1.afterSplit p k b).freeMap j c = true
        rw [hs.freeMap_afterSplit htake.inRange]
        exact splitMap_of_ne hfree hsame
    · right
      rw [List.map_cons]
      exact List.mem_cons_of_mem _ hlive
  · rw [hstep]
    rcases h.whole j c hr hmark hF with hfree | hlive
    · exact Or.inl (freeMap_afterJoin_of_marked hs halloc.inRange hjoin hfree hmark')
    · rcases mem_map_erase_or hmem hlive with heq | hstay
      · rw [halloc.liveBlock_eq] at heq
        obtain ⟨rfl, rfl⟩ := Prod.mk.inj heq
        exact Or.inl (freeMap_afterJoin_self hs halloc.inRange hjoin hmark')
      · exact Or.inr hstay

/-- **One call** that does not skip keeps the caches right. -/
theorem HeapInv.cachesRight_step (h : HeapInv s.1 n m s.2) (hc : CachesRight s.1 n)
    (hop : FreesLive s op) (hskip : ¬ SkipsInFreeSets s.1 op) :
    CachesRight (heapStep s op).1 n := by
  rcases h.step_cases hop with ⟨size, -, hstep⟩ | ⟨size, p, k, b, rfl, htake, -, hstep⟩ |
    ⟨offset, size, p, b, q, rfl, -, halloc, hjoin, hstep⟩
  · rw [hstep]
    exact hc
  · rw [hstep]
    exact hc.afterSplit h.shape htake.inRange (htake.not_resetSkips h.shape hskip)
  · rw [hstep]
    exact hc.afterJoin h.shape halloc.inRange hjoin.le hjoin.lt
      fun j hpj hjq => hjoin.not_resetSkips h.shape halloc hskip hpj hjq

theorem HeapInv.biggestBlock_step (h : HeapInv s.1 n m s.2) (hop : FreesLive s op) :
    (heapStep s op).1.biggestBlock = s.1.biggestBlock := by
  rcases h.step_cases hop with ⟨size, -, hstep⟩ | ⟨size, p, k, b, -, -, -, hstep⟩ |
    ⟨offset, size, p, b, q, -, -, -, -, hstep⟩
  · rw [hstep]
  · rw [hstep]
    rfl
  · rw [hstep]
    rfl

theorem HeapWhole.freeMap_eq (h : HeapWhole heap₀ heap n m [])
    (h₀ : HeapPairs heap₀ n m []) (hmarked : MarkedWhole heap₀ n m []) {k b : ℕ}
    (hr : InRange n (k, b)) : heap.freeMap k b = heap₀.freeMap k b := by
  have hpair : NoPair heap.freeMap n heap₀.preMap := by
    rw [← h.marks]
    exact h.noPair
  refine eq_of_tiling h.tiling h₀.tiling (fun s _ => rfl) hpair h₀.noPair ?_ hr
  intro s hs hmark j hj
  -- over a marked segment both have the preallocated block, and no other one
  obtain ⟨i, c, hir, rfl, hfree | hlive⟩ := hmarked s hs hmark
  · have hfree' : heap.freeMap i c = true := by
      rcases h.whole i c hir hmark hfree with hF | hmem
      · exact hF
      · exact absurd hmem (List.not_mem_nil)
    have hi : i < n := hir.1
    constructor
    · intro hF
      have : j = i := h.tiling.level_unique hs hj hi hF (by rw [mul_pow_div_pow]; exact hfree')
      rw [this, mul_pow_div_pow]
      exact hfree
    · intro hF
      have : j = i := h₀.tiling.level_unique hs hj hi hF (by rw [mul_pow_div_pow]; exact hfree)
      rw [this, mul_pow_div_pow]
      exact hfree'
  · exact absurd hlive (List.not_mem_nil)

end Whole

/-! ## Initialisation with preallocations -/

/-- The state of the loops that allocate: every allocation is marked, nothing else is,
and no free set has more than one member. -/
structure HeapFilling (heap : DragonDynHeap) (n m : ℕ) (allocations : List (ℕ × ℕ)) : Prop
    extends HeapPairs heap n m allocations where
  caches : CachesRight heap n
  single : ∀ k < n, (heap.free k).members.card ≤ 1
  marked : ∀ s < 2 ^ (n - 1), heap.preMap s = true →
    ∃ k b, InRange n (k, b) ∧ s = b * 2 ^ k ∧ (k, b) ∈ allocations.map (liveBlock m)
  all_marked : ∀ block ∈ allocations.map (liveBlock m),
    heap.preMap (block.2 * 2 ^ block.1) = true

/-- The state of the loop that frees the allocations again. -/
structure HeapReleasing (heap : DragonDynHeap) (n m : ℕ) (rest : List (ℕ × ℕ)) : Prop
    extends HeapPairs heap n m rest where
  caches : CachesRight heap n
  markedWhole : MarkedWhole heap n m rest
  all_marked : ∀ block ∈ rest.map (liveBlock m), heap.preMap (block.2 * 2 ^ block.1) = true

section Preallocation

variable {heap : DragonDynHeap} {n m p k b size : ℕ} {allocations : List (ℕ × ℕ)}

/-- A malloc while no free set has two members. -/
theorem HeapFilling.single_afterSplit (h : HeapFilling heap n m allocations)
    (ht : TakesBlock heap n m size p k b) {j : ℕ} (hj : j < n) :
    ((heap.afterSplit p k b).free j).members.card ≤ 1 := by
  have hs := h.shape
  unfold DragonDynHeap.afterSplit
  simp only
  by_cases hjk : j = k
  · subst hjk
    rw [if_pos rfl, members_withoutBit (hs.lt_size ht.inRange)]
    exact (Finset.card_erase_le).trans (h.single j hj)
  · rw [if_neg hjk]
    split
    · rename_i hpj
      have hupper : InRange n (j, b * 2 ^ (k - j) + 1) := by
        have hlow := ht.inRange.lower (p := j) (by omega)
        have hsib := hlow.sibling (by have := ht.inRange.1; simp only at this; omega)
        rwa [sibling_of_even (mul_pow_even hpj.2)] at hsib
      -- the search passed this level, so its free set is empty
      have hempty : (heap.free j).members = ∅ := by
        have hnone := (splitSearch_ok ht.search).2.2.2 j hpj.1 hpj.2
        rcases (h.caches j hj).first_cases with ⟨hempty, -⟩ | ⟨c, -, hfirst⟩
        · exact hempty
        · rw [hnone] at hfirst
          cases hfirst
      rw [members_withBit (hs.lt_size hupper), hempty]
      simp
    · exact h.single j hj

theorem keptByPrealloc_heapFilling (n m : ℕ) :
    KeptByPrealloc fun heap allocations => HeapFilling heap n m allocations := by
  intro heap allocations size h
  rcases h.toHeapInv.malloc size with herr | ⟨p, k, b, htake, hcall, halloc, hinv⟩
  · exact Or.inl herr
  have hs := h.shape
  have hseg : (heap.afterSplit p k b).segmentSize = 2 ^ m := hinv.shape.segmentSize_eq
  have hsegment : b * 2 ^ (k - p) * 2 ^ (m + p) / 2 ^ m = b * 2 ^ (k - p) * 2 ^ p := by
    rw [pow_add, mul_comm (2 ^ m), ← mul_assoc]
    exact Nat.mul_div_cancel _ (Nat.two_pow_pos m)
  have hfirst : b * 2 ^ (k - p) * 2 ^ p < heap.preallocated.size := by
    rw [hs.preallocated_size]
    exact lt_of_div_eq halloc.inRange (mul_pow_div_pow _ p)
  refine Or.inr ⟨_, _, heap.preallocated.withBit (b * 2 ^ (k - p) * 2 ^ p), hcall, ?_, ?_⟩
  · rw [hseg, hsegment]
    exact dragonBitsetSet_eq_withBit hfirst
  have hpre : ∀ s, ({ heap.afterSplit p k b with
      preallocated := heap.preallocated.withBit (b * 2 ^ (k - p) * 2 ^ p) } :
        DragonDynHeap).preMap s
      = (decide (s = b * 2 ^ (k - p) * 2 ^ p) || heap.preMap s) := fun s => bit_withBit hfirst s
  have hperm : ((b * 2 ^ (k - p) * 2 ^ (m + p), size) :: allocations).Perm
      (allocations ++ [(b * 2 ^ (k - p) * 2 ^ (m + p), size)]) :=
    (List.perm_append_singleton _ _).symm
  have hmem : ∀ block, block ∈ (allocations ++ [(b * 2 ^ (k - p) * 2 ^ (m + p), size)]).map
      (liveBlock m) ↔ block = (p, b * 2 ^ (k - p)) ∨ block ∈ allocations.map (liveBlock m) := by
    intro block
    rw [← (hperm.map _).mem_iff, List.map_cons, List.mem_cons, halloc.liveBlock_eq]
  have hbit : b ∈ (heap.free k).members := (hs.mem_members_iff htake.inRange).mpr htake.free
  have hcaches : CachesRight (heap.afterSplit p k b) n :=
    h.caches.afterSplit hs htake.inRange
      (not_resetSkips_of_card_le_one (h.single k htake.inRange.1) hbit)
  refine ⟨⟨(hinv.mark (size_withBit _ _)).perm hperm, ?_⟩, hcaches,
    fun j hj => h.single_afterSplit htake hj, ?_, ?_⟩
  · have hnoPair := h.toHeapPairs.noPair_afterSplit htake
    rw [preMap_afterSplit] at hnoPair
    exact hnoPair.mono fun s hp => by rw [hpre, hp, Bool.or_true]
  · intro s hs hmark
    rw [hpre, Bool.or_eq_true, decide_eq_true_iff] at hmark
    rcases hmark with rfl | hold
    · exact ⟨p, b * 2 ^ (k - p), halloc.inRange, rfl, (hmem _).mpr (Or.inl rfl)⟩
    · obtain ⟨j, c, hjr, hsc, hlive⟩ := h.marked s hs hold
      exact ⟨j, c, hjr, hsc, (hmem _).mpr (Or.inr hlive)⟩
  · intro block hblock
    rw [hpre, Bool.or_eq_true, decide_eq_true_iff]
    rcases (hmem block).mp hblock with rfl | hold
    · exact Or.inl rfl
    · exact Or.inr (h.all_marked block hold)

theorem HeapReleasing.free {alloc : ℕ × ℕ} {rest : List (ℕ × ℕ)}
    (h : HeapReleasing heap n m (alloc :: rest)) :
    ∃ heap', dragonHeapFree heap alloc.1 alloc.2 = some (.ok (), heap') ∧
      HeapReleasing heap' n m rest := by
  have hs := h.shape
  obtain ⟨p, b, q, halloc, hjoin, hcall, hinv⟩ := h.toHeapInv.free
  have hmem : liveBlock m alloc ∈ (alloc :: rest).map (liveBlock m) := by
    rw [List.map_cons]
    exact List.mem_cons_self
  have hmark : heap.preMap (b * 2 ^ p) = true := by
    have := h.all_marked _ hmem
    rwa [halloc.liveBlock_eq] at this
  have hqp : q = p := hjoin.marked hmark
  refine ⟨_, hcall, ⟨hinv, h.toHeapPairs.noPair_afterJoin halloc.inRange hjoin⟩, ?_, ?_, ?_⟩
  · exact h.caches.afterJoin hs halloc.inRange hjoin.le hjoin.lt
      fun j hpj hjq => by omega
  · intro s hslt hmarks
    rw [preMap_afterJoin] at hmarks
    obtain ⟨j, c, hjr, rfl, hfree | hlive⟩ := h.markedWhole s hslt hmarks
    · exact ⟨j, c, hjr, rfl,
        Or.inl (freeMap_afterJoin_of_marked hs halloc.inRange hjoin hfree hmarks)⟩
    · rw [List.map_cons, List.mem_cons, halloc.liveBlock_eq] at hlive
      rcases hlive with heq | hlive
      · obtain ⟨rfl, rfl⟩ := Prod.mk.inj heq
        exact ⟨j, c, hjr, rfl, Or.inl (freeMap_afterJoin_self hs halloc.inRange hjoin hmark)⟩
      · exact ⟨j, c, hjr, rfl, Or.inr hlive⟩
  · intro block hblock
    rw [preMap_afterJoin]
    exact h.all_marked block (by rw [List.map_cons]; exact List.mem_cons_of_mem _ hblock)

/-- Before preallocation. -/
theorem heapFilling_heapInitBase (mem : ℕ → ℕ → BitVec 8) (premem : ℕ → BitVec 8)
    {maxPower minPower : ℕ} (hpow : minPower ≤ maxPower) (hmax : maxPower ≤ 62) :
    HeapFilling (heapInitBase mem premem maxPower minPower) (maxPower - minPower + 1)
      minPower [] := by
  have hpairs := heapPairs_heapInitBase mem premem hpow hmax
  have hempty : ∀ k : ℕ, (dragonBitsetInit (mem k)
      (2 ^ (maxPower - minPower) / 2 ^ k)).members = ∅ :=
    fun k => ((represents_init (mem k) _).eq_members).symm
  refine ⟨hpairs, ?_, ?_, ?_, by simp⟩
  · intro k hk
    have hdiv : 2 ^ (maxPower - minPower) / 2 ^ k = 2 ^ (maxPower - minPower - k) :=
      Nat.pow_div (by omega) (by omega)
    rw [free_heapInitBase, hdiv]
    have hclear := (represents_init (mem k) (2 ^ (maxPower - minPower - k))).cached
    split
    · exact hclear.withBit (Nat.two_pow_pos _)
    · exact hclear
  · intro k hk
    have hdiv : 2 ^ (maxPower - minPower) / 2 ^ k = 2 ^ (maxPower - minPower - k) :=
      Nat.pow_div (by omega) (by omega)
    have hnone := hempty k
    rw [hdiv] at hnone
    rw [free_heapInitBase, hdiv]
    split
    · rw [members_withBit (Nat.two_pow_pos _), hnone]
      simp
    · rw [hnone]
      simp
  · intro s hs hmark
    rw [preMap_heapInitBase mem premem (by simpa using hs)] at hmark
    cases hmark

/-- The last loop of initialisation finds the highest level with a free block. -/
theorem biggestFreeBlock_eq (hc : CachesRight heap n) (biggest i : ℕ) (hi : i ≤ n)
    (hfree : ∃ k < i, (heap.free k).members.Nonempty) :
    ∃ k < i, (heap.free k).members.Nonempty ∧
      biggestFreeBlock heap biggest i = heap.segmentSize * 2 ^ k := by
  induction i with
  | zero =>
    obtain ⟨k, hk, -⟩ := hfree
    omega
  | succ i ih =>
    unfold biggestFreeBlock
    rcases (hc i (by omega)).first_cases with ⟨hempty, hnone⟩ | ⟨b, hb, hfirst⟩
    · obtain ⟨k, hk, hne⟩ := hfree
      have hki : k ≠ i := by
        rintro rfl
        rw [hempty] at hne
        exact Finset.not_nonempty_empty hne
      obtain ⟨k', hk', hne', heq⟩ := ih (by omega) ⟨k, by omega, hne⟩
      refine ⟨k', by omega, hne', ?_⟩
      rw [hnone, if_neg (not_succeeds_error _)]
      exact heq
    · refine ⟨i, by omega, ⟨b, hb⟩, ?_⟩
      rw [hfirst, if_pos (succeeds_ok b)]

end Preallocation

/-- **What initialisation leaves.**  No unmarked pair, right caches, every marked
segment at the start of a free block, and a biggest block that is free. -/
theorem heapReleasing_of_init {mem : ℕ → ℕ → BitVec 8} {premem : ℕ → BitVec 8}
    {maxPower minPower : ℕ} (hpow : minPower ≤ maxPower) {preallocated : Option (ℕ → ℕ)}
    {heap : DragonDynHeap}
    (hinit : dragonHeapInit mem premem maxPower minPower preallocated = some (.ok heap)) :
    HeapReleasing heap (maxPower - minPower + 1) minPower [] ∧
    ∃ k < maxPower - minPower + 1, (heap.free k).members.Nonempty ∧
      heap.biggestBlock = 2 ^ (minPower + k) := by
  have hinv := heapInv_of_init hpow hinit
  have hmax : maxPower ≤ 62 := by
    have := hinv.shape.power_le
    omega
  obtain ⟨r, hr, hok⟩ := dragonHeapInit_invariant
    (Q := fun heap rest => HeapReleasing heap (maxPower - minPower + 1) minPower rest)
    (keptByPrealloc_heapFilling (maxPower - minPower + 1) minPower)
    (fun heap allocations h => ⟨h.toHeapPairs, h.caches, fun s hs hmark => by
      obtain ⟨k, b, hkr, hsb, hmem⟩ := h.marked s hs hmark
      exact ⟨k, b, hkr, hsb, Or.inr hmem⟩, h.all_marked⟩)
    (fun heap alloc rest h => h.free)
    mem premem maxPower minPower (heapFilling_heapInitBase mem premem hpow hmax) preallocated
  rw [hinit] at hr
  cases hr
  obtain ⟨heap', hrel, rfl⟩ := hok heap rfl
  refine ⟨⟨⟨hinv, hrel.noPair⟩, hrel.caches, hrel.markedWhole, hrel.all_marked⟩, ?_⟩
  have hs := hrel.shape
  -- segment `0` lies in a free block
  have hsome : ∃ k < maxPower - minPower + 1, (heap'.free k).members.Nonempty := by
    rcases hrel.tiling.exists_block (s := 0) (Nat.two_pow_pos _) with ⟨k, hk, hF⟩ | ⟨_, hmem, _⟩
    · exact ⟨k, hk, _, (hs.mem_members_iff (inRange_of_lt (Nat.two_pow_pos _) hk)).mpr hF⟩
    · exact absurd hmem (List.not_mem_nil)
  obtain ⟨k, hk, hne, heq⟩ := biggestFreeBlock_eq hrel.caches heap'.biggestBlock _ le_rfl hsome
  refine ⟨k, hk, hne, ?_⟩
  show biggestFreeBlock heap' heap'.biggestBlock heap'.numBlockSizes = _
  rw [hs.numBlockSizes_eq, heq, hs.segmentSize_eq, pow_add]

/-! ## When nothing is live -/

/-- The two sets answer every call in the same way. -/
structure SameBitset (s t : DragonBitSet) : Prop where
  size_eq : s.size = t.size
  length_eq : s.length = t.length
  leadingZeroes_eq : s.leadingZeroes = t.leadingZeroes
  get_eq : ∀ i, dragonBitsetGet s i = dragonBitsetGet t i

theorem sameBitset_of_cached {s t : DragonBitSet} (hs : s.Cached) (ht : t.Cached)
    (hsize : s.size = t.size) (hbits : ∀ i < t.size, s.bit i = t.bit i) : SameBitset s t := by
  have hmembers : s.members = t.members := by
    unfold DragonBitSet.members
    rw [hsize]
    apply Finset.filter_congr
    intro i hi
    rw [hbits i (Finset.mem_range.mp hi)]
  refine ⟨hsize, ?_, ?_, ?_⟩
  · rw [hs.length_eq, ht.length_eq, hmembers]
  · rw [hs.leading_eq, ht.leading_eq, hmembers, hsize]
  · intro i
    rcases Nat.lt_or_ge i t.size with hlt | hge
    · rw [dragonBitsetGet_of_lt hlt, dragonBitsetGet_of_lt (by omega), hbits i hlt]
    · rw [dragonBitsetGet_of_le hge, dragonBitsetGet_of_le (by omega)]

/-- **One run** that makes no skipping reset keeps the caches right. -/
theorem cachesRight_of_run {heap : DragonDynHeap} {n m : ℕ} (hinv : HeapInv heap n m [])
    (hcaches : CachesRight heap n) {ops : List HeapOp}
    (hops : Runs.Legal heapStep FreesLive (heap, []) ops)
    (hskips : Runs.Legal heapStep (fun s op => ¬ SkipsInFreeSets s.1 op) (heap, []) ops)
    {s : DragonDynHeap × List (ℕ × ℕ)} (hs : s = ops.foldl heapStep (heap, [])) :
    CachesRight s.1 n ∧ s.1.biggestBlock = heap.biggestBlock := by
  have hrun := (hops.and hskips).invariant
    (I := fun s => HeapInv s.1 n m s.2 ∧ CachesRight s.1 n ∧
      s.1.biggestBlock = heap.biggestBlock)
    (fun s op h hop => ⟨h.1.step hop.1, h.1.cachesRight_step h.2.1 hop.1 hop.2,
      (h.1.biggestBlock_step hop.1).trans h.2.2⟩)
    ⟨hinv, hcaches, rfl⟩
  rw [← hs] at hrun
  exact hrun.2

/-- The sets of two heaps with right caches and the same free blocks are the same. -/
theorem sameBitset_of_freeBlock_iff {heap heap' : DragonDynHeap} {n m k : ℕ}
    (h : HeapShape heap n m) (h' : HeapShape heap' n m) (hc : CachesRight heap n)
    (hc' : CachesRight heap' n) (hfree : ∀ block, FreeBlock heap block ↔ FreeBlock heap' block)
    (hk : k < n) : SameBitset (heap.free k) (heap'.free k) := by
  have hsize : (heap.free k).size = (heap'.free k).size := by
    rw [h.free_size k hk, h'.free_size k hk]
  refine sameBitset_of_cached (hc k hk) (hc' k hk) hsize fun i hi => ?_
  rw [h'.free_size k hk] at hi
  have hblock := hfree (k, i)
  rw [freeBlock_iff h, freeBlock_iff h'] at hblock
  have hr : InRange n (k, i) := ⟨hk, hi⟩
  exact Bool.eq_iff_iff.mpr ⟨fun hb => (hblock.mp ⟨hr, hb⟩).2, fun hb => (hblock.mpr ⟨hr, hb⟩).2⟩

/-- **History independence.**  Let a heap be initialised without preallocations.  After
any mallocs and frees of live allocations no two buddies below the top level are both
free; two such histories that end with the same live blocks end with the same free
blocks; and when nothing is live any more the free blocks are those of the
initialisation.  If no call makes a reset that skips a member of a free set, the free
sets are the same with their lengths and cached first members. -/
theorem dragonHeap_history_independent (mem mem' : ℕ → ℕ → BitVec 8)
    (premem premem' : ℕ → BitVec 8) (maxPower minPower : ℕ) (hpow : minPower ≤ maxPower)
    (heap heap' : DragonDynHeap)
    (hinit : dragonHeapInit mem premem maxPower minPower none = some (.ok heap))
    (hinit' : dragonHeapInit mem' premem' maxPower minPower none = some (.ok heap'))
    (ops ops' : List HeapOp) (hops : Runs.Legal heapStep FreesLive (heap, []) ops)
    (hops' : Runs.Legal heapStep FreesLive (heap', []) ops')
    (s s' : DragonDynHeap × List (ℕ × ℕ)) (hs : s = ops.foldl heapStep (heap, []))
    (hs' : s' = ops'.foldl heapStep (heap', [])) :
    (∀ k b, k + 1 < s.1.numBlockSizes → FreeBlock s.1 (k, b) →
      ¬ FreeBlock s.1 (k, buddy b)) ∧
    (liveBlocks s = liveBlocks s' → ∀ block, FreeBlock s.1 block ↔ FreeBlock s'.1 block) ∧
    (s.2 = [] → ∀ block, FreeBlock s.1 block ↔ FreeBlock heap block) ∧
    (Runs.Legal heapStep (fun s op => ¬ SkipsInFreeSets s.1 op) (heap, []) ops →
      (Runs.Legal heapStep (fun s op => ¬ SkipsInFreeSets s.1 op) (heap', []) ops' →
        liveBlocks s = liveBlocks s' →
          ∀ k < s.1.numBlockSizes, SameBitset (s.1.free k) (s'.1.free k)) ∧
      (s.2 = [] → ∀ k < s.1.numBlockSizes, SameBitset (s.1.free k) (heap.free k))) := by
  have hstart := heapUnmarked_of_init hpow hinit
  have hinv := heapUnmarked_of_run hpow hinit hops hs
  have hinv' := heapUnmarked_of_run hpow hinit' hops' hs'
  have hcaches := (heapReleasing_of_init hpow hinit).1.caches
  have hlive : liveBlocks s = liveBlocks s' →
      ∀ block, FreeBlock s.1 block ↔ FreeBlock s'.1 block :=
    fun hsame => hinv.freeBlock_iff_of_liveBlocks_eq hinv' hsame
  have hnone : s.2 = [] → ∀ block, FreeBlock s.1 block ↔ FreeBlock heap block := by
    intro hempty
    apply hinv.freeBlock_iff_of_liveBlocks_eq hstart
    unfold liveBlocks
    rw [hempty]
    simp
  refine ⟨?_, hlive, hnone, fun hskips => ⟨fun hskips' hsame k hk => ?_, fun hempty k hk => ?_⟩⟩
  · intro k b hk hF hG
    rw [hinv.shape.numBlockSizes_eq] at hk
    rw [freeBlock_iff hinv.shape] at hF hG
    rcases hinv.noPair_false k b hF.1 hk hF.2 hG.2 with hp | hp <;> cases hp
  · rw [hinv.shape.numBlockSizes_eq] at hk
    have hstart' := heapReleasing_of_init hpow hinit'
    exact sameBitset_of_freeBlock_iff hinv.shape hinv'.shape
      (cachesRight_of_run hstart.toHeapInv hcaches hops hskips hs).1
      (cachesRight_of_run hstart'.1.toHeapInv hstart'.1.caches hops' hskips' hs').1 (hlive hsame) hk
  · rw [hinv.shape.numBlockSizes_eq] at hk
    exact sameBitset_of_freeBlock_iff hinv.shape hstart.shape
      (cachesRight_of_run hstart.toHeapInv hcaches hops hskips hs).1 hcaches (hnone hempty) hk

theorem dragonHeap_history_independent_example :
    SameBitset (([HeapOp.malloc 40, .malloc 20, .free 0 40, .free 64 20].foldl heapStep
      (initialHeap (fun _ _ => 0) (fun _ => 0) 7 5 none, [])).1.free 1)
    ((initialHeap (fun _ _ => 0) (fun _ => 0) 7 5 none).free 1) :=
  ((dragonHeap_history_independent (fun _ _ => 0) (fun _ _ => 0) (fun _ => 0) (fun _ => 0) 7 5
    (by decide) _ _ (dragonHeapInit_eq_initialHeap (by decide +kernel))
    (dragonHeapInit_eq_initialHeap (by decide +kernel))
    [.malloc 40, .malloc 20, .free 0 40, .free 64 20] []
    ⟨trivial, trivial, by unfold FreesLive; decide +kernel,
      by unfold FreesLive; decide +kernel, trivial⟩ trivial _ _ rfl rfl).2.2.2
    ⟨by decide +kernel, by decide +kernel, by decide +kernel, by decide +kernel, trivial⟩).2
    (by decide +kernel) 1 (by decide +kernel)

/-- The first `64` segments are taken, and the next two. -/
def crowdedCalls : List HeapOp :=
  [.malloc 32, .malloc 32, .malloc 64, .malloc 128, .malloc 256, .malloc 512, .malloc 1024,
    .malloc 32, .malloc 32, .free 2048 32]

/-- Then the first segment is freed and taken again. -/
def againCalls : List HeapOp := crowdedCalls ++ [.free 0 32, .malloc 32]

theorem liveBlocks_congr {s s' : DragonDynHeap × List (ℕ × ℕ)}
    (hsegment : s.1.segmentSize = s'.1.segmentSize) (hperm : s.2.Perm s'.2) :
    liveBlocks s = liveBlocks s' := by
  ext bytes
  unfold liveBlocks liveBytes
  rw [hsegment]
  exact exists_congr fun alloc => and_congr_left fun _ => hperm.mem_iff

/-- **The cached first member depends on the history.**  The block at `2048` is free in both
histories; where the block at `0` was freed and taken again, its reset has skipped the other one. -/
theorem dragonHeap_history_dependent :
    dragonHeapInit (fun _ _ => 0) (fun _ => 0) 12 5 none
      = some (.ok (initialHeap (fun _ _ => 0) (fun _ => 0) 12 5 none)) ∧
    Runs.Legal heapStep FreesLive (initialHeap (fun _ _ => 0) (fun _ => 0) 12 5 none, [])
      crowdedCalls ∧
    Runs.Legal heapStep FreesLive (initialHeap (fun _ _ => 0) (fun _ => 0) 12 5 none, [])
      againCalls ∧
    liveBlocks (crowdedCalls.foldl heapStep
        (initialHeap (fun _ _ => 0) (fun _ => 0) 12 5 none, []))
      = liveBlocks (againCalls.foldl heapStep
        (initialHeap (fun _ _ => 0) (fun _ => 0) 12 5 none, [])) ∧
    ¬ SameBitset
      ((crowdedCalls.foldl heapStep
        (initialHeap (fun _ _ => 0) (fun _ => 0) 12 5 none, [])).1.free 0)
      ((againCalls.foldl heapStep
        (initialHeap (fun _ _ => 0) (fun _ => 0) 12 5 none, [])).1.free 0) := by
  refine ⟨dragonHeapInit_eq_initialHeap (by decide +kernel), ?_, ?_,
    liveBlocks_congr (by decide +kernel) (by decide +kernel),
    fun hsame => absurd hsame.leadingZeroes_eq (by decide +kernel)⟩
  · exact ⟨trivial, trivial, trivial, trivial, trivial, trivial, trivial, trivial, trivial,
      by unfold FreesLive; decide +kernel, trivial⟩
  · exact ⟨trivial, trivial, trivial, trivial, trivial, trivial, trivial, trivial, trivial,
      by unfold FreesLive; decide +kernel, by unfold FreesLive; decide +kernel, trivial, trivial⟩

/-- With right caches the search of `_split` finds a block as soon as one is there. -/
theorem splitSearch_finds {heap : DragonDynHeap} {n : ℕ} (hc : CachesRight heap n)
    (levels idx : ℕ) (hn : idx + levels < n)
    (hfree : ∃ k, idx ≤ k ∧ k ≤ idx + levels ∧ (heap.free k).members.Nonempty) :
    ∃ k b, splitSearch heap levels idx = (k, .ok b) := by
  induction levels generalizing idx with
  | zero =>
    obtain ⟨k, h1, h2, hne⟩ := hfree
    have hk : k = idx := by omega
    subst hk
    unfold splitSearch
    rcases (hc k (by omega)).first_cases with ⟨hempty, -⟩ | ⟨b, -, hfirst⟩
    · rw [hempty] at hne
      exact absurd hne Finset.not_nonempty_empty
    · exact ⟨k, b, by rw [hfirst]⟩
  | succ levels ih =>
    unfold splitSearch
    rcases (hc idx (by omega)).first_cases with ⟨hempty, hnone⟩ | ⟨b, -, hfirst⟩
    · rw [hnone]
      obtain ⟨k, h1, h2, hne⟩ := hfree
      have hki : k ≠ idx := by
        rintro rfl
        rw [hempty] at hne
        exact Finset.not_nonempty_empty hne
      exact ih (idx + 1) (by omega) ⟨k, by omega, by omega, hne⟩
    · rw [hfirst]
      exact ⟨idx, b, rfl⟩

/-- A request that a free block can hold is satisfied. -/
theorem dragonHeapMalloc_succeeds {heap : DragonDynHeap} {n m k size : ℕ}
    (h : HeapShape heap n m) (hc : CachesRight heap n) (hk : k < n)
    (hne : (heap.free k).members.Nonempty) (hbig : size ≤ heap.biggestBlock)
    (hsize : size ≤ 2 ^ (m + k)) :
    ∃ offset heap', dragonHeapMalloc heap size = some (.ok offset, heap') := by
  have hlim := h.power_le
  obtain ⟨p, hpk, hpower, -⟩ := powerof2_eq (t := k) (by omega) hsize
  obtain ⟨k', b, hsearch⟩ := splitSearch_finds hc (n - 1 - p) p (by omega)
    ⟨k, hpk, by omega, hne⟩
  exact ⟨_, _, dragonHeapMalloc_of_search h hbig hpower (by omega) hsearch⟩

/-- **Preallocated blocks survive.**  Take a heap with any preallocations and any
mallocs and frees of live allocations, none of which cuts a preallocated block.
Whenever nothing is live, the free blocks are those right after initialisation.  If
moreover no call makes a reset that skips a member of a free set, then the free sets
are altogether those right after initialisation, and every request of at most the
biggest block can be satisfied. -/
theorem dragonHeap_preallocated_survive (mem : ℕ → ℕ → BitVec 8) (premem : ℕ → BitVec 8)
    (maxPower minPower : ℕ) (hpow : minPower ≤ maxPower) (preallocated : Option (ℕ → ℕ))
    (heap : DragonDynHeap)
    (hinit : dragonHeapInit mem premem maxPower minPower preallocated = some (.ok heap))
    (ops : List HeapOp)
    (hops : Runs.Legal heapStep (fun s op => FreesLive s op ∧ ¬ SplitsPreallocated s.1 op)
      (heap, []) ops)
    (s : DragonDynHeap × List (ℕ × ℕ)) (hs : s = ops.foldl heapStep (heap, []))
    (hnone : s.2 = []) :
    (∀ block, FreeBlock s.1 block ↔ FreeBlock heap block) ∧
    (Runs.Legal heapStep (fun s op => ¬ SkipsInFreeSets s.1 op) (heap, []) ops →
      (∀ k < heap.numBlockSizes, SameBitset (s.1.free k) (heap.free k)) ∧
      ∀ size ≤ heap.biggestBlock, ∃ offset heap',
        dragonHeapMalloc s.1 size = some (.ok offset, heap')) := by
  obtain ⟨hstart, K, hK, hneK, hbig⟩ := heapReleasing_of_init hpow hinit
  have hwhole : HeapWhole heap s.1 (maxPower - minPower + 1) minPower s.2 := by
    rw [hs]
    exact hops.invariant
      (I := fun s => HeapWhole heap s.1 (maxPower - minPower + 1) minPower s.2)
      (fun s op h hop => h.step hop.1 hop.2)
      ⟨hstart.toHeapPairs, rfl, fun k b _ _ hF => Or.inl hF⟩
  rw [hnone] at hwhole
  have hfree : ∀ {k b}, InRange (maxPower - minPower + 1) (k, b) →
      s.1.freeMap k b = heap.freeMap k b :=
    fun hr => hwhole.freeMap_eq hstart.toHeapPairs hstart.markedWhole hr
  have hblocks : ∀ block, FreeBlock s.1 block ↔ FreeBlock heap block := by
    intro block
    rw [freeBlock_iff hwhole.shape, freeBlock_iff hstart.shape]
    exact and_congr_right fun hr => by rw [hfree hr]
  refine ⟨hblocks, ?_⟩
  · intro hskips
    have hcaches := cachesRight_of_run hstart.toHeapInv hstart.caches
      (hops.imp (I := fun _ => True) (fun _ _ _ hop => hop.1) (fun _ _ _ _ => trivial) trivial)
      hskips hs
    have hsame : ∀ k < heap.numBlockSizes, SameBitset (s.1.free k) (heap.free k) := by
      intro k hk
      rw [hstart.shape.numBlockSizes_eq] at hk
      exact sameBitset_of_freeBlock_iff hwhole.shape hstart.shape hcaches.1 hstart.caches hblocks hk
    refine ⟨hsame, ?_⟩
    intro size hsize
    obtain ⟨b, hb⟩ := hneK
    have hr : InRange (maxPower - minPower + 1) (K, b) := by
      refine ⟨hK, ?_⟩
      have hlt := (hstart.caches K hK).lt_of_mem b hb
      rwa [hstart.shape.free_size K hK] at hlt
    have hbs : b ∈ (s.1.free K).members := by
      rw [hwhole.shape.mem_members_iff hr, hfree hr, ← hstart.shape.mem_members_iff hr]
      exact hb
    exact dragonHeapMalloc_succeeds hwhole.shape hcaches.1 hK ⟨b, hbs⟩ (by rw [hcaches.2]; exact hsize)
      (by rw [← hbig]; exact hsize)

/-- Two requests of 64 bytes and their release: every part of the theorem applies. -/
theorem dragonHeap_preallocated_survive_example :
    (FreeBlock ([HeapOp.malloc 64, .malloc 64, .free 64 64, .free 0 64].foldl heapStep
        (initialHeap (fun _ _ => 0) (fun _ => 0) 7 5 (some onePreallocated), [])).1 (1, 0) ↔
      FreeBlock (initialHeap (fun _ _ => 0) (fun _ => 0) 7 5 (some onePreallocated)) (1, 0)) ∧
    ∃ offset heap', dragonHeapMalloc
      ([HeapOp.malloc 64, .malloc 64, .free 64 64, .free 0 64].foldl heapStep
        (initialHeap (fun _ _ => 0) (fun _ => 0) 7 5 (some onePreallocated), [])).1 64
      = some (.ok offset, heap') := by
  have h := dragonHeap_preallocated_survive (fun _ _ => 0) (fun _ => 0) 7 5 (by decide)
    (some onePreallocated) _ (dragonHeapInit_eq_initialHeap (by decide +kernel))
    [.malloc 64, .malloc 64, .free 64 64, .free 0 64]
    ⟨⟨trivial, by decide +kernel⟩, ⟨trivial, by decide +kernel⟩,
      ⟨by unfold FreesLive; decide +kernel, by decide +kernel⟩,
      ⟨by unfold FreesLive; decide +kernel, by decide +kernel⟩, trivial⟩
    _ rfl (by decide +kernel)
  refine ⟨h.1 (1, 0), (h.2 ?_).2 64 (by decide +kernel)⟩
  exact ⟨by decide +kernel, by decide +kernel, by decide +kernel, by decide +kernel, trivial⟩

/-- **A preallocated block is lost.**  After one request of 32 bytes and its release
nothing is live, but the preallocated block of 64 bytes is not whole again. -/
theorem dragonHeap_preallocated_block_lost :
    dragonHeapInit (fun _ _ => 0) (fun _ => 0) 7 5 (some onePreallocated)
      = some (.ok (initialHeap (fun _ _ => 0) (fun _ => 0) 7 5 (some onePreallocated))) ∧
    Runs.Legal heapStep FreesLive
      (initialHeap (fun _ _ => 0) (fun _ => 0) 7 5 (some onePreallocated), [])
      [.malloc 32, .free 0 32] ∧
    ([HeapOp.malloc 32, .free 0 32].foldl heapStep
      (initialHeap (fun _ _ => 0) (fun _ => 0) 7 5 (some onePreallocated), [])).2 = [] ∧
    FreeBlock (initialHeap (fun _ _ => 0) (fun _ => 0) 7 5 (some onePreallocated)) (1, 0) ∧
    (initialHeap (fun _ _ => 0) (fun _ => 0) 7 5 (some onePreallocated)).preMap 0 = true ∧
    ¬ FreeBlock ([HeapOp.malloc 32, .free 0 32].foldl heapStep
      (initialHeap (fun _ _ => 0) (fun _ => 0) 7 5 (some onePreallocated), [])).1 (1, 0) := by
  refine ⟨dragonHeapInit_eq_initialHeap (by decide +kernel),
    ⟨trivial, by unfold FreesLive; decide +kernel, trivial⟩, by decide +kernel, ?_,
    by decide +kernel, ?_⟩
  · unfold FreeBlock
    decide +kernel
  · unfold FreeBlock
    decide +kernel

/-! ## Room -/

/-- A block of the size of the request lies in the heap, and nothing live lies in it. -/
def HasRoom (s : DragonDynHeap × List (ℕ × ℕ)) (size : ℕ) (block : ℕ × ℕ) : Prop :=
  powerof2 size s.1.segmentSize = some block.1 ∧
    blockBytes s.1 block ⊆ Set.Iio s.1.totalSize ∧
    ∀ alloc ∈ s.2, Disjoint (liveBytes s.1 alloc) (blockBytes s.1 block)

section Room

variable {n m size p b : ℕ} {s : DragonDynHeap × List (ℕ × ℕ)}

theorem blockBytes_subset_iff (h : HeapShape s.1 n m) (hp : p < n) :
    blockBytes s.1 (p, b) ⊆ Set.Iio s.1.totalSize ↔ InRange n (p, b) := by
  have hfirst : b * 2 ^ p * 2 ^ m / 2 ^ m / 2 ^ p = b := by
    rw [mul_pow_div_pow, mul_pow_div_pow]
  constructor
  · intro hsub
    have hlt := hsub ((mem_blockBytes_iff h (p, b) _).mpr hfirst)
    rw [Set.mem_Iio, lt_totalSize_iff h, mul_pow_div_pow] at hlt
    have hr := inRange_of_lt hlt hp
    rwa [mul_pow_div_pow] at hr
  · intro hr x hx
    rw [mem_blockBytes_iff h] at hx
    exact (lt_totalSize_iff h x).mpr (lt_of_div_eq hr hx)

theorem HeapInv.held_of_hasRoom (h : HeapInv s.1 n m s.2) (hroom : HasRoom s size (p, b))
    {i : ℕ} (hi : i / 2 ^ p = b) : held (s.2.map (liveBlock m)) i = 0 := by
  by_contra hne
  obtain ⟨block, hmem, hblock⟩ := (held_pos_iff i).mp (Nat.pos_of_ne_zero hne)
  obtain ⟨alloc, ha, rfl⟩ := List.mem_map.mp hmem
  obtain ⟨q, c, halloc⟩ := h.alive alloc ha
  rw [halloc.liveBlock_eq] at hblock
  have hdisjoint := hroom.2.2 alloc ha
  rw [halloc.liveBytes_eq h.shape] at hdisjoint
  have hbyte : ∀ q c, i / 2 ^ q = c → i * 2 ^ m ∈ blockBytes s.1 (q, c) := fun q c hqc =>
    (mem_blockBytes_iff h.shape (q, c) _).mpr (by rwa [mul_pow_div_pow])
  exact Set.disjoint_left.mp hdisjoint (hbyte q c hblock) (hbyte p b hi)

theorem HeapInv.hasRoom_of_malloc (h : HeapInv s.1 n m s.2) {offset : ℕ} {heap' : DragonDynHeap}
    (hcall : dragonHeapMalloc s.1 size = some (.ok offset, heap')) :
    ∃ block, HasRoom s size block ∧ offset = block.2 * (s.1.segmentSize * 2 ^ block.1) := by
  rcases h.malloc size with ⟨e, he⟩ | ⟨p, k, b, htake, hok, halloc, hinv⟩
  · rw [he] at hcall
    cases hcall
  · rw [hok] at hcall
    cases hcall
    refine ⟨(p, b * 2 ^ (k - p)), ⟨?_, ?_, fun alloc ha => ?_⟩, ?_⟩
    · rw [h.shape.segmentSize_eq]
      exact halloc.power
    · exact (blockBytes_subset_iff h.shape halloc.inRange.1).mpr halloc.inRange
    · have hapart := List.rel_of_pairwise_cons hinv.partition.live_disjoint ha
      rw [halloc.liveBytes_eq hinv.shape] at hapart
      exact hapart.symm
    · rw [h.shape.segmentSize_eq, pow_add]

end Room

/-- **No request is refused while there is room.**  Take a heap with any preallocations and any
mallocs and frees of live allocations, none of which makes a reset that skips a member of a free
set.  What a malloc hands out is room; and where there is room, with no mark of a preallocation in
it, a request of at most the biggest block succeeds. -/
theorem dragonHeapMalloc_room (mem : ℕ → ℕ → BitVec 8) (premem : ℕ → BitVec 8)
    (maxPower minPower : ℕ) (hpow : minPower ≤ maxPower) (preallocated : Option (ℕ → ℕ))
    (heap : DragonDynHeap)
    (hinit : dragonHeapInit mem premem maxPower minPower preallocated = some (.ok heap))
    (ops : List HeapOp)
    (hops : Runs.Legal heapStep (fun s op => FreesLive s op ∧ ¬ SkipsInFreeSets s.1 op)
      (heap, []) ops)
    (s : DragonDynHeap × List (ℕ × ℕ)) (hs : s = ops.foldl heapStep (heap, [])) (size : ℕ) :
    (∀ offset heap', dragonHeapMalloc s.1 size = some (.ok offset, heap') →
      ∃ block, HasRoom s size block ∧ offset = block.2 * (s.1.segmentSize * 2 ^ block.1)) ∧
    (size ≤ heap.biggestBlock → ∀ block, HasRoom s size block →
      (∀ i, i / 2 ^ block.1 = block.2 → heap.preMap i = false) →
      ∃ offset heap', dragonHeapMalloc s.1 size = some (.ok offset, heap')) := by
  obtain ⟨hstart, -⟩ := heapReleasing_of_init hpow hinit
  have hrun := hops.invariant
    (I := fun s => HeapPairs s.1 (maxPower - minPower + 1) minPower s.2 ∧
      CachesRight s.1 (maxPower - minPower + 1) ∧ s.1.biggestBlock = heap.biggestBlock ∧
      s.1.preMap = heap.preMap)
    (fun s op h hop => ⟨h.1.step hop.1, h.1.cachesRight_step h.2.1 hop.1 hop.2,
      (h.1.biggestBlock_step hop.1).trans h.2.2.1, (h.1.preMap_step hop.1).trans h.2.2.2⟩)
    ⟨hstart.toHeapPairs, hstart.caches, rfl, rfl⟩
  rw [← hs] at hrun
  obtain ⟨hpairs, hcaches, hbig, hmarks⟩ := hrun
  have hshape := hpairs.shape
  refine ⟨fun offset heap' hcall => hpairs.toHeapInv.hasRoom_of_malloc hcall, ?_⟩
  rintro hsize ⟨p, b⟩ hroom hunmarked
  rw [← hbig] at hsize
  have hlim := hshape.power_le
  obtain ⟨p', hle, hpower, hfits, -⟩ := powerof2_eq (m := minPower) (t := maxPower - minPower) (by omega)
    (hsize.trans hshape.biggestBlock_le)
  have hp : p' = p := by
    have hlevel := hroom.1
    rw [hshape.segmentSize_eq, hpower] at hlevel
    exact Option.some.inj hlevel
  subst hp
  have hr := (blockBytes_subset_iff hshape (by omega)).mp hroom.2.1
  have hnoPair := hpairs.noPair
  rw [hmarks] at hnoPair
  obtain ⟨k, c, hk, hkr, hfree⟩ := hpairs.tiling.exists_level_ge hnoPair hr
    fun i hi => ⟨hpairs.toHeapInv.held_of_hasRoom hroom hi, hunmarked i hi⟩
  exact dragonHeapMalloc_succeeds hshape hcaches hkr.1
    ⟨c, (hshape.mem_members_iff hkr).mpr hfree⟩ hsize
    (hfits.trans (Nat.pow_le_pow_right (by omega) (by omega)))

/-- The upper half is there beside a live block of 32 bytes. -/
theorem dragonHeapMalloc_room_example : ∃ offset heap', dragonHeapMalloc
    ([HeapOp.malloc 32].foldl heapStep
      (initialHeap (fun _ _ => 0) (fun _ => 0) 7 5 none, [])).1 64 = some (.ok offset, heap') := by
  have hlive : ([HeapOp.malloc 32].foldl heapStep
      (initialHeap (fun _ _ => 0) (fun _ => 0) 7 5 none, [])).2 = [(0, 32)] := by decide +kernel
  refine (dragonHeapMalloc_room (fun _ _ => 0) (fun _ => 0) 7 5 (by decide) none _
    (dragonHeapInit_eq_initialHeap (by decide +kernel)) [.malloc 32]
    ⟨⟨trivial, by decide +kernel⟩, trivial⟩ _ rfl 64).2 (by decide +kernel) (1, 1)
    ⟨by decide +kernel, fun x hx => hx.2.trans_le (by decide +kernel), fun alloc ha => ?_⟩
    fun i hi => ?_
  · rw [hlive] at ha
    obtain rfl := List.mem_singleton.mp ha
    exact Set.disjoint_left.mpr fun x hx hy =>
      absurd (hx.2.trans_le (by decide +kernel)) hy.1.not_gt
  · have hhalf : i / 2 = 1 := hi
    obtain rfl | rfl : i = 2 ∨ i = 3 := by omega
    all_goals decide +kernel
