/-
# What the calls of the heap manager do

One characterisation for each call, from which every invariant is derived (`dragonHeapMalloc_cases`,
`dragonHeapFree_eq`).  The shape of a heap (`HeapShape`) is what initialisation fixes once and for
all.
-/
import DragonRuntime.HeapManager
import DragonRuntime.DyadicMoves

open Buddy DragonDynHeap

/-! ## Powers of two -/

theorem ipow_two {k : ℕ} (hk : k < 64) : ipow 2 k = 2 ^ k := by
  induction k using Nat.strong_induction_on with
  | _ k ih =>
    have hlt : (2 : ℕ) ^ k < 2 ^ 64 := Nat.pow_lt_pow_right (by omega) hk
    unfold ipow
    by_cases hzero : k = 0
    · rw [if_pos hzero, hzero, pow_zero]
    rw [if_neg hzero]
    by_cases hodd : k % 2 = 1
    · have hpow : 2 * 2 ^ (k - 1) = 2 ^ k := by
        rw [← pow_succ', Nat.sub_add_cancel (by omega)]
      rw [if_pos hodd, ih (k - 1) (by omega) (by omega), hpow, Nat.mod_eq_of_lt hlt]
    · have hpow : 2 ^ (k / 2) * 2 ^ (k / 2) = 2 ^ k := by
        rw [← pow_add]
        congr 1
        omega
      rw [if_neg hodd, ih (k / 2) (by omega) (by omega)]
      simp only
      rw [hpow, Nat.mod_eq_of_lt hlt]

/-- The loop of `_powerof2` stops at the first power that is large enough, as long as
that power is below `2^64`. -/
theorem powerof2Loop_eq {size m t : ℕ} (ht : m + t ≤ 63) (hsize : size ≤ 2 ^ (m + t))
    (fuel i : ℕ) (hi : i ≤ t) (hfuel : t < i + fuel) :
    ∃ p, p ≤ t ∧ powerof2Loop size fuel (2 ^ (m + i)) i = some p ∧ size ≤ 2 ^ (m + p) ∧
      ∀ j, i ≤ j → j < p → 2 ^ (m + j) < size := by
  induction fuel generalizing i with
  | zero => omega
  | succ fuel ih =>
    unfold powerof2Loop
    by_cases hlt : 2 ^ (m + i) < size
    · have hit : i < t := by
        by_contra hge
        have hpow : 2 ^ (m + t) ≤ 2 ^ (m + i) := Nat.pow_le_pow_right (by omega) (by omega)
        omega
      have hdouble : 2 ^ (m + i) * 2 % 2 ^ 64 = 2 ^ (m + (i + 1)) := by
        rw [← pow_succ]
        exact Nat.mod_eq_of_lt (Nat.pow_lt_pow_right (by omega) (by omega))
      rw [if_pos hlt, hdouble]
      obtain ⟨p, hp, hloop, hle, hleast⟩ := ih (i + 1) (by omega) (by omega)
      refine ⟨p, hp, hloop, hle, ?_⟩
      intro j hij hjp
      rcases Nat.eq_or_lt_of_le hij with rfl | hij
      · exact hlt
      · exact hleast j hij hjp
    · rw [if_neg hlt]
      refine ⟨i, hi, rfl, by omega, ?_⟩
      intro j hij hji
      omega

/-- **`_powerof2`** for a size that a heap of `2^(m+t)` bytes can hold. -/
theorem powerof2_eq {size m t : ℕ} (ht : m + t ≤ 63) (hsize : size ≤ 2 ^ (m + t)) :
    ∃ p, p ≤ t ∧ powerof2 size (2 ^ m) = some p ∧ size ≤ 2 ^ (m + p) ∧
      ∀ j, j < p → 2 ^ (m + j) < size := by
  obtain ⟨p, hp, hloop, hle, hleast⟩ :=
    powerof2Loop_eq ht hsize 65 0 (Nat.zero_le t) (by omega)
  refine ⟨p, hp, ?_, hle, fun j hj => hleast j (Nat.zero_le j) hj⟩
  unfold powerof2
  rw [if_neg (Nat.two_pow_pos m).ne']
  exact hloop

/-! ## The shape of a heap -/

/-- A heap of `2^(n-1)` segments of `2^m` bytes with `n` block sizes. -/
structure HeapShape (heap : DragonDynHeap) (n m : ℕ) : Prop where
  num_pos : 0 < n
  power_le : m + (n - 1) ≤ 62
  numBlockSizes_eq : heap.numBlockSizes = n
  segmentSize_eq : heap.segmentSize = 2 ^ m
  totalSize_eq : heap.totalSize = 2 ^ (m + (n - 1))
  biggestBlock_le : heap.biggestBlock ≤ 2 ^ (m + (n - 1))
  free_size : ∀ k < n, (heap.free k).size = 2 ^ (n - 1 - k)
  preallocated_size : heap.preallocated.size = 2 ^ (n - 1)

namespace DragonDynHeap

/-- The free blocks of a heap. -/
def freeMap (heap : DragonDynHeap) : ℕ → ℕ → Bool := fun k b => (heap.free k).bit b

/-- The segments that carry a preallocated bit. -/
def preMap (heap : DragonDynHeap) : ℕ → Bool := fun s => heap.preallocated.bit s

/-- The heap after `_split` took block `b` of level `k` and halved it down to level
`p`. -/
def afterSplit (heap : DragonDynHeap) (p k b : ℕ) : DragonDynHeap :=
  { heap with
    free := fun j =>
      if j = k then (heap.free k).withoutBit b
      else if p ≤ j ∧ j < k then (heap.free j).withBit (b * 2 ^ (k - j) + 1)
      else heap.free j }

/-- The heap after the buddies of block `b` of level `p` below level `q` left the free
sets. -/
def afterRaise (heap : DragonDynHeap) (p q b : ℕ) : DragonDynHeap :=
  { heap with
    free := fun j =>
      if p ≤ j ∧ j < q then (heap.free j).withoutBit (sibling (b / 2 ^ (j - p)))
      else heap.free j }

/-- The heap after `_free_and_merge` joined block `b` of level `p` up to level `q`. -/
def afterJoin (heap : DragonDynHeap) (p q b : ℕ) : DragonDynHeap :=
  (heap.afterRaise p q b).setFree q ((heap.free q).withBit (b / 2 ^ (q - p)))

@[simp] theorem preMap_afterSplit (heap : DragonDynHeap) (p k b : ℕ) :
    (heap.afterSplit p k b).preMap = heap.preMap := rfl

@[simp] theorem preMap_afterJoin (heap : DragonDynHeap) (p q b : ℕ) :
    (heap.afterJoin p q b).preMap = heap.preMap := rfl

end DragonDynHeap

section Shape

variable {heap : DragonDynHeap} {n m p q k b : ℕ}

/-- A block in range has its bit. -/
theorem HeapShape.lt_size (h : HeapShape heap n m) (hr : InRange n (k, b)) :
    b < (heap.free k).size := by
  rw [h.free_size k hr.1]
  exact hr.2

theorem HeapShape.of_free (h : HeapShape heap n m) {free : ℕ → DragonBitSet}
    (hfree : ∀ k < n, (free k).size = (heap.free k).size) :
    HeapShape { heap with free := free } n m :=
  ⟨h.num_pos, h.power_le, h.numBlockSizes_eq, h.segmentSize_eq, h.totalSize_eq,
    h.biggestBlock_le, fun k hk => (hfree k hk).trans (h.free_size k hk),
    h.preallocated_size⟩

theorem HeapShape.setFree (h : HeapShape heap n m) (k : ℕ) {set : DragonBitSet}
    (hset : set.size = (heap.free k).size) : HeapShape (heap.setFree k set) n m := by
  apply h.of_free
  intro j hj
  by_cases hjk : j = k
  · subst hjk
    simpa using hset
  · simp [hjk]

theorem HeapShape.afterSplit (h : HeapShape heap n m) (p k b : ℕ) :
    HeapShape (heap.afterSplit p k b) n m := by
  apply h.of_free
  intro j hj
  by_cases hjk : j = k
  · subst hjk
    simp
  · rw [if_neg hjk]
    split <;> simp

theorem HeapShape.afterRaise (h : HeapShape heap n m) (p q b : ℕ) :
    HeapShape (heap.afterRaise p q b) n m := by
  apply h.of_free
  intro j hj
  split <;> simp

theorem HeapShape.afterJoin (h : HeapShape heap n m) (p q b : ℕ) :
    HeapShape (heap.afterJoin p q b) n m := by
  apply (h.afterRaise p q b).setFree
  show _ = ((heap.afterRaise p q b).free q).size
  simp [DragonDynHeap.afterRaise]

theorem HeapShape.freeMap_afterSplit (h : HeapShape heap n m) (hr : InRange n (k, b)) :
    (heap.afterSplit p k b).freeMap = splitMap heap.freeMap p k b := by
  funext j c
  by_cases hjk : j = k
  · subst hjk
    have hnew : ¬ (p ≤ j ∧ j < j ∧ c = b * 2 ^ (j - j) + 1) := by omega
    unfold splitMap freeMap DragonDynHeap.afterSplit
    simp only [↓reduceIte, if_neg hnew, true_and]
    rw [bit_withoutBit (h.lt_size hr)]
    by_cases hc : c = b <;> simp [hc]
  · by_cases hjp : p ≤ j ∧ j < k
    · have hupper : InRange n (j, b * 2 ^ (k - j) + 1) := by
        have hlow := hr.lower (p := j) (by omega)
        have hsib := hlow.sibling (by have := hr.1; simp only at this; omega)
        rwa [sibling_of_even (mul_pow_even hjp.2)] at hsib
      unfold splitMap freeMap DragonDynHeap.afterSplit
      simp only [if_neg hjk, if_pos hjp]
      rw [bit_withBit (h.lt_size hupper)]
      by_cases hc : c = b * 2 ^ (k - j) + 1
      · rw [if_pos ⟨hjp.1, hjp.2, hc⟩]
        simp [hc]
      · rw [if_neg (fun h' => hc h'.2.2), if_neg (fun h' => hjk h'.1)]
        simp [hc]
    · unfold splitMap freeMap DragonDynHeap.afterSplit
      simp only [if_neg hjk, if_neg hjp]
      rw [if_neg (fun h' => hjp ⟨h'.1, h'.2.1⟩), if_neg (fun h' => hjk h'.1)]

/-- The bits of the buddies' removal. -/
theorem HeapShape.freeMap_afterRaise (h : HeapShape heap n m) (hr : InRange n (p, b))
    (hq : q < n) : (heap.afterRaise p q b).freeMap = raiseMap heap.freeMap p q b := by
  funext j c
  unfold raiseMap freeMap DragonDynHeap.afterRaise
  by_cases hj : p ≤ j ∧ j < q
  · have hsib : InRange n (j, sibling (b / 2 ^ (j - p))) :=
      (hr.upper hj.1 (by omega)).sibling (by omega)
    simp only [if_pos hj]
    rw [bit_withoutBit (h.lt_size hsib)]
    by_cases hc : c = sibling (b / 2 ^ (j - p))
    · rw [if_pos ⟨hj.1, hj.2, hc⟩]
      simp [hc]
    · rw [if_neg (fun h' => hc h'.2.2)]
      simp [hc]
  · simp only [if_neg hj]
    rw [if_neg (fun h' => hj ⟨h'.1, h'.2.1⟩)]

theorem HeapShape.freeMap_afterJoin (h : HeapShape heap n m) (hr : InRange n (p, b))
    (hp : p ≤ q) (hq : q < n) :
    (heap.afterJoin p q b).freeMap = joinMap heap.freeMap p q b := by
  unfold joinMap
  rw [← h.freeMap_afterRaise hr hq]
  funext j c
  by_cases hj : j = q
  · subst hj
    have hput : InRange n (j, b / 2 ^ (j - p)) := hr.upper hp hq
    unfold setBlock freeMap DragonDynHeap.afterJoin DragonDynHeap.setFree
    simp only [Function.update_self, true_and]
    rw [bit_withBit (h.lt_size hput)]
    by_cases hc : c = b / 2 ^ (j - p)
    · simp [hc]
    · simp [hc, DragonDynHeap.afterRaise]
  · rw [setBlock_ne (fun h' => hj h'.1)]
    unfold freeMap DragonDynHeap.afterJoin DragonDynHeap.setFree
    simp [hj]

end Shape

/-! ## `_split` -/

section Split

variable {heap : DragonDynHeap} {n m k b : ℕ}

theorem buddy_eq_sibling (idx : ℕ) : buddy idx = sibling idx := rfl

/-- The splitting loop puts the upper halves of the way down into the free sets. -/
theorem splitLoop_eq (h : HeapShape heap n m) (hr : InRange n (k, b)) (steps : ℕ)
    (hsteps : steps ≤ k) :
    splitLoop steps heap k b = (.ok (b * 2 ^ steps),
      { heap with
        free := fun j =>
          if k - steps ≤ j ∧ j < k then (heap.free j).withBit (b * 2 ^ (k - j) + 1)
          else heap.free j }) := by
  induction steps generalizing heap k b with
  | zero =>
    have hnone : ∀ j, ¬ (k - 0 ≤ j ∧ j < k) := by omega
    unfold splitLoop
    simp only [if_neg (hnone _), pow_zero, Nat.mul_one]
  | succ steps ih =>
    obtain ⟨i, rfl⟩ : ∃ i, k = i + 1 := ⟨k - 1, by omega⟩
    have hhalf : InRange n (i, b * 2) := by
      have := hr.lower (p := i) (by omega)
      rwa [Nat.add_sub_cancel_left, pow_one] at this
    have hsib : sibling (b * 2) = b * 2 + 1 := sibling_of_even (by omega)
    have hupper : b * 2 + 1 < (heap.free i).size := by
      rw [← hsib]
      exact h.lt_size (hhalf.sibling hr.1)
    have hset := dragonBitsetSet_eq_withBit hupper
    have hshape : HeapShape (heap.setFree i ((heap.free i).withBit (b * 2 + 1))) n m :=
      h.setFree i (size_withBit _ _)
    unfold splitLoop
    simp only [Nat.add_sub_cancel, buddy_eq_sibling, hsib, hset]
    rw [ih hshape hhalf (by omega)]
    refine Prod.ext ?_ ?_
    · show Except.ok _ = Except.ok _
      congr 1
      rw [mul_assoc, ← pow_succ']
    · show DragonDynHeap.mk _ _ _ _ _ _ _ = DragonDynHeap.mk _ _ _ _ _ _ _
      congr 1
      funext j
      by_cases hj : j = i
      · subst hj
        rw [if_neg (by omega), if_pos (by omega)]
        simp [DragonDynHeap.setFree, pow_one]
      · have hother : (heap.setFree i ((heap.free i).withBit (b * 2 + 1))).free j
            = heap.free j := by simp [DragonDynHeap.setFree, hj]
        rw [hother]
        by_cases hrange : i - steps ≤ j ∧ j < i
        · have hpow : b * 2 * 2 ^ (i - j) = b * 2 ^ (i + 1 - j) := by
            rw [mul_assoc, ← pow_succ', show i - j + 1 = i + 1 - j by omega]
          rw [if_pos hrange, if_pos (by omega), hpow]
        · rw [if_neg hrange, if_neg (by omega)]

theorem splitSearch_ok {levels idx : ℕ}
    (h : splitSearch heap levels idx = (k, .ok b)) :
    idx ≤ k ∧ k ≤ idx + levels ∧ dragonBitsetFirst (heap.free k) = .ok b ∧
      ∀ j, idx ≤ j → j < k →
        dragonBitsetFirst (heap.free j) = .error .bitsetIterationComplete := by
  induction levels generalizing idx with
  | zero =>
    unfold splitSearch at h
    obtain ⟨rfl, hfirst⟩ := Prod.mk.inj h
    exact ⟨le_rfl, le_rfl, hfirst, fun j h1 h2 => by omega⟩
  | succ levels ih =>
    unfold splitSearch at h
    split at h
    · rename_i hcomplete
      obtain ⟨h1, h2, hfirst, hbefore⟩ := ih h
      refine ⟨by omega, by omega, hfirst, ?_⟩
      intro j hj hjk
      rcases Nat.eq_or_lt_of_le hj with rfl | hlt
      · exact hcomplete
      · exact hbefore j hlt hjk
    · obtain ⟨rfl, hfirst⟩ := Prod.mk.inj h
      exact ⟨le_rfl, by omega, hfirst, fun j h1 h2 => by omega⟩

/-- **`_split`** when the search finds a block. -/
theorem split_eq (h : HeapShape heap n m) {p : ℕ} (hp : p < n)
    (hsearch : splitSearch heap (n - 1 - p) p = (k, .ok b)) :
    p ≤ k ∧ InRange n (k, b) ∧ heap.freeMap k b = true ∧
      heap.split p = (.ok (b * 2 ^ (k - p)), heap.afterSplit p k b) := by
  obtain ⟨hpk, hkn, hfirst, -⟩ := splitSearch_ok hsearch
  obtain ⟨hlt, hbit⟩ := bit_of_dragonBitsetFirst hfirst
  have hk : k < n := by omega
  have hr : InRange n (k, b) := ⟨hk, by rw [h.free_size k hk] at hlt; exact hlt⟩
  refine ⟨hpk, hr, hbit, ?_⟩
  unfold DragonDynHeap.split
  rw [h.numBlockSizes_eq, hsearch]
  simp only [dragonBitsetReset_eq_withoutBit hlt]
  rw [splitLoop_eq (h.setFree k (size_withoutBit _ _)) hr _ (by omega)]
  refine Prod.ext rfl ?_
  show DragonDynHeap.mk _ _ _ _ _ _ _ = DragonDynHeap.mk _ _ _ _ _ _ _
  congr 1
  funext j
  by_cases hj : j = k
  · subst hj
    rw [if_pos rfl, if_neg (by omega)]
    simp [DragonDynHeap.setFree]
  · have hother : (heap.setFree k ((heap.free k).withoutBit b)).free j = heap.free j := by
      simp [DragonDynHeap.setFree, hj]
    rw [hother, if_neg hj, show k - (k - p) = p by omega]

/-! ## `dragon_heap_malloc` -/

theorem dragonHeapMalloc_of_search (h : HeapShape heap n m) {size p : ℕ}
    (hsize : size ≤ heap.biggestBlock) (hpower : powerof2 size (2 ^ m) = some p) (hp : p < n)
    (hsearch : splitSearch heap (n - 1 - p) p = (k, .ok b)) :
    dragonHeapMalloc heap size
      = some (.ok (b * 2 ^ (k - p) * 2 ^ (m + p)), heap.afterSplit p k b) := by
  obtain ⟨hpk, hr, hfree, hsplit⟩ := split_eq h hp hsearch
  have hlim := h.power_le
  unfold dragonHeapMalloc
  rw [h.segmentSize_eq, h.numBlockSizes_eq, if_neg (Nat.two_pow_pos m).ne',
    if_neg (by omega), hpower]
  simp only [Option.map_some]
  rw [if_neg (by omega), hsplit]
  have hseg : (heap.afterSplit p k b).segmentSize = 2 ^ m := h.segmentSize_eq
  simp only [hseg, ipow_two (show p < 64 by omega), ← pow_add]

/-- A malloc of `size` bytes takes the free block `(k, b)` and splits it down to
level `p`. -/
structure TakesBlock (heap : DragonDynHeap) (n m size p k b : ℕ) : Prop where
  size_le : size ≤ heap.biggestBlock
  power : powerof2 size (2 ^ m) = some p
  fits : size ≤ 2 ^ (m + p)
  le : p ≤ k
  inRange : InRange n (k, b)
  free : heap.freeMap k b = true
  search : splitSearch heap (n - 1 - p) p = (k, .ok b)

/-- **What a malloc does.**  It fails and leaves the heap as it is, or it takes the
block that the search finds. -/
theorem dragonHeapMalloc_cases (h : HeapShape heap n m) (size : ℕ) :
    (∃ e, dragonHeapMalloc heap size = some (.error e, heap)) ∨
    ∃ p k b, TakesBlock heap n m size p k b ∧
      dragonHeapMalloc heap size
        = some (.ok (b * 2 ^ (k - p) * 2 ^ (m + p)), heap.afterSplit p k b) := by
  have hlim := h.power_le
  have hpos := h.num_pos
  by_cases hbig : heap.biggestBlock < size
  · left
    refine ⟨.dynheapRequestedSizeTooLarge, ?_⟩
    unfold dragonHeapMalloc
    rw [h.segmentSize_eq, if_neg (Nat.two_pow_pos m).ne', if_pos hbig]
  · have hsize : size ≤ 2 ^ (m + (n - 1)) := by have := h.biggestBlock_le; omega
    obtain ⟨p, hpn, hpower, hle, -⟩ := powerof2_eq (by omega) hsize
    have hp : p < n := by omega
    rcases hsearch : splitSearch heap (n - 1 - p) p with ⟨k, e | b⟩
    · left
      have hsplit : heap.split p = (.error e, heap) := by
        unfold DragonDynHeap.split
        rw [h.numBlockSizes_eq, hsearch]
      have hmalloc : ∃ e', dragonHeapMalloc heap size = some (.error e', heap) := by
        unfold dragonHeapMalloc
        rw [h.segmentSize_eq, h.numBlockSizes_eq, if_neg (Nat.two_pow_pos m).ne', if_neg hbig,
          hpower]
        simp only [Option.map_some]
        rw [if_neg (by omega), hsplit]
        cases e <;> exact ⟨_, rfl⟩
      exact hmalloc
    · right
      obtain ⟨hpk, hr, hfree, -⟩ := split_eq h hp hsearch
      exact ⟨p, k, b, ⟨by omega, hpower, hle, hpk, hr, hfree, hsearch⟩,
        dragonHeapMalloc_of_search h (by omega) hpower hp hsearch⟩

end Split

/-! ## `_free_and_merge` -/

section Merge

variable {heap : DragonDynHeap} {n m p b : ℕ}

/-- The block over the block after one join. -/
theorem div_two_div_pow {q : ℕ} (h : p + 1 ≤ q) :
    b / 2 / 2 ^ (q - (p + 1)) = b / 2 ^ (q - p) := by
  rw [Nat.div_div_eq_div_mul, ← pow_succ', show q - (p + 1) + 1 = q - p by omega]

/-- One more buddy leaves the free sets. -/
theorem afterRaise_setFree {q : ℕ} (h : p + 1 ≤ q) :
    (heap.setFree p ((heap.free p).withoutBit (sibling b))).afterRaise (p + 1) q (b / 2)
      = heap.afterRaise p q b := by
  show DragonDynHeap.mk _ _ _ _ _ _ _ = DragonDynHeap.mk _ _ _ _ _ _ _
  congr 1
  funext j
  by_cases hj : j = p
  · subst hj
    rw [if_neg (by omega), if_pos (by omega)]
    simp [DragonDynHeap.setFree]
  · have hother : (heap.setFree p ((heap.free p).withoutBit (sibling b))).free j
        = heap.free j := by simp [DragonDynHeap.setFree, hj]
    rw [hother]
    by_cases hrange : p + 1 ≤ j ∧ j < q
    · rw [if_pos hrange, if_pos (by omega), div_two_div_pow hrange.1]
    · rw [if_neg hrange, if_neg (by omega)]

theorem afterRaise_self (heap : DragonDynHeap) (p b : ℕ) : heap.afterRaise p p b = heap := by
  have hnone : ∀ j, ¬ (p ≤ j ∧ j < p) := by omega
  unfold DragonDynHeap.afterRaise
  simp only [if_neg (hnone _)]

/-- The last step of `_free_and_merge`. -/
theorem setFreeBit_afterRaise (h : HeapShape heap n m) (hr : InRange n (p, b)) {q : ℕ}
    (hpq : p ≤ q) (hqn : q < n) :
    (heap.afterRaise p q b).setFreeBit q (b / 2 ^ (q - p))
      = (.ok (), heap.afterJoin p q b) := by
  have hsame : (heap.afterRaise p q b).free q = heap.free q := by
    simp [DragonDynHeap.afterRaise]
  unfold DragonDynHeap.setFreeBit
  rw [hsame, dragonBitsetSet_eq_withBit (h.lt_size (hr.upper hpq hqn))]
  rfl

/-- The merging loop joins the block with free buddies that are not preallocated, up to
the top or to the first level without one. -/
theorem mergeLoop_eq (h : HeapShape heap n m) (hr : InRange n (p, b)) (fuel : ℕ)
    (hfuel : n ≤ p + fuel) :
    ∃ q, p ≤ q ∧ q < n ∧
      (∀ j, p ≤ j → j < q → heap.freeMap j (sibling (b / 2 ^ (j - p))) = true ∧
        heap.preMap (sibling (b / 2 ^ (j - p)) * 2 ^ j) = false) ∧
      (q + 1 < n → heap.freeMap q (sibling (b / 2 ^ (q - p))) = true →
        heap.preMap (sibling (b / 2 ^ (q - p)) * 2 ^ q) = true) ∧
      mergeLoop fuel heap p (2 ^ (m + p)) b
        = (.ok (q, b / 2 ^ (q - p)), heap.afterRaise p q b) := by
  induction fuel generalizing heap p b with
  | zero =>
    have := hr.1
    simp only at this
    omega
  | succ fuel ih =>
    have hpn : p < n := hr.1
    unfold mergeLoop
    rw [h.numBlockSizes_eq]
    by_cases htop : p < n - 1
    · have hsib : InRange n (p, sibling b) := hr.sibling (by omega)
      have hseg : sibling b * 2 ^ (m + p) / heap.segmentSize = sibling b * 2 ^ p := by
        rw [h.segmentSize_eq, pow_add, mul_comm (2 ^ m), ← mul_assoc]
        exact Nat.mul_div_cancel _ (Nat.two_pow_pos m)
      have hpre : dragonBitsetGet heap.preallocated (sibling b * 2 ^ p)
          = .ok (heap.preMap (sibling b * 2 ^ p)) := by
        apply dragonBitsetGet_of_lt
        rw [h.preallocated_size]
        exact lt_of_div_eq hsib (mul_pow_div_pow _ p)
      have hget : dragonBitsetGet (heap.free p) (sibling b)
          = .ok (heap.freeMap p (sibling b)) := dragonBitsetGet_of_lt (h.lt_size hsib)
      have hreset := dragonBitsetReset_eq_withoutBit (h.lt_size hsib)
      rw [if_pos htop]
      simp only [buddy_eq_sibling, hseg, hpre, hget, hreset]
      by_cases hgo : (heap.freeMap p (sibling b) && !heap.preMap (sibling b * 2 ^ p)) = true
      · rw [if_pos hgo]
        have hshape := h.setFree p (size_withoutBit (heap.free p) (sibling b))
        obtain ⟨q, hpq, hqn, hway, hstop, hloop⟩ :=
          ih hshape (hr.parent (by omega)) (by omega)
        -- the levels above `p` are those of the heap before
        have hsame : ∀ j, p < j → ∀ c,
            (heap.setFree p ((heap.free p).withoutBit (sibling b))).freeMap j c
              = heap.freeMap j c := by
          intro j hj c
          unfold freeMap DragonDynHeap.setFree
          simp [show j ≠ p by omega]
        have hpower : 2 ^ (m + p) * 2 = 2 ^ (m + (p + 1)) := by rw [← pow_succ]; rfl
        refine ⟨q, by omega, hqn, ?_, ?_, ?_⟩
        · intro j hpj hjq
          rcases Nat.eq_or_lt_of_le hpj with rfl | hlt
          · simpa using hgo
          · have := hway j hlt hjq
            rw [hsame j hlt, div_two_div_pow hlt] at this
            exact this
        · intro hq hF
          have := hstop hq
          rw [hsame q (by omega), div_two_div_pow hpq] at this
          exact this hF
        · rw [hpower, hloop, afterRaise_setFree hpq, div_two_div_pow hpq]
      · rw [if_neg hgo]
        refine ⟨p, le_rfl, hpn, fun j h1 h2 => by omega, ?_, ?_⟩
        · intro _ hF
          simp only [Nat.sub_self, pow_zero, Nat.div_one] at hF ⊢
          simpa [hF] using hgo
        · rw [afterRaise_self]
          simp
    · rw [if_neg htop]
      refine ⟨p, le_rfl, hpn, fun j h1 h2 => by omega, fun h1 => by omega, ?_⟩
      rw [afterRaise_self]
      simp

/-- Freeing a block joins it up to some level: with buddies that are free and not
preallocated, and not at all if the block is preallocated itself. -/
structure JoinsUpTo (heap : DragonDynHeap) (n p b q : ℕ) : Prop where
  le : p ≤ q
  lt : q < n
  way : ∀ j, p ≤ j → j < q → heap.freeMap j (sibling (b / 2 ^ (j - p))) = true ∧
    heap.preMap (sibling (b / 2 ^ (j - p)) * 2 ^ j) = false
  stop : q + 1 < n → heap.freeMap q (sibling (b / 2 ^ (q - p))) = true →
    heap.preMap (b / 2 ^ (q - p) * 2 ^ q) = true ∨
      heap.preMap (sibling (b / 2 ^ (q - p)) * 2 ^ q) = true
  marked : heap.preMap (b * 2 ^ p) = true → q = p

/-- **What a free does.**  Freeing a block that is not free succeeds and joins the
block. -/
theorem dragonHeapFree_eq (h : HeapShape heap n m) {size : ℕ} (hr : InRange n (p, b))
    (hpower : powerof2 size (2 ^ m) = some p) (hsize : size ≤ 2 ^ (m + (n - 1)))
    (hfree : heap.freeMap p b = false) :
    ∃ q, JoinsUpTo heap n p b q ∧
      dragonHeapFree heap (b * 2 ^ (m + p)) size = some (.ok (), heap.afterJoin p q b) := by
  have hlim := h.power_le
  have hpn : p < n := hr.1
  have hoff : b * 2 ^ (m + p) ≤ 2 ^ (m + (n - 1)) := by
    have hlt := lt_of_div_eq hr (mul_pow_div_pow b p)
    have hmul : b * 2 ^ (m + p) = 2 ^ m * (b * 2 ^ p) := by
      rw [pow_add]
      exact Nat.mul_left_comm b (2 ^ m) (2 ^ p)
    rw [hmul, pow_add]
    exact Nat.mul_le_mul_left _ hlt.le
  have hbsize : 2 ^ m * ipow 2 p = 2 ^ (m + p) := by rw [ipow_two (by omega), pow_add]
  have hsegment : b * 2 ^ (m + p) / 2 ^ m = b * 2 ^ p := by
    rw [pow_add, mul_comm (2 ^ m), ← mul_assoc]
    exact Nat.mul_div_cancel _ (Nat.two_pow_pos m)
  have hnot : ¬ dragonBitsetGet (heap.free p) b = .ok true := by
    rw [dragonBitsetGet_of_lt (h.lt_size hr)]
    intro hok
    have : heap.freeMap p b = true := Except.ok.inj hok
    rw [hfree] at this
    cases this
  have hpre : dragonBitsetGet heap.preallocated (b * 2 ^ p)
      = .ok (heap.preMap (b * 2 ^ p)) := by
    apply dragonBitsetGet_of_lt
    rw [h.preallocated_size]
    exact lt_of_div_eq hr (mul_pow_div_pow b p)
  have hcall : dragonHeapFree heap (b * 2 ^ (m + p)) size
      = heap.freeAndMerge (b * 2 ^ (m + p)) size := by
    unfold dragonHeapFree
    rw [h.segmentSize_eq, h.totalSize_eq, if_neg (Nat.two_pow_pos m).ne', if_neg (by omega),
      if_neg (by omega)]
  rw [hcall]
  unfold DragonDynHeap.freeAndMerge
  simp only [h.segmentSize_eq, h.numBlockSizes_eq, hpower, Option.map_some, hbsize,
    mul_pow_div_pow, hsegment, hpre, if_neg hnot]
  cases hmark : heap.preMap (b * 2 ^ p) with
  | true =>
    refine ⟨p, ⟨le_rfl, hpn, fun j h1 h2 => by omega, ?_, fun _ => rfl⟩, ?_⟩
    · intro _ _
      left
      simpa using hmark
    · have hput := setFreeBit_afterRaise h hr le_rfl hpn
      rw [afterRaise_self] at hput
      simpa using hput
  | false =>
    obtain ⟨q, hpq, hqn, hway, hstop, hloop⟩ := mergeLoop_eq h hr n (by omega)
    refine ⟨q, ⟨hpq, hqn, hway, fun h1 h2 => Or.inr (hstop h1 h2), ?_⟩, ?_⟩
    · intro hm
      rw [hmark] at hm
      cases hm
    · simp only [hloop, setFreeBit_afterRaise h hr hpq hqn]

end Merge
