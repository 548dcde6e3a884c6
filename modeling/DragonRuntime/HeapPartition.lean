/-
# The partition of the heap

The system: a heap together with the list of live allocations.  A malloc that
succeeds adds its offset and size to the list, a free of a live allocation removes it.

The invariant `HeapInv` says that the free blocks and the blocks of the live
allocations tile the heap.  Initialisation establishes it for every array of
preallocations, and every call keeps it; in bytes it is the partition of
`dragonHeap_partition`.
-/
import DragonRuntime.HeapSteps
import DragonRuntime.Runs

open Buddy DragonDynHeap

/-! ## The system -/

/-- A call of the user API. -/
inductive HeapOp : Type where
  | malloc (size : ℕ)
  | free (offset size : ℕ)
  deriving DecidableEq, Repr

/-- One call.  A call that does not return would leave the state as it is; no reachable
state has one. -/
def heapStep (s : DragonDynHeap × List (ℕ × ℕ)) : HeapOp → DragonDynHeap × List (ℕ × ℕ)
  | .malloc size =>
    match dragonHeapMalloc s.1 size with
    | some (.ok offset, heap) => (heap, (offset, size) :: s.2)
    | some (.error _, heap) => (heap, s.2)
    | none => s
  | .free offset size =>
    match dragonHeapFree s.1 offset size with
    | some (.ok (), heap) => (heap, s.2.erase (offset, size))
    | some (.error _, heap) => (heap, s.2)
    | none => s

/-- A free passes the offset and the size of a live allocation. -/
def FreesLive (s : DragonDynHeap × List (ℕ × ℕ)) : HeapOp → Prop
  | .malloc _ => True
  | .free offset size => (offset, size) ∈ s.2

/-! ## The invariant -/

/-- The block of an allocation. -/
def liveBlock (m : ℕ) (alloc : ℕ × ℕ) : ℕ × ℕ :=
  ((powerof2 alloc.2 (2 ^ m)).getD 0,
    alloc.1 / 2 ^ (m + (powerof2 alloc.2 (2 ^ m)).getD 0))

/-- The allocation is block `(p, b)`. -/
structure AllocatedAt (n m : ℕ) (alloc : ℕ × ℕ) (p b : ℕ) : Prop where
  power : powerof2 alloc.2 (2 ^ m) = some p
  size_le : alloc.2 ≤ 2 ^ (m + p)
  inRange : InRange n (p, b)
  offset_eq : alloc.1 = b * 2 ^ (m + p)

theorem AllocatedAt.liveBlock_eq {n m p b : ℕ} {alloc : ℕ × ℕ}
    (h : AllocatedAt n m alloc p b) : liveBlock m alloc = (p, b) := by
  unfold liveBlock
  rw [h.power, h.offset_eq]
  simp

/-- The free blocks and the live blocks tile the heap. -/
structure HeapInv (heap : DragonDynHeap) (n m : ℕ) (live : List (ℕ × ℕ)) : Prop where
  shape : HeapShape heap n m
  tiling : Tiling heap.freeMap n (live.map (liveBlock m))
  alive : ∀ alloc ∈ live, ∃ p b, AllocatedAt n m alloc p b

section Invariant

variable {heap heap' : DragonDynHeap} {n m : ℕ} {live : List (ℕ × ℕ)}

theorem HeapInv.perm {live' : List (ℕ × ℕ)} (h : HeapInv heap n m live)
    (hp : live.Perm live') : HeapInv heap n m live' :=
  ⟨h.shape, h.tiling.perm (hp.map _), fun alloc ha => h.alive alloc (hp.mem_iff.mpr ha)⟩

theorem HeapInv.mark (h : HeapInv heap n m live) {set : DragonBitSet}
    (hset : set.size = heap.preallocated.size) :
    HeapInv { heap with preallocated := set } n m live :=
  ⟨⟨h.shape.num_pos, h.shape.power_le, h.shape.numBlockSizes_eq, h.shape.segmentSize_eq,
    h.shape.totalSize_eq, h.shape.biggestBlock_le, h.shape.free_size,
    hset.trans h.shape.preallocated_size⟩, h.tiling, h.alive⟩

/-- **One malloc.**  It returns; if it succeeds it hands out a block, and the heap
with the new allocation keeps the invariant. -/
theorem HeapInv.malloc (h : HeapInv heap n m live) (size : ℕ) :
    (∃ e, dragonHeapMalloc heap size = some (.error e, heap)) ∨
    ∃ p k b, TakesBlock heap n m size p k b ∧
      dragonHeapMalloc heap size
        = some (.ok (b * 2 ^ (k - p) * 2 ^ (m + p)), heap.afterSplit p k b) ∧
      AllocatedAt n m (b * 2 ^ (k - p) * 2 ^ (m + p), size) p (b * 2 ^ (k - p)) ∧
      HeapInv (heap.afterSplit p k b) n m ((b * 2 ^ (k - p) * 2 ^ (m + p), size) :: live) := by
  rcases dragonHeapMalloc_cases h.shape size with herr | ⟨p, k, b, htake, hmalloc⟩
  · exact Or.inl herr
  · have halloc : AllocatedAt n m (b * 2 ^ (k - p) * 2 ^ (m + p), size) p (b * 2 ^ (k - p)) :=
      ⟨htake.power, htake.fits, htake.inRange.lower htake.le, rfl⟩
    refine Or.inr ⟨p, k, b, htake, hmalloc, halloc, h.shape.afterSplit p k b, ?_, ?_⟩
    · rw [List.map_cons, halloc.liveBlock_eq, h.shape.freeMap_afterSplit htake.inRange]
      exact h.tiling.takeDown htake.free htake.inRange htake.le
    · intro alloc ha
      rcases List.mem_cons.mp ha with rfl | ha
      · exact ⟨_, _, halloc⟩
      · exact h.alive alloc ha

/-- **One free.**  Freeing a live allocation succeeds, and the heap without it keeps
the invariant. -/
theorem HeapInv.free {alloc : ℕ × ℕ} (h : HeapInv heap n m (alloc :: live)) :
    ∃ p b q, AllocatedAt n m alloc p b ∧ JoinsUpTo heap n p b q ∧
      dragonHeapFree heap alloc.1 alloc.2 = some (.ok (), heap.afterJoin p q b) ∧
      HeapInv (heap.afterJoin p q b) n m live := by
  obtain ⟨p, b, halloc⟩ := h.alive alloc List.mem_cons_self
  have htile := h.tiling
  rw [List.map_cons, halloc.liveBlock_eq] at htile
  have hfree := htile.head_eq_false halloc.inRange
  have hp : p ≤ n - 1 := by have := halloc.inRange.1; simp only at this; omega
  have hsize : alloc.2 ≤ 2 ^ (m + (n - 1)) :=
    halloc.size_le.trans (Nat.pow_le_pow_right (by omega) (by omega))
  obtain ⟨q, hjoin, hcall⟩ :=
    dragonHeapFree_eq h.shape halloc.inRange halloc.power hsize hfree
  refine ⟨p, b, q, halloc, hjoin, ?_, h.shape.afterJoin p q b, ?_, ?_⟩
  · rw [halloc.offset_eq]
    exact hcall
  · rw [h.shape.freeMap_afterJoin halloc.inRange hjoin.le hjoin.lt]
    exact htile.putUp halloc.inRange hjoin.le hjoin.lt fun j h1 h2 => (hjoin.way j h1 h2).1
  · intro a ha
    exact h.alive a (List.mem_cons_of_mem alloc ha)

/-- The invariant with a live allocation in front. -/
theorem HeapInv.cons_erase {alloc : ℕ × ℕ} (h : HeapInv heap n m live) (ha : alloc ∈ live) :
    HeapInv heap n m (alloc :: live.erase alloc) :=
  h.perm (List.perm_cons_erase ha)

/-- **What one call does** in a state with the invariant: a malloc fails and changes
nothing, a malloc takes a block, or a free joins a block. -/
theorem HeapInv.step_cases {s : DragonDynHeap × List (ℕ × ℕ)} {op : HeapOp}
    (h : HeapInv s.1 n m s.2) (hop : FreesLive s op) :
    (∃ size, op = .malloc size ∧ heapStep s op = s) ∨
    (∃ size p k b, op = .malloc size ∧ TakesBlock s.1 n m size p k b ∧
      AllocatedAt n m (b * 2 ^ (k - p) * 2 ^ (m + p), size) p (b * 2 ^ (k - p)) ∧
      heapStep s op
        = (s.1.afterSplit p k b, (b * 2 ^ (k - p) * 2 ^ (m + p), size) :: s.2)) ∨
    ∃ offset size p b q, op = .free offset size ∧ (offset, size) ∈ s.2 ∧
      AllocatedAt n m (offset, size) p b ∧ JoinsUpTo s.1 n p b q ∧
      heapStep s op = (s.1.afterJoin p q b, s.2.erase (offset, size)) := by
  cases op with
  | malloc size =>
    rcases h.malloc size with ⟨e, he⟩ | ⟨p, k, b, htake, hcall, halloc, -⟩
    · exact Or.inl ⟨size, rfl, by simp only [heapStep, he]⟩
    · exact Or.inr (Or.inl ⟨size, p, k, b, rfl, htake, halloc, by
        simp only [heapStep, hcall]⟩)
  | free offset size =>
    have hmem : (offset, size) ∈ s.2 := hop
    obtain ⟨p, b, q, halloc, hjoin, hcall, -⟩ := (h.cons_erase hmem).free
    simp only at hcall
    exact Or.inr (Or.inr ⟨offset, size, p, b, q, rfl, hmem, halloc, hjoin, by
      simp only [heapStep, hcall]⟩)

/-- **One call** keeps the invariant. -/
theorem HeapInv.step {s : DragonDynHeap × List (ℕ × ℕ)} {op : HeapOp}
    (h : HeapInv s.1 n m s.2) (hop : FreesLive s op) :
    HeapInv (heapStep s op).1 n m (heapStep s op).2 := by
  cases op with
  | malloc size =>
    rcases h.malloc size with ⟨e, he⟩ | ⟨p, k, b, -, hcall, -, hinv⟩
    · simpa only [heapStep, he] using h
    · simpa only [heapStep, hcall] using hinv
  | free =>
    obtain ⟨p, b, q, -, -, hcall, hinv⟩ := (h.cons_erase hop).free
    simp only at hcall
    simpa only [heapStep, hcall] using hinv

end Invariant

/-! ## Initialisation -/

section Init

variable {n m : ℕ}

/-- The free sets before preallocation are cleared, and the top one has bit `0`. -/
theorem free_heapInitBase (mem : ℕ → ℕ → BitVec 8) (premem : ℕ → BitVec 8)
    (maxPower minPower k : ℕ) :
    (heapInitBase mem premem maxPower minPower).free k
      = if k = maxPower - minPower then
          (dragonBitsetInit (mem k) (2 ^ (maxPower - minPower) / 2 ^ k)).withBit 0
        else dragonBitsetInit (mem k) (2 ^ (maxPower - minPower) / 2 ^ k) := by
  have htop : 0 < (dragonBitsetInit (mem (maxPower - minPower))
      (2 ^ (maxPower - minPower) / 2 ^ (maxPower - minPower))).size := by
    show 0 < 2 ^ (maxPower - minPower) / 2 ^ (maxPower - minPower)
    rw [Nat.div_self (Nat.two_pow_pos _)]
    exact Nat.one_pos
  unfold heapInitBase
  simp only [Nat.add_sub_cancel, dragonBitsetSet_eq_withBit htop]
  by_cases hk : k = maxPower - minPower
  · subst hk
    rw [Function.update_self, if_pos rfl]
  · rw [Function.update_of_ne hk, if_neg hk]

variable {maxPower minPower : ℕ} {heap : DragonDynHeap}

theorem size_free_heapInitBase (mem : ℕ → ℕ → BitVec 8) (premem : ℕ → BitVec 8) {k : ℕ}
    (hk : k ≤ maxPower - minPower) :
    ((heapInitBase mem premem maxPower minPower).free k).size
      = 2 ^ (maxPower - minPower - k) := by
  have hdiv : 2 ^ (maxPower - minPower) / 2 ^ k = 2 ^ (maxPower - minPower - k) :=
    Nat.pow_div hk (by omega)
  rw [free_heapInitBase, hdiv]
  split
  · rw [size_withBit]
    rfl
  · rfl

/-- Before preallocation block `0` of the top level is free, and nothing else. -/
theorem freeMap_heapInitBase (mem : ℕ → ℕ → BitVec 8) (premem : ℕ → BitVec 8) {k b : ℕ}
    (hr : InRange (maxPower - minPower + 1) (k, b)) :
    (heapInitBase mem premem maxPower minPower).freeMap k b
      = decide (k = maxPower - minPower) := by
  obtain ⟨hk, hb⟩ := hr
  simp only [Nat.add_sub_cancel] at hk hb
  have hdiv : 2 ^ (maxPower - minPower) / 2 ^ k = 2 ^ (maxPower - minPower - k) :=
    Nat.pow_div (by omega) (by omega)
  have hclear : (dragonBitsetInit (mem k) (2 ^ (maxPower - minPower - k))).bit b = false :=
    bit_dragonBitsetClear _ hb
  unfold freeMap
  rw [free_heapInitBase, hdiv]
  by_cases hkn : k = maxPower - minPower
  · rw [if_pos hkn, bit_withBit (Nat.two_pow_pos _), hclear]
    rw [hkn, Nat.sub_self, pow_zero] at hb
    have hb0 : b = 0 := by omega
    simp [hb0, hkn]
  · rw [if_neg hkn, hclear]
    simp [hkn]

/-- No segment is marked before preallocation. -/
theorem preMap_heapInitBase (mem : ℕ → ℕ → BitVec 8) (premem : ℕ → BitVec 8) {s : ℕ}
    (hs : s < 2 ^ (maxPower - minPower)) :
    (heapInitBase mem premem maxPower minPower).preMap s = false := by
  unfold preMap heapInitBase
  apply bit_dragonBitsetClear
  simpa using hs

theorem heapShape_heapInitBase (mem : ℕ → ℕ → BitVec 8) (premem : ℕ → BitVec 8)
    (hpow : minPower ≤ maxPower) (hmax : maxPower ≤ 62) :
    HeapShape (heapInitBase mem premem maxPower minPower) (maxPower - minPower + 1)
      minPower := by
  have htotal : 2 ^ (maxPower - minPower) * 2 ^ minPower
      = 2 ^ (minPower + (maxPower - minPower + 1 - 1)) := by
    rw [← pow_add]
    congr 1
    omega
  refine ⟨by omega, by omega, rfl, rfl, htotal, htotal.le, ?_, rfl⟩
  intro k hk
  exact size_free_heapInitBase mem premem (by omega)

/-- Before preallocation the whole heap is one free block. -/
theorem heapInv_heapInitBase (mem : ℕ → ℕ → BitVec 8) (premem : ℕ → BitVec 8)
    (hpow : minPower ≤ maxPower) (hmax : maxPower ≤ 62) :
    HeapInv (heapInitBase mem premem maxPower minPower) (maxPower - minPower + 1)
      minPower [] := by
  refine ⟨heapShape_heapInitBase mem premem hpow hmax, ?_, by simp⟩
  intro s hs
  have hcover : ((Finset.range (maxPower - minPower + 1)).filter fun k =>
      (heapInitBase mem premem maxPower minPower).freeMap k (s / 2 ^ k) = true)
      = {maxPower - minPower} := by
    ext k
    rw [Finset.mem_filter, Finset.mem_range, Finset.mem_singleton]
    constructor
    · rintro ⟨hk, hF⟩
      rw [freeMap_heapInitBase mem premem (inRange_of_lt hs hk)] at hF
      simpa using hF
    · rintro rfl
      refine ⟨by omega, ?_⟩
      rw [freeMap_heapInitBase mem premem (inRange_of_lt hs (by omega))]
      simp
  unfold cover
  rw [hcover]
  simp [held]

variable {P : DragonDynHeap → List (ℕ × ℕ) → Prop}

/-- One round of the preallocation loops keeps `P`. -/
def KeptByPrealloc (P : DragonDynHeap → List (ℕ × ℕ) → Prop) : Prop :=
  ∀ heap allocations size, P heap allocations →
    (∃ e, dragonHeapMalloc heap size = some (.error e, heap)) ∨
    ∃ offset heap' set, dragonHeapMalloc heap size = some (.ok offset, heap') ∧
      dragonBitsetSet heap'.preallocated (offset / heap'.segmentSize) = .ok set ∧
      P { heap' with preallocated := set } (allocations ++ [(offset, size)])

/-- **Invariant rule for the inner preallocation loop.** -/
theorem preallocateLevel_invariant (hP : KeptByPrealloc P) (size count : ℕ)
    {allocations : List (ℕ × ℕ)} (h : P heap allocations) :
    ∃ r, preallocateLevel size count heap allocations = some r ∧
      ∀ heap' allocations', r = .ok (heap', allocations') → P heap' allocations' := by
  induction count generalizing heap allocations with
  | zero =>
    refine ⟨_, rfl, ?_⟩
    intro heap' allocations' heq
    cases heq
    exact h
  | succ count ih =>
    rcases hP heap allocations size h with ⟨e, he⟩ | ⟨offset, heap', set, hmalloc, hset, hP'⟩
    · refine ⟨.error e, ?_, fun _ _ heq => by cases heq⟩
      unfold preallocateLevel
      rw [he]
    · obtain ⟨r, hr, hok⟩ := ih hP'
      refine ⟨r, ?_, hok⟩
      unfold preallocateLevel
      rw [hmalloc]
      simp only [hset]
      exact hr

/-- **Invariant rule for the preallocation loops.** -/
theorem preallocateLevels_invariant (hP : KeptByPrealloc P) (counts : ℕ → ℕ) (k size : ℕ)
    {allocations : List (ℕ × ℕ)} (h : P heap allocations) :
    ∃ r, preallocateLevels counts k size heap allocations = some r ∧
      ∀ heap' allocations', r = .ok (heap', allocations') → P heap' allocations' := by
  induction k generalizing size heap allocations with
  | zero =>
    refine ⟨_, rfl, ?_⟩
    intro heap' allocations' heq
    cases heq
    exact h
  | succ k ih =>
    obtain ⟨r, hr, hok⟩ := preallocateLevel_invariant hP size (counts k) h
    unfold preallocateLevels
    rw [hr]
    cases r with
    | error e => exact ⟨.error e, rfl, fun _ _ heq => by cases heq⟩
    | ok r => exact ih (size / 2) (hok r.1 r.2 rfl)

/-- **Invariant rule for the loop that frees the preallocations.** -/
theorem freeAllocations_invariant (hP : ∀ heap alloc rest, P heap (alloc :: rest) →
      ∃ heap', dragonHeapFree heap alloc.1 alloc.2 = some (.ok (), heap') ∧ P heap' rest)
    (allocations : List (ℕ × ℕ)) (h : P heap allocations) :
    ∃ heap', freeAllocations allocations heap = some (.ok heap') ∧ P heap' [] := by
  induction allocations generalizing heap with
  | nil => exact ⟨heap, rfl, h⟩
  | cons alloc rest ih =>
    obtain ⟨heap', hfree, hP'⟩ := hP heap alloc rest h
    obtain ⟨heap'', hrest, hP''⟩ := ih hP'
    refine ⟨heap'', ?_, hP''⟩
    unfold freeAllocations
    rw [hfree]
    exact hrest

theorem keptByPrealloc_heapInv (n m : ℕ) :
    KeptByPrealloc fun heap allocations => HeapInv heap n m allocations := by
  intro heap allocations size h
  rcases h.malloc size with herr | ⟨p, k, b, -, hcall, halloc, hinv⟩
  · exact Or.inl herr
  · have hseg : (heap.afterSplit p k b).segmentSize = 2 ^ m := hinv.shape.segmentSize_eq
    have hfirst : b * 2 ^ (k - p) * 2 ^ (m + p) / 2 ^ m
        < (heap.afterSplit p k b).preallocated.size := by
      rw [hinv.shape.preallocated_size, pow_add, mul_comm (2 ^ m), ← mul_assoc,
        Nat.mul_div_cancel _ (Nat.two_pow_pos m)]
      exact lt_of_div_eq halloc.inRange (mul_pow_div_pow _ p)
    refine Or.inr ⟨_, _, (heap.afterSplit p k b).preallocated.withBit
      (b * 2 ^ (k - p) * 2 ^ (m + p) / 2 ^ m), hcall, ?_, ?_⟩
    · rw [hseg]
      exact dragonBitsetSet_eq_withBit hfirst
    · exact (hinv.mark (size_withBit _ _)).perm (List.perm_append_singleton _ _).symm

theorem biggestFreeBlock_le (h : HeapShape heap n m) {biggest : ℕ}
    (hbig : biggest ≤ 2 ^ (m + (n - 1))) (k : ℕ) (hk : k ≤ n) :
    biggestFreeBlock heap biggest k ≤ 2 ^ (m + (n - 1)) := by
  induction k with
  | zero => exact hbig
  | succ k ih =>
    unfold biggestFreeBlock
    split
    · rw [h.segmentSize_eq, ← pow_add]
      exact Nat.pow_le_pow_right (by omega) (by omega)
    · exact ih (by omega)

/-- **What initialisation returns.**  A result that is reported as a success comes from
a heap before preallocation, by preallocations (which keep `P`) and by frees (which keep
`Q`) that all succeeded; so `Q` holds of the heap with nothing live. -/
theorem dragonHeapInit_invariant {Q : DragonDynHeap → List (ℕ × ℕ) → Prop}
    (hP : KeptByPrealloc P) (hPQ : ∀ heap allocations, P heap allocations → Q heap allocations)
    (hfree : ∀ heap alloc rest, Q heap (alloc :: rest) →
      ∃ heap', dragonHeapFree heap alloc.1 alloc.2 = some (.ok (), heap') ∧ Q heap' rest)
    (mem : ℕ → ℕ → BitVec 8) (premem : ℕ → BitVec 8) (maxPower minPower : ℕ)
    (hbase : P (heapInitBase mem premem maxPower minPower) [])
    (preallocated : Option (ℕ → ℕ)) :
    ∃ r, dragonHeapInit mem premem maxPower minPower preallocated = some r ∧
      ∀ heap, r = .ok heap → ∃ heap', Q heap' [] ∧
        heap = { heap' with
          biggestBlock := biggestFreeBlock heap' heap'.biggestBlock heap'.numBlockSizes } := by
  unfold dragonHeapInit
  by_cases hmax : blockSizeMaxPower < maxPower
  · rw [if_pos hmax]
    exact ⟨_, rfl, fun _ heq => by cases heq⟩
  rw [if_neg hmax]
  by_cases hmin : minPower < blockSizeMinPower
  · rw [if_pos hmin]
    exact ⟨_, rfl, fun _ heq => by cases heq⟩
  rw [if_neg hmin]
  cases preallocated with
  | none =>
    refine ⟨_, rfl, ?_⟩
    intro heap heq
    cases heq
    exact ⟨_, hPQ _ _ hbase, rfl⟩
  | some counts =>
    obtain ⟨r, hr, hok⟩ := preallocateLevels_invariant hP counts
      (heapInitBase mem premem maxPower minPower).numBlockSizes (2 ^ maxPower) hbase
    simp only [hr]
    cases r with
    | error e => exact ⟨_, rfl, fun _ heq => by cases heq⟩
    | ok r =>
      obtain ⟨heap', hall, hP'⟩ := freeAllocations_invariant hfree r.2
        (hPQ _ _ (hok r.1 r.2 rfl))
      simp only [hall, Option.map_some]
      refine ⟨_, rfl, ?_⟩
      intro heap heq
      cases heq
      exact ⟨heap', hP', rfl⟩

/-- **Initialisation establishes the invariant**, with nothing live. -/
theorem heapInv_of_init {mem : ℕ → ℕ → BitVec 8} {premem : ℕ → BitVec 8}
    (hpow : minPower ≤ maxPower) {preallocated : Option (ℕ → ℕ)}
    (hinit : dragonHeapInit mem premem maxPower minPower preallocated = some (.ok heap)) :
    HeapInv heap (maxPower - minPower + 1) minPower [] := by
  have hmax : maxPower ≤ 62 := by
    by_contra hlt
    unfold dragonHeapInit at hinit
    rw [if_pos (by unfold blockSizeMaxPower; omega)] at hinit
    cases hinit
  obtain ⟨r, hr, hok⟩ := dragonHeapInit_invariant
    (keptByPrealloc_heapInv (maxPower - minPower + 1) minPower) (fun _ _ h => h)
    (fun heap alloc rest h => by
      obtain ⟨p, b, q, -, -, hcall, hinv⟩ := h.free
      exact ⟨_, hcall, hinv⟩)
    mem premem maxPower minPower (heapInv_heapInitBase mem premem hpow hmax) preallocated
  rw [hinit] at hr
  cases hr
  obtain ⟨heap', hinv, rfl⟩ := hok heap rfl
  have hs := hinv.shape
  refine ⟨⟨hs.num_pos, hs.power_le, hs.numBlockSizes_eq, hs.segmentSize_eq, hs.totalSize_eq,
    ?_, hs.free_size, hs.preallocated_size⟩, hinv.tiling, hinv.alive⟩
  exact biggestFreeBlock_le hs hs.biggestBlock_le _ hs.numBlockSizes_eq.le

end Init

/-! ## In bytes -/

/-- The bytes of a live allocation: a whole block from its offset on. -/
def liveBytes (heap : DragonDynHeap) (alloc : ℕ × ℕ) : Set ℕ :=
  Set.Ico alloc.1
    (alloc.1 + heap.segmentSize * 2 ^ (powerof2 alloc.2 heap.segmentSize).getD 0)

/-- The bytes of a block. -/
def blockBytes (heap : DragonDynHeap) (block : ℕ × ℕ) : Set ℕ :=
  Set.Ico (block.2 * (heap.segmentSize * 2 ^ block.1))
    (block.2 * (heap.segmentSize * 2 ^ block.1) + heap.segmentSize * 2 ^ block.1)

/-- The bit of the block is set in its free set. -/
def FreeBlock (heap : DragonDynHeap) (block : ℕ × ℕ) : Prop :=
  block.1 < heap.numBlockSizes ∧ dragonBitsetGet (heap.free block.1) block.2 = .ok true

/-- The live allocations and the free blocks partition the bytes of the heap. -/
structure HeapPartition (heap : DragonDynHeap) (live : List (ℕ × ℕ)) : Prop where
  live_power : ∀ alloc ∈ live, ∃ p, powerof2 alloc.2 heap.segmentSize = some p
  live_disjoint : live.Pairwise fun x y => Disjoint (liveBytes heap x) (liveBytes heap y)
  free_disjoint : ∀ x y, FreeBlock heap x → FreeBlock heap y → x ≠ y →
    Disjoint (blockBytes heap x) (blockBytes heap y)
  live_free_disjoint : ∀ alloc ∈ live, ∀ block, FreeBlock heap block →
    Disjoint (liveBytes heap alloc) (blockBytes heap block)
  union_eq : {x | (∃ alloc ∈ live, x ∈ liveBytes heap alloc) ∨
    ∃ block, FreeBlock heap block ∧ x ∈ blockBytes heap block} = Set.Iio heap.totalSize

section Bytes

variable {heap : DragonDynHeap} {n m : ℕ} {live : List (ℕ × ℕ)}

theorem mem_blockBytes_iff (h : HeapShape heap n m) (block : ℕ × ℕ) (x : ℕ) :
    x ∈ blockBytes heap block ↔ x / 2 ^ m / 2 ^ block.1 = block.2 := by
  have hpos : 0 < 2 ^ m * 2 ^ block.1 := Nat.mul_pos (Nat.two_pow_pos m) (Nat.two_pow_pos _)
  have hsucc : block.2 * (2 ^ m * 2 ^ block.1) + 2 ^ m * 2 ^ block.1
      = (block.2 + 1) * (2 ^ m * 2 ^ block.1) := by ring
  unfold blockBytes
  rw [h.segmentSize_eq, Nat.div_div_eq_div_mul, Set.mem_Ico, hsucc,
    ← Nat.le_div_iff_mul_le hpos, ← Nat.div_lt_iff_lt_mul hpos]
  omega

theorem AllocatedAt.liveBytes_eq {alloc : ℕ × ℕ} {p b : ℕ} (ha : AllocatedAt n m alloc p b)
    (h : HeapShape heap n m) : liveBytes heap alloc = blockBytes heap (p, b) := by
  unfold liveBytes blockBytes
  rw [h.segmentSize_eq, ha.power, ha.offset_eq]
  simp only [Option.getD_some, pow_add]

theorem freeBlock_iff (h : HeapShape heap n m) (block : ℕ × ℕ) :
    FreeBlock heap block ↔ InRange n block ∧ heap.freeMap block.1 block.2 = true := by
  unfold FreeBlock InRange
  rw [h.numBlockSizes_eq]
  constructor
  · rintro ⟨hk, hget⟩
    rcases Nat.lt_or_ge block.2 (heap.free block.1).size with hlt | hge
    · rw [dragonBitsetGet_of_lt hlt] at hget
      rw [h.free_size _ hk] at hlt
      exact ⟨⟨hk, hlt⟩, Except.ok.inj hget⟩
    · rw [dragonBitsetGet_of_le hge] at hget
      cases hget
  · rintro ⟨⟨hk, hb⟩, hF⟩
    refine ⟨hk, ?_⟩
    rw [dragonBitsetGet_of_lt (by rw [h.free_size _ hk]; exact hb)]
    exact congrArg Except.ok hF

theorem disjoint_blockBytes (h : HeapShape heap n m) {x y : ℕ × ℕ}
    (hxy : ∀ s, ¬ (s / 2 ^ x.1 = x.2 ∧ s / 2 ^ y.1 = y.2)) :
    Disjoint (blockBytes heap x) (blockBytes heap y) := by
  rw [Set.disjoint_left]
  intro z hx hy
  rw [mem_blockBytes_iff h] at hx hy
  exact hxy (z / 2 ^ m) ⟨hx, hy⟩

/-- A byte of the heap lies in a segment of the heap. -/
theorem lt_totalSize_iff (h : HeapShape heap n m) (x : ℕ) :
    x < heap.totalSize ↔ x / 2 ^ m < 2 ^ (n - 1) := by
  rw [h.totalSize_eq, Nat.div_lt_iff_lt_mul (Nat.two_pow_pos m), pow_add, mul_comm]

/-- **The invariant, in bytes.** -/
theorem HeapInv.partition (h : HeapInv heap n m live) : HeapPartition heap live := by
  have hs := h.shape
  have hblocks : ∀ block ∈ live.map (liveBlock m), InRange n block := by
    intro block hmem
    obtain ⟨alloc, ha, rfl⟩ := List.mem_map.mp hmem
    obtain ⟨p, b, halloc⟩ := h.alive alloc ha
    rw [halloc.liveBlock_eq]
    exact halloc.inRange
  have hbytes : ∀ alloc ∈ live, liveBytes heap alloc = blockBytes heap (liveBlock m alloc) := by
    intro alloc ha
    obtain ⟨p, b, halloc⟩ := h.alive alloc ha
    rw [halloc.liveBlock_eq, halloc.liveBytes_eq hs]
  refine ⟨?_, ?_, ?_, ?_, ?_⟩
  · intro alloc ha
    obtain ⟨p, b, halloc⟩ := h.alive alloc ha
    exact ⟨p, by rw [hs.segmentSize_eq]; exact halloc.power⟩
  · have hpair := h.tiling.pairwise hblocks
    rw [List.pairwise_map] at hpair
    refine hpair.imp_of_mem ?_
    intro x y hx hy hxy
    rw [hbytes x hx, hbytes y hy]
    exact disjoint_blockBytes hs hxy
  · intro x y hx hy hne
    rw [freeBlock_iff hs] at hx hy
    apply disjoint_blockBytes hs
    rintro s ⟨hsx, hsy⟩
    have hlevel : x.1 = y.1 := by
      apply h.tiling.level_unique (lt_of_div_eq hx.1 hsx) hx.1.1 hy.1.1
      · rw [hsx]
        exact hx.2
      · rw [hsy]
        exact hy.2
    exact hne (Prod.ext hlevel (by rw [← hsx, ← hsy, hlevel]))
  · intro alloc ha block hblock
    rw [freeBlock_iff hs] at hblock
    rw [hbytes alloc ha]
    apply disjoint_blockBytes hs
    rintro s ⟨hlive, hfree⟩
    exact h.tiling.disjoint hblock.1 hblock.2 (List.mem_map_of_mem ha) s hfree hlive
  · ext x
    rw [Set.mem_ofPred_eq, Set.mem_Iio, lt_totalSize_iff hs]
    constructor
    · rintro (⟨alloc, ha, hx⟩ | ⟨block, hblock, hx⟩)
      · rw [hbytes alloc ha, mem_blockBytes_iff hs] at hx
        exact lt_of_div_eq (hblocks _ (List.mem_map_of_mem ha)) hx
      · rw [mem_blockBytes_iff hs] at hx
        exact lt_of_div_eq ((freeBlock_iff hs block).mp hblock).1 hx
    · intro hx
      rcases h.tiling.exists_block hx with ⟨k, hk, hF⟩ | ⟨block, hmem, hxb⟩
      · exact Or.inr ⟨(k, x / 2 ^ m / 2 ^ k),
          (freeBlock_iff hs _).mpr ⟨inRange_of_lt hx hk, hF⟩, (mem_blockBytes_iff hs _ x).mpr rfl⟩
      · obtain ⟨alloc, ha, rfl⟩ := List.mem_map.mp hmem
        exact Or.inl ⟨alloc, ha, by rw [hbytes alloc ha, mem_blockBytes_iff hs]; exact hxb⟩

/-- A block handed out by malloc: large enough, aligned, and inside the heap. -/
structure MallocBlock (heap : DragonDynHeap) (size offset : ℕ) : Prop where
  fits : ∃ p, powerof2 size heap.segmentSize = some p ∧ size ≤ heap.segmentSize * 2 ^ p ∧
    heap.segmentSize * 2 ^ p ∣ offset ∧ offset + heap.segmentSize * 2 ^ p ≤ heap.totalSize

theorem AllocatedAt.mallocBlock {size offset p b : ℕ}
    (ha : AllocatedAt n m (offset, size) p b) (h : HeapShape heap n m) :
    MallocBlock heap size offset := by
  have hsize : 2 ^ m * 2 ^ p = 2 ^ (m + p) := (pow_add 2 m p).symm
  refine ⟨p, ?_, ?_, ?_, ?_⟩
  · rw [h.segmentSize_eq]
    exact ha.power
  · rw [h.segmentSize_eq, hsize]
    exact ha.size_le
  · rw [h.segmentSize_eq, hsize]
    exact ⟨b, by rw [mul_comm]; exact ha.offset_eq⟩
  · have hoff : offset = b * 2 ^ (m + p) := ha.offset_eq
    have hb : b + 1 ≤ 2 ^ (n - 1 - p) := ha.inRange.2
    have hp : p < n := ha.inRange.1
    rw [h.segmentSize_eq, h.totalSize_eq, hsize, hoff]
    calc b * 2 ^ (m + p) + 2 ^ (m + p) = (b + 1) * 2 ^ (m + p) := by ring
      _ ≤ 2 ^ (n - 1 - p) * 2 ^ (m + p) := Nat.mul_le_mul_right _ hb
      _ = 2 ^ (m + (n - 1)) := by
          rw [← pow_add]
          congr 1
          omega

end Bytes

/-- **The heap is partitioned.**  In every state that a heap reaches from its
initialisation by mallocs and by frees of live allocations, the live blocks and the
free blocks partition the bytes of the heap; a malloc returns, and a block it hands out
is large enough and aligned to its own size; freeing a live allocation succeeds. -/
theorem dragonHeap_partition (mem : ℕ → ℕ → BitVec 8) (premem : ℕ → BitVec 8)
    (maxPower minPower : ℕ) (hpow : minPower ≤ maxPower) (preallocated : Option (ℕ → ℕ))
    (heap : DragonDynHeap)
    (hinit : dragonHeapInit mem premem maxPower minPower preallocated = some (.ok heap))
    (ops : List HeapOp) (hops : Runs.Legal heapStep FreesLive (heap, []) ops)
    (s : DragonDynHeap × List (ℕ × ℕ)) (hs : s = ops.foldl heapStep (heap, [])) :
    HeapPartition s.1 s.2 ∧
    (∀ size, dragonHeapMalloc s.1 size ≠ none) ∧
    (∀ size offset heap', dragonHeapMalloc s.1 size = some (.ok offset, heap') →
      MallocBlock s.1 size offset) ∧
    ∀ alloc ∈ s.2, ∃ heap', dragonHeapFree s.1 alloc.1 alloc.2 = some (.ok (), heap') := by
  have hinv : HeapInv s.1 (maxPower - minPower + 1) minPower s.2 := by
    rw [hs]
    exact hops.invariant
      (I := fun s => HeapInv s.1 (maxPower - minPower + 1) minPower s.2)
      (fun s op h hop => h.step hop) (heapInv_of_init hpow hinit)
  refine ⟨hinv.partition, ?_, ?_, ?_⟩
  · intro size hnone
    rcases hinv.malloc size with ⟨e, he⟩ | ⟨p, k, b, -, hcall, -⟩
    · rw [hnone] at he
      cases he
    · rw [hnone] at hcall
      cases hcall
  · intro size offset heap' hok
    rcases hinv.malloc size with ⟨e, he⟩ | ⟨p, k, b, -, hcall, halloc, -⟩
    · rw [hok] at he
      cases he
    · rw [hok] at hcall
      obtain ⟨h1, -⟩ := Prod.mk.inj (Option.some.inj hcall)
      rw [Except.ok.inj h1]
      exact halloc.mallocBlock hinv.shape
  · intro alloc ha
    obtain ⟨p, b, q, -, -, hcall, -⟩ := (hinv.cons_erase ha).free
    exact ⟨_, hcall⟩

/-- The heap that a successful initialisation returns. -/
def initialHeap (mem : ℕ → ℕ → BitVec 8) (premem : ℕ → BitVec 8) (maxPower minPower : ℕ)
    (preallocated : Option (ℕ → ℕ)) : DragonDynHeap :=
  match dragonHeapInit mem premem maxPower minPower preallocated with
  | some (.ok heap) => heap
  | _ => heapInitBase mem premem maxPower minPower

/-- The initialisation succeeds. -/
def InitSucceeds (mem : ℕ → ℕ → BitVec 8) (premem : ℕ → BitVec 8) (maxPower minPower : ℕ)
    (preallocated : Option (ℕ → ℕ)) : Bool :=
  match dragonHeapInit mem premem maxPower minPower preallocated with
  | some (.ok _) => true
  | _ => false

theorem dragonHeapInit_eq_initialHeap {mem : ℕ → ℕ → BitVec 8} {premem : ℕ → BitVec 8}
    {maxPower minPower : ℕ} {preallocated : Option (ℕ → ℕ)}
    (h : InitSucceeds mem premem maxPower minPower preallocated = true) :
    dragonHeapInit mem premem maxPower minPower preallocated
      = some (.ok (initialHeap mem premem maxPower minPower preallocated)) := by
  unfold InitSucceeds at h
  unfold initialHeap
  split at h
  · rename_i heap hinit
    rw [hinit]
  · cases h

/-- One preallocated block of 64 bytes. -/
def onePreallocated (k : ℕ) : ℕ := if k = 1 then 1 else 0

theorem dragonHeap_partition_example :
    HeapPartition
      ([HeapOp.malloc 40, .malloc 20, .free 0 40].foldl heapStep
        (initialHeap (fun _ _ => 0) (fun _ => 0) 7 5 (some onePreallocated), [])).1
      ([HeapOp.malloc 40, .malloc 20, .free 0 40].foldl heapStep
        (initialHeap (fun _ _ => 0) (fun _ => 0) 7 5 (some onePreallocated), [])).2 :=
  (dragonHeap_partition (fun _ _ => 0) (fun _ => 0) 7 5 (by decide) (some onePreallocated) _
    (dragonHeapInit_eq_initialHeap (by decide +kernel))
    [.malloc 40, .malloc 20, .free 0 40]
    ⟨trivial, trivial, by unfold FreesLive; decide +kernel, trivial⟩ _ rfl).1
