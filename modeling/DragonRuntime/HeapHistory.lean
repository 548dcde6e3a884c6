/-
# History independence of the heap

No call leaves a free pair of buddies behind, unless one of the two is preallocated
(`HeapPairs`).  Without preallocations there is none at all, and the free blocks are
then determined by the bytes that are live (`eq_of_tiling`): two histories that end
with the same live blocks end with the same free sets.
-/
import DragonRuntime.HeapPartition

open Buddy DragonDynHeap

/-! ## Pairs of free buddies -/

/-- The invariant of the partition, and no free pair of buddies without a mark. -/
structure HeapPairs (heap : DragonDynHeap) (n m : ℕ) (live : List (ℕ × ℕ)) : Prop
    extends HeapInv heap n m live where
  noPair : NoPair heap.freeMap n heap.preMap

section Pairs

variable {heap : DragonDynHeap} {n m p q k b size : ℕ} {live : List (ℕ × ℕ)}

/-- Taking a block leaves no new pair. -/
theorem HeapPairs.noPair_afterSplit (h : HeapPairs heap n m live)
    (ht : TakesBlock heap n m size p k b) :
    NoPair (heap.afterSplit p k b).freeMap n (heap.afterSplit p k b).preMap := by
  rw [h.shape.freeMap_afterSplit ht.inRange, preMap_afterSplit]
  exact h.noPair.takeDown h.tiling ht.free ht.inRange

theorem HeapPairs.noPair_afterJoin (h : HeapPairs heap n m live) (hr : InRange n (p, b))
    (hj : JoinsUpTo heap n p b q) :
    NoPair (heap.afterJoin p q b).freeMap n (heap.afterJoin p q b).preMap := by
  rw [h.shape.freeMap_afterJoin hr hj.le hj.lt, preMap_afterJoin]
  exact h.noPair.putUp hj.stop

/-- **One call** leaves no new pair. -/
theorem HeapPairs.step {s : DragonDynHeap × List (ℕ × ℕ)} {op : HeapOp}
    (h : HeapPairs s.1 n m s.2) (hop : FreesLive s op) :
    HeapPairs (heapStep s op).1 n m (heapStep s op).2 := by
  refine ⟨h.toHeapInv.step hop, ?_⟩
  rcases h.toHeapInv.step_cases hop with ⟨size, -, hstep⟩ |
    ⟨size, p, k, b, -, htake, -, hstep⟩ | ⟨offset, size, p, b, q, -, -, halloc, hjoin, hstep⟩
  · rw [hstep]
    exact h.noPair
  · rw [hstep]
    exact h.noPair_afterSplit htake
  · rw [hstep]
    exact h.noPair_afterJoin halloc.inRange hjoin

/-- A call does not change the marks. -/
theorem HeapInv.preMap_step {s : DragonDynHeap × List (ℕ × ℕ)} {op : HeapOp}
    (h : HeapInv s.1 n m s.2) (hop : FreesLive s op) :
    (heapStep s op).1.preMap = s.1.preMap := by
  rcases h.step_cases hop with ⟨size, -, hstep⟩ |
    ⟨size, p, k, b, -, -, -, hstep⟩ | ⟨offset, size, p, b, q, -, -, -, -, hstep⟩
  · rw [hstep]
  · rw [hstep, preMap_afterSplit]
  · rw [hstep, preMap_afterJoin]

/-- Before preallocation there is one free block, so no pair. -/
theorem heapPairs_heapInitBase (mem : ℕ → ℕ → BitVec 8) (premem : ℕ → BitVec 8)
    {maxPower minPower : ℕ} (hpow : minPower ≤ maxPower) (hmax : maxPower ≤ 62) :
    HeapPairs (heapInitBase mem premem maxPower minPower) (maxPower - minPower + 1)
      minPower [] := by
  refine ⟨heapInv_heapInitBase mem premem hpow hmax, ?_⟩
  intro k b hr hk hF
  rw [freeMap_heapInitBase mem premem hr] at hF
  have hkn : k = maxPower - minPower := by simpa using hF
  omega

end Pairs

/-! ## Without preallocations -/

/-- Nothing is preallocated, and there is no free pair of buddies. -/
structure HeapUnmarked (heap : DragonDynHeap) (n m : ℕ) (live : List (ℕ × ℕ)) : Prop
    extends HeapPairs heap n m live where
  unmarked : ∀ s < 2 ^ (n - 1), heap.preMap s = false

section Unmarked

variable {heap heap' : DragonDynHeap} {n m : ℕ} {live live' : List (ℕ × ℕ)}

theorem HeapUnmarked.step {s : DragonDynHeap × List (ℕ × ℕ)} {op : HeapOp}
    (h : HeapUnmarked s.1 n m s.2) (hop : FreesLive s op) :
    HeapUnmarked (heapStep s op).1 n m (heapStep s op).2 := by
  refine ⟨h.toHeapPairs.step hop, ?_⟩
  rw [h.toHeapInv.preMap_step hop]
  exact h.unmarked

theorem heapUnmarked_of_init {mem : ℕ → ℕ → BitVec 8} {premem : ℕ → BitVec 8}
    {maxPower minPower : ℕ} (hpow : minPower ≤ maxPower)
    (hinit : dragonHeapInit mem premem maxPower minPower none = some (.ok heap)) :
    HeapUnmarked heap (maxPower - minPower + 1) minPower [] := by
  have hinv := heapInv_of_init hpow hinit
  have hmax : maxPower ≤ 62 := by
    have := hinv.shape.power_le
    omega
  have hpairs := heapPairs_heapInitBase mem premem hpow hmax
  -- the result differs from the heap before preallocation in `biggestBlock` only
  unfold dragonHeapInit at hinit
  rw [if_neg (by unfold blockSizeMaxPower; omega)] at hinit
  split at hinit
  · cases hinit
  · cases hinit
    exact ⟨⟨hinv, hpairs.noPair⟩, fun s hs => preMap_heapInitBase mem premem (by simpa using hs)⟩

theorem HeapUnmarked.noPair_false (h : HeapUnmarked heap n m live) :
    NoPair heap.freeMap n fun _ => false := by
  intro k b hr hk hF hG
  have hlt := lt_of_div_eq hr (mul_pow_div_pow b k)
  have hlt' := lt_of_div_eq (hr.sibling hk) (mul_pow_div_pow (sibling b) k)
  rcases h.noPair k b hr hk hF hG with hp | hp
  · rw [h.unmarked _ hlt] at hp
    cases hp
  · rw [h.unmarked _ hlt'] at hp
    cases hp

/-- A segment is held iff its bytes are live. -/
theorem HeapInv.held_eq (h : HeapInv heap n m live) {s : ℕ} (hs : s < 2 ^ (n - 1))
    [Decidable (∃ alloc ∈ live, s * 2 ^ m ∈ liveBytes heap alloc)] :
    held (live.map (liveBlock m)) s
      = if ∃ alloc ∈ live, s * 2 ^ m ∈ liveBytes heap alloc then 1 else 0 := by
  have hiff : 0 < held (live.map (liveBlock m)) s ↔
      ∃ alloc ∈ live, s * 2 ^ m ∈ liveBytes heap alloc := by
    rw [held_pos_iff]
    constructor
    · rintro ⟨block, hmem, hblock⟩
      obtain ⟨alloc, ha, rfl⟩ := List.mem_map.mp hmem
      obtain ⟨p, b, halloc⟩ := h.alive alloc ha
      refine ⟨alloc, ha, ?_⟩
      rw [halloc.liveBytes_eq h.shape, mem_blockBytes_iff h.shape, mul_pow_div_pow]
      rw [halloc.liveBlock_eq] at hblock
      exact hblock
    · rintro ⟨alloc, ha, hx⟩
      obtain ⟨p, b, halloc⟩ := h.alive alloc ha
      refine ⟨liveBlock m alloc, List.mem_map_of_mem ha, ?_⟩
      rw [halloc.liveBytes_eq h.shape, mem_blockBytes_iff h.shape, mul_pow_div_pow] at hx
      rw [halloc.liveBlock_eq]
      exact hx
  have hone := h.tiling s hs
  split
  · rename_i hlive
    have := hiff.mpr hlive
    omega
  · rename_i hlive
    have := mt hiff.mp hlive
    omega

/-- The blocks of bytes that are live. -/
def liveBlocks (s : DragonDynHeap × List (ℕ × ℕ)) : Set (Set ℕ) :=
  {bytes | ∃ alloc ∈ s.2, bytes = liveBytes s.1 alloc}

theorem held_eq_of_liveBlocks_eq (h : HeapInv heap n m live) (h' : HeapInv heap' n m live')
    (hlive : liveBlocks (heap, live) = liveBlocks (heap', live')) {s : ℕ}
    (hs : s < 2 ^ (n - 1)) :
    held (live.map (liveBlock m)) s = held (live'.map (liveBlock m)) s := by
  classical
  have hiff : (∃ alloc ∈ live, s * 2 ^ m ∈ liveBytes heap alloc) ↔
      ∃ alloc ∈ live', s * 2 ^ m ∈ liveBytes heap' alloc := by
    have hone : (∃ alloc ∈ live, s * 2 ^ m ∈ liveBytes heap alloc) ↔
        ∃ bytes ∈ liveBlocks (heap, live), s * 2 ^ m ∈ bytes :=
      ⟨fun ⟨a, ha, hx⟩ => ⟨_, ⟨a, ha, rfl⟩, hx⟩, fun ⟨_, ⟨a, ha, hb⟩, hx⟩ => ⟨a, ha, hb ▸ hx⟩⟩
    have htwo : (∃ alloc ∈ live', s * 2 ^ m ∈ liveBytes heap' alloc) ↔
        ∃ bytes ∈ liveBlocks (heap', live'), s * 2 ^ m ∈ bytes :=
      ⟨fun ⟨a, ha, hx⟩ => ⟨_, ⟨a, ha, rfl⟩, hx⟩, fun ⟨_, ⟨a, ha, hb⟩, hx⟩ => ⟨a, ha, hb ▸ hx⟩⟩
    rw [hone, htwo, hlive]
  rw [h.held_eq hs, h'.held_eq hs]
  simp only [hiff]

/-- **The free blocks are determined by the live blocks.** -/
theorem HeapUnmarked.freeBlock_iff_of_liveBlocks_eq (h : HeapUnmarked heap n m live)
    (h' : HeapUnmarked heap' n m live')
    (hlive : liveBlocks (heap, live) = liveBlocks (heap', live')) (block : ℕ × ℕ) :
    FreeBlock heap block ↔ FreeBlock heap' block := by
  rw [freeBlock_iff h.shape, freeBlock_iff h'.shape]
  refine and_congr_right fun hr => ?_
  have heq : heap.freeMap block.1 block.2 = heap'.freeMap block.1 block.2 :=
    eq_of_tiling h.tiling h'.tiling
      (fun s hs => held_eq_of_liveBlocks_eq h.toHeapInv h'.toHeapInv hlive hs)
      h.noPair_false h'.noPair_false (fun s _ hp => by cases hp) hr
  rw [heq]

/-- **One run** without preallocations. -/
theorem heapUnmarked_of_run {mem : ℕ → ℕ → BitVec 8} {premem : ℕ → BitVec 8}
    {maxPower minPower : ℕ} (hpow : minPower ≤ maxPower)
    (hinit : dragonHeapInit mem premem maxPower minPower none = some (.ok heap))
    {ops : List HeapOp} (hops : Runs.Legal heapStep FreesLive (heap, []) ops)
    {s : DragonDynHeap × List (ℕ × ℕ)} (hs : s = ops.foldl heapStep (heap, [])) :
    HeapUnmarked s.1 (maxPower - minPower + 1) minPower s.2 := by
  rw [hs]
  exact hops.invariant
    (I := fun s => HeapUnmarked s.1 (maxPower - minPower + 1) minPower s.2)
    (fun s op h hop => h.step hop) (heapUnmarked_of_init hpow hinit)

end Unmarked
