/-
# Frees of what is not allocated

`dragon_heap_free` looks at one bit before it frees: that of the block that contains the offset, at
the level of the size.  It refuses an offset or a size beyond the heap and a block that is free
itself.  Any other pair is freed, whether it is allocated or not: in particular a block that was
merged into a larger free block, and one that lies inside a larger allocation or around a smaller
one.
-/
import DragonRuntime.HeapPartition

open Buddy DragonDynHeap

/-- A live allocation has this offset and the block level of this size. -/
def IsLive (s : DragonDynHeap × List (ℕ × ℕ)) (offset size : ℕ) : Prop :=
  ∃ alloc ∈ s.2, alloc.1 = offset ∧
    powerof2 alloc.2 s.1.segmentSize = powerof2 size s.1.segmentSize

instance (s : DragonDynHeap × List (ℕ × ℕ)) (offset size : ℕ) : Decidable (IsLive s offset size) :=
  inferInstanceAs (Decidable (∃ alloc ∈ s.2, _))

/-- The free returns an error and leaves the free sets as they are. -/
def RejectsFree (heap : DragonDynHeap) (offset size : ℕ) : Prop :=
  ∃ e heap', dragonHeapFree heap offset size = some (.error e, heap') ∧ heap'.free = heap.free

/-- The offset or the size is beyond the heap, or the block of this size that contains the offset is
free itself. -/
def BeyondOrFree (heap : DragonDynHeap) (offset size : ℕ) : Prop :=
  heap.totalSize ≤ offset ∨ heap.totalSize < size ∨
    ∃ p, powerof2 size heap.segmentSize = some p ∧
      (heap.free p).bit (offset / (heap.segmentSize * 2 ^ p)) = true

section Frees

variable {heap : DragonDynHeap} {n m : ℕ} {offset size : ℕ}

/-- The block of a level that contains an offset inside the heap. -/
theorem inRange_of_offset {p : ℕ} (hp : p < n) (hoff : offset < 2 ^ (m + (n - 1))) :
    InRange n (p, offset / 2 ^ (m + p)) := by
  refine ⟨hp, ?_⟩
  rw [Nat.div_lt_iff_lt_mul (Nat.two_pow_pos _), ← pow_add]
  have hexp : n - 1 - p + (m + p) = m + (n - 1) := by omega
  rw [hexp]
  exact hoff

theorem dragonHeapFree_of_le (h : HeapShape heap n m) (hoff : offset ≤ heap.totalSize)
    (hsize : size ≤ heap.totalSize) :
    dragonHeapFree heap offset size = heap.freeAndMerge offset size := by
  have hseg : heap.segmentSize ≠ 0 := by
    rw [h.segmentSize_eq]
    exact (Nat.two_pow_pos m).ne'
  unfold dragonHeapFree
  rw [if_neg hseg, if_neg (Nat.not_lt.mpr hoff), if_neg (Nat.not_lt.mpr hsize)]

/-- A free at the end of the heap is refused: the bits end before it. -/
theorem rejectsFree_at_end (h : HeapShape heap n m) (hsize : size ≤ heap.totalSize) :
    RejectsFree heap heap.totalSize size := by
  have hlim := h.power_le
  have hpos := h.num_pos
  obtain ⟨p, hp, hpower, -⟩ := powerof2_eq (t := n - 1) (by omega) (h.totalSize_eq ▸ hsize)
  have hpn : p < n := by omega
  have hbsize : 2 ^ m * ipow 2 p = 2 ^ (m + p) := by rw [ipow_two (by omega), pow_add]
  have hblock : 2 ^ (m + (n - 1)) / 2 ^ (m + p) = 2 ^ (n - 1 - p) := by
    rw [Nat.pow_div (by omega) two_pos]
    congr 1
    omega
  have hsegment : 2 ^ (m + (n - 1)) / 2 ^ m = 2 ^ (n - 1) := by
    rw [pow_add, Nat.mul_div_cancel_left _ (Nat.two_pow_pos m)]
  have hget : ¬ dragonBitsetGet (heap.free p) (2 ^ (n - 1 - p)) = .ok true := by
    rw [dragonBitsetGet_of_le (h.free_size p hpn).le]
    exact fun heq => by cases heq
  refine ⟨.bitsetBoundsError, heap, ?_, rfl⟩
  rw [dragonHeapFree_of_le h le_rfl hsize]
  unfold DragonDynHeap.freeAndMerge
  simp only [h.segmentSize_eq, h.totalSize_eq, hpower, Option.map_some, hbsize, hblock, hsegment,
    if_neg hget, dragonBitsetGet_of_le h.preallocated_size.le]

/-- A free inside the heap of a block that is not free goes through, whatever is allocated. -/
theorem dragonHeapFree_of_not_free (h : HeapShape heap n m) {p : ℕ}
    (hoff : offset < heap.totalSize) (hsize : size ≤ heap.totalSize)
    (hpower : powerof2 size (2 ^ m) = some p)
    (hfree : (heap.free p).bit (offset / 2 ^ (m + p)) = false) :
    ∃ heap', dragonHeapFree heap offset size = some (.ok (), heap') := by
  have hlim := h.power_le
  have hpos := h.num_pos
  obtain ⟨p', hp', hpower', -⟩ := powerof2_eq (t := n - 1) (by omega) (h.totalSize_eq ▸ hsize)
  obtain rfl := Option.some.inj (hpower.symm.trans hpower')
  rw [h.totalSize_eq] at hoff
  have hr : InRange n (p, offset / 2 ^ (m + p)) := inRange_of_offset (by omega) hoff
  have hbsize : 2 ^ m * ipow 2 p = 2 ^ (m + p) := by rw [ipow_two (by omega), pow_add]
  have hget : ¬ dragonBitsetGet (heap.free p) (offset / 2 ^ (m + p)) = .ok true := by
    rw [dragonBitsetGet_of_lt (h.lt_size hr), hfree]
    exact fun heq => by cases heq
  have hsegment : offset / 2 ^ m < heap.preallocated.size := by
    rw [h.preallocated_size, Nat.div_lt_iff_lt_mul (Nat.two_pow_pos m), ← pow_add,
      Nat.add_comm (n - 1)]
    exact hoff
  rw [dragonHeapFree_of_le h (by rw [h.totalSize_eq]; exact hoff.le) hsize]
  unfold DragonDynHeap.freeAndMerge
  simp only [h.segmentSize_eq, h.numBlockSizes_eq, hpower, Option.map_some, hbsize, if_neg hget,
    dragonBitsetGet_of_lt hsegment]
  cases heap.preallocated.bit (offset / 2 ^ m) with
  | true =>
    refine ⟨heap.setFree p ((heap.free p).withBit (offset / 2 ^ (m + p))), ?_⟩
    simp only [DragonDynHeap.setFreeBit, dragonBitsetSet_eq_withBit (h.lt_size hr)]
  | false =>
    obtain ⟨q, hpq, hqn, -, -, hloop⟩ := mergeLoop_eq h hr n (by omega)
    refine ⟨heap.afterJoin p q (offset / 2 ^ (m + p)), ?_⟩
    simp only [hloop, setFreeBit_afterRaise h hr hpq hqn]

/-- Exactly the frees beyond the heap and those of free blocks are refused. -/
theorem HeapShape.rejectsFree_iff (h : HeapShape heap n m) :
    RejectsFree heap offset size ↔ BeyondOrFree heap offset size := by
  have hlim := h.power_le
  have hseg : heap.segmentSize ≠ 0 := by
    rw [h.segmentSize_eq]
    exact (Nat.two_pow_pos m).ne'
  constructor
  · rintro ⟨e, heap', hcall, -⟩
    by_contra hcond
    simp only [BeyondOrFree, not_or, not_le, not_lt, not_exists, not_and] at hcond
    obtain ⟨hoff, hsize, hbit⟩ := hcond
    obtain ⟨p, hp, hpower, -⟩ := powerof2_eq (t := n - 1) (by omega) (h.totalSize_eq ▸ hsize)
    have hfree : (heap.free p).bit (offset / 2 ^ (m + p)) = false := by
      have hno := hbit p (by rw [h.segmentSize_eq]; exact hpower)
      rwa [h.segmentSize_eq, ← pow_add, Bool.not_eq_true] at hno
    obtain ⟨heap'', hok⟩ := dragonHeapFree_of_not_free h hoff hsize hpower hfree
    rw [hok] at hcall
    cases hcall
  · intro hcond
    by_cases hsize : size ≤ heap.totalSize
    · by_cases hoff : offset < heap.totalSize
      · rcases hcond with hge | hlt | ⟨p, hpower, hbit⟩
        · omega
        · omega
        · rw [h.segmentSize_eq] at hpower
          have hr : InRange n (p, offset / 2 ^ (m + p)) := by
            obtain ⟨p', hp', hpower', -⟩ :=
              powerof2_eq (t := n - 1) (by omega) (h.totalSize_eq ▸ hsize)
            obtain rfl := Option.some.inj (hpower.symm.trans hpower')
            have hpos := h.num_pos
            exact inRange_of_offset (by omega) (h.totalSize_eq ▸ hoff)
          have hbsize : 2 ^ m * ipow 2 p = 2 ^ (m + p) := by
            have hpn : p < n := hr.1
            rw [ipow_two (by omega), pow_add]
          rw [h.segmentSize_eq, ← pow_add] at hbit
          refine ⟨.dynheapInvalidPointer, heap, ?_, rfl⟩
          rw [dragonHeapFree_of_le h hoff.le hsize]
          unfold DragonDynHeap.freeAndMerge
          simp only [h.segmentSize_eq, hpower, Option.map_some, hbsize,
            dragonBitsetGet_of_lt (h.lt_size hr), hbit, if_true]
      · rcases Nat.eq_or_lt_of_le (Nat.not_lt.mp hoff) with heq | hlt
        · rw [← heq]
          exact rejectsFree_at_end h hsize
        · refine ⟨.dynheapInvalidPointer, heap, ?_, rfl⟩
          unfold dragonHeapFree
          rw [if_neg hseg, if_pos hlt]
    · refine ⟨.dynheapInvalidPointer, heap, ?_, rfl⟩
      unfold dragonHeapFree
      rw [if_neg hseg, if_pos (Nat.not_le.mp hsize)]
      split
      · rfl
      · rfl

end Frees

/-- **Frees of what is not allocated.**  In every state that a heap reaches from its initialisation
by mallocs and by frees of live allocations, a pair that is not live is refused iff it is beyond the
heap or its block is free itself. -/
theorem dragonHeapFree_rejects_iff (mem : ℕ → ℕ → BitVec 8) (premem : ℕ → BitVec 8)
    (maxPower minPower : ℕ) (hpow : minPower ≤ maxPower) (preallocated : Option (ℕ → ℕ))
    (heap : DragonDynHeap)
    (hinit : dragonHeapInit mem premem maxPower minPower preallocated = some (.ok heap))
    (ops : List HeapOp) (hops : Runs.Legal heapStep FreesLive (heap, []) ops)
    (offset size : ℕ) :
    (¬ IsLive (ops.foldl heapStep (heap, [])) offset size →
        RejectsFree (ops.foldl heapStep (heap, [])).1 offset size) ↔
      IsLive (ops.foldl heapStep (heap, [])) offset size ∨
        BeyondOrFree (ops.foldl heapStep (heap, [])).1 offset size := by
  have hinv := hops.invariant (I := fun s => HeapInv s.1 (maxPower - minPower + 1) minPower s.2)
    (fun s op h hop => h.step hop) (heapInv_of_init hpow hinit)
  rw [hinv.shape.rejectsFree_iff]
  exact or_iff_not_imp_left.symm

/-- The first segment of a heap of two, allocated and freed, is free as a part of the whole heap. -/
theorem dragonHeapFree_rejects_iff_merged :
    (¬ IsLive ([HeapOp.malloc 32, .free 0 32].foldl heapStep
          (initialHeap (fun _ _ => 0) (fun _ => 0) 6 5 none, [])) 0 32 →
        RejectsFree ([HeapOp.malloc 32, .free 0 32].foldl heapStep
          (initialHeap (fun _ _ => 0) (fun _ => 0) 6 5 none, [])).1 0 32) ↔
      IsLive ([HeapOp.malloc 32, .free 0 32].foldl heapStep
          (initialHeap (fun _ _ => 0) (fun _ => 0) 6 5 none, [])) 0 32 ∨
        BeyondOrFree ([HeapOp.malloc 32, .free 0 32].foldl heapStep
          (initialHeap (fun _ _ => 0) (fun _ => 0) 6 5 none, [])).1 0 32 :=
  dragonHeapFree_rejects_iff (fun _ _ => 0) (fun _ => 0) 6 5 (by decide) none _
    (dragonHeapInit_eq_initialHeap (by decide +kernel)) [.malloc 32, .free 0 32]
    ⟨trivial, by unfold FreesLive; decide +kernel, trivial⟩ 0 32

/-- The free went through. -/
def FreeSucceeds (heap : DragonDynHeap) (offset size : ℕ) : Bool :=
  match dragonHeapFree heap offset size with
  | some (.ok (), _) => true
  | _ => false

theorem not_rejectsFree_of_succeeds {heap : DragonDynHeap} {offset size : ℕ}
    (h : FreeSucceeds heap offset size = true) : ¬ RejectsFree heap offset size := by
  rintro ⟨e, heap', hcall, -⟩
  simp only [FreeSucceeds, hcall] at h
  cases h

/-- The second free of the same segment goes through. -/
theorem dragonHeapFree_twice :
    ¬ (¬ IsLive ([HeapOp.malloc 32, .free 0 32].foldl heapStep
          (initialHeap (fun _ _ => 0) (fun _ => 0) 6 5 none, [])) 0 32 →
        RejectsFree ([HeapOp.malloc 32, .free 0 32].foldl heapStep
          (initialHeap (fun _ _ => 0) (fun _ => 0) 6 5 none, [])).1 0 32) := by
  intro h
  exact not_rejectsFree_of_succeeds (by decide +kernel) (h (by decide +kernel))
