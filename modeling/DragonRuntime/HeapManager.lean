/-
# The heap manager (`src/lib/heap_manager.c`)

A buddy allocator over `num_segments` segments of `segment_size` bytes.  Level `k`
has the blocks of `segment_size * 2^k` bytes; bit `b` of `free[k]` is set iff block
`b` of level `k` is free.  The set `preallocated` has the bit of the first segment
of every block that was preallocated.

Conventions:

* a call returns the error code or its result together with the heap it leaves
  behind, so that an error after a partial update would be visible;
* the outer `Option` is for calls that do not return: `none` stands for a loop of
  `_powerof2` that runs forever in 64-bit arithmetic;
* handles are never `NULL`, the lock operations succeed, and waking a waiter
  (`_trigger_waiter`) does not touch the heap, so these are left out.
-/
import DragonRuntime.Bitset

/-- `dragonDynHeap_t`, without the lock and the waiters. -/
structure DragonDynHeap where
  segmentSize : ℕ
  numSegments : ℕ
  totalSize : ℕ
  numBlockSizes : ℕ
  biggestBlock : ℕ
  free : ℕ → DragonBitSet
  preallocated : DragonBitSet

/-- `BLOCK_SIZE_MAX_POWER`. -/
def blockSizeMaxPower : ℕ := 62

/-- `BLOCK_SIZE_MIN_POWER`. -/
def blockSizeMinPower : ℕ := 5

/-! ## Arithmetic helpers -/

/-- `ipow`, in `size_t` arithmetic. -/
def ipow (base exp : ℕ) : ℕ :=
  if exp = 0 then 1
  else if exp % 2 = 1 then base * ipow base (exp - 1) % 2 ^ 64
  else
    let factor := ipow base (exp / 2)
    factor * factor % 2 ^ 64
termination_by exp

/-- The `while` loop of `_powerof2`.  After 64 doublings the 64-bit `seg_size` is zero
and stays so, so a loop that has not ended after 65 rounds never ends. -/
def powerof2Loop (size : ℕ) : ℕ → ℕ → ℕ → Option ℕ
  | 0, _, _ => none
  | fuel + 1, segSize, power =>
    if segSize < size then powerof2Loop size fuel (segSize * 2 % 2 ^ 64) (power + 1)
    else some power

/-- `_powerof2`: the least `power` with `size ≤ segment_size * 2^power`. -/
def powerof2 (size segmentSize : ℕ) : Option ℕ :=
  if segmentSize = 0 then some 0 else powerof2Loop size 65 segmentSize 0

/-- `buddy`. -/
def buddy (idx : ℕ) : ℕ :=
  if idx % 2 = 0 then idx + 1 else idx - 1

namespace DragonDynHeap

/-- Store the bitset of one level. -/
def setFree (heap : DragonDynHeap) (k : ℕ) (set : DragonBitSet) : DragonDynHeap :=
  { heap with free := Function.update heap.free k set }

/-! ## Splitting -/

/-- The search loop of `_split`: the first level from `splitIdx` on whose free set does
not report the end of its iteration, and what it reports.  `levels` counts the levels
above `splitIdx`. -/
def splitSearch (heap : DragonDynHeap) : ℕ → ℕ → ℕ × Except DragonError ℕ
  | 0, splitIdx => (splitIdx, dragonBitsetFirst (heap.free splitIdx))
  | levels + 1, splitIdx =>
    match dragonBitsetFirst (heap.free splitIdx) with
    | .error .bitsetIterationComplete => splitSearch heap levels (splitIdx + 1)
    | r => (splitIdx, r)

/-- The splitting loop of `_split`, `steps` levels down from `splitIdx`. -/
def splitLoop : ℕ → DragonDynHeap → ℕ → ℕ → Except DragonError ℕ × DragonDynHeap
  | 0, heap, _, blockIdx => (.ok blockIdx, heap)
  | steps + 1, heap, splitIdx, blockIdx =>
    let splitIdx := splitIdx - 1
    let blockIdx := blockIdx * 2
    match dragonBitsetSet (heap.free splitIdx) (buddy blockIdx) with
    | .error e => (.error e, heap)
    | .ok set => splitLoop steps (heap.setFree splitIdx set) splitIdx blockIdx

/-- `_split`: take a block of level `index`, splitting a larger one if necessary. -/
def split (heap : DragonDynHeap) (index : ℕ) : Except DragonError ℕ × DragonDynHeap :=
  match splitSearch heap (heap.numBlockSizes - 1 - index) index with
  | (_, .error e) => (.error e, heap)
  | (splitIdx, .ok blockIdx) =>
    match dragonBitsetReset (heap.free splitIdx) blockIdx with
    | .error e => (.error e, heap)
    | .ok set => splitLoop (splitIdx - index) (heap.setFree splitIdx set) splitIdx blockIdx

/-! ## Freeing and merging -/

/-- The merging loop of `_free_and_merge`; it returns the level and the index of the
merged block.  Every round that goes on raises the level, so `num_block_sizes` rounds
are enough. -/
def mergeLoop : ℕ → DragonDynHeap → ℕ → ℕ → ℕ →
    Except DragonError (ℕ × ℕ) × DragonDynHeap
  | 0, heap, listIndex, _, blockIndex => (.ok (listIndex, blockIndex), heap)
  | fuel + 1, heap, listIndex, blockSize, blockIndex =>
    if listIndex < heap.numBlockSizes - 1 then
      let buddyIndex := buddy blockIndex
      let buddySegmentIndex := buddyIndex * blockSize / heap.segmentSize
      match dragonBitsetGet heap.preallocated buddySegmentIndex with
      | .error e => (.error e, heap)
      | .ok buddyIsPreallocated =>
        match dragonBitsetGet (heap.free listIndex) buddyIndex with
        | .error e => (.error e, heap)
        | .ok buddyFree =>
          if buddyFree && !buddyIsPreallocated then
            match dragonBitsetReset (heap.free listIndex) buddyIndex with
            | .error e => (.error e, heap)
            | .ok set =>
              mergeLoop fuel (heap.setFree listIndex set) (listIndex + 1) (blockSize * 2)
                (blockIndex / 2)
          else (.ok (listIndex, blockIndex), heap)
    else (.ok (listIndex, blockIndex), heap)

/-- The end of `_free_and_merge` and of its preallocated branch: set the block's free
bit. -/
def setFreeBit (heap : DragonDynHeap) (listIndex blockIndex : ℕ) :
    Except DragonError Unit × DragonDynHeap :=
  match dragonBitsetSet (heap.free listIndex) blockIndex with
  | .error e => (.error e, heap)
  | .ok set => (.ok (), heap.setFree listIndex set)

/-- `_free_and_merge`.  A bit that is out of bounds counts as not free: the call of
`dragon_bitset_get` then stores `0` and its error code is not looked at. -/
def freeAndMerge (heap : DragonDynHeap) (offset size : ℕ) :
    Option (Except DragonError Unit × DragonDynHeap) :=
  (powerof2 size heap.segmentSize).map fun listIndex =>
    let blockSize := heap.segmentSize * ipow 2 listIndex
    let blockIndex := offset / blockSize
    let segmentIndex := offset / heap.segmentSize
    if dragonBitsetGet (heap.free listIndex) blockIndex = .ok true then
      (.error .dynheapInvalidPointer, heap)
    else
      match dragonBitsetGet heap.preallocated segmentIndex with
      | .error e => (.error e, heap)
      | .ok true => heap.setFreeBit listIndex blockIndex
      | .ok false =>
        match mergeLoop heap.numBlockSizes heap listIndex blockSize blockIndex with
        | (.error e, heap) => (.error e, heap)
        | (.ok (listIndex, blockIndex), heap) => heap.setFreeBit listIndex blockIndex

end DragonDynHeap

open DragonDynHeap

/-! ## The user API -/

/-- `dragon_heap_malloc` (`_dragon_heap_malloc` under the lock): the offset of the
allocated block. -/
def dragonHeapMalloc (heap : DragonDynHeap) (size : ℕ) :
    Option (Except DragonError ℕ × DragonDynHeap) :=
  if heap.segmentSize = 0 then some (.error .objectDestroyed, heap)
  else if heap.biggestBlock < size then some (.error .dynheapRequestedSizeTooLarge, heap)
  else
    (powerof2 size heap.segmentSize).map fun index =>
      if heap.numBlockSizes < index then (.error .dynheapRequestedSizeTooLarge, heap)
      else
        match heap.split index with
        | (.error .bitsetIterationComplete, heap) =>
          (.error .dynheapRequestedSizeNotAvailable, heap)
        | (.error e, heap) => (.error e, heap)
        | (.ok freeBlock, heap) => (.ok (freeBlock * (heap.segmentSize * ipow 2 index)), heap)

/-- `dragon_heap_free`. -/
def dragonHeapFree (heap : DragonDynHeap) (offset size : ℕ) :
    Option (Except DragonError Unit × DragonDynHeap) :=
  if heap.segmentSize = 0 then some (.error .objectDestroyed, heap)
  else if heap.totalSize < offset then some (.error .dynheapInvalidPointer, heap)
  else if heap.totalSize < size then some (.error .dynheapInvalidPointer, heap)
  else heap.freeAndMerge offset size

/-! ## Initialisation -/

/-- The heap before preallocation: empty free sets over memory with the contents `mem`
and `premem`, and the whole heap free as one block.  The error code of
`dragon_bitset_set` is not looked at. -/
def heapInitBase (mem : ℕ → ℕ → BitVec 8) (premem : ℕ → BitVec 8)
    (maxBlockSizePower minBlockSizePower : ℕ) : DragonDynHeap :=
  let numBlockSizes := maxBlockSizePower - minBlockSizePower + 1
  let numSegments := 2 ^ (numBlockSizes - 1)
  let segmentSize := 2 ^ minBlockSizePower
  let free : ℕ → DragonBitSet := fun k => dragonBitsetInit (mem k) (numSegments / 2 ^ k)
  { segmentSize := segmentSize
    numSegments := numSegments
    totalSize := numSegments * segmentSize
    numBlockSizes := numBlockSizes
    biggestBlock := numSegments * segmentSize
    free := match dragonBitsetSet (free (numBlockSizes - 1)) 0 with
      | .ok set => Function.update free (numBlockSizes - 1) set
      | .error _ => free
    preallocated := dragonBitsetInit premem numSegments }

/-- The inner preallocation loop: `count` blocks of `size` bytes.  The allocations made
are collected in order. -/
def preallocateLevel (size : ℕ) : ℕ → DragonDynHeap → List (ℕ × ℕ) →
    Option (Except DragonError (DragonDynHeap × List (ℕ × ℕ)))
  | 0, heap, allocations => some (.ok (heap, allocations))
  | count + 1, heap, allocations =>
    match dragonHeapMalloc heap size with
    | none => none
    | some (.error e, _) => some (.error e)
    | some (.ok offset, heap) =>
      match dragonBitsetSet heap.preallocated (offset / heap.segmentSize) with
      | .error e => some (.error e)
      | .ok set =>
        preallocateLevel size count { heap with preallocated := set }
          (allocations ++ [(offset, size)])

/-- The outer preallocation loop: the levels `k - 1, …, 0` with block sizes from `size`
downwards. -/
def preallocateLevels (preallocated : ℕ → ℕ) : ℕ → ℕ → DragonDynHeap → List (ℕ × ℕ) →
    Option (Except DragonError (DragonDynHeap × List (ℕ × ℕ)))
  | 0, _, heap, allocations => some (.ok (heap, allocations))
  | k + 1, size, heap, allocations =>
    match preallocateLevel size (preallocated k) heap allocations with
    | none => none
    | some (.error e) => some (.error e)
    | some (.ok (heap, allocations)) =>
      preallocateLevels preallocated k (size / 2) heap allocations

/-- Freeing the preallocated blocks again. -/
def freeAllocations : List (ℕ × ℕ) → DragonDynHeap →
    Option (Except DragonError DragonDynHeap)
  | [], heap => some (.ok heap)
  | (offset, size) :: rest, heap =>
    match dragonHeapFree heap offset size with
    | none => none
    | some (.error e, _) => some (.error e)
    | some (.ok (), heap) => freeAllocations rest heap

/-- The last loop of `dragon_heap_init`: the block size of the highest level that has a
free block. -/
def biggestFreeBlock (heap : DragonDynHeap) (biggestBlock : ℕ) : ℕ → ℕ
  | 0 => biggestBlock
  | k + 1 =>
    if Succeeds (dragonBitsetFirst (heap.free k)) then heap.segmentSize * 2 ^ k
    else biggestFreeBlock heap biggestBlock k

/-- `dragon_heap_init`.  `preallocated` is `none` for a `NULL` array. -/
def dragonHeapInit (mem : ℕ → ℕ → BitVec 8) (premem : ℕ → BitVec 8)
    (maxBlockSizePower minBlockSizePower : ℕ) (preallocated : Option (ℕ → ℕ)) :
    Option (Except DragonError DragonDynHeap) :=
  if blockSizeMaxPower < maxBlockSizePower then some (.error .dynheapMaxBlockSizeTooLarge)
  else if minBlockSizePower < blockSizeMinPower then
    some (.error .dynheapMinBlockSizeTooSmall)
  else
    let heap := heapInitBase mem premem maxBlockSizePower minBlockSizePower
    let finish (heap : DragonDynHeap) : DragonDynHeap :=
      { heap with
        biggestBlock := biggestFreeBlock heap heap.biggestBlock heap.numBlockSizes }
    match preallocated with
    | none => some (.ok (finish heap))
    | some counts =>
      match preallocateLevels counts heap.numBlockSizes (2 ^ maxBlockSizePower) heap [] with
      | none => none
      | some (.error e) => some (.error e)
      | some (.ok (heap, allocations)) =>
        (freeAllocations allocations heap).map fun
          | .error e => .error e
          | .ok heap => .ok (finish heap)
