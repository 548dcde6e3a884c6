/-
# The priority heap (`src/lib/priority_heap.c`)

A heap of fan-out `base` in a flat array of 64-bit words: an item takes `stepsize` words,
its priority and its `nvals_per_key` values.  A lower number is a higher priority; the
`k`-th regular item has priority `k` and urgent items have priority `0`.

Conventions:

* pointers are never `NULL`;
* words are natural numbers, with the arithmetic of the source modulo `2^64`; the indices
  of `_harr` are those of words in the memory of the heap and do not wrap around;
* `_heap_maxify` is a loop that need not end, so its model takes the number of turns that
  it may make and returns `none` when they do not suffice.
-/
import DragonRuntime.ReturnCodes

/-- `dragonPriorityHeap_t`. -/
structure DragonPriorityHeap (nvalsPerKey : ℕ) where
  base : ℕ
  capacity : ℕ
  curLen : ℕ
  curLastPri : ℕ
  harr : ℕ → ℕ

/-- The priority of an item and its values. -/
abbrev HeapItem (nvalsPerKey : ℕ) : Type := ℕ × (Fin nvalsPerKey → ℕ)

variable {nvalsPerKey : ℕ}

/-- `dragon_priority_heap_size`, for at least one value per key. -/
def dragonPriorityHeapSize (capacity nvalsPerKey : ℕ) : ℕ :=
  8 * (capacity * (1 + nvalsPerKey) + 3) + 4 * 2

/-- `dragon_priority_heap_init` on memory with the contents `harr`. -/
def dragonPriorityHeapInit (harr : ℕ → ℕ) (base capacity : ℕ) :
    Except DragonError (DragonPriorityHeap nvalsPerKey) :=
  if nvalsPerKey = 0 then .error .priorityHeapInvalidArgument
  else if base = 0 then .error .priorityHeapInvalidBase
  else
    .ok
      { base := base
        capacity := capacity
        curLen := 0
        curLastPri := 0
        harr := harr }

namespace DragonPriorityHeap

/-- One turn of the loop of `_heap_swap`. -/
def swapWord (stepsize i j : ℕ) (harr : ℕ → ℕ) (k : ℕ) : ℕ → ℕ :=
  let saveitem := harr (stepsize * i + k)
  let harr := Function.update harr (stepsize * i + k) (harr (stepsize * j + k))
  Function.update harr (stepsize * j + k) saveitem

/-- `_heap_swap`. -/
def heapSwap (heap : DragonPriorityHeap nvalsPerKey) (i j : ℕ) :
    DragonPriorityHeap nvalsPerKey :=
  { heap with
    harr := (List.range (1 + nvalsPerKey)).foldl (swapWord (1 + nvalsPerKey) i j) heap.harr }

/-- The priority of the item in place `c`. -/
def priority (heap : DragonPriorityHeap nvalsPerKey) (c : ℕ) : ℕ :=
  heap.harr ((1 + nvalsPerKey) * c)

/-- One turn of the inner loop of `_heap_maxify`. -/
def higherOf (heap : DragonPriorityHeap nvalsPerKey) (highest curChild : ℕ) : ℕ :=
  if curChild < heap.curLen then
    if heap.priority curChild < heap.priority highest then curChild else highest
  else highest

/-- The inner loop of `_heap_maxify`: it runs from `base_child` while `cur_child` is below
`base_child + base`, both modulo `2^64`. -/
def highestOf (heap : DragonPriorityHeap nvalsPerKey) (i : ℕ) : ℕ :=
  let baseChild := (heap.base * i + 1) % 2 ^ 64
  (List.range ((baseChild + heap.base) % 2 ^ 64 - baseChild)).foldl
    (fun highest k => heap.higherOf highest (baseChild + k)) i

/-- `_heap_maxify`, if it ends within `fuel` turns. -/
def heapMaxify : ℕ → DragonPriorityHeap nvalsPerKey → ℕ →
    Option (DragonPriorityHeap nvalsPerKey)
  | 0, _, _ => none
  | fuel + 1, heap, i =>
    let highest := heap.highestOf i
    if i ≠ highest then heapMaxify fuel (heap.heapSwap i highest) highest else some heap

/-- The loop of `_raise_priority`.  Every turn lowers `child`, so as many turns as the
first value of `child` suffice. -/
def raiseLoop : ℕ → DragonPriorityHeap nvalsPerKey → ℕ → DragonPriorityHeap nvalsPerKey
  | 0, heap, _ => heap
  | fuel + 1, heap, child =>
    let parent := (child + 2 ^ 64 - 1) % 2 ^ 64 / heap.base
    if 0 < child ∧ heap.priority child < heap.priority parent then
      raiseLoop fuel (heap.heapSwap child parent) parent
    else heap

/-- `_raise_priority`. -/
def raisePriority (heap : DragonPriorityHeap nvalsPerKey) (i priority : ℕ) :
    DragonPriorityHeap nvalsPerKey :=
  raiseLoop i { heap with harr := Function.update heap.harr ((1 + nvalsPerKey) * i) priority } i

/-- The loop of `_insert_item`: the values of the item in place `c`. -/
def writeVals (harr : ℕ → ℕ) (c : ℕ) (vals : Fin nvalsPerKey → ℕ) : ℕ → ℕ :=
  (List.finRange nvalsPerKey).foldl
    (fun harr (k : Fin nvalsPerKey) =>
      Function.update harr ((1 + nvalsPerKey) * c + (k + 1)) (vals k)) harr

/-- `_insert_item`. -/
def insertItem (heap : DragonPriorityHeap nvalsPerKey) (vals : Fin nvalsPerKey → ℕ)
    (priority : ℕ) : DragonPriorityHeap nvalsPerKey :=
  let heap : DragonPriorityHeap nvalsPerKey :=
    { heap with harr := writeVals heap.harr heap.curLen vals }
  let heap := heap.raisePriority heap.curLen priority
  { heap with curLen := (heap.curLen + 1) % 2 ^ 64 }

end DragonPriorityHeap

/-- `dragon_priority_heap_insert_item`. -/
def dragonPriorityHeapInsertItem (heap : DragonPriorityHeap nvalsPerKey)
    (vals : Fin nvalsPerKey → ℕ) :
    Except DragonError Unit × DragonPriorityHeap nvalsPerKey :=
  if heap.curLen = heap.capacity then (.error .priorityHeapFull, heap)
  else
    let heap := heap.insertItem vals ((heap.curLastPri + 1) % 2 ^ 64)
    (.ok (), { heap with curLastPri := (heap.curLastPri + 1) % 2 ^ 64 })

/-- `dragon_priority_heap_insert_urgent_item`. -/
def dragonPriorityHeapInsertUrgentItem (heap : DragonPriorityHeap nvalsPerKey)
    (vals : Fin nvalsPerKey → ℕ) :
    Except DragonError Unit × DragonPriorityHeap nvalsPerKey :=
  if heap.curLen = heap.capacity then (.error .priorityHeapFull, heap)
  else (.ok (), heap.insertItem vals 0)

/-- `dragon_priority_heap_peek_highest_priority`. -/
def dragonPriorityHeapPeekHighestPriority (heap : DragonPriorityHeap nvalsPerKey) :
    Except DragonError (HeapItem nvalsPerKey) :=
  if heap.curLen = 0 then .error .priorityHeapEmpty
  else .ok (heap.harr 0, fun k => heap.harr (k + 1))

/-- `dragon_priority_heap_pop_highest_priority`, if it ends within `fuel` turns. -/
def dragonPriorityHeapPopHighestPriority (fuel : ℕ) (heap : DragonPriorityHeap nvalsPerKey) :
    Option (Except DragonError Unit × DragonPriorityHeap nvalsPerKey) :=
  if heap.curLen = 0 then some (.error .priorityHeapEmpty, heap)
  else
    let heap : DragonPriorityHeap nvalsPerKey := { heap with curLen := heap.curLen - 1 }
    if 0 < heap.curLen then
      ((heap.heapSwap 0 heap.curLen).heapMaxify fuel 0).map fun heap => (.ok (), heap)
    else some (.ok (), heap)

/-- `dragon_priority_heap_extract_highest_priority`, if it ends within `fuel` turns: a peek,
and a pop whose return code is not looked at. -/
def dragonPriorityHeapExtractHighestPriority (fuel : ℕ)
    (heap : DragonPriorityHeap nvalsPerKey) :
    Option (Except DragonError (HeapItem nvalsPerKey) × DragonPriorityHeap nvalsPerKey) :=
  match dragonPriorityHeapPeekHighestPriority heap with
  | .error e => some (.error e, heap)
  | .ok item =>
    (dragonPriorityHeapPopHighestPriority fuel heap).map fun result => (.ok item, result.2)
