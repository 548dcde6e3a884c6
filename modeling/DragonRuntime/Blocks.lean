/-
# The blocks table (`src/lib/blocks.c`)

A table of `num_blocks` blocks of fixed size.  The first word of a slot is the id of the
block that it holds; in a free slot it is the index of the next free slot, or `EOLL` at
the end of the free list.  Slots from `num_inited` on have never been used and hold what
the memory held before.

Conventions:

* pointers are never `NULL` and the armor words are written by initialisation only;
* values are vectors of 64-bit words, so `value_len` is a multiple of eight bytes;
* the 64-bit words of the header and the ids are natural numbers, with the arithmetic of
  the source modulo `2^64`.
-/
import DragonRuntime.Hashtable

/-- `EOLL`. -/
def eoll : ℕ := 0xffffffffffffffff

/-- `dragonBlocksEntry_t`: the first word of a slot, and its value. -/
structure DragonBlocksEntry (valueLen : ℕ) where
  id : ℕ
  data : Words valueLen

/-- `dragonBlocks_t`. -/
structure DragonBlocks (valueLen : ℕ) where
  numSlots : ℕ
  current : ℕ
  freeSpaceHead : ℕ
  numUsed : ℕ
  numInited : ℕ
  slots : ℕ → DragonBlocksEntry valueLen

variable {valueLen : ℕ}

/-- `dragon_blocks_size`: the header has eight words. -/
def dragonBlocksSize (numBlocks valueLen : ℕ) : ℕ := numBlocks * (8 * valueLen + 8) + 64

/-- `dragon_blocks_init` on memory with the contents `slots`. -/
def dragonBlocksInit (slots : ℕ → DragonBlocksEntry valueLen) (numBlocks : ℕ) :
    DragonBlocks valueLen :=
  { numSlots := numBlocks
    current := 1
    freeSpaceHead := eoll
    numUsed := 0
    numInited := 0
    slots := slots }

namespace DragonBlocks

/-- The choice of a slot in `dragon_blocks_alloc`: a slot that has never been used, or
the head of the free list. -/
def takeSlot (blocks : DragonBlocks valueLen) : ℕ × DragonBlocks valueLen :=
  if blocks.numUsed = blocks.numInited then
    (blocks.numInited, { blocks with numInited := (blocks.numInited + 1) % 2 ^ 64 })
  else
    (blocks.freeSpaceHead,
      { blocks with freeSpaceHead := (blocks.slots blocks.freeSpaceHead).id })

/-- The counter of `dragon_blocks_alloc`: its value for the new id, and the table with
the counter advanced.  It starts again before an id would overflow. -/
def nextCurrent (blocks : DragonBlocks valueLen) : ℕ × DragonBlocks valueLen :=
  if eoll - blocks.current * blocks.numSlots % 2 ^ 64 ≤ blocks.numSlots then
    (1, { blocks with current := 2 })
  else (blocks.current, { blocks with current := (blocks.current + 1) % 2 ^ 64 })

end DragonBlocks

/-- `dragon_blocks_alloc`: the id of the new block. -/
def dragonBlocksAlloc (blocks : DragonBlocks valueLen) (value : Words valueLen) :
    Except DragonError ℕ × DragonBlocks valueLen :=
  if blocks.numUsed = blocks.numSlots then (.error .outOfSpace, blocks)
  else
    let (idx, blocks) := blocks.takeSlot
    if blocks.numSlots < idx then (.error .failure, blocks)
    else
      let (current, blocks) := blocks.nextCurrent
      let id := (current * blocks.numSlots + idx) % 2 ^ 64
      (.ok id,
        { blocks with
          slots := Function.update blocks.slots idx ⟨id, value⟩
          numUsed := (blocks.numUsed + 1) % 2 ^ 64 })

/-- `dragon_blocks_free`. -/
def dragonBlocksFree (blocks : DragonBlocks valueLen) (id : ℕ) :
    Except DragonError Unit × DragonBlocks valueLen :=
  let idx := id % blocks.numSlots
  let entry := blocks.slots idx
  if entry.id < blocks.numSlots then (.error .invalidArgument, blocks)
  else if entry.id ≠ id then (.error .invalidArgument, blocks)
  else
    (.ok (),
      { blocks with
        slots := Function.update blocks.slots idx ⟨blocks.freeSpaceHead, 0⟩
        freeSpaceHead := idx
        numUsed := (blocks.numUsed + 2 ^ 64 - 1) % 2 ^ 64 })

/-- `dragon_blocks_get`. -/
def dragonBlocksGet (blocks : DragonBlocks valueLen) (id : ℕ) :
    Except DragonError (Words valueLen) :=
  let entry := blocks.slots (id % blocks.numSlots)
  if entry.id < blocks.numSlots then .error .invalidArgument
  else if entry.id ≠ id then .error .keyNotFound
  else .ok entry.data
