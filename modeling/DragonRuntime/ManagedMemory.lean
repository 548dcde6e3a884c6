/-
# Allocations of a memory pool (`src/lib/managed_memory.c`)

An allocation is a block of the pool's heap and a record in the pool's manifest, a blocks table
that gives the record its id.  The two have a lock each, so that an allocation or a free is done
in several steps, between which other processes make theirs.  A process holds an allocation by a
descriptor, the index of a `dragonMemory_t` in its table; clones, attached descriptors and those
made from an id have a `dragonMemory_t` of their own with a copy of the record and a window,
given by an offset and a byte count, into the allocation.

Conventions:

* the heap and the blocks table behave as specified: a new block does not start where a live
  block does, a block is freed by its offset and size, and an id is never given twice;
* a pool is local to a process or it is not; memory pointers are offsets in the pool;
* sizes and offsets are 64-bit words, with the arithmetic of the source;
* of the process's own heap only the entry in the table can fail (`INTERNAL_MALLOC_FAIL`).
-/
import DragonRuntime.Umap
import DragonRuntime.ReturnCodes
import DragonRuntime.Runs

/-- `DRAGON_MEMORY_MEM_UMAP_SEED`. -/
def dragonMemoryMemUmapSeed : UInt64 := 9

/-- `DRAGON_MEMORY_ALLOC_DATA`. -/
def dragonMemoryAllocData : UInt64 := 0

/-- `dragonMemoryManifestRec_t`. -/
structure ManifestRec where
  id : UInt64
  type : UInt64
  offset : UInt64
  size : UInt64
  deriving DecidableEq, Repr

/-- Offset and size of the heap block that a record is about. -/
def ManifestRec.block (record : ManifestRec) : UInt64 × UInt64 := (record.offset, record.size)

/-- `dragonMemory_t`: `localDptr` is the offset of the allocation in the pool, or `none` if the
memory is not local or has no bytes. -/
structure DragonMemory where
  bytes : UInt64
  offset : UInt64
  localDptr : Option UInt64
  mfstRecord : ManifestRec
  deriving DecidableEq, Repr

/-- The id is set in the copy of the record. -/
def DragonMemory.withId (mem : DragonMemory) (id : UInt64) : DragonMemory :=
  { mem with mfstRecord := { mem.mfstRecord with id := id } }

/-- What `dragon_memory_serialize` writes, beside the pool. -/
structure MemorySerial where
  id : UInt64
  offset : UInt64
  bytes : UInt64
  deriving DecidableEq, Repr

/-- A call of a process that is between two steps. -/
inductive MemoryOp (P : Type*) : Type _ where
  /-- an allocation that has its heap block and no record yet -/
  | taken (p : P) (mem : DragonMemory)
  /-- an allocation that got no record and has to free its block -/
  | refused (p : P) (mem : DragonMemory)
  /-- an allocation that has its record and no descriptor yet -/
  | recorded (p : P) (mem : DragonMemory)
  /-- a free that has removed the record and has still to free the block -/
  | removed (p : P) (idx : UInt64) (mem : DragonMemory)
  deriving DecidableEq

/-- A pool, with the tables of the processes that use it (`dg_mallocs`).  The records that were
ever made are what the blocks table knows of the ids it has given. -/
structure MemoryPool (P : Type*) where
  isLocal : P → Bool
  maxAllocations : ℕ
  heap : List (UInt64 × UInt64)
  manifest : List ManifestRec
  issued : List ManifestRec
  dgMallocs : P → Option (Umap DragonMemory)
  ops : List (MemoryOp P)

namespace MemoryPool

variable {P : Type*} [DecidableEq P]

/-- `dragon_memory_pool_create`: nothing is allocated. -/
def create (isLocal : P → Bool) (maxAllocations : ℕ) : MemoryPool P :=
  ⟨isLocal, maxAllocations, [], [], [], fun _ => none, []⟩

/-- `_mem_from_descr`. -/
def memFromDescr (pool : MemoryPool P) (p : P) (idx : UInt64) : Option DragonMemory :=
  (pool.dgMallocs p).bind (fun map => map.dMap idx)

/-- `_add_alloc_umap_entry`. -/
def addAllocUmapEntry (pool : MemoryPool P) (p : P) (mem : DragonMemory) : MemoryPool P :=
  { pool with
    dgMallocs := Function.update pool.dgMallocs p
      (some (((pool.dgMallocs p).getD (.create dragonMemoryMemUmapSeed)).addItemGenKey mem).1) }

/-- `dragon_umap_delitem` on the table of the process. -/
def delAllocUmapEntry (pool : MemoryPool P) (p : P) (idx : UInt64) : MemoryPool P :=
  { pool with
    dgMallocs := Function.update pool.dgMallocs p
      ((pool.dgMallocs p).map (fun map => map.delItem idx)) }

/-- The change of a `dragonMemory_t` in place. -/
def setMem (pool : MemoryPool P) (p : P) (idx : UInt64) (mem : DragonMemory) : MemoryPool P :=
  { pool with
    dgMallocs := Function.update pool.dgMallocs p
      ((pool.dgMallocs p).map
        (fun map => { map with dMap := Function.update map.dMap idx (some mem) })) }

/-- `dragon_memory_alloc_blocking` and `dragon_memory_alloc_type_blocking` up to the heap block,
which starts at `hptr`.  An allocation of no bytes has neither block nor record, and is done: its
`mfst_record` is what its caller leaves in it. -/
def alloc (pool : MemoryPool P) (p : P) (bytes type : UInt64) (blank : ManifestRec)
    (hptr : UInt64) : Except DragonError (MemoryPool P) :=
  if pool.isLocal p = false ∧ bytes ≠ 0 then .error .memoryOperationAttemptOnNonlocalPool
  else if bytes = 0 then .ok (pool.addAllocUmapEntry p ⟨0, 0, none, blank⟩)
  else if hptr ∈ pool.heap.map Prod.fst then .error .dynheapRequestedSizeNotAvailable
  else
    .ok { pool with
      heap := (hptr, bytes) :: pool.heap
      ops := .taken p ⟨bytes, 0, some hptr, { blank with type := type, offset := hptr, size := bytes }⟩
        :: pool.ops }

/-- `_generate_manifest_record`: the record gets the id of its place in the blocks table, unless
the table is full. -/
def generateManifestRecord (pool : MemoryPool P) (p : P) (mem : DragonMemory) (id : UInt64) :
    MemoryPool P :=
  if pool.manifest.length = pool.maxAllocations then
    { pool with ops := .refused p mem :: pool.ops.erase (.taken p mem) }
  else
    { pool with
      manifest := (mem.withId id).mfstRecord :: pool.manifest
      issued := (mem.withId id).mfstRecord :: pool.issued
      ops := .recorded p (mem.withId id) :: pool.ops.erase (.taken p mem) }

/-- `dragon_heap_free`. -/
def heapFree (pool : MemoryPool P) (block : UInt64 × UInt64) : MemoryPool P :=
  { pool with heap := pool.heap.erase block }

/-- The end of an allocation: the entry in the table of the process, or the free of the block
when the entry cannot be made. -/
def finishAlloc (pool : MemoryPool P) (p : P) (mem : DragonMemory) (entered : Bool) :
    MemoryPool P :=
  let pool' := { pool with ops := pool.ops.erase (.recorded p mem) }
  if entered then pool'.addAllocUmapEntry p mem
  else pool'.heapFree mem.mfstRecord.block

/-- `dragon_memory_free` up to the removal of the record. -/
def free (pool : MemoryPool P) (p : P) (idx : UInt64) : Except DragonError (MemoryPool P) :=
  match pool.memFromDescr p idx with
  | none => .error .mapKeyNotFound
  | some mem =>
    if mem.localDptr = none ∧ mem.bytes ≠ 0 then .error .memoryOperationAttemptOnNonlocalPool
    else if mem.bytes ≠ 0 then
      -- `dragon_blocks_free`
      match pool.manifest.find? (fun record => record.id = mem.mfstRecord.id) with
      | none => .error .invalidArgument
      | some record =>
        .ok { pool with
          manifest := pool.manifest.erase record
          ops := .removed p idx mem :: pool.ops }
    else .ok (pool.delAllocUmapEntry p idx)

/-- The end of `dragon_memory_free`: the free of the block at `local_dptr`, with the size that is
in the copy of the record. -/
def finishFree (pool : MemoryPool P) (p : P) (idx : UInt64) (mem : DragonMemory) :
    MemoryPool P :=
  let pool' := { pool with ops := pool.ops.erase (.removed p idx mem) }
  match mem.localDptr with
  | none => pool'
  | some dptr =>
    if (dptr, mem.mfstRecord.size) ∈ pool.heap then
      (pool'.heapFree (dptr, mem.mfstRecord.size)).delAllocUmapEntry p idx
    else pool'

/-- `dragon_memory_descr_clone`. -/
def descrClone (pool : MemoryPool P) (p : P) (idx offset : UInt64)
    (customLength : Option UInt64) : Except DragonError (MemoryPool P) :=
  match pool.memFromDescr p idx with
  | none => .error .mapKeyNotFound
  | some mem =>
    if mem.bytes < offset then .error .invalidArgument
    else if ∃ length ∈ customLength, mem.bytes < offset + length then .error .invalidArgument
    else
      .ok (pool.addAllocUmapEntry p
        ⟨customLength.getD (mem.bytes - offset), mem.offset + offset, mem.localDptr,
          mem.mfstRecord⟩)

/-- `dragon_memory_serialize`. -/
def serialize (pool : MemoryPool P) (p : P) (idx : UInt64) : Except DragonError MemorySerial :=
  match pool.memFromDescr p idx with
  | none => .error .mapKeyNotFound
  | some mem => .ok ⟨mem.mfstRecord.id, mem.offset, mem.bytes⟩

/-- `dragon_memory_get_alloc_memdescr`. -/
def getAllocMemdescr (pool : MemoryPool P) (p : P) (id offset : UInt64)
    (bytesSize : Option UInt64) : Except DragonError (MemoryPool P) :=
  if pool.isLocal p ∧ bytesSize ≠ some 0 then
    -- `_lookup_allocation`
    match pool.manifest.find? (fun record => record.id = id) with
    | none => .error .objectDestroyed
    | some record =>
      if ∃ bytes ∈ bytesSize, record.size < bytes + offset then .error .invalidArgument
      else
        .ok (pool.addAllocUmapEntry p
          ⟨bytesSize.getD (record.size - offset), offset, some record.offset, record⟩)
  else
    match bytesSize with
    | none => .error .invalidArgument
    | some bytes => .ok (pool.addAllocUmapEntry p ⟨bytes, offset, none, ⟨id, 0, offset, bytes⟩⟩)

/-- `dragon_memory_attach`, once the process has attached to the pool. -/
def attach (pool : MemoryPool P) (p : P) (memSer : MemorySerial) :
    Except DragonError (MemoryPool P) :=
  pool.getAllocMemdescr p memSer.id memSer.offset (some memSer.bytes)

/-- `dragon_memory_from_id`. -/
def fromId (pool : MemoryPool P) (p : P) (id : UInt64) : Except DragonError (MemoryPool P) :=
  pool.getAllocMemdescr p id 0 none

/-- `dragon_memory_modify_size`: a descriptor of no bytes is given a new allocation, of type
`DRAGON_MEMORY_ALLOC_DATA`. -/
def modifySize (pool : MemoryPool P) (p : P) (idx newSize : UInt64) (blank : ManifestRec)
    (hptr : UInt64) : Except DragonError (MemoryPool P) :=
  match pool.memFromDescr p idx with
  | none => .error .mapKeyNotFound
  | some mem =>
    if mem.bytes = 0 then
      pool.alloc p newSize dragonMemoryAllocData { blank with id := 0, type := 0 } hptr
    else if mem.mfstRecord.size < newSize + mem.offset then .error .invalidArgument
    else .ok (pool.setMem p idx { mem with bytes := newSize })

/-! ## Runs -/

end MemoryPool

/-- The steps of the calls.  A step that ends or carries on a call names the call. -/
inductive MemoryStep (P : Type*) : Type _ where
  | alloc (p : P) (bytes : UInt64) (blank : ManifestRec) (hptr : UInt64)
  | allocType (p : P) (bytes type : UInt64) (blank : ManifestRec) (hptr : UInt64)
  | generateManifestRecord (p : P) (mem : DragonMemory) (id : UInt64)
  | giveBack (p : P) (mem : DragonMemory)
  | finishAlloc (p : P) (mem : DragonMemory) (entered : Bool)
  | free (p : P) (idx : UInt64)
  | finishFree (p : P) (idx : UInt64) (mem : DragonMemory)
  | descrClone (p : P) (idx offset : UInt64) (customLength : Option UInt64)
  | attach (p : P) (memSer : MemorySerial)
  | fromId (p : P) (id : UInt64)
  | modifySize (p : P) (idx newSize : UInt64) (blank : ManifestRec) (hptr : UInt64)

namespace MemoryPool

variable {P : Type*} [DecidableEq P]

/-- The pool after a step.  A step that cannot be made, and a call that returns an error, change
nothing. -/
def exec (pool : MemoryPool P) : MemoryStep P → MemoryPool P
  | .alloc p bytes blank hptr =>
    (pool.alloc p bytes dragonMemoryAllocData { blank with id := 0, type := 0 }
      hptr).toOption.getD pool
  | .allocType p bytes type blank hptr => (pool.alloc p bytes type blank hptr).toOption.getD pool
  | .generateManifestRecord p mem id =>
    if .taken p mem ∈ pool.ops ∧ id ∉ pool.issued.map ManifestRec.id then
      pool.generateManifestRecord p mem id
    else pool
  | .giveBack p mem =>
    if .refused p mem ∈ pool.ops then
      { pool with ops := pool.ops.erase (.refused p mem) }.heapFree mem.mfstRecord.block
    else pool
  | .finishAlloc p mem entered =>
    if .recorded p mem ∈ pool.ops then pool.finishAlloc p mem entered else pool
  | .free p idx => (pool.free p idx).toOption.getD pool
  | .finishFree p idx mem =>
    if .removed p idx mem ∈ pool.ops then pool.finishFree p idx mem else pool
  | .descrClone p idx offset customLength =>
    (pool.descrClone p idx offset customLength).toOption.getD pool
  | .attach p memSer => (pool.attach p memSer).toOption.getD pool
  | .fromId p id => (pool.fromId p id).toOption.getD pool
  | .modifySize p idx newSize blank hptr =>
    (pool.modifySize p idx newSize blank hptr).toOption.getD pool

/-- The step is not the failure to enter an allocation in the table of its process. -/
def Entered : MemoryStep P → Prop
  | .finishAlloc _ _ entered => entered = true
  | _ => True

/-- The heap block that a call in progress has in its hands, and no record has. -/
def opBlock : MemoryOp P → Option (UInt64 × UInt64)
  | .taken _ mem => some mem.mfstRecord.block
  | .refused _ mem => some mem.mfstRecord.block
  | .recorded _ _ => none
  | .removed _ _ mem => some mem.mfstRecord.block

/-- The descriptor is of an allocation that was made, from its start: whatever its window is, its
pointer and its copy of the record are those of the allocation. -/
def Backed (pool : MemoryPool P) (mem : DragonMemory) : Prop :=
  mem.mfstRecord ∈ pool.issued ∧ mem.localDptr = some mem.mfstRecord.offset

/-- What a process may have in its table: memory with bytes is that of an allocation, or the
pool is not local to the process. -/
def Holds (pool : MemoryPool P) (p : P) (mem : DragonMemory) : Prop :=
  if pool.isLocal p then mem.bytes ≠ 0 → pool.Backed mem else mem.localDptr = none

/-- What a call in progress has in its hands. -/
def OpHolds (pool : MemoryPool P) : MemoryOp P → Prop
  | .taken p mem => pool.isLocal p = true ∧ mem.localDptr = some mem.mfstRecord.offset
  | .refused _ _ => True
  | .recorded p mem => pool.isLocal p = true ∧ pool.Backed mem
  | .removed _ _ mem => pool.Backed mem

/-- **Manifest and heap agree**: the heap blocks are those of the records and those in the hands
of the calls in progress. -/
structure Agrees (pool : MemoryPool P) : Prop where
  blocks : pool.heap.Perm
    (pool.manifest.map ManifestRec.block ++ pool.ops.filterMap opBlock)
  offsets : (pool.heap.map Prod.fst).Nodup
  ids : (pool.issued.map ManifestRec.id).Nodup
  records : pool.manifest.Sublist pool.issued
  mems : ∀ p idx mem, pool.memFromDescr p idx = some mem → pool.Holds p mem
  ops : ∀ op ∈ pool.ops, pool.OpHolds op

/-! ## What the updates of the tables keep -/

variable {mem : DragonMemory} {p : P} {pool pool' : MemoryPool P} {op : MemoryOp P}
  {idx offset : UInt64}

omit [DecidableEq P] in
/-- The parts of a pool that the processes share are the same, or have grown by records. -/
theorem Holds.mono (hlocal : pool'.isLocal = pool.isLocal) (hissued : pool.issued ⊆ pool'.issued)
    (h : pool.Holds p mem) : pool'.Holds p mem := by
  rw [Holds, hlocal]
  rw [Holds] at h
  split
  next hp =>
    rw [if_pos hp] at h
    intro hbytes
    obtain ⟨hmem, hdptr⟩ := h hbytes
    exact ⟨hissued hmem, hdptr⟩
  next hp =>
    rwa [if_neg hp] at h

omit [DecidableEq P] in
theorem OpHolds.mono (hlocal : pool'.isLocal = pool.isLocal) (hissued : pool.issued ⊆ pool'.issued)
    (h : pool.OpHolds op) : pool'.OpHolds op := by
  cases op with
  | taken => exact ⟨hlocal ▸ h.1, h.2⟩
  | refused => exact trivial
  | recorded => exact ⟨hlocal ▸ h.1, hissued h.2.1, h.2.2⟩
  | removed => exact ⟨hissued h.1, h.2⟩

omit [DecidableEq P] in
/-- The tables change and nothing else does. -/
theorem Agrees.setTables (h : pool.Agrees) {tables : P → Option (Umap DragonMemory)}
    (hmems : ∀ p idx mem, (tables p).bind (fun map => map.dMap idx) = some mem → pool.Holds p mem) :
    { pool with dgMallocs := tables }.Agrees :=
  ⟨h.blocks, h.offsets, h.ids, h.records, fun p idx mem hmem =>
    (hmems p idx mem hmem).mono rfl (List.Subset.refl _), fun op hop =>
      (h.ops op hop).mono rfl (List.Subset.refl _)⟩

theorem Agrees.addAllocUmapEntry (h : pool.Agrees) (hmem : pool.Holds p mem) :
    (pool.addAllocUmapEntry p mem).Agrees := by
  apply h.setTables
  intro q idx mem' hmem'
  rcases Umap.find_of_addItemGenKey hmem' with ⟨rfl, rfl⟩ | hold
  · exact hmem
  · exact h.mems q idx mem' hold

theorem Agrees.delAllocUmapEntry (h : pool.Agrees) (p : P) (idx : UInt64) :
    (pool.delAllocUmapEntry p idx).Agrees := by
  apply h.setTables
  intro q idx' mem hmem
  exact h.mems q idx' mem (Umap.find_of_delItem hmem)

theorem Agrees.setMem (h : pool.Agrees) (hmem : pool.Holds p mem) :
    (pool.setMem p idx mem).Agrees := by
  apply h.setTables
  intro q idx' mem' hmem'
  rcases Umap.find_of_update hmem' with ⟨rfl, hentry⟩ | hold
  · exact Option.some.inj hentry ▸ hmem
  · exact h.mems q idx' mem' hold

/-! ## What the steps on the shared structures keep -/

theorem filterMap_erase_of_some {ops : List (MemoryOp P)} (hop : op ∈ ops) {block : UInt64 × UInt64}
    (hblock : opBlock op = some block) :
    (ops.filterMap opBlock).Perm (block :: (ops.erase op).filterMap opBlock) := by
  have hperm := (List.perm_cons_erase hop).filterMap opBlock
  rwa [List.filterMap_cons_some hblock] at hperm

theorem filterMap_erase_of_none {ops : List (MemoryOp P)} (hop : op ∈ ops)
    (hblock : opBlock op = none) :
    (ops.filterMap opBlock).Perm ((ops.erase op).filterMap opBlock) := by
  have hperm := (List.perm_cons_erase hop).filterMap opBlock
  rwa [List.filterMap_cons_none hblock] at hperm

/-- The heap with the block of the call on top. -/
theorem Agrees.heap_perm_of_some (h : pool.Agrees) (hop : op ∈ pool.ops) {block : UInt64 × UInt64}
    (hblock : opBlock op = some block) :
    pool.heap.Perm (block :: (pool.manifest.map ManifestRec.block ++
      (pool.ops.erase op).filterMap opBlock)) :=
  (h.blocks.trans ((filterMap_erase_of_some hop hblock).append_left _)).trans List.perm_middle

theorem Agrees.opHolds_erase (h : pool.Agrees) (op : MemoryOp P) :
    ∀ op' ∈ pool.ops.erase op, pool.OpHolds op' :=
  fun op' hop' => h.ops op' (List.mem_of_mem_erase hop')

theorem Agrees.giveBack (h : pool.Agrees) (hop : op ∈ pool.ops) {block : UInt64 × UInt64}
    (hblock : opBlock op = some block) :
    ({ pool with ops := pool.ops.erase op }.heapFree block).Agrees where
  blocks := by
    have hperm := (h.heap_perm_of_some hop hblock).erase block
    rwa [List.erase_cons_head] at hperm
  offsets := h.offsets.sublist (List.erase_sublist.map _)
  ids := h.ids
  records := h.records
  mems p idx mem hmem := (h.mems p idx mem hmem).mono rfl (List.Subset.refl _)
  ops op' hop' := (h.opHolds_erase op op' hop').mono rfl (List.Subset.refl _)

theorem Agrees.alloc (h : pool.Agrees) {bytes type : UInt64} {blank : ManifestRec} {hptr : UInt64}
    (hok : pool.alloc p bytes type blank hptr = .ok pool') : pool'.Agrees := by
  rw [MemoryPool.alloc] at hok
  split at hok
  · cases hok
  next hlocal =>
    split at hok
    · rw [← Except.ok.inj hok]
      apply h.addAllocUmapEntry
      rw [Holds]
      split
      · exact fun hbytes => absurd rfl hbytes
      · rfl
    next hbytes =>
      split at hok
      · cases hok
      next hfresh =>
        have hp : pool.isLocal p = true := by
          by_contra hp
          exact hlocal ⟨Bool.eq_false_iff.mpr hp, hbytes⟩
        rw [← Except.ok.inj hok]
        exact
          { blocks := (h.blocks.cons _).trans List.perm_middle.symm
            offsets := List.nodup_cons.mpr ⟨hfresh, h.offsets⟩
            ids := h.ids
            records := h.records
            mems := fun p idx mem hmem =>
              (h.mems p idx mem hmem).mono rfl (List.Subset.refl _)
            ops := List.forall_mem_cons.mpr ⟨⟨hp, rfl⟩, fun op hop =>
              (h.ops op hop).mono rfl (List.Subset.refl _)⟩ }

theorem Agrees.generateManifestRecord (h : pool.Agrees) (hop : .taken p mem ∈ pool.ops)
    {id : UInt64} (hid : id ∉ pool.issued.map ManifestRec.id) :
    (pool.generateManifestRecord p mem id).Agrees := by
  have hperm := h.heap_perm_of_some hop rfl
  rw [MemoryPool.generateManifestRecord]
  split
  · exact
      { blocks := hperm.trans List.perm_middle.symm
        offsets := h.offsets
        ids := h.ids
        records := h.records
        mems := fun p idx mem hmem => (h.mems p idx mem hmem).mono rfl (List.Subset.refl _)
        ops := List.forall_mem_cons.mpr ⟨trivial, fun op hop =>
          (h.opHolds_erase _ op hop).mono rfl (List.Subset.refl _)⟩ }
  · exact
      { blocks := hperm
        offsets := h.offsets
        ids := List.nodup_cons.mpr ⟨hid, h.ids⟩
        records := h.records.cons_cons _
        mems := fun p idx mem hmem =>
          (h.mems p idx mem hmem).mono (by rfl) (List.subset_cons_self _ _)
        ops := List.forall_mem_cons.mpr
          ⟨⟨(h.ops _ hop).1, List.mem_cons_self, (h.ops _ hop).2⟩, fun op hop =>
            (h.opHolds_erase _ op hop).mono (by rfl) (List.subset_cons_self _ _)⟩ }

theorem Agrees.finishAlloc (h : pool.Agrees) (hop : .recorded p mem ∈ pool.ops) :
    (pool.finishAlloc p mem true).Agrees := by
  have hpool : { pool with ops := pool.ops.erase (.recorded p mem) }.Agrees :=
    { blocks := h.blocks.trans ((filterMap_erase_of_none hop rfl).append_left _)
      offsets := h.offsets
      ids := h.ids
      records := h.records
      mems := fun p idx mem hmem => (h.mems p idx mem hmem).mono rfl (List.Subset.refl _)
      ops := fun op hop => (h.opHolds_erase _ op hop).mono rfl (List.Subset.refl _) }
  apply hpool.addAllocUmapEntry
  obtain ⟨hlocal, hbacked⟩ := h.ops _ hop
  rw [Holds, if_pos hlocal]
  exact fun _ => hbacked

omit [DecidableEq P] in
/-- A descriptor with bytes, of memory that is local, is of an allocation that was made. -/
theorem Agrees.backed (h : pool.Agrees) (hmem : pool.memFromDescr p idx = some mem)
    (hbytes : mem.bytes ≠ 0) (hdptr : mem.localDptr ≠ none) : pool.Backed mem := by
  have hholds := h.mems p idx mem hmem
  rw [Holds] at hholds
  split at hholds
  · exact hholds hbytes
  · exact absurd hholds hdptr

omit [DecidableEq P] in
theorem Agrees.find_record (h : pool.Agrees) {record : ManifestRec} (hissued : record ∈ pool.issued)
    {record' : ManifestRec}
    (hfind : pool.manifest.find? (fun other => other.id = record.id) = some record') :
    record' = record ∧ record ∈ pool.manifest := by
  have hmem := List.mem_of_find?_eq_some hfind
  have hid : record'.id = record.id := by
    have hfound := List.find?_some hfind
    exact of_decide_eq_true hfound
  have heq : record' = record :=
    List.inj_on_of_nodup_map h.ids (h.records.subset hmem) hissued hid
  exact ⟨heq, heq ▸ hmem⟩

omit [DecidableEq P] in
theorem Agrees.remove (h : pool.Agrees) (hbacked : pool.Backed mem)
    (hrecord : mem.mfstRecord ∈ pool.manifest) :
    { pool with
      manifest := pool.manifest.erase mem.mfstRecord
      ops := .removed p idx mem :: pool.ops }.Agrees where
  blocks := by
    have hperm := (List.perm_cons_erase hrecord).map ManifestRec.block
    exact (h.blocks.trans (hperm.append_right _)).trans List.perm_middle.symm
  offsets := h.offsets
  ids := h.ids
  records := List.erase_sublist.trans h.records
  mems p idx mem hmem := (h.mems p idx mem hmem).mono rfl (List.Subset.refl _)
  ops := List.forall_mem_cons.mpr ⟨hbacked, fun op hop =>
    (h.ops op hop).mono rfl (List.Subset.refl _)⟩

theorem Agrees.free (h : pool.Agrees) (hok : pool.free p idx = .ok pool') : pool'.Agrees := by
  rw [MemoryPool.free] at hok
  split at hok
  · cases hok
  next mem hmem =>
    split at hok
    · cases hok
    next hdptr =>
      split at hok
      next hbytes =>
        have hbacked := h.backed hmem hbytes (fun hnone => hdptr ⟨hnone, hbytes⟩)
        split at hok
        · cases hok
        next record hfind =>
          obtain ⟨rfl, hrecord⟩ := h.find_record hbacked.1 hfind
          rw [← Except.ok.inj hok]
          exact h.remove hbacked hrecord
      · rw [← Except.ok.inj hok]
        exact h.delAllocUmapEntry p idx

/-- The end of a free finds its block in the heap. -/
theorem Agrees.finishFree_eq (h : pool.Agrees) (hop : .removed p idx mem ∈ pool.ops) :
    pool.finishFree p idx mem =
      ({ pool with ops := pool.ops.erase (.removed p idx mem) }.heapFree
        mem.mfstRecord.block).delAllocUmapEntry p idx := by
  have hblock : mem.mfstRecord.block ∈ pool.heap :=
    (h.heap_perm_of_some hop rfl).mem_iff.mpr List.mem_cons_self
  rw [finishFree, (h.ops _ hop).2]
  exact if_pos hblock

theorem Agrees.finishFree (h : pool.Agrees) (hop : .removed p idx mem ∈ pool.ops) :
    (pool.finishFree p idx mem).Agrees := by
  rw [h.finishFree_eq hop]
  exact (h.giveBack hop rfl).delAllocUmapEntry p idx

/-! ## What the calls on descriptors keep -/

omit [DecidableEq P] in
/-- A descriptor with another window is as good as the one it was made from, unless that had no
bytes. -/
theorem Holds.window (h : pool.Holds p mem) {bytes : UInt64} (hbytes : bytes ≠ 0 → mem.bytes ≠ 0) :
    pool.Holds p ⟨bytes, offset, mem.localDptr, mem.mfstRecord⟩ := by
  rw [Holds] at h ⊢
  split
  next hp =>
    rw [if_pos hp] at h
    exact fun hne => h (hbytes hne)
  next hp =>
    rwa [if_neg hp] at h

theorem Agrees.descrClone (h : pool.Agrees) {customLength : Option UInt64}
    (hok : pool.descrClone p idx offset customLength = .ok pool') : pool'.Agrees := by
  rw [MemoryPool.descrClone] at hok
  split at hok
  · cases hok
  next mem hmem =>
    split at hok
    · cases hok
    next hoffset =>
      split at hok
      · cases hok
      next hlength =>
        rw [← Except.ok.inj hok]
        apply h.addAllocUmapEntry
        apply (h.mems p idx mem hmem).window
        -- from a window of no bytes only windows of no bytes can be cut
        intro hne hzero
        have hoffset0 : offset = 0 := by
          rw [hzero] at hoffset
          have := UInt64.not_lt.mp hoffset
          exact UInt64.le_zero_iff.mp this
        cases customLength with
        | none =>
          apply hne
          rw [Option.getD_none, hzero, hoffset0]
          rfl
        | some length =>
          apply hlength
          refine ⟨length, rfl, ?_⟩
          rw [hzero, hoffset0, UInt64.zero_add]
          exact UInt64.pos_iff_ne_zero.mpr hne

theorem Agrees.getAllocMemdescr (h : pool.Agrees) {id : UInt64} {bytesSize : Option UInt64}
    (hok : pool.getAllocMemdescr p id offset bytesSize = .ok pool') : pool'.Agrees := by
  rw [MemoryPool.getAllocMemdescr.eq_def] at hok
  split at hok
  next hlocal =>
    split at hok
    · cases hok
    next record hfind =>
      split at hok
      · cases hok
      · rw [← Except.ok.inj hok]
        apply h.addAllocUmapEntry
        rw [Holds, if_pos hlocal.1]
        exact fun _ => ⟨h.records.subset (List.mem_of_find?_eq_some hfind), rfl⟩
  next hlocal =>
    split at hok
    · cases hok
    next bytes =>
      rw [← Except.ok.inj hok]
      apply h.addAllocUmapEntry
      rw [Holds]
      split
      next hp =>
        -- the pool is local, so that the window has no bytes
        intro hbytes
        exact absurd ⟨hp, fun heq => hbytes (Option.some.inj heq)⟩ hlocal
      · rfl

theorem Agrees.modifySize (h : pool.Agrees) {newSize : UInt64} {blank : ManifestRec} {hptr : UInt64}
    (hok : pool.modifySize p idx newSize blank hptr = .ok pool') : pool'.Agrees := by
  rw [MemoryPool.modifySize] at hok
  split at hok
  · cases hok
  next mem hmem =>
    split at hok
    · exact h.alloc hok
    next hbytes =>
      split at hok
      · cases hok
      · rw [← Except.ok.inj hok]
        exact h.setMem ((h.mems p idx mem hmem).window (fun _ => hbytes))

omit [DecidableEq P] in
/-- A call that fails changes nothing. -/
theorem Agrees.getD (h : pool.Agrees) {result : Except DragonError (MemoryPool P)}
    (hok : ∀ pool', result = .ok pool' → pool'.Agrees) : (result.toOption.getD pool).Agrees := by
  cases result with
  | error e => exact h
  | ok pool' => exact hok pool' rfl

/-- **Step.**  Manifest and heap agree after every step, but for the failure to enter an
allocation in the table of its process. -/
theorem Agrees.exec (h : pool.Agrees) (step : MemoryStep P) (hentered : Entered step) :
    (pool.exec step).Agrees := by
  cases step with
  | alloc => exact h.getD (fun _ => h.alloc)
  | allocType => exact h.getD (fun _ => h.alloc)
  | generateManifestRecord =>
    rw [MemoryPool.exec]
    split
    next hop => exact h.generateManifestRecord hop.1 hop.2
    · exact h
  | giveBack =>
    rw [MemoryPool.exec]
    split
    next hop => exact h.giveBack hop rfl
    · exact h
  | finishAlloc _ _ entered =>
    obtain rfl : entered = true := hentered
    rw [MemoryPool.exec]
    split
    next hop => exact h.finishAlloc hop
    · exact h
  | free => exact h.getD (fun _ => h.free)
  | finishFree =>
    rw [MemoryPool.exec]
    split
    next hop => exact h.finishFree hop
    · exact h
  | descrClone => exact h.getD (fun _ => h.descrClone)
  | attach => exact h.getD (fun _ => h.getAllocMemdescr)
  | fromId => exact h.getD (fun _ => h.getAllocMemdescr)
  | modifySize => exact h.getD (fun _ => h.modifySize)

omit [DecidableEq P] in
theorem Agrees.create (isLocal : P → Bool) (maxAllocations : ℕ) :
    (MemoryPool.create isLocal maxAllocations).Agrees where
  blocks := List.Perm.nil
  offsets := List.nodup_nil
  ids := List.nodup_nil
  records := List.Sublist.refl _
  mems _ _ mem hmem := absurd hmem.symm (Option.some_ne_none mem)
  ops _ hop := absurd hop List.not_mem_nil

/-- The pool after the steps of a run. -/
def run (isLocal : P → Bool) (maxAllocations : ℕ) (steps : List (MemoryStep P)) : MemoryPool P :=
  steps.foldl MemoryPool.exec (create isLocal maxAllocations)

theorem agrees_run (isLocal : P → Bool) (maxAllocations : ℕ) {steps : List (MemoryStep P)}
    (hsteps : ∀ step ∈ steps, Entered step) : (run isLocal maxAllocations steps).Agrees :=
  List.foldlRecOn steps MemoryPool.exec (.create isLocal maxAllocations)
    fun _ h step hmem => h.exec step (hsteps step hmem)

/-! ## Frees -/

/-- The free through the descriptor removes exactly the record, and leaves to its last step the
block of the record. -/
def RemovesRecord (pool : MemoryPool P) (p : P) (idx : UInt64) (record : ManifestRec) : Prop :=
  ∃ mem pool', pool.free p idx = .ok pool' ∧ pool'.manifest = pool.manifest.erase record ∧
    pool'.heap = pool.heap ∧ pool'.ops = .removed p idx mem :: pool.ops ∧
    mem.mfstRecord = record

/-- The last step of a free removes exactly the block of the record that the free removed. -/
def RemovesBlock (pool : MemoryPool P) (p : P) (idx : UInt64) (mem : DragonMemory) : Prop :=
  mem.mfstRecord.block ∈ pool.heap ∧
    (pool.finishFree p idx mem).heap = pool.heap.erase mem.mfstRecord.block ∧
    (pool.finishFree p idx mem).manifest = pool.manifest ∧
    (pool.finishFree p idx mem).ops = pool.ops.erase (.removed p idx mem)

theorem free_eq_of_bytes_eq_zero (hmem : pool.memFromDescr p idx = some mem)
    (hbytes : mem.bytes = 0) : pool.free p idx = .ok (pool.delAllocUmapEntry p idx) := by
  rw [free, hmem]
  simp only [hbytes, ne_eq, not_true_eq_false, and_false, if_false]

/-- A free through a window with bytes goes by the id of the allocation. -/
theorem Agrees.free_eq_of_bytes_ne_zero (h : pool.Agrees) (hlocal : pool.isLocal p = true)
    (hmem : pool.memFromDescr p idx = some mem) (hbytes : mem.bytes ≠ 0) :
    pool.Backed mem ∧ pool.free p idx =
      match pool.manifest.find? (fun record => record.id = mem.mfstRecord.id) with
      | none => .error .invalidArgument
      | some record =>
        .ok { pool with
          manifest := pool.manifest.erase record
          ops := .removed p idx mem :: pool.ops } := by
  have hholds := h.mems p idx mem hmem
  rw [Holds, if_pos hlocal] at hholds
  have hbacked := hholds hbytes
  refine ⟨hbacked, ?_⟩
  rw [MemoryPool.free, hmem]
  simp only [hbacked.2, reduceCtorEq, false_and, if_false, if_pos hbytes]

theorem Agrees.removesRecord_iff (h : pool.Agrees) (hlocal : pool.isLocal p = true)
    (hmem : pool.memFromDescr p idx = some mem) {record : ManifestRec}
    (hrecord : record ∈ pool.manifest) (hid : record.id = mem.mfstRecord.id) :
    pool.RemovesRecord p idx record ↔ mem.bytes ≠ 0 := by
  constructor
  · rintro ⟨mem', pool', hfree, hmanifest, _⟩ hbytes
    -- the manifest is as it was, with the record in it
    rw [free_eq_of_bytes_eq_zero hmem hbytes] at hfree
    rw [← Except.ok.inj hfree] at hmanifest
    have hlength := congrArg List.length hmanifest
    change pool.manifest.length = (pool.manifest.erase record).length at hlength
    rw [List.length_erase_of_mem hrecord] at hlength
    have hpos := List.length_pos_of_mem hrecord
    omega
  · intro hbytes
    obtain ⟨hbacked, hfree⟩ := h.free_eq_of_bytes_ne_zero hlocal hmem hbytes
    have heq : record = mem.mfstRecord :=
      List.inj_on_of_nodup_map h.ids (h.records.subset hrecord) hbacked.1 hid
    subst heq
    cases hfind : pool.manifest.find? (fun record => record.id = mem.mfstRecord.id) with
    | none =>
      have hne := List.find?_eq_none.mp hfind _ hrecord
      exact absurd rfl (of_decide_eq_false (Bool.eq_false_iff.mpr hne))
    | some found =>
      obtain ⟨rfl, _⟩ := h.find_record hbacked.1 hfind
      rw [hfind] at hfree
      exact ⟨mem, _, hfree, rfl, rfl, rfl, rfl⟩

theorem Agrees.removesBlock (h : pool.Agrees) (hop : .removed p idx mem ∈ pool.ops) :
    pool.RemovesBlock p idx mem := by
  refine ⟨(h.heap_perm_of_some hop rfl).mem_iff.mpr List.mem_cons_self, ?_⟩
  rw [h.finishFree_eq hop]
  exact ⟨rfl, rfl, rfl⟩

theorem Agrees.free_fails_iff (h : pool.Agrees) (hlocal : pool.isLocal p = true)
    (hmem : pool.memFromDescr p idx = some mem)
    (hfreed : mem.mfstRecord.id ∉ pool.manifest.map ManifestRec.id) :
    ¬ Succeeds (pool.free p idx) ↔ mem.bytes ≠ 0 := by
  constructor
  · intro hfails hbytes
    apply hfails
    rw [free_eq_of_bytes_eq_zero hmem hbytes]
    exact trivial
  · intro hbytes
    have hnone : pool.manifest.find? (fun record => record.id = mem.mfstRecord.id) = none := by
      apply List.find?_eq_none.mpr
      intro record hrecord hid
      exact hfreed (of_decide_eq_true hid ▸ List.mem_map_of_mem hrecord)
    rw [(h.free_eq_of_bytes_ne_zero hlocal hmem hbytes).2, hnone]
    exact not_false

/-- The records and the live heap blocks correspond one to one, with equal offset and size. -/
structure Corresponds (pool : MemoryPool P) : Prop where
  blocks : (pool.manifest.map ManifestRec.block).Perm pool.heap
  offsets : (pool.heap.map Prod.fst).Nodup
  ids : (pool.manifest.map ManifestRec.id).Nodup

omit [DecidableEq P] in
theorem Agrees.corresponds (h : pool.Agrees) (hops : pool.ops = []) : pool.Corresponds := by
  refine ⟨?_, h.offsets, h.ids.sublist (h.records.map _)⟩
  have hperm := h.blocks
  rw [hops, List.filterMap_nil, List.append_nil] at hperm
  exact hperm.symm

/-- **Manifest and heap.**  In every run in which no allocation fails to be entered in the table
of its process: when no call is in progress, records and blocks correspond; a free through a
descriptor of a live allocation removes exactly its record, and later its block, exactly when the
window of the descriptor has bytes; and a free through a descriptor of an allocation that was
freed fails exactly when the window has bytes. -/
theorem manifest_and_heap (isLocal : P → Bool) (maxAllocations : ℕ) (steps : List (MemoryStep P))
    (hsteps : ∀ step ∈ steps, Entered step) :
    ((run isLocal maxAllocations steps).ops = [] →
        (run isLocal maxAllocations steps).Corresponds) ∧
      (∀ p idx mem, (run isLocal maxAllocations steps).isLocal p = true →
        (run isLocal maxAllocations steps).memFromDescr p idx = some mem →
        (∀ record ∈ (run isLocal maxAllocations steps).manifest,
          record.id = mem.mfstRecord.id →
            ((run isLocal maxAllocations steps).RemovesRecord p idx record ↔ mem.bytes ≠ 0)) ∧
        (mem.mfstRecord.id ∉ (run isLocal maxAllocations steps).manifest.map ManifestRec.id →
          (¬ Succeeds ((run isLocal maxAllocations steps).free p idx) ↔ mem.bytes ≠ 0))) ∧
      (∀ p idx mem, .removed p idx mem ∈ (run isLocal maxAllocations steps).ops →
        (run isLocal maxAllocations steps).RemovesBlock p idx mem) := by
  have h := agrees_run isLocal maxAllocations hsteps
  refine ⟨h.corresponds, ?_, fun p idx mem hop => h.removesBlock hop⟩
  intro p idx mem hlocal hmem
  constructor
  · intro record hrecord hid
    exact h.removesRecord_iff hlocal hmem hrecord hid
  · intro hfreed
    exact h.free_fails_iff hlocal hmem hfreed

/-- An allocation of 64 bytes by the one process of the pool. -/
def allocSteps : List (MemoryStep Unit) :=
  [.alloc () 64 ⟨0, 0, 0, 0⟩ 0,
    .generateManifestRecord () ⟨64, 0, some 0, ⟨0, 0, 0, 64⟩⟩ 5,
    .finishAlloc () ⟨64, 0, some 0, ⟨5, 0, 0, 64⟩⟩ true]

theorem manifest_and_heap_allocSteps :
    (run (fun _ => true) 1 allocSteps).Corresponds ∧
      (run (fun _ => true) 1 allocSteps).RemovesRecord () (keyAfter dragonMemoryMemUmapSeed 0)
        ⟨5, 0, 0, 64⟩ := by
  have h := manifest_and_heap (fun _ => true) 1 allocSteps (by
    intro step hstep
    simp only [allocSteps, List.mem_cons, List.not_mem_nil, or_false] at hstep
    rcases hstep with rfl | rfl | rfl
    · exact trivial
    · exact trivial
    · rfl)
  refine ⟨h.1 (by decide +kernel), ?_⟩
  refine ((h.2.1 () (keyAfter dragonMemoryMemUmapSeed 0) ⟨64, 0, some 0, ⟨5, 0, 0, 64⟩⟩
    (by decide +kernel) (by decide +kernel)).1 ⟨5, 0, 0, 64⟩ (by decide +kernel) rfl).mpr ?_
  decide

/-- The clone of the allocation from its end on has a window of no bytes.  A free through it
succeeds and removes neither the record nor the block. -/
theorem not_removesRecord_empty_clone :
    (run (fun _ => true) 1 (allocSteps ++
        [MemoryStep.descrClone () (keyAfter dragonMemoryMemUmapSeed 0) 64 none])).memFromDescr ()
          (keyAfter dragonMemoryMemUmapSeed 1) = some ⟨0, 64, some 0, ⟨5, 0, 0, 64⟩⟩ ∧
      (run (fun _ => true) 1 (allocSteps ++
        [MemoryStep.descrClone () (keyAfter dragonMemoryMemUmapSeed 0) 64 none])).manifest =
          [⟨5, 0, 0, 64⟩] ∧
      ¬ (run (fun _ => true) 1 (allocSteps ++
        [MemoryStep.descrClone () (keyAfter dragonMemoryMemUmapSeed 0) 64 none])).RemovesRecord ()
          (keyAfter dragonMemoryMemUmapSeed 1) ⟨5, 0, 0, 64⟩ := by
  have hmem : (run (fun _ => true) 1 (allocSteps ++
      [MemoryStep.descrClone () (keyAfter dragonMemoryMemUmapSeed 0) 64 none])).memFromDescr ()
        (keyAfter dragonMemoryMemUmapSeed 1) = some ⟨0, 64, some 0, ⟨5, 0, 0, 64⟩⟩ := by
    decide +kernel
  have hmanifest : (run (fun _ => true) 1 (allocSteps ++
      [MemoryStep.descrClone () (keyAfter dragonMemoryMemUmapSeed 0) 64 none])).manifest =
        [⟨5, 0, 0, 64⟩] := by
    decide +kernel
  refine ⟨hmem, hmanifest, ?_⟩
  rintro ⟨mem', pool', hfree, hrecord, _⟩
  rw [free_eq_of_bytes_eq_zero hmem rfl] at hfree
  rw [← Except.ok.inj hfree] at hrecord
  have hsame := hmanifest.symm.trans (hrecord.trans (congrArg (List.erase · _) hmanifest))
  exact absurd hsame (by decide)

end MemoryPool
