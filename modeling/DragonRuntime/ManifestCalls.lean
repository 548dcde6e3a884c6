/-
# The manifest of a pool and its lock (`src/lib/managed_memory.c`, `src/lib/blocks.c`)

The records of a pool are the blocks of its manifest, with type, offset and size as their value.
Every function that looks into the manifest takes its lock and gives it back on each of its exits;
but `dragon_memory_pool_get_allocations` does not where the manifest is empty.

Conventions:

* what a function finds is an argument: the outcome of its checks, of the locks, of `malloc`, and
  of the calls of the blocks table;
* an unlock gives the lock back whatever it returns, and a wait does once;
* `none` stands for a call that has not returned.
-/
import DragonRuntime.BlocksIdentity
import DragonRuntime.LockTraces

inductive ManifestLock : Type where
  | mlock
  deriving DecidableEq

/-! ## The iteration over a blocks table -/

section Iteration

variable (blocks : DragonBlocks 3) (type : Option UInt64)

/-- The test of the loops of `dragon_blocks_count`, `dragon_blocks_first` and `dragon_blocks_next`:
the slot is in use, and its value starts with the type. -/
def DragonBlocks.hits (idx : ℕ) : Bool :=
  blocks.numSlots ≤ (blocks.slots idx).id ∧ (blocks.slots idx).id ≠ eoll ∧
    ∀ t ∈ type, (blocks.slots idx).data 0 = t

/-- The slots from `idx` on. -/
def DragonBlocks.slotsFrom (idx : ℕ) : List ℕ := List.range' idx (blocks.numInited - idx)

/-- The loop of `dragon_blocks_first` and `dragon_blocks_next`. -/
def DragonBlocks.findFrom (idx : ℕ) : Except DragonError ℕ :=
  match (blocks.slotsFrom idx).find? (blocks.hits type) with
  | some i => .ok (blocks.slots i).id
  | none => .error .blocksIterationComplete

/-- `dragon_blocks_count` -/
def dragonBlocksCount : Except DragonError ℕ :=
  match type with
  | none => .ok blocks.numUsed
  | some _ => .ok ((blocks.slotsFrom 0).countP (blocks.hits type))

/-- `dragon_blocks_first` -/
def dragonBlocksFirst : Except DragonError ℕ := blocks.findFrom type 0

/-- `dragon_blocks_next` -/
def dragonBlocksNext (id : ℕ) : Except DragonError ℕ :=
  if (blocks.slots (id % blocks.numSlots)).id < blocks.numSlots then .error .invalidArgument
  else if (blocks.slots (id % blocks.numSlots)).id ≠ id then .error .invalidArgument
  else blocks.findFrom type (id % blocks.numSlots + 1)

end Iteration

/-! ## The functions -/

/-- What a listing of the manifest finds; `next` has the type that the record in hand has. -/
structure ManifestCalls where
  checks : Except DragonError Unit
  lock : Except DragonError Unit
  count : Except DragonError ℕ
  mallocTypes : Bool
  mallocIds : Bool
  first : Except DragonError ℕ
  get : ℕ → Except DragonError (Words 3)
  next : UInt64 → ℕ → Except DragonError ℕ

/-- The loop over the records: the ids and types. -/
def listRecords (calls : ManifestCalls) :
    ℕ → Except DragonError ℕ → Option (Except DragonError (List (ℕ × UInt64)))
  | _, .error .blocksIterationComplete => some (.ok [])
  | _, .error e => some (.error e)
  | 0, .ok _ => none
  | turns + 1, .ok id =>
    match calls.get id with
    | .error e => some (.error e)
    | .ok value =>
      (listRecords calls turns (calls.next (value 0) id)).map fun r =>
        r.map fun records => (id, value 0) :: records

/-- What the two listings share; `emptyExit` for the return on an empty manifest. -/
def poolAllocations (emptyExit : Bool) (calls : ManifestCalls) (turns : ℕ) :
    Option (Except DragonError (ℕ × List (ℕ × UInt64)) × List (LockEvent ManifestLock)) :=
  match calls.checks, calls.lock, calls.count with
  | .error e, _, _ | .ok (), .error e, _ => some (.error e, [])
  | .ok (), .ok (), .error e => some (.error e, [.acquire .mlock, .release .mlock])
  | .ok (), .ok (), .ok numItems =>
    if emptyExit ∧ numItems = 0 then some (.ok (0, []), [.acquire .mlock])
    else if ¬ calls.mallocTypes ∨ ¬ calls.mallocIds then
      some (.error .internalMallocFail, [.acquire .mlock, .release .mlock])
    else
      (listRecords calls turns calls.first).map fun r =>
        (r.map fun records => (numItems, records), [.acquire .mlock, .release .mlock])

/-- `dragon_memory_pool_get_allocations` -/
def dragonMemoryPoolGetAllocations := poolAllocations true

/-- `dragon_memory_pool_get_type_allocations` -/
def dragonMemoryPoolGetTypeAllocations := poolAllocations false

/-- One call of the blocks table under the lock. -/
def underManifestLock (lock : Except DragonError Unit) : List (LockEvent ManifestLock) :=
  match lock with
  | .error _ => []
  | .ok () => [.acquire .mlock, .release .mlock]

/-- `dragon_memory_pool_allocation_exists`: `checks` are its checks, that of the pool included. -/
def allocationExistsLocks (checks lock : Except DragonError Unit) :
    List (LockEvent ManifestLock) :=
  match checks with
  | .error _ => []
  | .ok () => underManifestLock lock

/-- `dragon_memory_get_alloc_memdescr` -/
def getAllocMemdescrLocks (checks lock : Except DragonError Unit) (isLocal : Bool)
    (bytesSize : Option UInt64) : List (LockEvent ManifestLock) :=
  match checks with
  | .error _ => []
  | .ok () => if isLocal ∧ bytesSize ≠ some 0 then underManifestLock lock else []

/-- `dragon_memory_free` -/
def memoryFreeLocks (checks lock : Except DragonError Unit) (bytes : UInt64) :
    List (LockEvent ManifestLock) :=
  match checks with
  | .error _ => []
  | .ok () => if bytes ≠ 0 then underManifestLock lock else []

/-- What an attempt to make a record finds. -/
structure ManifestAttempt where
  lock : Except DragonError Unit
  mfstmgr : DragonBlocks 3

/-- A turn of the loop: the time that remains, the wait, and what the next attempt finds. -/
structure ManifestRound where
  remaining : Except DragonError Unit
  wait : Except DragonError Unit
  next : ManifestAttempt

/-- `_generate_manifest_record` with a timeout that is not zero. -/
def generateRecordLocks (value : Words 3) :
    List ManifestRound → ManifestAttempt → Option (List (LockEvent ManifestLock))
  | rounds, a =>
    match a.lock with
    | .error _ => some []
    | .ok () =>
      match (dragonBlocksAlloc a.mfstmgr value).1, rounds with
      | .error .outOfSpace, [] => none
      | .error .outOfSpace, round :: rounds =>
        match round.remaining, round.wait with
        | .error _, _ | .ok (), .error _ => some [.acquire .mlock, .release .mlock]
        | .ok (), .ok () =>
          (generateRecordLocks value rounds round.next).map fun locks =>
            .acquire .mlock :: .release .mlock :: locks
      | .error .objectDestroyed, _ => some [.acquire .mlock]
      | _, _ => some [.acquire .mlock, .release .mlock]

/-- `dragon_memory_alloc_type_blocking`: `checks` are what comes before the record, the block of the
heap included. -/
def memoryAllocLocks (checks : Except DragonError Unit) (bytes : UInt64) (isLocal zero : Bool)
    (value : Words 3) (rounds : List ManifestRound) (a : ManifestAttempt) :
    Option (List (LockEvent ManifestLock)) :=
  match checks with
  | .error _ => some []
  | .ok () =>
    if isLocal ∧ bytes ≠ 0 then
      if zero then some (underManifestLock a.lock) else generateRecordLocks value rounds a
    else some []

/-! ## The lock -/

open LockTrace

theorem disciplined_underManifestLock (lock : Except DragonError Unit) :
    Disciplined (underManifestLock lock) := by
  cases lock with
  | error e => exact rfl
  | ok u => exact rfl

theorem dragonBlocksAlloc_ne_destroyed {valueLen : ℕ} (blocks : DragonBlocks valueLen)
    (value : Words valueLen) : (dragonBlocksAlloc blocks value).1 ≠ .error .objectDestroyed := by
  unfold dragonBlocksAlloc
  dsimp only
  split
  · simp
  · split
    · simp
    · simp

/-- `_generate_manifest_record`: by induction on the turns of its loop. -/
theorem disciplined_generateRecordLocks (value : Words 3) (rounds : List ManifestRound)
    (a : ManifestAttempt) (locks : List (LockEvent ManifestLock))
    (h : generateRecordLocks value rounds a = some locks) : Disciplined locks := by
  induction rounds generalizing a locks with
  | nil =>
    unfold generateRecordLocks at h
    split at h
    · cases h
      exact rfl
    · split at h
      · cases h
      · rename_i heq
        cases heq
      · rename_i hdestroyed
        exact absurd hdestroyed (dragonBlocksAlloc_ne_destroyed _ _)
      · cases h
        exact rfl
  | cons round rounds ih =>
    unfold generateRecordLocks at h
    split at h
    · cases h
      exact rfl
    · split at h
      · rename_i heq
        cases heq
      · rename_i heq
        obtain ⟨rfl, rfl⟩ := List.cons.inj heq
        split at h
        · cases h
          exact rfl
        · cases h
          exact rfl
        · -- the wait has given the lock back, and the loop takes it again
          obtain ⟨later, hlater, rfl⟩ := Option.map_eq_some_iff.mp h
          exact disciplined_pair.mpr (ih _ _ hlater)
      · rename_i hdestroyed
        exact absurd hdestroyed (dragonBlocksAlloc_ne_destroyed _ _)
      · cases h
        exact rfl

/-- The lock at the end of a listing. -/
theorem disciplined_poolAllocations {emptyExit : Bool} {calls : ManifestCalls} {turns : ℕ}
    {r : Except DragonError (ℕ × List (ℕ × UInt64))} {locks : List (LockEvent ManifestLock)}
    (h : poolAllocations emptyExit calls turns = some (r, locks)) :
    Disciplined locks ↔
      ¬ (emptyExit = true ∧ calls.checks = .ok () ∧ calls.lock = .ok () ∧ calls.count = .ok 0) := by
  unfold poolAllocations at h
  split at h
  · rename_i hchecks
    cases h
    exact iff_of_true rfl (by simp [hchecks])
  · rename_i hlock
    cases h
    exact iff_of_true rfl (by simp [hlock])
  · rename_i hcount
    cases h
    exact iff_of_true rfl (by simp [hcount])
  · rename_i numItems hchecks hlock hcount
    rw [hchecks, hlock, hcount]
    by_cases hempty : emptyExit = true ∧ numItems = 0
    · rw [if_pos hempty] at h
      cases h
      refine iff_of_false (by decide) ?_
      rw [hempty.2]
      exact fun hnot => hnot ⟨hempty.1, rfl, rfl, rfl⟩
    · rw [if_neg hempty] at h
      have hright : ¬ (emptyExit = true ∧ (.ok () : Except DragonError Unit) = .ok () ∧
          (.ok () : Except DragonError Unit) = .ok () ∧
          (.ok numItems : Except DragonError ℕ) = .ok 0) := by
        rintro ⟨hexit, -, -, hzero⟩
        exact hempty ⟨hexit, Except.ok.inj hzero⟩
      split at h
      · cases h
        exact iff_of_true rfl hright
      · obtain ⟨r', -, hr⟩ := Option.map_eq_some_iff.mp h
        cases hr
        exact iff_of_true rfl hright

/-! ## What a listing finds in the blocks table -/

/-- The calls of the blocks table are those on `blocks`. -/
def ManifestCalls.on (blocks : DragonBlocks 3) (type : Option UInt64)
    (checks lock : Except DragonError Unit) (mallocTypes mallocIds : Bool) : ManifestCalls :=
  { checks, lock, mallocTypes, mallocIds
    count := dragonBlocksCount blocks type
    first := dragonBlocksFirst blocks type
    get := dragonBlocksGet blocks
    next := fun t id => dragonBlocksNext blocks (type.map fun _ => t) id }

namespace DragonBlocks

variable (blocks : DragonBlocks 3) (type : Option UInt64)

/-- The records of the slots from `idx` on. -/
def recordsFrom (idx : ℕ) : List (ℕ × UInt64) :=
  ((blocks.slotsFrom idx).filter (blocks.hits type)).map fun i =>
    ((blocks.slots i).id, (blocks.slots i).data 0)

variable {blocks type} {idx : ℕ}

theorem slotsFrom_succ (h : idx < blocks.numInited) :
    blocks.slotsFrom idx = idx :: blocks.slotsFrom (idx + 1) := by
  unfold slotsFrom
  rw [show blocks.numInited - idx = blocks.numInited - (idx + 1) + 1 by omega, List.range'_succ]

theorem slotsFrom_end (h : blocks.numInited ≤ idx) : blocks.slotsFrom idx = [] := by
  unfold slotsFrom
  rw [Nat.sub_eq_zero_of_le h, List.range'_zero]

theorem findFrom_end (h : blocks.numInited ≤ idx) :
    blocks.findFrom type idx = .error .blocksIterationComplete := by
  unfold findFrom
  rw [slotsFrom_end h]
  rfl

theorem findFrom_hit (h : idx < blocks.numInited) (hhit : blocks.hits type idx = true) :
    blocks.findFrom type idx = .ok (blocks.slots idx).id := by
  unfold findFrom
  rw [slotsFrom_succ h, List.find?_cons_of_pos hhit]

theorem findFrom_skip (h : idx < blocks.numInited) (hhit : ¬ blocks.hits type idx = true) :
    blocks.findFrom type idx = blocks.findFrom type (idx + 1) := by
  unfold findFrom
  rw [slotsFrom_succ h, List.find?_cons_of_neg hhit]

theorem recordsFrom_hit (h : idx < blocks.numInited) (hhit : blocks.hits type idx = true) :
    blocks.recordsFrom type idx
      = ((blocks.slots idx).id, (blocks.slots idx).data 0) :: blocks.recordsFrom type (idx + 1) := by
  unfold recordsFrom
  rw [slotsFrom_succ h, List.filter_cons_of_pos hhit, List.map_cons]

theorem recordsFrom_skip (h : idx < blocks.numInited) (hhit : ¬ blocks.hits type idx = true) :
    blocks.recordsFrom type idx = blocks.recordsFrom type (idx + 1) := by
  unfold recordsFrom
  rw [slotsFrom_succ h, List.filter_cons_of_neg hhit]

end DragonBlocks

section Listing

variable {blocks : DragonBlocks 3} {n : ℕ} {freeList : List ℕ} {live : List (ℕ × Words 3)}
  {type : Option UInt64}

theorem BlocksInv.hits_iff (h : BlocksInv blocks n freeList live) {idx : ℕ}
    (hidx : idx < blocks.numInited) :
    blocks.hits type idx = true ↔
      idx ∉ freeList ∧ ∀ t ∈ type, (blocks.slots idx).data 0 = t := by
  unfold DragonBlocks.hits
  rw [decide_eq_true_iff, ← and_assoc, h.inUse_iff hidx]

/-- **The loop over the records.**  By induction on the slots that are left. -/
theorem BlocksInv.listRecords_eq (h : BlocksInv blocks n freeList live)
    (checks lock : Except DragonError Unit) (mallocTypes mallocIds : Bool) (rest idx turns : ℕ)
    (hrest : blocks.numInited - idx = rest) (hturns : rest ≤ turns) :
    listRecords (.on blocks type checks lock mallocTypes mallocIds) turns
        (blocks.findFrom type idx)
      = some (.ok (blocks.recordsFrom type idx)) := by
  induction rest generalizing idx turns with
  | zero =>
    have hend : blocks.numInited ≤ idx := by omega
    rw [DragonBlocks.findFrom_end hend]
    unfold DragonBlocks.recordsFrom
    rw [DragonBlocks.slotsFrom_end hend]
    cases turns <;> rfl
  | succ rest ih =>
    have hidx : idx < blocks.numInited := by omega
    by_cases hhit : blocks.hits type idx = true
    · obtain ⟨hout, htype⟩ := (h.hits_iff hidx).mp hhit
      obtain ⟨hge, hlt, hmod⟩ := h.owned idx hidx hout
      obtain ⟨turns, rfl⟩ : ∃ t, turns = t + 1 := ⟨turns - 1, by omega⟩
      have hget : dragonBlocksGet blocks (blocks.slots idx).id = .ok (blocks.slots idx).data := by
        unfold dragonBlocksGet
        simp only [h.numSlots_eq, hmod]
        rw [if_neg (by omega), if_neg (by simp)]
      -- the type of the record in hand is the type that is looked for
      have hsame : type.map (fun _ => (blocks.slots idx).data 0) = type := by
        cases type with
        | none => rfl
        | some t => exact congrArg some (htype t rfl)
      have hnext : dragonBlocksNext blocks (type.map fun _ => (blocks.slots idx).data 0)
          (blocks.slots idx).id = blocks.findFrom type (idx + 1) := by
        unfold dragonBlocksNext
        rw [hsame]
        simp only [h.numSlots_eq, hmod]
        rw [if_neg (by omega), if_neg (by simp)]
      rw [DragonBlocks.findFrom_hit hidx hhit, DragonBlocks.recordsFrom_hit hidx hhit]
      unfold listRecords
      simp only [ManifestCalls.on, hget, hnext]
      have htail := ih (idx + 1) turns (by omega) (by omega)
      unfold ManifestCalls.on at htail
      rw [htail]
      rfl
    · rw [DragonBlocks.findFrom_skip hidx hhit, DragonBlocks.recordsFrom_skip hidx hhit]
      exact ih (idx + 1) turns (by omega) (by omega)

theorem BlocksInv.mem_records (h : BlocksInv blocks n freeList live) (id : ℕ) (t : UInt64) :
    (id, t) ∈ blocks.recordsFrom type 0 ↔
      ∃ value, (id, value) ∈ live ∧ value 0 = t ∧ ∀ t' ∈ type, t = t' := by
  unfold DragonBlocks.recordsFrom DragonBlocks.slotsFrom
  simp only [List.mem_map, List.mem_filter, List.mem_range'_1, Nat.zero_le, true_and,
    Nat.sub_zero, Nat.zero_add]
  constructor
  · rintro ⟨i, ⟨hi, hhit⟩, heq⟩
    obtain ⟨rfl, rfl⟩ := Prod.mk.inj heq
    obtain ⟨hout, htype⟩ := (h.hits_iff hi).mp hhit
    exact ⟨_, (h.mem_live _ _).mpr ⟨i, hi, hout, rfl⟩, rfl, htype⟩
  · rintro ⟨value, hlive, rfl, htype⟩
    obtain ⟨i, hi, hout, hslot⟩ := (h.mem_live id value).mp hlive
    refine ⟨i, ⟨hi, (h.hits_iff hi).mpr ⟨hout, ?_⟩⟩, ?_⟩
    · rw [hslot]
      exact htype
    · rw [hslot]

/-- The ids are distinct: each gives its slot back. -/
theorem BlocksInv.nodup_records (h : BlocksInv blocks n freeList live) :
    ((blocks.recordsFrom type 0).map Prod.fst).Nodup := by
  apply List.Nodup.of_map (· % n)
  have hslots : ((blocks.recordsFrom type 0).map Prod.fst).map (· % n)
      = (blocks.slotsFrom 0).filter (blocks.hits type) := by
    unfold DragonBlocks.recordsFrom
    rw [List.map_map, List.map_map]
    refine (List.map_congr_left ?_).trans (List.map_id _)
    intro i hmem
    rw [List.mem_filter] at hmem
    unfold DragonBlocks.slotsFrom at hmem
    have hi : i < blocks.numInited := by
      have := List.mem_range'_1.mp hmem.1
      omega
    exact (h.owned i hi ((h.hits_iff hi).mp hmem.2).1).2.2
  rw [hslots]
  exact List.Nodup.filter _ List.nodup_range'

/-- The number that is counted before the arrays are made is that of the records. -/
theorem BlocksInv.count_records (h : BlocksInv blocks n freeList live) :
    dragonBlocksCount blocks type = .ok (blocks.recordsFrom type 0).length := by
  cases type with
  | none =>
    refine congrArg Except.ok ?_
    have hperm : (live.map Prod.fst).Perm ((blocks.recordsFrom none 0).map Prod.fst) := by
      rw [List.perm_ext_iff_of_nodup h.live_nodup h.nodup_records]
      intro id
      constructor
      · intro hmem
        obtain ⟨⟨id', value⟩, hlive, rfl⟩ := List.mem_map.mp hmem
        exact List.mem_map.mpr
          ⟨(id', value 0), (h.mem_records _ _).mpr ⟨value, hlive, rfl, nofun⟩, rfl⟩
      · intro hmem
        obtain ⟨⟨id', t⟩, hrec, rfl⟩ := List.mem_map.mp hmem
        obtain ⟨value, hlive, -⟩ := (h.mem_records _ _).mp hrec
        exact List.mem_map.mpr ⟨(id', value), hlive, rfl⟩
    have hlength := hperm.length_eq
    rw [List.length_map, List.length_map, h.live_length] at hlength
    exact hlength
  | some t =>
    refine congrArg Except.ok ?_
    unfold DragonBlocks.recordsFrom
    rw [List.length_map, List.countP_eq_length_filter]

/-- A listing that succeeds gives the live records of the type, each once. -/
def ListsRecords (live : List (ℕ × Words 3)) (type : Option UInt64)
    (r : Except DragonError (ℕ × List (ℕ × UInt64))) : Prop :=
  ∀ count records, r = .ok (count, records) →
    records.length = count ∧ (records.map Prod.fst).Nodup ∧
      ∀ id t, (id, t) ∈ records ↔ ∃ value, (id, value) ∈ live ∧ value 0 = t ∧ ∀ t' ∈ type, t = t'

/-- **The listings.**  With a turn for each slot the call returns, and what it lists on success are
the live records of the type. -/
theorem BlocksInv.lists (h : BlocksInv blocks n freeList live) (emptyExit : Bool)
    (checks lock : Except DragonError Unit) (mallocTypes mallocIds : Bool) (turns : ℕ)
    (hturns : n ≤ turns) :
    ∃ r locks, poolAllocations emptyExit (.on blocks type checks lock mallocTypes mallocIds) turns
      = some (r, locks) ∧ ListsRecords live type r := by
  have hrecords : ListsRecords live type
      (.ok ((blocks.recordsFrom type 0).length, blocks.recordsFrom type 0)) := by
    rintro count records heq
    obtain ⟨rfl, rfl⟩ := Prod.mk.inj (Except.ok.inj heq)
    exact ⟨rfl, h.nodup_records, h.mem_records⟩
  have hcount : (ManifestCalls.on blocks type checks lock mallocTypes mallocIds).count
      = .ok (blocks.recordsFrom type 0).length := h.count_records
  have hinited := h.numInited_le
  have hloop : listRecords (.on blocks type checks lock mallocTypes mallocIds) turns
      (blocks.findFrom type 0) = some (.ok (blocks.recordsFrom type 0)) :=
    h.listRecords_eq checks lock mallocTypes mallocIds _ 0 turns rfl (by omega)
  unfold poolAllocations
  rw [hcount]
  cases checks with
  | error e => exact ⟨_, _, rfl, nofun⟩
  | ok u =>
    cases lock with
    | error e => exact ⟨_, _, rfl, nofun⟩
    | ok u =>
      have hfirst : listRecords (.on blocks type (.ok u) (.ok u) mallocTypes mallocIds) turns
          (dragonBlocksFirst blocks type) = some (.ok (blocks.recordsFrom type 0)) := hloop
      simp only [ManifestCalls.on] at hfirst ⊢
      by_cases hempty : emptyExit = true ∧ (blocks.recordsFrom type 0).length = 0
      · rw [if_pos hempty]
        refine ⟨_, _, rfl, ?_⟩
        have hnil := List.eq_nil_of_length_eq_zero hempty.2
        rw [hnil] at hrecords
        exact hrecords
      · rw [if_neg hempty]
        rw [hfirst]
        cases mallocTypes with
        | false => exact ⟨_, _, rfl, nofun⟩
        | true =>
          cases mallocIds with
          | false => exact ⟨_, _, rfl, nofun⟩
          | true => exact ⟨_, _, rfl, hrecords⟩

end Listing

/-! ## Runs -/

/-- **The manifest and its lock.**  In each function the lock is released only while it is held, and
is not held at the end, whatever is found on the way; in `dragon_memory_pool_get_allocations` this
is so iff it does not find the manifest empty.  After any calls on the blocks table that free no
stale id, the two listings return, and list the live records of the type. -/
theorem manifestLock_discipline (slots : ℕ → DragonBlocksEntry 3) (numBlocks : ℕ) :
    (∀ calls turns r locks, dragonMemoryPoolGetAllocations calls turns = some (r, locks) →
      (Disciplined locks ↔
        ¬ (calls.checks = .ok () ∧ calls.lock = .ok () ∧ calls.count = .ok 0))) ∧
    (∀ calls turns r locks, dragonMemoryPoolGetTypeAllocations calls turns = some (r, locks) →
      Disciplined locks) ∧
    (∀ checks lock, Disciplined (allocationExistsLocks checks lock)) ∧
    (∀ checks lock isLocal bytesSize,
      Disciplined (getAllocMemdescrLocks checks lock isLocal bytesSize)) ∧
    (∀ checks lock bytes, Disciplined (memoryFreeLocks checks lock bytes)) ∧
    (∀ checks bytes isLocal zero value rounds a locks,
      memoryAllocLocks checks bytes isLocal zero value rounds a = some locks →
        Disciplined locks) ∧
    (1 ≤ numBlocks → dragonBlocksSize numBlocks 3 ≤ 2 ^ 64 → ∀ ops,
      Runs.Legal blocksStep FreesNoStale (dragonBlocksInit slots numBlocks, []) ops →
      ∀ s, s = ops.foldl blocksStep (dragonBlocksInit slots numBlocks, []) →
        dragonBlocksCount s.1 none = .ok s.2.length ∧
        ∀ checks lock mallocTypes mallocIds turns, numBlocks ≤ turns →
          (∃ r locks, dragonMemoryPoolGetAllocations
              (.on s.1 none checks lock mallocTypes mallocIds) turns = some (r, locks) ∧
            ListsRecords s.2 none r) ∧
          ∀ type, ∃ r locks, dragonMemoryPoolGetTypeAllocations
              (.on s.1 (some type) checks lock mallocTypes mallocIds) turns = some (r, locks) ∧
            ListsRecords s.2 (some type) r) := by
  refine ⟨?_, ?_, ?_, ?_, ?_, ?_, ?_⟩
  · intro calls turns r locks hcall
    rw [disciplined_poolAllocations hcall]
    simp
  · intro calls turns r locks hcall
    exact (disciplined_poolAllocations hcall).mpr (by simp)
  · intro checks lock
    cases checks with
    | error e => exact rfl
    | ok u => exact disciplined_underManifestLock lock
  · intro checks lock isLocal bytesSize
    cases checks with
    | error e => exact rfl
    | ok u =>
      unfold getAllocMemdescrLocks
      dsimp only
      split
      · exact disciplined_underManifestLock lock
      · exact rfl
  · intro checks lock bytes
    cases checks with
    | error e => exact rfl
    | ok u =>
      unfold memoryFreeLocks
      dsimp only
      split
      · exact disciplined_underManifestLock lock
      · exact rfl
  · intro checks bytes isLocal zero value rounds a locks hcall
    unfold memoryAllocLocks at hcall
    split at hcall
    · cases hcall
      exact rfl
    · split at hcall
      · split at hcall
        · cases hcall
          exact disciplined_underManifestLock a.lock
        · exact disciplined_generateRecordLocks value rounds a locks hcall
      · cases hcall
        exact rfl
  · intro hnum hfit ops hops s hs
    obtain ⟨freeList, h⟩ : ∃ freeList, BlocksInv s.1 numBlocks freeList s.2 := by
      rw [hs]
      exact hops.invariant (I := fun s => ∃ freeList, BlocksInv s.1 numBlocks freeList s.2)
        blocksStep_inv ⟨[], blocksInv_init slots hnum hfit⟩
    refine ⟨congrArg Except.ok h.live_length.symm, ?_⟩
    intro checks lock mallocTypes mallocIds turns hturns
    constructor
    · exact h.lists true checks lock mallocTypes mallocIds turns hturns
    · intro type
      exact h.lists false checks lock mallocTypes mallocIds turns hturns

/-- Two records of the types 7 and 8; the first is freed, and one of type 9 takes its slot. -/
theorem manifestLock_discipline_example :
    let s := [BlocksOp.alloc (fun _ => 7), .alloc (fun _ => 8), .free 2, .alloc (fun _ => 9)].foldl
      blocksStep (dragonBlocksInit (fun _ => (⟨0, fun _ => 0⟩ : DragonBlocksEntry 3)) 2, [])
    (∃ r locks, dragonMemoryPoolGetAllocations (.on s.1 none (.ok ()) (.ok ()) true true) 2
      = some (r, locks) ∧ ListsRecords s.2 none r ∧ Disciplined locks) ∧
    ∃ r locks, dragonMemoryPoolGetTypeAllocations
      (.on s.1 (some 9) (.ok ()) (.ok ()) true true) 2 = some (r, locks) ∧
        ListsRecords s.2 (some 9) r ∧ Disciplined locks := by
  intro s
  obtain ⟨hall, htype, -, -, -, -, hruns⟩ := manifestLock_discipline (fun _ => ⟨0, fun _ => 0⟩) 2
  obtain ⟨hcount, hlists⟩ := hruns (by decide) (by decide)
    [.alloc (fun _ => 7), .alloc (fun _ => 8), .free 2, .alloc (fun _ => 9)]
    ⟨trivial, trivial, by decide +kernel, trivial, trivial⟩ s rfl
  obtain ⟨⟨r, locks, hcall, hr⟩, htypes⟩ := hlists (.ok ()) (.ok ()) true true 2 (le_refl 2)
  obtain ⟨r', locks', hcall', hr'⟩ := htypes 9
  refine ⟨⟨r, locks, hcall, hr, (hall _ _ _ _ hcall).mpr ?_⟩,
    r', locks', hcall', hr', htype _ _ _ _ hcall'⟩
  rintro ⟨-, -, hzero⟩
  have : (Except.ok s.2.length : Except DragonError ℕ) = .ok 0 := hcount.symm.trans hzero
  exact absurd (Except.ok.inj this) (by decide +kernel)

/-- In a new pool without allocations the lock stays taken. -/
theorem dragonMemoryPoolGetAllocations_keeps_lock :
    ∃ r locks, dragonMemoryPoolGetAllocations
        (.on (dragonBlocksInit (fun _ => ⟨0, fun _ => 0⟩) 1) none (.ok ()) (.ok ()) true true) 1
      = some (r, locks) ∧ Succeeds r ∧ ¬ Disciplined locks :=
  ⟨.ok (0, []), [.acquire .mlock], rfl, trivial, by decide⟩
