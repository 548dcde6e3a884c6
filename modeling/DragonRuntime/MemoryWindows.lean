/-
# Windows of memory descriptors (`src/lib/managed_memory.c`)

A descriptor of an allocation has a window into it.  Clones, resized descriptors, and descriptors
that are made from a serialized one or from an id get their windows from checks of their own, in
64-bit arithmetic: each compares a sum that may wrap, or does not compare at all.

The pool is local, so that an id is looked up in the manifest.
-/
import DragonRuntime.ManagedMemory

/-- `dragon_memory_clear`: where in the window it starts, and how many bytes it sets to zero. -/
def DragonMemory.clear (mem : DragonMemory) (start stop : UInt64) :
    Except DragonError (UInt64 × UInt64) :=
  if mem.bytes = 0 then .ok (0, 0)
  else if mem.bytes < start then .error .invalidArgument
  else if mem.bytes - start < stop - start then .ok (start, mem.bytes - start)
  else .ok (start, stop - start)

/-- `dragon_memory_copy_size`: how many bytes it reads from the start of the one window, and writes
at the start of the other. -/
def DragonMemory.copySize (fromMem toMem : DragonMemory) (size : UInt64) :
    Except DragonError UInt64 :=
  if fromMem.bytes ≠ 0 ∧ fromMem.localDptr = none ∨ toMem.bytes ≠ 0 ∧ toMem.localDptr = none then
    .error .memoryOperationAttemptOnNonlocalPool
  else if size ≤ toMem.bytes ∧ toMem.bytes ≠ 0 ∧ fromMem.bytes ≠ 0 then .ok size
  else .error .memoryErrno

/-- The calls on descriptors; `serializeAttach p idx q` serializes in `p` and attaches in `q`. -/
inductive WindowCall (P : Type*) : Type _ where
  | descrClone (p : P) (idx offset : UInt64) (customLength : Option UInt64)
  | modifySize (p : P) (idx newSize : UInt64) (blank : ManifestRec) (hptr : UInt64)
  | getAllocMemdescr (p : P) (id offset : UInt64) (bytesSize : Option UInt64)
  | serializeAttach (p : P) (idx : UInt64) (q : P)
  | clear (p : P) (idx start stop : UInt64)
  | copySize (p : P) (fromIdx toIdx size : UInt64)

namespace MemoryPool

variable {P : Type*} [DecidableEq P]

/-- The pool after a call; a call that fails changes nothing. -/
def windowCall (pool : MemoryPool P) : WindowCall P → MemoryPool P
  | .descrClone p idx offset customLength =>
    (pool.descrClone p idx offset customLength).toOption.getD pool
  | .modifySize p idx newSize blank hptr =>
    (pool.modifySize p idx newSize blank hptr).toOption.getD pool
  | .getAllocMemdescr p id offset bytesSize =>
    (pool.getAllocMemdescr p id offset bytesSize).toOption.getD pool
  | .serializeAttach p idx q =>
    ((pool.serialize p idx).bind fun memSer => pool.attach q memSer).toOption.getD pool
  | .clear _ _ _ _ | .copySize _ _ _ _ => pool

/-- All descriptors of all processes. -/
def AllMems (pool : MemoryPool P) (Q : DragonMemory → Prop) : Prop :=
  ∀ p idx mem, pool.memFromDescr p idx = some mem → Q mem

end MemoryPool

/-- If the descriptor is of the allocation, its window lies in it. -/
def DragonMemory.Inside (record : ManifestRec) (mem : DragonMemory) : Prop :=
  mem.mfstRecord.id = record.id → mem.offset.toNat + mem.bytes.toNat ≤ record.size.toNat

/-- If the descriptor is of the allocation and has bytes, it has all of its record. -/
def DragonMemory.Whole (record : ManifestRec) (mem : DragonMemory) : Prop :=
  mem.mfstRecord.id = record.id → mem.bytes ≠ 0 → mem.mfstRecord = record

namespace MemoryPool

variable {P : Type*} [DecidableEq P]

/-- What is claimed of a call: the windows stay inside, an attached descriptor is as the one that
was serialized, and `clear` and `copy_size` touch bytes of the windows only. -/
def KeepsWindows (record : ManifestRec) (pool : MemoryPool P) : WindowCall P → Prop
  | .serializeAttach p idx q => ∀ mem, pool.memFromDescr p idx = some mem →
      mem.mfstRecord.id = record.id → ∃ mem' : DragonMemory,
        pool.windowCall (.serializeAttach p idx q) = pool.addAllocUmapEntry q mem' ∧
          mem'.mfstRecord.id = record.id ∧ mem'.offset = mem.offset ∧ mem'.bytes = mem.bytes
  | .clear p idx start stop => ∀ mem, pool.memFromDescr p idx = some mem →
      ∀ place num, mem.clear start stop = .ok (place, num) →
        place.toNat + num.toNat ≤ mem.bytes.toNat
  | .copySize p fromIdx toIdx size => ∀ fromMem toMem,
      pool.memFromDescr p fromIdx = some fromMem → pool.memFromDescr p toIdx = some toMem →
        ∀ num, fromMem.copySize toMem size = .ok num →
          (fromMem.mfstRecord.id = record.id → num.toNat ≤ fromMem.bytes.toNat) ∧
            (toMem.mfstRecord.id = record.id → num.toNat ≤ toMem.bytes.toNat)
  | call => (pool.windowCall call).AllMems (DragonMemory.Inside record)

/-- No sum that passes its check has wrapped, an offset without a size or with a size of zero is
not beyond the allocation, and no more is copied than the window has. -/
def NoWrap (record : ManifestRec) (pool : MemoryPool P) : WindowCall P → Prop
  | .descrClone p idx offset customLength => ∀ mem, pool.memFromDescr p idx = some mem →
      mem.mfstRecord.id = record.id → ∀ length ∈ customLength, offset ≤ mem.bytes →
        offset + length ≤ mem.bytes → offset.toNat + length.toNat < 2 ^ 64
  | .modifySize p idx newSize _ _ => ∀ mem, pool.memFromDescr p idx = some mem →
      mem.mfstRecord.id = record.id → mem.bytes ≠ 0 → newSize + mem.offset ≤ record.size →
        newSize.toNat + mem.offset.toNat < 2 ^ 64
  | .getAllocMemdescr _ id offset bytesSize => id = record.id →
      match bytesSize with
      | none => offset ≤ record.size
      | some bytes =>
        if bytes = 0 then offset ≤ record.size
        else bytes + offset ≤ record.size → bytes.toNat + offset.toNat < 2 ^ 64
  | .copySize p fromIdx toIdx size => ∀ fromMem toMem,
      pool.memFromDescr p fromIdx = some fromMem → pool.memFromDescr p toIdx = some toMem →
        fromMem.mfstRecord.id = record.id → Succeeds (fromMem.copySize toMem size) →
          size ≤ fromMem.bytes
  | .serializeAttach _ _ _ | .clear _ _ _ _ => True

/-! ## The tables -/

section Tables

variable {pool : MemoryPool P} {Q : DragonMemory → Prop} {p : P} {idx : UInt64} {mem : DragonMemory}

theorem AllMems.add_iff (h : pool.AllMems Q) : (pool.addAllocUmapEntry p mem).AllMems Q ↔ Q mem := by
  constructor
  · intro hall
    have hentry : (pool.addAllocUmapEntry p mem).memFromDescr p
        (((pool.dgMallocs p).getD (.create dragonMemoryMemUmapSeed)).addItemGenKey mem).2 =
          some mem := by
      unfold memFromDescr addAllocUmapEntry
      dsimp only
      rw [Function.update_self, Option.bind_some]
      exact Umap.addItemGenKey_find _ _
    exact hall p _ mem hentry
  · intro hQ q idx' mem' hmem'
    rcases Umap.find_of_addItemGenKey hmem' with ⟨rfl, rfl⟩ | hold
    · exact hQ
    · exact h q idx' mem' hold

theorem AllMems.set_iff (h : pool.AllMems Q) {old : DragonMemory}
    (hold : pool.memFromDescr p idx = some old) : (pool.setMem p idx mem).AllMems Q ↔ Q mem := by
  obtain ⟨map, hmap, -⟩ := Option.bind_eq_some_iff.mp hold
  constructor
  · intro hall
    apply hall p idx mem
    simp only [memFromDescr, setMem, Function.update_self, hmap, Option.map_some, Option.bind_some]
  · intro hQ q idx' mem' hmem'
    rcases Umap.find_of_update hmem' with ⟨rfl, hentry⟩ | hbefore
    · exact Option.some.inj hentry ▸ hQ
    · exact h q idx' mem' hbefore

end Tables

/-! ## The calls one by one -/

/-- What holds in a run: the allocation is live, and the descriptors of it are inside. -/
structure Windows (record : ManifestRec) (pool : MemoryPool P) : Prop where
  isLocal : ∀ p, pool.isLocal p = true
  find : pool.manifest.find? (fun r => r.id = record.id) = some record
  inside : pool.AllMems (DragonMemory.Inside record)
  whole : pool.AllMems (DragonMemory.Whole record)

section Calls

variable {pool : MemoryPool P} {record : ManifestRec}

/-- A descriptor is made, and the rest stays. -/
theorem Windows.add (h : Windows record pool) (p : P) {mem : DragonMemory}
    (hinside : mem.Inside record) (hwhole : mem.Whole record) :
    Windows record (pool.addAllocUmapEntry p mem) :=
  ⟨h.isLocal, h.find, h.inside.add_iff.mpr hinside, h.whole.add_iff.mpr hwhole⟩

theorem clone_inside_iff {mem : DragonMemory} (hmem : mem.Inside record)
    {offset : UInt64} (hoffset : offset ≤ mem.bytes) (customLength : Option UInt64)
    (hlength : ∀ length ∈ customLength, offset + length ≤ mem.bytes) :
    DragonMemory.Inside record ⟨customLength.getD (mem.bytes - offset), mem.offset + offset,
        mem.localDptr, mem.mfstRecord⟩ ↔
      (mem.mfstRecord.id = record.id → ∀ length ∈ customLength,
        offset.toNat + length.toNat < 2 ^ 64) := by
  refine forall_congr' fun hid => ?_
  have hparent := hmem hid
  have hle := UInt64.le_iff_toNat_le.mp hoffset
  have hsize := record.size.toNat_lt
  have hsum : (mem.offset + offset).toNat = mem.offset.toNat + offset.toNat := by
    rw [UInt64.toNat_add, Nat.mod_eq_of_lt (by omega)]
  change (mem.offset + offset).toNat + (customLength.getD (mem.bytes - offset)).toNat ≤ _ ↔ _
  rw [hsum]
  cases customLength with
  | none =>
    have hrest : (mem.bytes - offset).toNat = mem.bytes.toNat - offset.toNat :=
      UInt64.toNat_sub_of_le _ _ hoffset
    rw [Option.getD_none, hrest]
    exact iff_of_true (by omega) fun _ hcon => by cases hcon
  | some length =>
    have hcheck := UInt64.le_iff_toNat_le.mp (hlength length rfl)
    rw [UInt64.toNat_add] at hcheck
    rw [Option.getD_some]
    constructor
    · rintro hle' l ⟨⟩
      omega
    · intro hno
      have hlt := hno length rfl
      rw [Nat.mod_eq_of_lt hlt] at hcheck
      omega

theorem windows_descrClone (h : Windows record pool) (p : P) (idx offset : UInt64)
    (customLength : Option UInt64) :
    (KeepsWindows record pool (.descrClone p idx offset customLength) ↔
        NoWrap record pool (.descrClone p idx offset customLength)) ∧
      (KeepsWindows record pool (.descrClone p idx offset customLength) →
        Windows record (pool.windowCall (.descrClone p idx offset customLength))) := by
  simp only [KeepsWindows, NoWrap, windowCall, descrClone]
  cases hmem : pool.memFromDescr p idx with
  | none =>
    refine ⟨iff_of_true h.inside ?_, fun _ => h⟩
    rintro mem ⟨⟩
  | some mem =>
    dsimp only
    split_ifs with hoffset hlength
    · refine ⟨iff_of_true h.inside ?_, fun _ => h⟩
      rintro mem' ⟨⟩ - length - hle
      exact absurd hle (UInt64.not_le.mpr hoffset)
    · refine ⟨iff_of_true h.inside ?_, fun _ => h⟩
      rintro mem' ⟨⟩ - length hlen - hle
      obtain ⟨length', hlen', hlt⟩ := hlength
      obtain rfl := Option.some.inj (hlen.symm.trans hlen')
      exact absurd hle (UInt64.not_le.mpr hlt)
    · have hle : offset ≤ mem.bytes := UInt64.not_lt.mp hoffset
      have hsums : ∀ length ∈ customLength, offset + length ≤ mem.bytes :=
        fun length hlen => UInt64.not_lt.mp fun hlt => hlength ⟨length, hlen, hlt⟩
      have hiff := clone_inside_iff (h.inside p idx mem hmem) hle customLength hsums
      refine ⟨(h.inside.add_iff.trans hiff).trans ?_, fun hkeep => h.add p ?_ ?_⟩
      · constructor
        · rintro hno mem' ⟨⟩ hid length hlen - -
          exact hno hid length hlen
        · exact fun hno hid length hlen => hno mem rfl hid length hlen hle (hsums length hlen)
      · exact h.inside.add_iff.mp hkeep
      · -- a descriptor without bytes has clones without bytes only
        intro hid hne
        refine h.whole p idx mem hmem hid fun hzero => hne ?_
        have hzero' : mem.bytes.toNat = 0 := by rw [hzero]; rfl
        have hoffset' := UInt64.le_iff_toNat_le.mp hle
        cases customLength with
        | none =>
          apply UInt64.toNat_inj.mp
          change (mem.bytes - offset).toNat = 0
          rw [UInt64.toNat_sub_of_le _ _ hle]
          omega
        | some length =>
          have hsum := UInt64.le_iff_toNat_le.mp (hsums length rfl)
          have hlt := length.toNat_lt
          rw [UInt64.toNat_add] at hsum
          apply UInt64.toNat_inj.mp
          change length.toNat = 0
          rw [Nat.mod_eq_of_lt (by omega)] at hsum
          omega

theorem windows_modifySize (h : Windows record pool) (p : P) (idx newSize : UInt64)
    (blank : ManifestRec) (hptr : UInt64) :
    (KeepsWindows record pool (.modifySize p idx newSize blank hptr) ↔
        NoWrap record pool (.modifySize p idx newSize blank hptr)) ∧
      (KeepsWindows record pool (.modifySize p idx newSize blank hptr) →
        Windows record (pool.windowCall (.modifySize p idx newSize blank hptr))) := by
  simp only [KeepsWindows, NoWrap, windowCall, modifySize]
  cases hmem : pool.memFromDescr p idx with
  | none =>
    refine ⟨iff_of_true h.inside ?_, fun _ => h⟩
    rintro mem ⟨⟩
  | some mem =>
    dsimp only
    by_cases hzero : mem.bytes = 0
    · -- the descriptor is given an allocation of its own
      rw [if_pos hzero]
      have hwindows : Windows record ((pool.alloc p newSize dragonMemoryAllocData
          { blank with id := 0, type := 0 } hptr).toOption.getD pool) := by
        unfold alloc
        split_ifs
        · exact h
        · exact h.add p (fun _ => Nat.zero_le _) fun _ hcon => absurd rfl hcon
        · exact h
        · exact ⟨h.isLocal, h.find, h.inside, h.whole⟩
      refine ⟨iff_of_true hwindows.inside ?_, fun _ => hwindows⟩
      rintro mem' ⟨⟩ - hne
      exact absurd hzero hne
    · rw [if_neg hzero]
      split_ifs with hbig
      · refine ⟨iff_of_true h.inside ?_, fun _ => h⟩
        rintro mem' ⟨⟩ hid - hle
        rw [h.whole p idx mem hmem hid hzero] at hbig
        exact absurd hle (UInt64.not_le.mpr hbig)
      · have hcheck : newSize + mem.offset ≤ mem.mfstRecord.size := UInt64.not_lt.mp hbig
        refine ⟨(h.inside.set_iff hmem).trans ?_, fun hkeep =>
          ⟨h.isLocal, h.find, hkeep, (h.whole.set_iff hmem).mpr fun hid _ =>
            h.whole p idx mem hmem hid hzero⟩⟩
        have hle := UInt64.le_iff_toNat_le.mp hcheck
        have hlt := mem.mfstRecord.size.toNat_lt
        rw [UInt64.toNat_add] at hle
        constructor
        · rintro hinside mem' ⟨⟩ hid - -
          have hin : mem.offset.toNat + newSize.toNat ≤ record.size.toNat := hinside hid
          have hrecord := record.size.toNat_lt
          omega
        · intro hno hid
          rw [h.whole p idx mem hmem hid hzero] at hcheck hle
          have hsum := hno mem rfl hid hzero hcheck
          rw [Nat.mod_eq_of_lt hsum] at hle
          change mem.offset.toNat + newSize.toNat ≤ record.size.toNat
          omega

/-- What `dragon_memory_get_alloc_memdescr` makes of an id that is not that of the allocation. -/
theorem Windows.windows_getAlloc_of_ne (h : Windows record pool) (p : P) {id : UInt64}
    (hid : id ≠ record.id) (offset : UInt64) (bytesSize : Option UInt64) :
    Windows record ((pool.getAllocMemdescr p id offset bytesSize).toOption.getD pool) := by
  unfold getAllocMemdescr
  split_ifs with hlocal
  · cases hfind : pool.manifest.find? (fun r => r.id = id) with
    | none => exact h
    | some found =>
      have hfound : found.id = id := by
        have hdecide := List.find?_some hfind
        exact of_decide_eq_true hdecide
      dsimp only
      split_ifs
      · exact h
      · exact h.add p (fun heq => absurd (hfound.symm.trans heq) hid)
          fun heq => absurd (hfound.symm.trans heq) hid
  · cases bytesSize with
    | none => exact h
    | some bytes => exact h.add p (fun heq => absurd heq hid) fun heq => absurd heq hid

theorem Windows.getAlloc_of_ne_zero (h : Windows record pool) (p : P) (offset : UInt64)
    {bytesSize : Option UInt64} (hne : bytesSize ≠ some 0) :
    pool.getAllocMemdescr p record.id offset bytesSize =
      if ∃ bytes ∈ bytesSize, record.size < bytes + offset then .error .invalidArgument
      else .ok (pool.addAllocUmapEntry p
        ⟨bytesSize.getD (record.size - offset), offset, some record.offset, record⟩) := by
  unfold getAllocMemdescr
  rw [if_pos ⟨h.isLocal p, hne⟩, h.find]

/-- A descriptor without bytes is not looked up. -/
theorem getAlloc_of_zero (pool : MemoryPool P) (p : P) (id offset : UInt64) :
    pool.getAllocMemdescr p id offset (some 0) =
      .ok (pool.addAllocUmapEntry p ⟨0, offset, none, ⟨id, 0, offset, 0⟩⟩) := by
  unfold getAllocMemdescr
  rw [if_neg fun hcon => hcon.2 rfl]

theorem windows_getAllocMemdescr (h : Windows record pool) (p : P) (id offset : UInt64)
    (bytesSize : Option UInt64) :
    (KeepsWindows record pool (.getAllocMemdescr p id offset bytesSize) ↔
        NoWrap record pool (.getAllocMemdescr p id offset bytesSize)) ∧
      (KeepsWindows record pool (.getAllocMemdescr p id offset bytesSize) →
        Windows record (pool.windowCall (.getAllocMemdescr p id offset bytesSize))) := by
  simp only [KeepsWindows, NoWrap, windowCall]
  by_cases hid : id = record.id
  · subst hid
    have hsize := record.size.toNat_lt
    by_cases hzero : bytesSize = some 0
    · subst hzero
      rw [getAlloc_of_zero]
      refine ⟨h.inside.add_iff.trans ?_, fun hkeep => h.add p (h.inside.add_iff.mp hkeep)
        fun _ hcon => absurd rfl hcon⟩
      dsimp only
      rw [if_pos rfl, UInt64.le_iff_toNat_le]
      exact ⟨fun hin _ => hin rfl, fun hle _ => hle rfl⟩
    · rw [h.getAlloc_of_ne_zero p offset hzero]
      split_ifs with hbig
      · obtain ⟨bytes, hbytes, hlt⟩ := hbig
        obtain rfl := Option.mem_def.mp hbytes
        refine ⟨iff_of_true h.inside fun _ => ?_, fun _ => h⟩
        dsimp only
        rw [if_neg fun hcon => hzero (congrArg some hcon)]
        exact fun hle => absurd hle (UInt64.not_le.mpr hlt)
      · refine ⟨h.inside.add_iff.trans ?_, fun hkeep => h.add p (h.inside.add_iff.mp hkeep)
          fun _ _ => rfl⟩
        cases bytesSize with
        | none =>
          have hrest : (record.size - offset).toNat =
              (2 ^ 64 - offset.toNat + record.size.toNat) % 2 ^ 64 := UInt64.toNat_sub _ _
          have hoffset := offset.toNat_lt
          have hiff : offset.toNat + (record.size - offset).toNat ≤ record.size.toNat ↔
              offset ≤ record.size := by
            rw [hrest, UInt64.le_iff_toNat_le]
            omega
          exact ⟨fun hin _ => hiff.mp (hin rfl), fun hle _ => hiff.mpr (hle rfl)⟩
        | some bytes =>
          have hcheck : bytes + offset ≤ record.size :=
            UInt64.not_lt.mp fun hlt => hbig ⟨bytes, rfl, hlt⟩
          have hle := UInt64.le_iff_toNat_le.mp hcheck
          rw [UInt64.toNat_add] at hle
          dsimp only
          rw [if_neg fun hcon => hzero (congrArg some hcon)]
          constructor
          · intro hin _ _
            have hin' : offset.toNat + bytes.toNat ≤ record.size.toNat := hin rfl
            omega
          · intro hno _
            have hsum := hno rfl hcheck
            rw [Nat.mod_eq_of_lt hsum] at hle
            change offset.toNat + bytes.toNat ≤ record.size.toNat
            omega
  · have hwindows := h.windows_getAlloc_of_ne p hid offset bytesSize
    exact ⟨iff_of_true hwindows.inside fun hcon => absurd hcon hid, fun _ => hwindows⟩

/-- **An attached descriptor is as the one that was serialized.** -/
theorem windows_serializeAttach (h : Windows record pool) (p : P) (idx : UInt64) (q : P) :
    KeepsWindows record pool (.serializeAttach p idx q) ∧
      Windows record (pool.windowCall (.serializeAttach p idx q)) := by
  cases hmem : pool.memFromDescr p idx with
  | none =>
    simp only [KeepsWindows, windowCall, serialize, hmem]
    refine ⟨?_, h⟩
    rintro mem ⟨⟩
  | some mem =>
    have hcall : pool.windowCall (.serializeAttach p idx q) =
        (pool.getAllocMemdescr q mem.mfstRecord.id mem.offset
          (some mem.bytes)).toOption.getD pool := by
      simp only [windowCall, serialize, hmem]
      rfl
    have hinside := h.inside p idx mem hmem
    simp only [KeepsWindows, hcall, hmem]
    by_cases hid : mem.mfstRecord.id = record.id
    · have hin := hinside hid
      have hsize := record.size.toNat_lt
      rw [hid]
      by_cases hzero : mem.bytes = 0
      · rw [hzero, getAlloc_of_zero]
        refine ⟨?_, h.add q (fun _ => ?_) fun _ hcon => absurd rfl hcon⟩
        · rintro mem' ⟨⟩ -
          exact ⟨_, rfl, rfl, rfl, hzero.symm⟩
        · exact (Nat.le_add_right _ _).trans hin
      · rw [h.getAlloc_of_ne_zero q mem.offset fun hcon => hzero (Option.some.inj hcon), if_neg]
        · refine ⟨?_, h.add q (fun _ => hin) fun _ _ => rfl⟩
          rintro mem' ⟨⟩ -
          exact ⟨_, rfl, rfl, rfl, rfl⟩
        · rintro ⟨bytes, ⟨⟩, hlt⟩
          have hlt' := UInt64.lt_iff_toNat_lt.mp hlt
          rw [UInt64.toNat_add, Nat.mod_eq_of_lt (by omega)] at hlt'
          omega
    · refine ⟨?_, h.windows_getAlloc_of_ne q hid mem.offset (some mem.bytes)⟩
      rintro mem' ⟨⟩ hcon
      exact absurd hcon hid

/-- `dragon_memory_clear` stays in the window, also when it stops before it starts. -/
theorem keepsWindows_clear (pool : MemoryPool P) (record : ManifestRec) (p : P)
    (idx start stop : UInt64) : KeepsWindows record pool (.clear p idx start stop) := by
  intro mem hmem place num hclear
  unfold DragonMemory.clear at hclear
  split_ifs at hclear with hzero hstart hnum
  · cases hclear
    exact Nat.zero_le _
  · cases hclear
    have hle := UInt64.not_lt.mp hstart
    have hle' := UInt64.le_iff_toNat_le.mp hle
    rw [UInt64.toNat_sub_of_le _ _ hle]
    omega
  · cases hclear
    have hle := UInt64.not_lt.mp hstart
    have hle' := UInt64.le_iff_toNat_le.mp hle
    have hnum' := UInt64.le_iff_toNat_le.mp (UInt64.not_lt.mp hnum)
    rw [UInt64.toNat_sub_of_le _ _ hle] at hnum'
    omega

theorem keepsWindows_copySize_iff (pool : MemoryPool P) (record : ManifestRec) (p : P)
    (fromIdx toIdx size : UInt64) :
    KeepsWindows record pool (.copySize p fromIdx toIdx size) ↔
      NoWrap record pool (.copySize p fromIdx toIdx size) := by
  refine forall_congr' fun fromMem => forall_congr' fun toMem => imp_congr_right fun _ =>
    imp_congr_right fun _ => ?_
  unfold DragonMemory.copySize
  split_ifs with hlocal hsize
  · exact iff_of_true (fun num hcon => by cases hcon) fun _ hcon => absurd hcon (by simp)
  · constructor
    · intro hkeep hid _
      exact UInt64.le_iff_toNat_le.mpr ((hkeep size rfl).1 hid)
    · rintro hle num ⟨⟩
      exact ⟨fun hid => UInt64.le_iff_toNat_le.mp (hle hid trivial),
        fun _ => UInt64.le_iff_toNat_le.mp hsize.1⟩
  · exact iff_of_true (fun num hcon => by cases hcon) fun _ hcon => absurd hcon (by simp)

/-- **Every call**: it keeps the windows iff no sum of it wraps, and then the windows stay. -/
theorem Windows.call (h : Windows record pool) (call : WindowCall P) :
    (KeepsWindows record pool call ↔ NoWrap record pool call) ∧
      (KeepsWindows record pool call → Windows record (pool.windowCall call)) := by
  cases call with
  | descrClone p idx offset customLength => exact windows_descrClone h p idx offset customLength
  | modifySize p idx newSize blank hptr => exact windows_modifySize h p idx newSize blank hptr
  | getAllocMemdescr p id offset bytesSize => exact windows_getAllocMemdescr h p id offset bytesSize
  | serializeAttach p idx q =>
    obtain ⟨hkeeps, hwindows⟩ := windows_serializeAttach h p idx q
    exact ⟨iff_of_true hkeeps trivial, fun _ => hwindows⟩
  | clear p idx start stop =>
    exact ⟨iff_of_true (keepsWindows_clear pool record p idx start stop) trivial, fun _ => h⟩
  | copySize p fromIdx toIdx size =>
    exact ⟨keepsWindows_copySize_iff pool record p fromIdx toIdx size, fun _ => h⟩

end Calls

/-- **Windows of descriptors.**  From a local pool in which the descriptors of an allocation are as
it was made, the calls of a sequence keep the windows inside and touch bytes of them only iff none
of them passes its check with a sum that wraps, or makes a descriptor without a check beyond the
allocation, or copies more than the window that it copies from. -/
theorem keepsWindows_run_iff (pool : MemoryPool P) (record : ManifestRec)
    (hlocal : ∀ p, pool.isLocal p = true)
    (hfind : pool.manifest.find? (fun r => r.id = record.id) = some record)
    (hmade : ∀ p idx mem, pool.memFromDescr p idx = some mem → mem.mfstRecord.id = record.id →
      mem = ⟨record.size, 0, some record.offset, record⟩)
    (calls : List (WindowCall P)) :
    Runs.Legal windowCall (KeepsWindows record) pool calls ↔
      Runs.Legal windowCall (NoWrap record) pool calls := by
  have hstart : Windows record pool := by
    refine ⟨hlocal, hfind, ?_, ?_⟩
    · intro p idx mem hmem hid
      rw [hmade p idx mem hmem hid]
      exact (Nat.zero_add _).le
    · intro p idx mem hmem hid _
      rw [hmade p idx mem hmem hid]
  exact Runs.legal_congr (fun s call hs => (hs.call call).1)
    (fun s call hs hok => (hs.call call).2 ((hs.call call).1.mpr hok)) hstart calls

/-- The pool of one allocation of 64 bytes. -/
def onePool : MemoryPool Unit := run (fun _ => true) 1 allocSteps

theorem onePool_made (p : Unit) (idx : UInt64) (mem : DragonMemory)
    (hmem : onePool.memFromDescr p idx = some mem) : mem = ⟨64, 0, some 0, ⟨5, 0, 0, 64⟩⟩ := by
  have heq : onePool = MemoryPool.addAllocUmapEntry
      { create (fun _ : Unit => true) 1 with
        heap := [(0, 64)]
        manifest := [⟨5, 0, 0, 64⟩]
        issued := [⟨5, 0, 0, 64⟩] } () ⟨64, 0, some 0, ⟨5, 0, 0, 64⟩⟩ := rfl
  rw [heq] at hmem
  symm
  refine (AllMems.add_iff ?_).mpr rfl p idx mem hmem
  intro q i m hcon
  cases hcon

theorem keepsWindows_run_iff_clone :
    Runs.Legal windowCall (KeepsWindows ⟨5, 0, 0, 64⟩) onePool
        [.descrClone () (keyAfter dragonMemoryMemUmapSeed 0) 16 (some 8)] ↔
      Runs.Legal windowCall (NoWrap ⟨5, 0, 0, 64⟩) onePool
        [.descrClone () (keyAfter dragonMemoryMemUmapSeed 0) 16 (some 8)] :=
  keepsWindows_run_iff onePool ⟨5, 0, 0, 64⟩ (fun _ => rfl) (by decide +kernel)
    (fun p idx mem hmem _ => onePool_made p idx mem hmem) _

/-- A clone at offset 1 with a custom length of 2^64 - 1. -/
theorem clone_not_keepsWindows :
    ¬ Runs.Legal windowCall (KeepsWindows ⟨5, 0, 0, 64⟩) onePool
        [.descrClone () (keyAfter dragonMemoryMemUmapSeed 0) 1 (some 0xFFFFFFFFFFFFFFFF)] := by
  rintro ⟨hinside, -⟩
  have hmem : (onePool.windowCall (.descrClone () (keyAfter dragonMemoryMemUmapSeed 0) 1
      (some 0xFFFFFFFFFFFFFFFF))).memFromDescr () (keyAfter dragonMemoryMemUmapSeed 1) =
        some ⟨0xFFFFFFFFFFFFFFFF, 1, some 0, ⟨5, 0, 0, 64⟩⟩ := by
    decide +kernel
  exact absurd (hinside () _ _ hmem rfl) (by decide)

end MemoryPool
