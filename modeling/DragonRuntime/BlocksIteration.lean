/-
# Iteration over a blocks table (`src/lib/blocks.c`)

`dragon_blocks_first` and `dragon_blocks_next` go through the slots that have been used, and tell
the live ones by their first words.  What they yield is characterised twice: by the ids that occur,
and by the order of their slots.

Conventions: a word has eight bytes, the lowest first, and the bytes at `value` are a
function of their index.
-/
import DragonRuntime.BlocksIdentity

namespace BlocksIteration

variable {valueLen : ℕ}

/-- The byte at an offset from `&entry->data`. -/
def dataByte (data : Words valueLen) (k : ℕ) : UInt8 :=
  if h : k / 8 < valueLen then UInt8.ofNat ((data ⟨k / 8, h⟩).toNat / 2 ^ (8 * (k % 8)) % 256)
  else 0

/-- `!memcmp(value, substring, len)` -/
def Matches (value : ℕ → UInt8) (offset len : ℕ) (data : Words valueLen) : Prop :=
  ∀ k < len, value k = dataByte data (offset + k)

instance (value : ℕ → UInt8) (offset len : ℕ) (data : Words valueLen) :
    Decidable (Matches value offset len data) := by
  unfold Matches; infer_instance

section Calls

variable (blocks : DragonBlocks valueLen) (value : ℕ → UInt8) (offset len : ℕ)

/-- The test of the loops. -/
def hits (idx : ℕ) : Bool :=
  blocks.numSlots ≤ (blocks.slots idx).id ∧ (blocks.slots idx).id ≠ eoll ∧
    Matches value offset len (blocks.slots idx).data

/-- The loop of `dragon_blocks_first` and `dragon_blocks_next`, over a number of slots from `idx`
on. -/
def scan : ℕ → ℕ → Except DragonError ℕ
  | 0, _ => .error .blocksIterationComplete
  | rounds + 1, idx =>
    if hits blocks value offset len idx then .ok (blocks.slots idx).id else scan rounds (idx + 1)

/-- `dragon_blocks_first` -/
def dragonBlocksFirst : Except DragonError ℕ :=
  if 8 * valueLen < (offset + len) % 2 ^ 64 then .error .invalidArgument
  else scan blocks value offset len blocks.numInited 0

/-- `dragon_blocks_next` -/
def dragonBlocksNext (id : ℕ) : Except DragonError ℕ :=
  let startIdx := id % blocks.numSlots
  if 8 * valueLen < (offset + len) % 2 ^ 64 then .error .invalidArgument
  else if (blocks.slots startIdx).id < blocks.numSlots then .error .invalidArgument
  else if (blocks.slots startIdx).id ≠ id then .error .invalidArgument
  else scan blocks value offset len (blocks.numInited - (startIdx + 1)) (startIdx + 1)

/-- `dragon_blocks_count`; `none` for `NULL`. -/
def dragonBlocksCount (value : Option (ℕ → UInt8)) : Except DragonError ℕ :=
  match value with
  | none => .ok blocks.numUsed
  | some value =>
    if len = 0 then .error .invalidArgument
    else if 8 * valueLen < (offset + len) % 2 ^ 64 then .error .invalidArgument
    else .ok ((List.range' 0 blocks.numInited).countP (hits blocks value offset len))

/-- The iteration: the ids that the calls yield, and what the last one answers. -/
def iterate : ℕ → Except DragonError ℕ → List ℕ × Option DragonError
  | _, .error e => ([], some e)
  | 0, .ok id => ([id], none)
  | calls + 1, .ok id =>
    let rest := iterate calls (dragonBlocksNext blocks value offset len id)
    (id :: rest.1, rest.2)

/-- The ids of the slots that are hit. -/
def idsFrom (rounds idx : ℕ) : List ℕ :=
  ((List.range' idx rounds).filter (hits blocks value offset len)).map fun i => (blocks.slots i).id

end Calls

section Invariant

variable {blocks : DragonBlocks valueLen} {n : ℕ} {freeList : List ℕ}
  {live : List (ℕ × Words valueLen)} {value : ℕ → UInt8} {offset len : ℕ}

theorem hits_iff (h : BlocksInv blocks n freeList live) {idx : ℕ} (hidx : idx < blocks.numInited) :
    hits blocks value offset len idx = true ↔
      idx ∉ freeList ∧ Matches value offset len (blocks.slots idx).data := by
  unfold hits
  rw [decide_eq_true_iff, ← and_assoc, h.inUse_iff hidx]

/-- **The iteration** over the slots that are left; by induction on their number. -/
theorem iterate_scan (h : BlocksInv blocks n freeList live)
    (hfits : ¬ 8 * valueLen < (offset + len) % 2 ^ 64) (rounds idx calls : ℕ)
    (hrounds : idx + rounds = blocks.numInited) (hcalls : rounds ≤ calls) :
    iterate blocks value offset len calls (scan blocks value offset len rounds idx)
      = (idsFrom blocks value offset len rounds idx, some .blocksIterationComplete) := by
  induction rounds generalizing idx calls with
  | zero =>
    cases calls with
    | zero => rfl
    | succ calls => rfl
  | succ rounds ih =>
    have hidx : idx < blocks.numInited := by omega
    unfold scan idsFrom
    rw [List.range'_succ]
    by_cases hhit : hits blocks value offset len idx = true
    · rw [if_pos hhit, List.filter_cons_of_pos hhit, List.map_cons]
      obtain ⟨hge, -, hmod⟩ := h.owned idx hidx ((hits_iff h hidx).mp hhit).1
      obtain ⟨calls, rfl⟩ := Nat.exists_eq_succ_of_ne_zero (show calls ≠ 0 by omega)
      have hnext : dragonBlocksNext blocks value offset len (blocks.slots idx).id
          = scan blocks value offset len rounds (idx + 1) := by
        unfold dragonBlocksNext
        simp only [h.numSlots_eq, hmod]
        rw [if_neg hfits, if_neg (Nat.not_lt.mpr hge), if_neg (by simp),
          show blocks.numInited - (idx + 1) = rounds by omega]
      rw [iterate, hnext, ih (idx + 1) calls (by omega) (Nat.le_of_succ_le_succ hcalls)]
      rfl
    · rw [if_neg hhit, List.filter_cons_of_neg hhit]
      exact ih (idx + 1) calls (by omega) (Nat.le_of_succ_le hcalls)

/-- The ids that are yielded are those of the live blocks that match. -/
theorem mem_idsFrom (h : BlocksInv blocks n freeList live) (id : ℕ) :
    id ∈ idsFrom blocks value offset len blocks.numInited 0 ↔
      ∃ data, (id, data) ∈ live ∧ Matches value offset len data := by
  unfold idsFrom
  simp only [List.mem_map, List.mem_filter, List.mem_range'_1, Nat.zero_le, true_and, Nat.zero_add]
  constructor
  · rintro ⟨i, ⟨hi, hhit⟩, rfl⟩
    obtain ⟨hout, hmatch⟩ := (hits_iff h hi).mp hhit
    exact ⟨_, (h.mem_live _ _).mpr ⟨i, hi, hout, rfl⟩, hmatch⟩
  · rintro ⟨data, hlive, hmatch⟩
    obtain ⟨i, hi, hout, hslot⟩ := (h.mem_live id data).mp hlive
    refine ⟨i, ⟨hi, (hits_iff h hi).mpr ⟨hout, ?_⟩⟩, ?_⟩
    · rw [hslot]
      exact hmatch
    · rw [hslot]

/-- Their slots, in the order of the iteration. -/
theorem slots_idsFrom (h : BlocksInv blocks n freeList live) :
    (idsFrom blocks value offset len blocks.numInited 0).map (· % n)
      = (List.range' 0 blocks.numInited).filter (hits blocks value offset len) := by
  unfold idsFrom
  rw [List.map_map]
  refine (List.map_congr_left fun i hmem => ?_).trans (List.map_id _)
  obtain ⟨hrange, hhit⟩ := List.mem_filter.mp hmem
  have hi : i < blocks.numInited := by
    have := List.mem_range'_1.mp hrange
    omega
  exact (h.owned i hi ((hits_iff h hi).mp hhit).1).2.2

end Invariant

/-- **The iteration over a blocks table.**  After any calls that free no stale id, and for every
value, offset and length within the blocks: `dragon_blocks_first` and then `dragon_blocks_next`
yield the live blocks that match, in increasing order of their slots, so each once, and then that
the iteration is complete; and where the length is not zero `dragon_blocks_count` gives their
number. -/
theorem dragonBlocks_iterate (slots : ℕ → DragonBlocksEntry valueLen) (numBlocks : ℕ)
    (hnum : 1 ≤ numBlocks) (hfit : dragonBlocksSize numBlocks valueLen ≤ 2 ^ 64)
    (ops : List (BlocksOp valueLen))
    (hops : Runs.Legal blocksStep FreesNoStale (dragonBlocksInit slots numBlocks, []) ops)
    (s : DragonBlocks valueLen × List (ℕ × Words valueLen))
    (hs : s = ops.foldl blocksStep (dragonBlocksInit slots numBlocks, []))
    (value : ℕ → UInt8) (offset len : ℕ) (hlen : offset + len ≤ 8 * valueLen) :
    ∃ ids : List ℕ,
      (∀ calls, numBlocks ≤ calls → iterate s.1 value offset len calls
        (dragonBlocksFirst s.1 value offset len) = (ids, some .blocksIterationComplete)) ∧
      (∀ id, id ∈ ids ↔ ∃ data, (id, data) ∈ s.2 ∧ Matches value offset len data) ∧
      (ids.map (· % numBlocks)).Pairwise (· < ·) ∧
      (1 ≤ len → dragonBlocksCount s.1 offset len (some value) = .ok ids.length) := by
  obtain ⟨freeList, h⟩ : ∃ freeList, BlocksInv s.1 numBlocks freeList s.2 := by
    rw [hs]
    exact hops.invariant (I := fun s => ∃ freeList, BlocksInv s.1 numBlocks freeList s.2)
      blocksStep_inv ⟨[], blocksInv_init slots hnum hfit⟩
  have hfits : ¬ 8 * valueLen < (offset + len) % 2 ^ 64 :=
    Nat.not_lt.mpr ((Nat.mod_le _ _).trans hlen)
  refine ⟨idsFrom s.1 value offset len s.1.numInited 0, fun calls hcalls => ?_, mem_idsFrom h, ?_,
    fun hpos => ?_⟩
  · unfold dragonBlocksFirst
    rw [if_neg hfits]
    exact iterate_scan h hfits _ 0 calls (Nat.zero_add _) (h.numInited_le.trans hcalls)
  · rw [slots_idsFrom h]
    exact List.Pairwise.filter _ (List.pairwise_lt_range' 1)
  · unfold dragonBlocksCount idsFrom
    dsimp only
    rw [if_neg (Nat.ne_of_gt hpos), if_neg hfits, List.length_map, List.countP_eq_length_filter]

/-- Two allocations, a free of the first, and a third allocation: the value 9 is found once. -/
theorem dragonBlocks_iterate_example :
    dragonBlocksCount ([BlocksOp.alloc (fun _ => 7), .alloc (fun _ => 8), .free 2,
      .alloc (fun _ => 9)].foldl blocksStep
        (dragonBlocksInit (fun _ => (⟨0, fun _ => 0⟩ : DragonBlocksEntry 1)) 2, [])).1 0 1
          (some fun _ => 9) = .ok 1 := by
  obtain ⟨ids, hiterate, -, -, hcount⟩ := dragonBlocks_iterate
    (fun _ => (⟨0, fun _ => 0⟩ : DragonBlocksEntry 1)) 2 (by decide) (by decide)
    [BlocksOp.alloc (fun _ => 7), .alloc (fun _ => 8), .free 2, .alloc (fun _ => 9)]
    ⟨trivial, trivial, by decide +kernel, trivial, trivial⟩ _ rfl (fun _ => 9) 0 1 (by decide)
  have hids : ids = [6] := (congrArg Prod.fst (hiterate 2 le_rfl)).symm.trans (by decide +kernel)
  rw [hcount le_rfl, hids]
  rfl

/-- **A live block is not found** after `EOLL` has been freed: the one slot is allocated twice. -/
theorem dragonBlocks_iterate_misses :
    let s := [BlocksOp.alloc (fun _ => 7), .free 1, .free 0xffffffffffffffff, .alloc (fun _ => 7),
      .alloc (fun _ => 7)].foldl blocksStep
        (dragonBlocksInit (fun _ => (⟨0, fun _ => 0⟩ : DragonBlocksEntry 1)) 1, [])
    s.2.map Prod.fst = [3, 2] ∧ iterate s.1 (fun _ => 7) 0 1 5 (dragonBlocksFirst s.1 (fun _ => 7) 0 1)
      = ([3], some .blocksIterationComplete) := by
  decide +kernel

end BlocksIteration
