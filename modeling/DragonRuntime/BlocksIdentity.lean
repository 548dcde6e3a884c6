/-
# Identity of blocks

The system: a blocks table together with the list of live ids and their values.  The
invariant `BlocksInv` splits the slots that have been used into the free list, linked
through the first words, and the slots of the live blocks.

The word of a slot decides correctly whether an id is live, except for two kinds of ids
that `dragon_blocks_get` and `dragon_blocks_free` do not exclude (`StaleId`): an id that
a slot which has never been used happens to hold, and `EOLL` in the last slot of the
free list.
-/
import DragonRuntime.Blocks
import DragonRuntime.LinkedSlots
import DragonRuntime.Runs

open LinkedSlots DragonBlocks

variable {valueLen : ℕ}

/-! ## The system -/

/-- A call that changes the table. -/
inductive BlocksOp (valueLen : ℕ) : Type where
  | alloc (value : Words valueLen)
  | free (id : ℕ)

/-- One call, on the table and on the list of the live ids with their values. -/
def blocksStep (s : DragonBlocks valueLen × List (ℕ × Words valueLen)) :
    BlocksOp valueLen → DragonBlocks valueLen × List (ℕ × Words valueLen)
  | .alloc value =>
    match dragonBlocksAlloc s.1 value with
    | (.ok id, blocks) => (blocks, (id, value) :: s.2)
    | (.error _, blocks) => (blocks, s.2)
  | .free id =>
    match dragonBlocksFree s.1 id with
    | (.ok (), blocks) => (blocks, s.2.filter fun entry => entry.1 ≠ id)
    | (.error _, blocks) => (blocks, s.2)

/-- The word of the id's slot is the id, but the slot has never been used or the word is
the mark of the end of the free list. -/
def StaleId (blocks : DragonBlocks valueLen) (id : ℕ) : Prop :=
  blocks.numSlots ≤ id ∧ (blocks.slots (id % blocks.numSlots)).id = id ∧
    (blocks.numInited ≤ id % blocks.numSlots ∨ id = eoll)

instance (blocks : DragonBlocks valueLen) (id : ℕ) : Decidable (StaleId blocks id) := by
  unfold StaleId; infer_instance

/-- The call does not free a stale id. -/
def FreesNoStale (s : DragonBlocks valueLen × List (ℕ × Words valueLen)) :
    BlocksOp valueLen → Prop
  | .alloc _ => True
  | .free id => ¬ StaleId s.1 id

instance (s : DragonBlocks valueLen × List (ℕ × Words valueLen)) (op : BlocksOp valueLen) :
    Decidable (FreesNoStale s op) := by
  cases op <;> unfold FreesNoStale <;> infer_instance

/-! ## The invariant -/

/-- The slots below `num_inited` are those of the free list and those of the live
blocks. -/
structure BlocksInv (blocks : DragonBlocks valueLen) (n : ℕ) (freeList : List ℕ)
    (live : List (ℕ × Words valueLen)) : Prop where
  num_pos : 0 < n
  num_le : 4 * n ≤ 2 ^ 64
  numSlots_eq : blocks.numSlots = n
  numInited_le : blocks.numInited ≤ n
  current_pos : 0 < blocks.current
  current_lt : blocks.current * n < 2 ^ 64
  freeList_nodup : freeList.Nodup
  freeList_lt : ∀ i ∈ freeList, i < blocks.numInited
  linked : Linked (fun i => (blocks.slots i).id) eoll blocks.freeSpaceHead freeList
  used_add : blocks.numUsed + freeList.length = blocks.numInited
  owned : ∀ i < blocks.numInited, i ∉ freeList →
    n ≤ (blocks.slots i).id ∧ (blocks.slots i).id < eoll ∧ (blocks.slots i).id % n = i
  mem_live : ∀ id value, (id, value) ∈ live ↔
    ∃ i < blocks.numInited, i ∉ freeList ∧ blocks.slots i = ⟨id, value⟩
  live_nodup : (live.map Prod.fst).Nodup
  live_length : live.length = blocks.numUsed

section Invariant

variable {blocks : DragonBlocks valueLen} {n : ℕ} {freeList : List ℕ}
  {live : List (ℕ × Words valueLen)}

theorem blocksInv_init (slots : ℕ → DragonBlocksEntry valueLen) (hn : 0 < n)
    (hfit : dragonBlocksSize n valueLen ≤ 2 ^ 64) :
    BlocksInv (dragonBlocksInit slots n) n [] [] := by
  have hle : 4 * n ≤ 2 ^ 64 := by
    unfold dragonBlocksSize at hfit
    have : n * 8 ≤ n * (8 * valueLen + 8) := Nat.mul_le_mul_left n (by omega)
    omega
  refine ⟨hn, hle, rfl, Nat.zero_le n, Nat.one_pos, ?_, List.nodup_nil, ?_, rfl, rfl, ?_, ?_,
    List.nodup_nil, rfl⟩
  · show 1 * n < 2 ^ 64
    omega
  · simp
  · intro i hi
    exact absurd hi (Nat.not_lt_zero i)
  · intro id value
    simp only [List.not_mem_nil, false_iff]
    rintro ⟨i, hi, -⟩
    exact absurd hi (Nat.not_lt_zero i)

theorem BlocksInv.word_of_free (h : BlocksInv blocks n freeList live) {i : ℕ}
    (hi : i ∈ freeList) : (blocks.slots i).id < n ∨ (blocks.slots i).id = eoll := by
  rcases h.linked.next_eq_or_mem hi with heol | hmem
  · exact Or.inr heol
  · left
    have := h.freeList_lt _ hmem
    have := h.numInited_le
    omega

/-- What the loops over the slots test: the word of a slot in use is neither a link of the free list
nor its end. -/
theorem BlocksInv.inUse_iff (h : BlocksInv blocks n freeList live) {i : ℕ}
    (hi : i < blocks.numInited) :
    blocks.numSlots ≤ (blocks.slots i).id ∧ (blocks.slots i).id ≠ eoll ↔ i ∉ freeList := by
  rw [h.numSlots_eq]
  constructor
  · rintro ⟨hge, heoll⟩ hfree
    rcases h.word_of_free hfree with hlt | heq
    · omega
    · exact heoll heq
  · intro hout
    obtain ⟨hge, hlt, -⟩ := h.owned i hi hout
    exact ⟨hge, by omega⟩

/-- **What a slot's word says.**  The word of an id's slot is an id of at least `n` iff
the id is live or stale. -/
theorem BlocksInv.word_iff (h : BlocksInv blocks n freeList live) (id : ℕ) :
    (n ≤ id ∧ (blocks.slots (id % n)).id = id) ↔
      (∃ value, (id, value) ∈ live) ∨ StaleId blocks id := by
  have hn := h.numSlots_eq
  constructor
  · rintro ⟨hle, hword⟩
    by_cases hstale : StaleId blocks id
    · exact Or.inr hstale
    · left
      unfold StaleId at hstale
      rw [hn] at hstale
      have hneither : ¬ (blocks.numInited ≤ id % n ∨ id = eoll) :=
        fun hor => hstale ⟨hle, hword, hor⟩
      push Not at hneither
      -- the slot is not in the free list, so its block is live
      have hout : id % n ∉ freeList := by
        intro hmem
        rcases h.word_of_free hmem with hlt | heol
        · omega
        · exact hneither.2 (by rw [← hword, heol])
      refine ⟨(blocks.slots (id % n)).data, (h.mem_live _ _).mpr ⟨id % n, hneither.1, hout, ?_⟩⟩
      cases hslot : blocks.slots (id % n)
      simp_all
  · rintro (⟨value, hlive⟩ | ⟨hle, hword, -⟩)
    · obtain ⟨i, hi, hout, hslot⟩ := (h.mem_live id value).mp hlive
      obtain ⟨hle, -, hmod⟩ := h.owned i hi hout
      rw [hslot] at hle hmod
      simp only at hle hmod
      rw [hmod, hslot]
      exact ⟨hle, rfl⟩
    · rw [hn] at hle hword
      exact ⟨hle, hword⟩

theorem BlocksInv.not_stale_of_live (h : BlocksInv blocks n freeList live) {id : ℕ}
    {value : Words valueLen} (hlive : (id, value) ∈ live) : ¬ StaleId blocks id := by
  obtain ⟨i, hi, hout, hslot⟩ := (h.mem_live id value).mp hlive
  obtain ⟨-, hlt, hmod⟩ := h.owned i hi hout
  rw [hslot] at hlt hmod
  simp only at hlt hmod
  rintro ⟨-, -, hnever | heol⟩
  · rw [h.numSlots_eq, hmod] at hnever
    omega
  · omega

theorem BlocksInv.get_succeeds_iff (h : BlocksInv blocks n freeList live) (id : ℕ) :
    Succeeds (dragonBlocksGet blocks id) ↔
      (∃ value, (id, value) ∈ live) ∨ StaleId blocks id := by
  rw [← h.word_iff]
  unfold dragonBlocksGet
  simp only [h.numSlots_eq]
  split
  · simp only [not_succeeds_error, false_iff]
    rintro ⟨h1, h2⟩
    omega
  · split
    · rename_i hne
      simp only [not_succeeds_error, false_iff]
      exact fun h' => hne h'.2
    · rename_i hge heq
      rw [not_not] at heq
      simp only [succeeds_ok, true_iff]
      exact ⟨by omega, heq⟩

theorem BlocksInv.get_eq (h : BlocksInv blocks n freeList live) {id : ℕ}
    {value : Words valueLen} (hlive : (id, value) ∈ live) :
    dragonBlocksGet blocks id = .ok value := by
  obtain ⟨i, hi, hout, hslot⟩ := (h.mem_live id value).mp hlive
  obtain ⟨hle, -, hmod⟩ := h.owned i hi hout
  rw [hslot] at hle hmod
  simp only at hle hmod
  unfold dragonBlocksGet
  simp only [h.numSlots_eq, hmod, hslot]
  rw [if_neg (by omega), if_neg (by simp)]

theorem BlocksInv.free_succeeds_iff (h : BlocksInv blocks n freeList live) (id : ℕ) :
    Succeeds (dragonBlocksFree blocks id).1 ↔
      (∃ value, (id, value) ∈ live) ∨ StaleId blocks id := by
  rw [← h.word_iff]
  unfold dragonBlocksFree
  simp only [h.numSlots_eq]
  split
  · simp only [not_succeeds_error, false_iff]
    rintro ⟨h1, h2⟩
    omega
  · split
    · rename_i hne
      simp only [not_succeeds_error, false_iff]
      exact fun h' => hne h'.2
    · rename_i hge heq
      rw [not_not] at heq
      simp only [succeeds_ok, true_iff]
      exact ⟨by omega, heq⟩

/-- The first words of the slots after a write to one slot. -/
theorem ids_update (slots : ℕ → DragonBlocksEntry valueLen) (idx : ℕ)
    (entry : DragonBlocksEntry valueLen) :
    (fun i => (Function.update slots idx entry i).id)
      = Function.update (fun i => (slots i).id) idx entry.id := by
  funext i
  by_cases hi : i = idx
  · subst hi
    rw [Function.update_self, Function.update_self]
  · rw [Function.update_of_ne hi, Function.update_of_ne hi]

/-! ## Allocating -/

/-- Putting a new block into a slot that is not live. -/
theorem BlocksInv.put (h : BlocksInv blocks n freeList live) {idx id : ℕ}
    (value : Words valueLen) {rest : List ℕ} {blocks' : DragonBlocks valueLen}
    (hslots : blocks'.slots = Function.update blocks.slots idx ⟨id, value⟩)
    (hnum : blocks'.numSlots = n) (hused : blocks'.numUsed = blocks.numUsed + 1)
    (hcurrent : 0 < blocks'.current ∧ blocks'.current * n < 2 ^ 64)
    (hid : n ≤ id ∧ id < eoll ∧ id % n = idx)
    (hfree : blocks'.numInited ≤ n ∧ rest.Nodup ∧ (∀ i ∈ rest, i < blocks'.numInited) ∧
      blocks'.numUsed + rest.length = blocks'.numInited)
    (hlinked : Linked (fun i => (blocks'.slots i).id) eoll blocks'.freeSpaceHead rest)
    (hsplit : ∀ i, i < blocks'.numInited ∧ i ∉ rest ↔
      i = idx ∨ i < blocks.numInited ∧ i ∉ freeList)
    (hnew : ¬ (idx < blocks.numInited ∧ idx ∉ freeList)) :
    BlocksInv blocks' n rest ((id, value) :: live) := by
  have hmem : ∀ id' value', (∃ i < blocks'.numInited, i ∉ rest ∧ blocks'.slots i = ⟨id', value'⟩)
      ↔ (id', value') = (id, value) ∨ (id', value') ∈ live := by
    intro id' value'
    rw [h.mem_live, hslots]
    constructor
    · rintro ⟨i, hi, hout, hslot⟩
      by_cases hidx : i = idx
      · subst hidx
        rw [Function.update_self] at hslot
        cases hslot
        exact Or.inl rfl
      · rw [Function.update_of_ne hidx] at hslot
        obtain ⟨hi', hout'⟩ := ((hsplit i).mp ⟨hi, hout⟩).resolve_left hidx
        exact Or.inr ⟨i, hi', hout', hslot⟩
    · rintro (heq | ⟨i, hi, hout, hslot⟩)
      · obtain ⟨rfl, rfl⟩ := Prod.mk.inj heq
        obtain ⟨hi, hout⟩ := (hsplit idx).mpr (Or.inl rfl)
        exact ⟨idx, hi, hout, Function.update_self _ _ _⟩
      · have hidx : i ≠ idx := by
          rintro rfl
          exact hnew ⟨hi, hout⟩
        obtain ⟨hi', hout'⟩ := (hsplit i).mpr (Or.inr ⟨hi, hout⟩)
        exact ⟨i, hi', hout', by rw [Function.update_of_ne hidx]; exact hslot⟩
  refine ⟨h.num_pos, h.num_le, hnum, hfree.1, hcurrent.1, hcurrent.2, hfree.2.1, hfree.2.2.1,
    hlinked, hfree.2.2.2, ?_, ?_, ?_, ?_⟩
  · intro i hi hout
    rw [hslots]
    by_cases hidx : i = idx
    · subst hidx
      rw [Function.update_self]
      exact hid
    · rw [Function.update_of_ne hidx]
      obtain ⟨hi', hout'⟩ := ((hsplit i).mp ⟨hi, hout⟩).resolve_left hidx
      exact h.owned i hi' hout'
  · intro id' value'
    rw [hmem, List.mem_cons]
  · rw [List.map_cons, List.nodup_cons]
    refine ⟨?_, h.live_nodup⟩
    intro hdup
    obtain ⟨⟨id', value'⟩, hlive, heq⟩ := List.mem_map.mp hdup
    obtain ⟨i, hi, hout, hslot⟩ := (h.mem_live id' value').mp hlive
    obtain ⟨-, -, hmod⟩ := h.owned i hi hout
    rw [hslot] at hmod
    simp only at hmod heq
    -- the id would name another slot
    have hidx : i = idx := by rw [← hmod, heq, hid.2.2]
    subst hidx
    exact hnew ⟨hi, hout⟩
  · rw [List.length_cons, h.live_length, hused]

theorem nextCurrent_eq (blocks : DragonBlocks valueLen) (hpos : 0 < n)
    (hle : 4 * n ≤ 2 ^ 64) (hnum : blocks.numSlots = n)
    (hcurrent : 0 < blocks.current) (hlt : blocks.current * n < 2 ^ 64) :
    ∃ current next, blocks.nextCurrent = (current, { blocks with current := next }) ∧
      0 < current ∧ current * n + n < eoll ∧ 0 < next ∧ next * n < 2 ^ 64 := by
  have heoll : eoll = 2 ^ 64 - 1 := by decide
  unfold DragonBlocks.nextCurrent
  rw [hnum, Nat.mod_eq_of_lt hlt]
  by_cases hrotate : eoll - blocks.current * n ≤ n
  · rw [if_pos hrotate]
    exact ⟨1, 2, rfl, Nat.one_pos, by omega, by omega, by omega⟩
  · rw [if_neg hrotate]
    have hsmall : blocks.current + 1 < 2 ^ 64 := by
      have : blocks.current * 1 ≤ blocks.current * n := Nat.mul_le_mul_left _ hpos
      omega
    refine ⟨blocks.current, blocks.current + 1, ?_, hcurrent, by omega, by omega, ?_⟩
    · rw [Nat.mod_eq_of_lt hsmall]
    · rw [Nat.add_mul]
      omega

/-- The slot for the next block: it is not live, and without it the free list is
`rest`. -/
theorem BlocksInv.takeSlot_eq (h : BlocksInv blocks n freeList live)
    (hroom : blocks.numUsed ≠ n) :
    ∃ idx inited head rest, blocks.takeSlot
        = (idx, { blocks with numInited := inited, freeSpaceHead := head }) ∧
      idx < n ∧ inited ≤ n ∧ rest.Nodup ∧ (∀ i ∈ rest, i < inited) ∧
      blocks.numUsed + 1 + rest.length = inited ∧
      (∀ x, Linked (Function.update (fun i => (blocks.slots i).id) idx x) eoll head rest) ∧
      (∀ i, i < inited ∧ i ∉ rest ↔ i = idx ∨ i < blocks.numInited ∧ i ∉ freeList) ∧
      ¬ (idx < blocks.numInited ∧ idx ∉ freeList) := by
  have hadd := h.used_add
  have hinit := h.numInited_le
  have hle := h.num_le
  unfold DragonBlocks.takeSlot
  by_cases hnew : blocks.numUsed = blocks.numInited
  · -- a slot that has never been used
    have hnil : freeList = [] := List.eq_nil_of_length_eq_zero (by omega)
    subst hnil
    rw [if_pos hnew]
    refine ⟨blocks.numInited, blocks.numInited + 1, blocks.freeSpaceHead, [], ?_, by omega,
      by omega, List.nodup_nil, by simp, by simp only [List.length_nil]; omega, ?_, ?_, by simp⟩
    · rw [Nat.mod_eq_of_lt (by omega)]
    · exact fun x => h.linked
    · intro i
      simp only [List.not_mem_nil, not_false_eq_true, and_true]
      omega
  · -- the head of the free list
    rw [if_neg hnew]
    cases hfree : freeList with
    | nil =>
      rw [hfree, List.length_nil] at hadd
      omega
    | cons i rest =>
      have hnodup := h.freeList_nodup
      have hlt := h.freeList_lt
      have hlinked := h.linked
      rw [hfree] at hnodup hlt hlinked hadd
      obtain ⟨hout, hrest⟩ := List.nodup_cons.mp hnodup
      have hi : i < blocks.numInited := hlt i List.mem_cons_self
      have hhead : blocks.freeSpaceHead = i := (hlinked.pop hout 0).1
      rw [hhead]
      refine ⟨i, blocks.numInited, (blocks.slots i).id, rest, rfl, by omega, by omega, hrest,
        fun j hj => hlt j (List.mem_cons_of_mem _ hj), ?_,
        fun x => (hlinked.pop hout x).2, ?_, by simp⟩
      · rw [List.length_cons] at hadd
        omega
      · intro j
        rw [List.mem_cons, not_or]
        constructor
        · rintro ⟨hj, hjout⟩
          by_cases hij : j = i
          · exact Or.inl hij
          · exact Or.inr ⟨hj, hij, hjout⟩
        · rintro (rfl | ⟨hj, -, hjout⟩)
          · exact ⟨hi, hout⟩
          · exact ⟨hj, hjout⟩

/-- **`dragon_blocks_alloc`** fails iff all blocks are live, and else adds a block. -/
theorem BlocksInv.alloc (h : BlocksInv blocks n freeList live) (value : Words valueLen) :
    (live.length = n ∧ dragonBlocksAlloc blocks value = (.error .outOfSpace, blocks)) ∨
    (live.length ≠ n ∧ ∃ id blocks' rest, dragonBlocksAlloc blocks value = (.ok id, blocks') ∧
      BlocksInv blocks' n rest ((id, value) :: live)) := by
  have hpos := h.num_pos
  have hle := h.num_le
  have hlen := h.live_length
  have hadd := h.used_add
  have hinit := h.numInited_le
  have heoll : eoll = 2 ^ 64 - 1 := by decide
  unfold dragonBlocksAlloc
  by_cases hfull : blocks.numUsed = n
  · refine Or.inl ⟨by omega, ?_⟩
    rw [h.numSlots_eq, if_pos hfull]
  right
  refine ⟨by omega, ?_⟩
  obtain ⟨idx, inited, head, rest, htake, hidx, hle', hnodup, hlt, hused, hlinked, hsplit,
    hnew⟩ := h.takeSlot_eq hfull
  let taken : DragonBlocks valueLen := { blocks with numInited := inited, freeSpaceHead := head }
  have htaken : blocks.takeSlot = (idx, taken) := htake
  obtain ⟨current, next, hcur, hc, hcn, hnext, hnn⟩ := nextCurrent_eq taken hpos hle
    h.numSlots_eq h.current_pos h.current_lt
  have hge : 1 * n ≤ current * n := Nat.mul_le_mul_right n hc
  have hid : (current * n + idx) % 2 ^ 64 = current * n + idx := Nat.mod_eq_of_lt (by omega)
  have hmod : (current * n + idx) % n = idx := by
    rw [Nat.add_comm, Nat.add_mul_mod_self_right, Nat.mod_eq_of_lt hidx]
  have hwrap : (blocks.numUsed + 1) % 2 ^ 64 = blocks.numUsed + 1 :=
    Nat.mod_eq_of_lt (by omega)
  refine ⟨current * n + idx,
    { taken with
      current := next
      slots := Function.update blocks.slots idx ⟨current * n + idx, value⟩
      numUsed := blocks.numUsed + 1 }, rest, ?_, ?_⟩
  · have htn : taken.numSlots = n := h.numSlots_eq
    rw [if_neg (by rw [h.numSlots_eq]; exact hfull), htaken]
    simp only [hcur]
    rw [if_neg (by omega), htn, hid]
    show _ = (_, _)
    simp only [taken, hwrap]
  · have hid' : n ≤ current * n + idx ∧ current * n + idx < eoll ∧
        (current * n + idx) % n = idx := ⟨by omega, by omega, hmod⟩
    refine h.put value rfl h.numSlots_eq rfl ⟨hnext, hnn⟩ hid' ⟨hle', hnodup, hlt, hused⟩ ?_
      hsplit hnew
    show Linked (fun i => (Function.update blocks.slots idx ⟨current * n + idx, value⟩ i).id)
      eoll head rest
    rw [ids_update]
    exact hlinked _

/-! ## Freeing -/

/-- Dropping a live id drops one block. -/
theorem length_filter_live (hnodup : (live.map Prod.fst).Nodup) {id : ℕ}
    {value : Words valueLen} (hlive : (id, value) ∈ live) :
    (live.filter fun entry => entry.1 ≠ id).length + 1 = live.length := by
  have hcount : (live.map Prod.fst).count id = 1 :=
    List.count_eq_one_of_mem hnodup (List.mem_map_of_mem hlive)
  rw [List.count, List.countP_map] at hcount
  have hlength := List.length_eq_countP_add_countP (l := live) (fun entry => entry.1 ≠ id)
  have hrest : live.countP ((fun x => x == id) ∘ Prod.fst)
      = live.countP (fun entry => decide (¬ decide (entry.1 ≠ id) = true)) := by
    refine List.countP_congr ?_
    intro entry _
    simp
  rw [← List.countP_eq_length_filter]
  omega

/-- **`dragon_blocks_free`** of a live id drops the block and puts its slot at the head of
the free list. -/
theorem BlocksInv.free (h : BlocksInv blocks n freeList live) {id : ℕ}
    {value : Words valueLen} (hlive : (id, value) ∈ live) :
    ∃ blocks', dragonBlocksFree blocks id = (.ok (), blocks') ∧
      BlocksInv blocks' n (id % n :: freeList) (live.filter fun entry => entry.1 ≠ id) := by
  have hpos := h.num_pos
  have hle := h.num_le
  have hadd := h.used_add
  have hinit := h.numInited_le
  have hlen := h.live_length
  have hfilter := length_filter_live h.live_nodup hlive
  obtain ⟨idx, hi, hout, hslot⟩ := (h.mem_live id value).mp hlive
  obtain ⟨hge, hlt, hmod⟩ := h.owned idx hi hout
  rw [hslot] at hge hlt hmod
  simp only at hge hlt hmod
  have hwrap : (blocks.numUsed + 2 ^ 64 - 1) % 2 ^ 64 = blocks.numUsed - 1 := by
    rw [show blocks.numUsed + 2 ^ 64 - 1 = blocks.numUsed - 1 + 2 ^ 64 by omega,
      Nat.add_mod_right, Nat.mod_eq_of_lt (by omega)]
  refine ⟨{ blocks with
      slots := Function.update blocks.slots idx ⟨blocks.freeSpaceHead, 0⟩
      freeSpaceHead := idx
      numUsed := blocks.numUsed - 1 }, ?_, ?_⟩
  · unfold dragonBlocksFree
    simp only [h.numSlots_eq, hmod, hslot, hwrap]
    rw [if_neg (by omega), if_neg (by simp)]
  · rw [hmod]
    -- the other slots that are not free are untouched
    have hother : ∀ i, i < blocks.numInited ∧ i ∉ idx :: freeList ↔
        i ≠ idx ∧ i < blocks.numInited ∧ i ∉ freeList := by
      intro i
      rw [List.mem_cons, not_or, and_left_comm]
    refine ⟨hpos, hle, h.numSlots_eq, hinit, h.current_pos, h.current_lt,
      List.nodup_cons.mpr ⟨hout, h.freeList_nodup⟩, ?_, ?_, ?_, ?_, ?_, ?_, ?_⟩
    · intro i hmem
      rcases List.mem_cons.mp hmem with rfl | hmem
      · exact hi
      · exact h.freeList_lt i hmem
    · show Linked (fun i => (Function.update blocks.slots idx ⟨blocks.freeSpaceHead, 0⟩ i).id)
        eoll idx (idx :: freeList)
      rw [ids_update]
      exact h.linked.push hout
    · show blocks.numUsed - 1 + (idx :: freeList).length = blocks.numInited
      rw [List.length_cons]
      omega
    · intro i hi' hout'
      obtain ⟨hne, hi', hout'⟩ := (hother i).mp ⟨hi', hout'⟩
      simp only [Function.update_of_ne hne]
      exact h.owned i hi' hout'
    · intro id' value'
      rw [List.mem_filter, h.mem_live]
      show _ ↔ ∃ i < blocks.numInited, i ∉ idx :: freeList ∧
        Function.update blocks.slots idx ⟨blocks.freeSpaceHead, 0⟩ i = ⟨id', value'⟩
      constructor
      · rintro ⟨⟨i, hi', hout', hslot'⟩, hne⟩
        have hii : i ≠ idx := by
          rintro rfl
          rw [hslot] at hslot'
          cases hslot'
          simp at hne
        obtain ⟨hi', hout'⟩ := (hother i).mpr ⟨hii, hi', hout'⟩
        exact ⟨i, hi', hout', by rw [Function.update_of_ne hii]; exact hslot'⟩
      · rintro ⟨i, hi', hout', hslot'⟩
        obtain ⟨hii, hi', hout'⟩ := (hother i).mp ⟨hi', hout'⟩
        rw [Function.update_of_ne hii] at hslot'
        refine ⟨⟨i, hi', hout', hslot'⟩, ?_⟩
        -- another slot's block has another id
        have hmod' := (h.owned i hi' hout').2.2
        rw [hslot'] at hmod'
        simp only at hmod'
        simp only [decide_eq_true_eq]
        rintro rfl
        exact hii (by rw [← hmod', hmod])
    · exact h.live_nodup.sublist (List.filter_sublist.map Prod.fst)
    · show _ = blocks.numUsed - 1
      omega

end Invariant

/-! ## Runs -/

theorem free_of_error (blocks : DragonBlocks valueLen) (id : ℕ) {e : DragonError}
    (herr : (dragonBlocksFree blocks id).1 = .error e) :
    (dragonBlocksFree blocks id).2 = blocks := by
  unfold dragonBlocksFree at herr ⊢
  simp only at herr ⊢
  split
  · rfl
  · rename_i hge
    rw [if_neg hge] at herr
    split
    · rfl
    · rename_i heq
      rw [if_neg heq] at herr
      cases herr

/-- **Step lemma.**  A call that frees no stale id keeps the invariant. -/
theorem blocksStep_inv {n : ℕ} (s : DragonBlocks valueLen × List (ℕ × Words valueLen))
    (op : BlocksOp valueLen) (h : ∃ freeList, BlocksInv s.1 n freeList s.2)
    (hop : FreesNoStale s op) :
    ∃ freeList, BlocksInv (blocksStep s op).1 n freeList (blocksStep s op).2 := by
  obtain ⟨freeList, h⟩ := h
  cases op with
  | alloc value =>
    rcases h.alloc value with ⟨-, halloc⟩ | ⟨-, id, blocks, rest, halloc, h'⟩
    · simp only [blocksStep, halloc]
      exact ⟨freeList, h⟩
    · simp only [blocksStep, halloc]
      exact ⟨rest, h'⟩
  | free id =>
    by_cases hsucc : Succeeds (dragonBlocksFree s.1 id).1
    · obtain ⟨value, hlive⟩ := ((h.free_succeeds_iff id).mp hsucc).resolve_right hop
      obtain ⟨blocks, hfree, h'⟩ := h.free hlive
      simp only [blocksStep, hfree]
      exact ⟨_, h'⟩
    · obtain ⟨e, herr⟩ : ∃ e, (dragonBlocksFree s.1 id).1 = .error e := by
        cases hres : (dragonBlocksFree s.1 id).1 with
        | error e => exact ⟨e, rfl⟩
        | ok u =>
          rw [hres] at hsucc
          exact absurd (succeeds_ok u) hsucc
      have hfree : dragonBlocksFree s.1 id = (.error e, s.1) :=
        Prod.ext herr (free_of_error s.1 id herr)
      simp only [blocksStep, hfree]
      exact ⟨freeList, h⟩

/-- What holds of a table and its live blocks under the invariant. -/
theorem BlocksInv.identity {blocks : DragonBlocks valueLen} {n : ℕ} {freeList : List ℕ}
    {live : List (ℕ × Words valueLen)} (h : BlocksInv blocks n freeList live) {id : ℕ}
    {P : Prop} (hP : P ↔ (∃ value, (id, value) ∈ live) ∨ StaleId blocks id) :
    (P ↔ ∃ value, (id, value) ∈ live) ↔ ¬ StaleId blocks id := by
  rw [hP]
  constructor
  · intro hiff hstale
    obtain ⟨value, hlive⟩ := hiff.mp (Or.inr hstale)
    exact h.not_stale_of_live hlive hstale
  · intro hstale
    exact ⟨fun hor => hor.resolve_right hstale, Or.inl⟩

/-- **Identity of blocks.**  After any calls that free no stale id:
`dragon_blocks_get` and `dragon_blocks_free` succeed on exactly the live ids, iff the id
they are asked for is not stale; a live id gives its value; the live ids are distinct;
`dragon_blocks_alloc` fails, with `OUT_OF_SPACE`, iff all blocks are live. -/
theorem dragonBlocks_identity (slots : ℕ → DragonBlocksEntry valueLen) (numBlocks : ℕ)
    (hnum : 1 ≤ numBlocks) (hfit : dragonBlocksSize numBlocks valueLen ≤ 2 ^ 64)
    (ops : List (BlocksOp valueLen))
    (hops : Runs.Legal blocksStep FreesNoStale (dragonBlocksInit slots numBlocks, []) ops)
    (s : DragonBlocks valueLen × List (ℕ × Words valueLen))
    (hs : s = ops.foldl blocksStep (dragonBlocksInit slots numBlocks, [])) :
    (∀ id, ((Succeeds (dragonBlocksGet s.1 id) ↔ ∃ value, (id, value) ∈ s.2) ↔
      ¬ StaleId s.1 id)) ∧
    (∀ id, ((Succeeds (dragonBlocksFree s.1 id).1 ↔ ∃ value, (id, value) ∈ s.2) ↔
      ¬ StaleId s.1 id)) ∧
    (∀ id value, (id, value) ∈ s.2 → dragonBlocksGet s.1 id = .ok value) ∧
    (s.2.map Prod.fst).Nodup ∧
    (∀ value, ((dragonBlocksAlloc s.1 value).1 = .error .outOfSpace ↔ s.2.length = numBlocks) ∧
      (Succeeds (dragonBlocksAlloc s.1 value).1 ↔ s.2.length ≠ numBlocks)) := by
  obtain ⟨freeList, h⟩ : ∃ freeList, BlocksInv s.1 numBlocks freeList s.2 := by
    rw [hs]
    exact hops.invariant (I := fun s => ∃ freeList, BlocksInv s.1 numBlocks freeList s.2)
      blocksStep_inv ⟨[], blocksInv_init slots hnum hfit⟩
  refine ⟨fun id => h.identity (h.get_succeeds_iff id),
    fun id => h.identity (h.free_succeeds_iff id), fun id value => h.get_eq, h.live_nodup, ?_⟩
  intro value
  rcases h.alloc value with ⟨hlen, halloc⟩ | ⟨hlen, id, blocks, rest, halloc, -⟩
  · rw [halloc]
    exact ⟨iff_of_true rfl hlen, iff_of_false (not_succeeds_error _) (not_not.mpr hlen)⟩
  · rw [halloc]
    exact ⟨iff_of_false nofun hlen, iff_of_true (succeeds_ok id) hlen⟩

/-- Two blocks of one word: two allocations, a free of the first, and a third allocation. -/
theorem dragonBlocks_identity_example :
    let s := [BlocksOp.alloc (fun _ => 7), .alloc (fun _ => 8), .free 2, .alloc (fun _ => 9)].foldl
      blocksStep (dragonBlocksInit (fun _ => (⟨0, fun _ => 0⟩ : DragonBlocksEntry 1)) 2, [])
    dragonBlocksGet s.1 5 = .ok (fun _ => 8) ∧ dragonBlocksGet s.1 6 = .ok (fun _ => 9) ∧
      (s.2.map Prod.fst).Nodup ∧ (dragonBlocksAlloc s.1 (fun _ => 1)).1 = .error .outOfSpace := by
  intro s
  obtain ⟨-, -, hget, hnodup, halloc⟩ := dragonBlocks_identity
    (fun _ => (⟨0, fun _ => 0⟩ : DragonBlocksEntry 1)) 2 (by decide) (by decide)
    [BlocksOp.alloc (fun _ => 7), .alloc (fun _ => 8), .free 2, .alloc (fun _ => 9)]
    (by
      refine ⟨trivial, trivial, ?_, trivial, trivial⟩
      decide +kernel) s rfl
  refine ⟨hget 5 _ ?_, hget 6 _ ?_, hnodup, (halloc _).1.mpr (by decide +kernel)⟩
  · decide +kernel
  · decide +kernel

/-- The last slot of the free list holds `EOLL`, and so `EOLL` is found as an id though no
block is live. -/
theorem dragonBlocks_eoll_found :
    let s := [BlocksOp.alloc (fun _ => 7), .free 1].foldl blocksStep
      (dragonBlocksInit (fun _ => (⟨0, fun _ => 0⟩ : DragonBlocksEntry 1)) 1, [])
    s.2 = [] ∧ Succeeds (dragonBlocksGet s.1 0xffffffffffffffff) ∧
      Succeeds (dragonBlocksFree s.1 0xffffffffffffffff).1 := by
  decide +kernel
