/-
# Rehashing in the blob of a hashtable (`src/lib/hashtable.c`)

`_rehash` copies the entries into the rehash space and adds them again from there.  It passes the
length of an entry in bytes where `_copy_out` takes words, so that every copy is eight times as long
as the entry.  What is too much is overwritten by the next entry; the copies of the last ones may go
beyond the end of the blob.

Conventions:

* the blob is a function from offsets to words, with offset `0` at its begin; what lies behind its
  end is memory that belongs to others;
* an access is the offset that is read with the offset that is written.
-/
import DragonRuntime.HashtableScans

open LinearProbing DragonHashtable

variable {keyLen valueLen : ℕ}

/-! ## The layout of the blob -/

/-- The bytes of an entry. -/
def entryLen (keyLen valueLen : ℕ) : ℕ := (keyLen + valueLen) * 8

/-- `ht->slots`: behind six words of the header. -/
def slotsOffset : ℕ := 6 * 8

/-- `ht->header.armor3` -/
def armor3Offset (numSlots keyLen valueLen : ℕ) : ℕ :=
  slotsOffset + numSlots * entryLen keyLen valueLen

/-- `ht->rehash_space`: behind `armor3`, the two bitsets, and `armor2`. -/
def rehashOffset (numSlots keyLen valueLen : ℕ) : ℕ :=
  armor3Offset numSlots keyLen valueLen + 8 + dragonBitsetSize numSlots * 2 + 8

/-- The entry at an offset. -/
def entryAt (mem : ℕ → UInt64) (ptr : ℕ) : Words keyLen × Words valueLen :=
  (fun i => mem (ptr + 8 * i), fun i => mem (ptr + 8 * (keyLen + i)))

/-- The blob holds the slots of the table. -/
def HoldsSlots (mem : ℕ → UInt64) (ht : DragonHashtable keyLen valueLen) : Prop :=
  ∀ i < ht.numSlots, entryAt mem (slotsOffset + entryLen keyLen valueLen * i) = ht.slots i

/-! ## Rehashing -/

namespace DragonHashtable

/-- The loop of `_copy_out`; `len` is in words. -/
def copyOut (mem : ℕ → UInt64) (dest source len : ℕ) : ℕ → UInt64 :=
  (List.range len).foldl (fun mem idx =>
    Function.update mem (dest + 8 * idx) (mem (source + 8 * idx))) mem

def copyAccesses (dest source len : ℕ) : List (ℕ × ℕ) :=
  (List.range len).map fun idx => (source + 8 * idx, dest + 8 * idx)

/-- The first loop of `_rehash`, with `count` entries to go.  The source of a copy is a slot, so
that the checks of `_copy_out` pass. -/
def copyEntries (ht : DragonHashtable keyLen valueLen) :
    ℕ → ℕ → ℕ → ℕ → (ℕ → UInt64) → Except DragonError (List (ℕ × ℕ) × (ℕ → UInt64))
  | _, _, _, 0, mem => .ok ([], mem)
  | 0, _, _, _ + 1, _ => .error .failure
  | fuel + 1, idx, current, count + 1, mem =>
    match dragonBitsetGet ht.allocated idx with
    | .error e => .error e
    | .ok allocated =>
      match dragonBitsetGet ht.placeholder idx with
      | .error e => .error e
      | .ok placeholder =>
        if allocated && !placeholder then
          let len := entryLen keyLen valueLen
          let entryPtr := slotsOffset + len * idx
          -- the length is in bytes here
          match copyEntries ht fuel (idx + 1) (current + len) count
            (copyOut mem current entryPtr len) with
          | .error e => .error e
          | .ok (accesses, mem) => .ok (copyAccesses current entryPtr len ++ accesses, mem)
        else copyEntries ht fuel (idx + 1) current (count + 1) mem

/-- `_rehash` in the blob `mem`, with the accesses of its first loop. -/
def rehashBlob (ht : DragonHashtable keyLen valueLen) (mem : ℕ → UInt64) :
    List (ℕ × ℕ) × Except DragonError Unit × DragonHashtable keyLen valueLen :=
  let rehashSpace := rehashOffset ht.numSlots keyLen valueLen
  match copyEntries ht (ht.numSlots + 1) 0 rehashSpace ht.numKvs mem with
  | .error e => ([], .error e, ht)
  | .ok (accesses, mem) =>
    (accesses, readdEntries ((List.range ht.numKvs).map fun k =>
      entryAt mem (rehashSpace + entryLen keyLen valueLen * k)) ht.cleared)

end DragonHashtable

/-- Every access of a rehash lies inside the blob of `size` bytes, and afterwards the same pairs are
stored and no placeholder is left. -/
structure RehashSafe (ht : DragonHashtable keyLen valueLen) (mem : ℕ → UInt64) (size : ℕ) :
    Prop where
  contained : ∀ access ∈ (ht.rehashBlob mem).1, access.1 + 8 ≤ size ∧ access.2 + 8 ≤ size
  succeeds : (ht.rehashBlob mem).2.1 = .ok ()
  stored : (entriesFrom ht.numSlots (ht.rehashBlob mem).2.2.cell 0).Perm
    (entriesFrom ht.numSlots ht.cell 0)
  clean : (ht.rehashBlob mem).2.2.numPlaceholders = 0 ∧
    ∀ i < ht.numSlots, (ht.rehashBlob mem).2.2.cell i ≠ .placeholder

section Copies

variable {mem : ℕ → UInt64} {dest source : ℕ}

theorem copyOut_of_lt (len : ℕ) {a : ℕ} (ha : a < dest) : copyOut mem dest source len a = mem a := by
  unfold copyOut
  induction len with
  | zero => rfl
  | succ len ih =>
    rw [List.range_succ, List.foldl_append]
    show Function.update _ (dest + 8 * len) _ a = _
    rw [Function.update_of_ne (by omega), ih]

/-- A word that is read before the destination arrives. -/
theorem copyOut_get {len j : ℕ} (hj : j < len) (hread : source + 8 * j < dest) :
    copyOut mem dest source len (dest + 8 * j) = mem (source + 8 * j) := by
  induction len with
  | zero => omega
  | succ len ih =>
    have hlast : copyOut mem dest source (len + 1) = Function.update (copyOut mem dest source len)
        (dest + 8 * len) (copyOut mem dest source len (source + 8 * len)) := by
      unfold copyOut
      rw [List.range_succ, List.foldl_append]
      rfl
    rw [hlast]
    rcases Nat.eq_or_lt_of_le (Nat.le_of_lt_succ hj) with rfl | hlt
    · rw [Function.update_self, copyOut_of_lt _ hread]
    · rw [Function.update_of_ne (by omega), ih hlt]

/-- An entry is read from its own words. -/
theorem entryAt_congr {mem' : ℕ → UInt64} {ptr : ℕ}
    (h : ∀ a < ptr + entryLen keyLen valueLen, mem a = mem' a) :
    (entryAt mem ptr : Words keyLen × Words valueLen) = entryAt mem' ptr := by
  unfold entryLen at h
  unfold entryAt
  refine Prod.ext (funext fun i => ?_) (funext fun i => ?_)
  · exact h _ (by have := i.isLt; omega)
  · exact h _ (by have := i.isLt; omega)

/-- An entry that lies before the destination arrives. -/
theorem entryAt_copyOut (hread : source + entryLen keyLen valueLen ≤ dest) :
    (entryAt (copyOut mem dest source (entryLen keyLen valueLen)) dest
      : Words keyLen × Words valueLen) = entryAt mem source := by
  unfold entryLen at hread ⊢
  unfold entryAt
  refine Prod.ext (funext fun i => ?_) (funext fun i => ?_)
  · exact copyOut_get (by have := i.isLt; omega) (by have := i.isLt; omega)
  · exact copyOut_get (by have := i.isLt; omega) (by have := i.isLt; omega)

end Copies

section Rehash

variable {ht : DragonHashtable keyLen valueLen} {n : ℕ}

/-- What the first loop leaves behind from slot `idx` on. -/
structure Copied (ht : DragonHashtable keyLen valueLen) (n idx current : ℕ)
    (mem mem' : ℕ → UInt64) (accesses : List (ℕ × ℕ)) : Prop where
  frame : ∀ a < current, mem' a = mem a
  arrived : (List.range (entriesFrom n ht.cell idx).length).map (fun k =>
    entryAt mem' (current + entryLen keyLen valueLen * k)) = entriesFrom n ht.cell idx
  sound : ∀ access ∈ accesses, ∃ i < n, ∃ k < (entriesFrom n ht.cell idx).length,
    ∃ j < entryLen keyLen valueLen,
      access = (slotsOffset + entryLen keyLen valueLen * i + 8 * j,
        current + entryLen keyLen valueLen * k + 8 * j)
  complete : ∀ k < (entriesFrom n ht.cell idx).length, ∀ j < entryLen keyLen valueLen,
    ∃ access ∈ accesses, access.2 = current + entryLen keyLen valueLen * k + 8 * j

theorem Copied.of_nil {idx : ℕ} (hnil : entriesFrom n ht.cell idx = []) (current : ℕ)
    (mem : ℕ → UInt64) : Copied ht n idx current mem mem [] := by
  refine ⟨fun _ _ => rfl, ?_, nofun, ?_⟩ <;> rw [hnil]
  · rfl
  · exact nofun

/-- A slot with an entry, before the others. -/
theorem Copied.cons {idx current : ℕ} {mem mem' : ℕ → UInt64} {accesses : List (ℕ × ℕ)}
    {pair : Words keyLen × Words valueLen} (hidx : idx < n)
    (hcons : entriesFrom n ht.cell idx = pair :: entriesFrom n ht.cell (idx + 1))
    (hpair : entryAt mem (slotsOffset + entryLen keyLen valueLen * idx) = pair)
    (hread : slotsOffset + entryLen keyLen valueLen * idx + entryLen keyLen valueLen ≤ current)
    (h : Copied ht n (idx + 1) (current + entryLen keyLen valueLen)
      (copyOut mem current (slotsOffset + entryLen keyLen valueLen * idx)
        (entryLen keyLen valueLen)) mem' accesses) :
    Copied ht n idx current mem mem' (copyAccesses current
      (slotsOffset + entryLen keyLen valueLen * idx) (entryLen keyLen valueLen) ++ accesses) := by
  have hnext : ∀ k, current + entryLen keyLen valueLen * (k + 1)
      = current + entryLen keyLen valueLen + entryLen keyLen valueLen * k := by
    intro k
    rw [Nat.mul_add_one]
    omega
  refine ⟨?_, ?_, ?_, ?_⟩
  · intro a ha
    rw [h.frame a (by omega), copyOut_of_lt _ ha]
  · rw [hcons, List.length_cons, List.range_succ_eq_map, List.map_cons, List.map_map]
    congr 1
    · rw [Nat.mul_zero, Nat.add_zero, entryAt_congr h.frame, entryAt_copyOut hread, hpair]
    · refine Eq.trans (List.map_congr_left fun k _ => ?_) h.arrived
      exact congrArg (entryAt mem') (hnext k)
  · intro access hmem
    rw [hcons, List.length_cons]
    rcases List.mem_append.mp hmem with hfirst | hrest
    · obtain ⟨j, hj, rfl⟩ := List.mem_map.mp hfirst
      refine ⟨idx, hidx, 0, Nat.zero_lt_succ _, j, List.mem_range.mp hj, ?_⟩
      rw [Nat.mul_zero, Nat.add_zero]
    · obtain ⟨i, hi, k, hk, j, hj, rfl⟩ := h.sound access hrest
      exact ⟨i, hi, k + 1, Nat.succ_lt_succ hk, j, hj, by rw [hnext]⟩
  · rw [hcons, List.length_cons]
    intro k hk j hj
    cases k with
    | zero =>
      refine ⟨_, List.mem_append_left _ (List.mem_map.mpr ⟨j, List.mem_range.mpr hj, rfl⟩), ?_⟩
      show current + 8 * j = _
      rw [Nat.mul_zero, Nat.add_zero]
    | succ k =>
      obtain ⟨access, hmem, heq⟩ := h.complete k (Nat.lt_of_succ_lt_succ hk) j hj
      exact ⟨access, List.mem_append_right _ hmem, by rw [heq, hnext]⟩

/-- The first loop copies the entries from slot `idx` on. -/
theorem copyEntries_eq (h : TableShape ht n) (fuel idx current : ℕ) (hfuel : n < idx + fuel)
    (mem : ℕ → UInt64) (hmem : HoldsSlots mem ht)
    (hcurrent : armor3Offset n keyLen valueLen ≤ current) :
    ∃ accesses mem', ht.copyEntries fuel idx current (entriesFrom n ht.cell idx).length mem
      = .ok (accesses, mem') ∧ Copied ht n idx current mem mem' accesses := by
  induction fuel generalizing idx current mem with
  | zero =>
    have hnil : entriesFrom n ht.cell idx = [] := entriesFrom_of_le (by omega)
    exact ⟨[], mem, by rw [hnil]; rfl, Copied.of_nil hnil current mem⟩
  | succ fuel ih =>
    by_cases hnil : entriesFrom n ht.cell idx = []
    · exact ⟨[], mem, by rw [hnil]; rfl, Copied.of_nil hnil current mem⟩
    have hidx : idx < n := by
      by_contra hge
      exact hnil (entriesFrom_of_le (Nat.not_lt.mp hge))
    have hsucc : entriesFrom n ht.cell idx
        = (ht.cell idx).toPair.toList ++ entriesFrom n ht.cell (idx + 1) := entriesFrom_succ hidx
    have hbits : (ht.cell idx).isEntry
        = (ht.allocated.bit idx && !ht.placeholder.bit idx) := cell_isEntry
    cases hcell : ht.cell idx with
    | entry key value =>
      have hcons : entriesFrom n ht.cell idx
          = (key, value) :: entriesFrom n ht.cell (idx + 1) := by
        rw [hsucc, hcell]
        rfl
      -- the slots are before `current`, and stay as they are
      have hslots : ∀ i < n, slotsOffset + entryLen keyLen valueLen * i
          + entryLen keyLen valueLen ≤ current := by
        intro i hi
        have := Nat.mul_le_mul_left (entryLen keyLen valueLen) (show i + 1 ≤ n from hi)
        unfold armor3Offset at hcurrent
        rw [Nat.mul_comm n] at hcurrent
        rw [Nat.mul_add_one] at this
        omega
      have hmem' : HoldsSlots (copyOut mem current
          (slotsOffset + entryLen keyLen valueLen * idx) (entryLen keyLen valueLen)) ht := by
        intro i hi
        rw [← hmem i hi]
        rw [h.numSlots_eq] at hi
        exact entryAt_congr fun a ha => copyOut_of_lt _ (ha.trans_le (hslots i hi))
      obtain ⟨accesses, mem', hloop, hcopied⟩ := ih (idx + 1)
        (current + entryLen keyLen valueLen) (by omega) _ hmem' (by omega)
      have hpair := hmem idx (by rw [h.numSlots_eq]; exact hidx)
      rw [(cell_eq_entry_iff.mp hcell).2.2] at hpair
      refine ⟨copyAccesses current (slotsOffset + entryLen keyLen valueLen * idx)
        (entryLen keyLen valueLen) ++ accesses, mem', ?_,
        hcopied.cons hidx hcons hpair (hslots idx hidx)⟩
      rw [hcons, List.length_cons]
      unfold copyEntries
      rw [h.get_allocated hidx, h.get_placeholder hidx]
      rw [hcell] at hbits
      simp only [← hbits, Cell.isEntry, ↓reduceIte, hloop]
    | _ =>
      -- the slot holds no entry
      have hskip : entriesFrom n ht.cell idx = entriesFrom n ht.cell (idx + 1) := by
        rw [hsucc, hcell]
        rfl
      obtain ⟨accesses, mem', hloop, hcopied⟩ := ih (idx + 1) current (by omega) mem hmem hcurrent
      rw [← hskip] at hloop
      refine ⟨accesses, mem', ?_, hcopied.frame, by rw [hskip]; exact hcopied.arrived,
        by rw [hskip]; exact hcopied.sound, by rw [hskip]; exact hcopied.complete⟩
      obtain ⟨count, hcount⟩ := Nat.exists_eq_succ_of_ne_zero
        (mt List.length_eq_zero_iff.mp hnil)
      rw [hcount] at hloop ⊢
      unfold copyEntries
      rw [h.get_allocated hidx, h.get_placeholder hidx]
      rw [hcell] at hbits
      simp only [← hbits, Cell.isEntry, Bool.false_eq_true, ↓reduceIte]
      exact hloop

/-- **The rehash in the blob** does what `_rehash` means to do, and its accesses are those of the
entries. -/
theorem rehashBlob_eq (h : TableCounts ht n) {mem : ℕ → UInt64} (hmem : HoldsSlots mem ht) :
    (ht.rehashBlob mem).2 = rehash ht ∧ ∃ mem',
      Copied ht n 0 (rehashOffset n keyLen valueLen) mem mem' (ht.rehashBlob mem).1 := by
  have hall : ht.numKvs = (entriesFrom n ht.cell 0).length := by
    rw [h.numKvs_eq, length_entriesFrom]
  have hspace : armor3Offset n keyLen valueLen ≤ rehashOffset n keyLen valueLen := by
    unfold rehashOffset
    omega
  obtain ⟨accesses, mem', hloop, hcopied⟩ := copyEntries_eq h.toTableShape (n + 1) 0
    (rehashOffset n keyLen valueLen) (by omega) mem hmem hspace
  have hblob : ht.rehashBlob mem
      = (accesses, readdEntries (entriesFrom n ht.cell 0) ht.cleared) := by
    unfold rehashBlob
    simp only [h.numSlots_eq, hall, hloop, hcopied.arrived]
  rw [hblob]
  refine ⟨?_, mem', hcopied⟩
  unfold rehash
  rw [hall, h.numSlots_eq, collectEntries_eq h.toTableShape _ 0 (by omega)]
  unfold DragonHashtable.cleared
  rw [h.numSlots_eq]

/-- The accesses lie inside the blob iff the copy of the last entry does. -/
theorem contained_iff (h : TableCounts ht n) {mem : ℕ → UInt64} (hmem : HoldsSlots mem ht)
    {size : ℕ} (hsize : size = rehashOffset n keyLen valueLen + n * entryLen keyLen valueLen) :
    (∀ access ∈ (ht.rehashBlob mem).1, access.1 + 8 ≤ size ∧ access.2 + 8 ≤ size) ↔
      entryLen keyLen valueLen = 0 ∨ ht.numKvs = 0 ∨ ht.numKvs + 7 ≤ n := by
  obtain ⟨-, mem', hcopied⟩ := rehashBlob_eq h hmem
  have hall : ht.numKvs = (entriesFrom n ht.cell 0).length := by
    rw [h.numKvs_eq, length_entriesFrom]
  constructor
  · intro hin
    by_contra hnot
    push Not at hnot
    obtain ⟨hlen, hkvs, hmany⟩ := hnot
    -- the last word of the last copy
    obtain ⟨access, haccess, hwrite⟩ := hcopied.complete (ht.numKvs - 1) (by omega)
      (entryLen keyLen valueLen - 1) (by omega)
    have hle := (hin access haccess).2
    have hover := Nat.mul_le_mul_right (entryLen keyLen valueLen)
      (show n + 1 ≤ ht.numKvs - 1 + 8 by omega)
    rw [Nat.add_mul, Nat.add_mul, Nat.one_mul, Nat.mul_comm (ht.numKvs - 1)] at hover
    omega
  · intro hcond access haccess
    obtain ⟨i, hi, k, hk, j, hj, rfl⟩ := hcopied.sound access haccess
    have hroom : ht.numKvs + 7 ≤ n := by omega
    have hread := Nat.mul_le_mul_right (entryLen keyLen valueLen) (show i + 1 ≤ n by omega)
    have hwrite := Nat.mul_le_mul_right (entryLen keyLen valueLen) (show k + 8 ≤ n by omega)
    have hseven := Nat.mul_le_mul_right (entryLen keyLen valueLen) (show 7 ≤ n by omega)
    rw [Nat.add_mul, Nat.one_mul, Nat.mul_comm i] at hread
    rw [Nat.add_mul, Nat.mul_comm k] at hwrite
    unfold rehashOffset armor3Offset at hsize
    constructor
    · dsimp only
      omega
    · dsimp only
      unfold rehashOffset armor3Offset
      omega

theorem tableBytes_eq {n : ℕ} (hn : ¬ bitsetWraps n) (keyLen valueLen : ℕ) :
    tableBytes n keyLen valueLen
      = rehashOffset n keyLen valueLen + n * entryLen keyLen valueLen := by
  unfold tableBytes rehashOffset armor3Offset slotsOffset entryLen
  rw [if_neg hn]
  ring

/-- The accesses lie inside a blob of the 64-bit size. -/
theorem contained_iff_fits (h : TableCounts ht n) (hn : ¬ bitsetWraps n) {mem : ℕ → UInt64}
    (hmem : HoldsSlots mem ht)
    {size : ℕ} (hsize : size = tableBytes n keyLen valueLen % 2 ^ 64) (hlim : size ≤ thirtyTwoGb) :
    (∀ access ∈ (ht.rehashBlob mem).1, access.1 + 8 ≤ size ∧ access.2 + 8 ≤ size) ↔
      entryLen keyLen valueLen = 0 ∨ ht.numKvs = 0 ∨
        ht.numKvs + 7 ≤ n ∧ tableBytes n keyLen valueLen < 2 ^ 64 := by
  have hbytes := tableBytes_eq hn keyLen valueLen
  by_cases hfits : tableBytes n keyLen valueLen < 2 ^ 64
  · rw [contained_iff h hmem (by rw [hsize, Nat.mod_eq_of_lt hfits, hbytes]), and_iff_left hfits]
  have hall : ht.numKvs = (entriesFrom n ht.cell 0).length := by
    rw [h.numKvs_eq, length_entriesFrom]
  obtain ⟨-, mem', hcopied⟩ := rehashBlob_eq h hmem
  constructor
  · -- the rehash space begins behind the end of the blob
    intro hin
    by_contra hnot
    push Not at hnot
    obtain ⟨hlen, hkvs, -⟩ := hnot
    obtain ⟨access, haccess, hwrite⟩ := hcopied.complete 0 (by omega) 0 (by omega)
    have hle := (hin access haccess).2
    unfold rehashOffset armor3Offset at hbytes hwrite
    unfold thirtyTwoGb at hlim
    omega
  · intro hcond access haccess
    obtain ⟨i, hi, k, hk, j, hj, -⟩ := hcopied.sound access haccess
    rcases hcond with hlen | hkvs | ⟨-, hlt⟩
    · have hle := h.num_le
      rw [hlen] at hbytes
      unfold rehashOffset armor3Offset slotsOffset dragonBitsetSize at hbytes
      rw [hlen] at hbytes
      omega
    · omega
    · exact absurd hlt hfits

/-- The rehash of a table without slots reads and writes nothing. -/
theorem NoSlots.rehashSafe (h : NoSlots ht) (mem : ℕ → UInt64) (size : ℕ) :
    RehashSafe ht mem size := by
  have hblob : ht.rehashBlob mem = ([], .ok (), ht.cleared) := by
    unfold rehashBlob
    rw [h.numKvs_eq, h.numSlots_eq]
    rfl
  refine ⟨?_, by rw [hblob], ?_, by rw [hblob]; rfl, ?_⟩
  · rw [hblob]
    exact fun access haccess => absurd haccess List.not_mem_nil
  · rw [hblob, h.numSlots_eq, entriesFrom_of_le (Nat.le_refl 0), entriesFrom_of_le (Nat.le_refl 0)]
  · intro i hi
    rw [h.numSlots_eq] at hi
    exact absurd hi (Nat.not_lt_zero i)

end Rehash

/-- **Rehashing in the blob.**  In every state of every run, whether `_rehash` is triggered or not:
its accesses stay inside the blob, the same pairs are stored, and no placeholder is left, iff
entries have no width, or there is none, or there are at least seven more slots than entries and the
size of the blob does not wrap. -/
theorem dragonHashtableRehash_safe_iff (slots : ℕ → Words keyLen × Words valueLen)
    (allocated placeholder : ℕ → BitVec 8) (maxEntries : ℕ)
    (ht : DragonHashtable keyLen valueLen)
    (hinit : dragonHashtableInit slots allocated placeholder maxEntries = .ok ht)
    (ops : List (HashtableOp keyLen valueLen))
    (s : DragonHashtable keyLen valueLen × KeyMap keyLen valueLen)
    (hs : s = ops.foldl tableStep (ht, fun _ => none))
    (size : ℕ) (hsize : dragonHashtableSize maxEntries keyLen valueLen = .ok size)
    (mem : ℕ → UInt64) (hmem : HoldsSlots mem s.1) :
    RehashSafe s.1 mem size ↔
      keyLen + valueLen = 0 ∨ s.1.numKvs = 0 ∨
        s.1.numKvs + 7 ≤ s.1.numSlots ∧ tableBytes s.1.numSlots keyLen valueLen < 2 ^ 64 := by
  rcases tableSound_of_run hinit ops with ⟨hnone, -⟩ | h
  · rw [← hs] at hnone
    exact iff_of_true (hnone.rehashSafe mem size) (Or.inr (Or.inl hnone.numKvs_eq))
  rw [← hs] at h
  have hsize' : size = tableBytes (numSlotsOf maxEntries) keyLen valueLen % 2 ^ 64 ∧
      size ≤ thirtyTwoGb := by
    unfold dragonHashtableSize at hsize
    simp only at hsize
    split at hsize
    · cases hsize
    · obtain rfl := Except.ok.inj hsize
      exact ⟨rfl, by omega⟩
  have hwidth : entryLen keyLen valueLen = 0 ↔ keyLen + valueLen = 0 := by
    unfold entryLen
    omega
  have hwraps : ¬ bitsetWraps (numSlotsOf maxEntries) := by
    unfold dragonHashtableInit at hinit
    split at hinit
    · cases hinit
    split at hinit
    · cases hinit
    assumption
  have hcontained := contained_iff_fits h.toTableCounts hwraps hmem hsize'.1 hsize'.2
  rw [hwidth] at hcontained
  rw [h.numSlots_eq, ← hcontained]
  refine ⟨fun hsafe => hsafe.contained, fun hin => ?_⟩
  obtain ⟨hblob, -⟩ := rehashBlob_eq h.toTableCounts hmem
  obtain ⟨hok, hcounts, hzero, hperm, -⟩ := rehash_eq h.toTableCounts h.numKvs_le
  refine ⟨hin, by rw [hblob]; exact hok, ?_, ?_⟩
  · rw [hblob, h.numSlots_eq]
    exact hperm
  · rw [hblob, h.numSlots_eq]
    refine ⟨hzero, fun i hi hplace => ?_⟩
    have hpos := hcounts.numPlaceholders_pos hi (cell_eq_placeholder_iff.mp hplace).2
    omega

/-- The slots of a table with keys and values of one word, in memory. -/
def wordBlob (ht : DragonHashtable 1 1) (a : ℕ) : UInt64 :=
  if a % 16 = 0 then (ht.slots ((a - slotsOffset) / 16)).1 ⟨0, Nat.one_pos⟩
  else (ht.slots ((a - slotsOffset) / 16)).2 ⟨0, Nat.one_pos⟩

theorem holdsSlots_wordBlob (ht : DragonHashtable 1 1) : HoldsSlots (wordBlob ht) ht := by
  intro i hi
  unfold entryAt wordBlob entryLen slotsOffset
  refine Prod.ext (funext fun j => ?_) (funext fun j => ?_)
  · obtain rfl : j = 0 := Subsingleton.elim _ _
    dsimp only [Fin.val_zero]
    rw [if_pos (by omega),
      show (6 * 8 + (1 + 1) * 8 * i + 8 * 0 - 6 * 8) / 16 = i by omega]
    rfl
  · obtain rfl : j = 0 := Subsingleton.elim _ _
    dsimp only [Fin.val_zero]
    rw [if_neg (by omega),
      show (6 * 8 + (1 + 1) * 8 * i + 8 * (1 + 0) - 6 * 8) / 16 = i by omega]
    rfl

/-- A window of one entry that moves over the slots and leaves placeholders behind. -/
def movingWindow (moves : ℕ) : List (HashtableOp 1 1) :=
  .add (word 0) (word 7) :: (List.range moves).flatMap fun i =>
    [.add (word (i + 1)) (word 7), .remove (word i)]

/-- A table of eight slots, with one entry and five placeholders. -/
theorem dragonHashtableRehash_safe_iff_example :
    RehashSafe ((movingWindow 5).foldl tableStep ((⟨8, 0, 0, dragonBitsetInit (fun _ => 0) 8,
        dragonBitsetInit (fun _ => 0) 8, fun _ => (word 0, word 0)⟩ : DragonHashtable 1 1),
          fun _ => none)).1
      (wordBlob ((movingWindow 5).foldl tableStep ((⟨8, 0, 0, dragonBitsetInit (fun _ => 0) 8,
        dragonBitsetInit (fun _ => 0) 8, fun _ => (word 0, word 0)⟩ : DragonHashtable 1 1),
          fun _ => none)).1) 384 :=
  (dragonHashtableRehash_safe_iff (fun _ => (word 0, word 0)) (fun _ => 0) (fun _ => 0) 4
    _ rfl (movingWindow 5) _ rfl 384 (by decide) _
    (holdsSlots_wordBlob _)).mpr (by decide +kernel)

/-- One entry and three placeholders in four slots. -/
def crowdedTable : DragonHashtable 1 1 × KeyMap 1 1 :=
  (fillingCalls ++ [HashtableOp.remove (word 2)]).foldl tableStep (fourSlots, fun _ => none)

/-- **A rehash writes behind the blob.** -/
theorem dragonHashtableRehash_writes_behind_blob :
    Runs.Legal tableStep FreshAdd (fourSlots, fun _ => none)
      (fillingCalls ++ [HashtableOp.remove (word 2)]) ∧
    crowdedTable.1.numSlots / 2 < crowdedTable.1.numPlaceholders ∧
    HoldsSlots (wordBlob crowdedTable.1) crowdedTable.1 ∧ dragonHashtableSize 2 1 1 = .ok 256 ∧
    ¬ RehashSafe crowdedTable.1 (wordBlob crowdedTable.1) 256 := by
  refine ⟨Runs.legal_append.mpr ⟨legal_fillingCalls, trivial, trivial⟩, by decide +kernel,
    holdsSlots_wordBlob _, by decide, fun hsafe => ?_⟩
  have hlast := (hsafe.contained (216, 312) (by decide +kernel)).2
  omega
