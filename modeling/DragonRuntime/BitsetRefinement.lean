/-
# The bitset refines a finite set

The abstract model of the bitset is a finite set `S` of numbers below `num_bits`.
`Represents set n S` says that the handle `set` stands for `S`: its bits are the
members, `length` is the cardinality and `leading_zeroes` is the least member.

The one operation that can break this is `dragon_bitset_reset` of the least member,
because it recomputes `leading_zeroes` by the scan of `BitsetScan.lean`.
-/
import DragonRuntime.BitsetScan
import DragonRuntime.Runs

/-! ## The abstract set -/

/-- The least member of `S`, or `n` when `S` is empty. -/
def firstOr (S : Finset ℕ) (n : ℕ) : ℕ :=
  if h : S.Nonempty then S.min' h else n

/-- The members of `S` after `i`. -/
def membersAfter (S : Finset ℕ) (i : ℕ) : Finset ℕ := S.filter (i < ·)

/-- The answer of an iteration step over the members `S`. -/
def iterationAnswer (S : Finset ℕ) (n : ℕ) : Except DragonError ℕ :=
  if S = ∅ then .error .bitsetIterationComplete else .ok (firstOr S n)

/-- The scan to the right of `i` skips the next member of `S`: the word of `i + 1`
holds no member, `i + 1` is in its first byte behind the first bit, and the next
member has a smaller offset in its word. -/
def SkipsMember (n : ℕ) (S : Finset ℕ) (i : ℕ) : Prop :=
  0 < (i + 1) % 64 ∧ (i + 1) % 64 < 8 ∧ (∀ j ∈ S, j / 64 ≠ (i + 1) / 64) ∧
    ∃ m ∈ S, i < m ∧ (∀ j ∈ S, i < j → m ≤ j) ∧ m % 64 < (i + 1) % 64 ∧
      64 * (m / 64) + (i + 1) % 64 < n

instance (n : ℕ) (S : Finset ℕ) (i : ℕ) : Decidable (SkipsMember n S i) := by
  unfold SkipsMember; infer_instance

theorem firstOr_empty (n : ℕ) : firstOr ∅ n = n := by simp [firstOr]

theorem firstOr_mem {S : Finset ℕ} (h : S.Nonempty) (n : ℕ) : firstOr S n ∈ S := by
  rw [firstOr, dif_pos h]
  exact S.min'_mem h

theorem firstOr_le {S : Finset ℕ} {i : ℕ} (hi : i ∈ S) (n : ℕ) : firstOr S n ≤ i := by
  rw [firstOr, dif_pos ⟨i, hi⟩]
  exact S.min'_le i hi

theorem firstOr_eq_of_isLeast {S : Finset ℕ} {m : ℕ} (n : ℕ) (hm : m ∈ S)
    (hle : ∀ j ∈ S, m ≤ j) : firstOr S n = m :=
  le_antisymm (firstOr_le hm n) (hle _ (firstOr_mem ⟨m, hm⟩ n))

/-! ## Representation -/

/-- The handle stands for the set `S` of numbers below `n`. -/
structure Represents (set : DragonBitSet) (n : ℕ) (S : Finset ℕ) : Prop where
  size_eq : set.size = n
  lt_of_mem : ∀ i ∈ S, i < n
  bit_iff : ∀ i < n, set.bit i = true ↔ i ∈ S
  length_eq : set.length = S.card
  leading_eq : set.leadingZeroes = firstOr S n

variable {set : DragonBitSet} {n : ℕ} {S : Finset ℕ}

/-- The first set bit from `idx` on, in terms of the members. -/
theorem firstBitFrom_iff_eq_firstOr (hsize : set.size = n)
    (hlt : ∀ i ∈ S, i < n) (hbit : ∀ i < n, set.bit i = true ↔ i ∈ S) {idx m : ℕ}
    (hidx : idx ≤ n) :
    set.FirstBitFrom idx m ↔ m = firstOr (S.filter (idx ≤ ·)) n := by
  have key : set.FirstBitFrom idx (firstOr (S.filter (idx ≤ ·)) n) := by
    by_cases hne : (S.filter (idx ≤ ·)).Nonempty
    · have hmem := firstOr_mem hne n
      rw [Finset.mem_filter] at hmem
      refine ⟨hmem.2, by have := hlt _ hmem.1; omega, ?_, ?_⟩
      · intro j hj hjm
        by_contra hb
        have hjn : j < n := lt_trans hjm (hlt _ hmem.1)
        have hjS := (hbit j hjn).mp (by simpa using hb)
        have := firstOr_le (S := S.filter (idx ≤ ·)) (Finset.mem_filter.mpr ⟨hjS, hj⟩) n
        omega
      · intro _
        exact (hbit _ (hlt _ hmem.1)).mpr hmem.1
    · rw [Finset.not_nonempty_iff_eq_empty] at hne
      rw [hne, firstOr_empty]
      refine ⟨hidx, by omega, ?_, by omega⟩
      intro j hj hjn
      by_contra hb
      have hjS := (hbit j hjn).mp (by simpa using hb)
      have : j ∈ S.filter (idx ≤ ·) := Finset.mem_filter.mpr ⟨hjS, hj⟩
      rw [hne] at this
      exact absurd this (Finset.notMem_empty j)
  exact ⟨fun h => h.unique key, fun h => by rw [h]; exact key⟩

theorem wordSkip_iff_skipsMember (hsize : set.size = n)
    (hlt : ∀ i ∈ S, i < n) (hbit : ∀ i < n, set.bit i = true ↔ i ∈ S) (i : ℕ) :
    set.WordSkip i ↔ SkipsMember n S i := by
  constructor
  · rintro ⟨h0, h8, hzero, m, ⟨hle, -, hbefore, hone⟩, hmn, hoff, hlast⟩
    rw [hsize] at hmn hlast
    refine ⟨h0, h8, ?_, m, (hbit m hmn).mp (hone (by omega)), by omega, ?_, hoff, hlast⟩
    · intro j hj hword
      have h1 := hzero j hword
      rw [(hbit j (hlt j hj)).mpr hj] at h1
      cases h1
    · intro j hj hij
      by_contra hjm
      have h1 := hbefore j (by omega) (by omega)
      rw [(hbit j (hlt j hj)).mpr hj] at h1
      cases h1
  · rintro ⟨h0, h8, hzero, m, hm, him, hleast, hoff, hlast⟩
    have hmn := hlt m hm
    have hword := hzero m hm
    refine ⟨h0, h8, ?_, m, ⟨by omega, by omega, ?_, fun _ => (hbit m hmn).mpr hm⟩,
      by omega, hoff, by omega⟩
    · intro j hj
      by_contra hb
      exact hzero j ((hbit j (by omega)).mp (by simpa using hb)) hj
    · intro j hj hjm
      by_contra hb
      have := hleast j ((hbit j (by omega)).mp (by simpa using hb)) (by omega)
      omega

/-! ## The operations keep the representation -/

theorem represents_clear (hsize : set.size = n) :
    Represents (dragonBitsetClear set) n ∅ where
  size_eq := hsize
  lt_of_mem := by simp
  bit_iff := by
    intro i hi
    rw [bit_dragonBitsetClear set (by omega)]
    simp
  length_eq := rfl
  leading_eq := by rw [firstOr_empty]; exact hsize

theorem represents_init (mem : ℕ → BitVec 8) (n : ℕ) :
    Represents (dragonBitsetInit mem n) n ∅ := represents_clear rfl

theorem Represents.insert {i : ℕ} (h : Represents set n S) (hi : i < n) :
    ∃ set', dragonBitsetSet set i = .ok set' ∧ Represents set' n (insert i S) := by
  have hlt : i < set.size := by
    rw [h.size_eq]
    exact hi
  obtain ⟨set', hset, hsize, hbits, hlen, hlead⟩ := dragonBitsetSet_of_lt hlt
  refine ⟨set', hset, ⟨by rw [hsize, h.size_eq], ?_, ?_, ?_, ?_⟩⟩
  · intro j hj
    rcases Finset.mem_insert.mp hj with rfl | hj
    · exact hi
    · exact h.lt_of_mem j hj
  · intro j hj
    rw [hbits, Finset.mem_insert, ← h.bit_iff j hj]
    simp
  · rw [hlen, h.length_eq]
    by_cases hmem : i ∈ S
    · rw [if_pos ((h.bit_iff i hi).mpr hmem), Finset.insert_eq_of_mem hmem]
    · rw [if_neg (fun hb => hmem ((h.bit_iff i hi).mp hb)), Finset.card_insert_of_notMem hmem]
  · rw [hlead, h.leading_eq]
    symm
    by_cases hne : S.Nonempty
    · have hfirst := firstOr_mem hne n
      by_cases hlt : i < firstOr S n
      · rw [if_pos hlt]
        apply firstOr_eq_of_isLeast n (Finset.mem_insert_self i S)
        intro j hj
        rcases Finset.mem_insert.mp hj with rfl | hj
        · exact le_rfl
        · have := firstOr_le hj n
          omega
      · rw [if_neg hlt]
        apply firstOr_eq_of_isLeast n (Finset.mem_insert_of_mem hfirst)
        intro j hj
        rcases Finset.mem_insert.mp hj with rfl | hj
        · omega
        · exact firstOr_le hj n
    · rw [Finset.not_nonempty_iff_eq_empty] at hne
      subst hne
      rw [firstOr_empty, if_pos hi]
      exact firstOr_eq_of_isLeast n (by simp) (by simp)

/-- A reset goes wrong when it removes the least member and the scan for the new
least member skips it. -/
def ResetSkips (n : ℕ) (S : Finset ℕ) (i : ℕ) : Prop :=
  i ∈ S ∧ (∀ j ∈ S, i ≤ j) ∧ SkipsMember n (S.erase i) i

instance (n : ℕ) (S : Finset ℕ) (i : ℕ) : Decidable (ResetSkips n S i) := by
  unfold ResetSkips; infer_instance

/-- `dragon_bitset_reset` erases, as far as size, bits and length go. -/
theorem Represents.reset_bits {i : ℕ} (h : Represents set n S) (hi : i < n) :
    ∃ set', dragonBitsetReset set i = .ok set' ∧ set'.size = n ∧
      (∀ j < n, set'.bit j = true ↔ j ∈ S.erase i) ∧ set'.length = (S.erase i).card ∧
      set'.leadingZeroes = (if i = firstOr S n then
          if (S.erase i).card = 0 then n else scanEnd set' n (i + 1)
        else firstOr S n) := by
  have hlt : i < set.size := by
    rw [h.size_eq]
    exact hi
  obtain ⟨set', hreset, hsize, hbits, hlen, hlead⟩ := dragonBitsetReset_of_lt hlt
  have hlen' : set'.length = (S.erase i).card := by
    rw [hlen, h.length_eq]
    by_cases hmem : i ∈ S
    · rw [if_pos ((h.bit_iff i hi).mpr hmem), Finset.card_erase_of_mem hmem]
    · rw [if_neg (fun hb => hmem ((h.bit_iff i hi).mp hb)), Finset.erase_eq_of_notMem hmem]
  refine ⟨set', hreset, by rw [hsize, h.size_eq], ?_, hlen', ?_⟩
  · intro j hj
    rw [hbits, Finset.mem_erase, ← h.bit_iff j hj]
    simp
  · rw [hlead, h.leading_eq, h.size_eq, hlen', scanEnd]
    split
    · split
      · rfl
      · omega
    · rfl

/-- **`dragon_bitset_reset`** erases `i` from the represented set, unless it removes
the least member and the scan skips the next one. -/
theorem Represents.reset_iff {i : ℕ} (h : Represents set n S) (hi : i < n) :
    ∃ set', dragonBitsetReset set i = .ok set' ∧
      (Represents set' n (S.erase i) ↔ ¬ ResetSkips n S i) := by
  obtain ⟨set', hreset, hsize, hbits, hlen, hlead⟩ := h.reset_bits hi
  have hlt : ∀ j ∈ S.erase i, j < n := fun j hj => h.lt_of_mem j (Finset.mem_of_mem_erase hj)
  refine ⟨set', hreset, ?_⟩
  have hrep : Represents set' n (S.erase i) ↔ set'.leadingZeroes = firstOr (S.erase i) n :=
    ⟨fun hr => hr.leading_eq, fun hl => ⟨hsize, hlt, hbits, hlen, hl⟩⟩
  rw [hrep, hlead]
  by_cases hmin : i = firstOr S n
  · rw [if_pos hmin]
    have hmem : i ∈ S := by
      by_cases hne : S.Nonempty
      · rw [hmin]; exact firstOr_mem hne n
      · rw [Finset.not_nonempty_iff_eq_empty] at hne
        rw [hne, firstOr_empty] at hmin
        omega
    have hleast : ∀ j ∈ S, i ≤ j := fun j hj => by rw [hmin]; exact firstOr_le hj n
    by_cases hcard : (S.erase i).card = 0
    · rw [if_pos hcard]
      have hempty : S.erase i = ∅ := Finset.card_eq_zero.mp hcard
      rw [hempty, firstOr_empty]
      refine ⟨fun _ => ?_, fun _ => rfl⟩
      rintro ⟨-, -, -, -, -, m, hm, -⟩
      rw [hempty] at hm
      exact absurd hm (Finset.notMem_empty m)
    · rw [if_neg hcard]
      have hafter : (S.erase i).filter (i + 1 ≤ ·) = S.erase i := by
        apply Finset.filter_true_of_mem
        intro j hj
        have h1 := hleast j (Finset.mem_of_mem_erase hj)
        have h2 := Finset.ne_of_mem_erase hj
        omega
      have hi' : i < set'.size := by omega
      have hscan := firstBitFrom_iff_not_wordSkip hi'
      rw [firstBitFrom_iff_eq_firstOr hsize hlt hbits (by omega), hafter,
        wordSkip_iff_skipsMember hsize hlt hbits, hsize] at hscan
      rw [hscan]
      unfold ResetSkips
      tauto
  · rw [if_neg hmin]
    have hne : ¬ ResetSkips n S i := by
      rintro ⟨hmem, hleast, -⟩
      exact hmin (firstOr_eq_of_isLeast n hmem hleast).symm
    refine ⟨fun _ => hne, fun _ => ?_⟩
    symm
    by_cases hS : S.Nonempty
    · have hfirst := firstOr_mem hS n
      apply firstOr_eq_of_isLeast n (Finset.mem_erase.mpr ⟨fun heq => hmin heq.symm, hfirst⟩)
      intro j hj
      exact firstOr_le (Finset.mem_of_mem_erase hj) n
    · rw [Finset.not_nonempty_iff_eq_empty] at hS
      simp [hS, firstOr_empty]

theorem Represents.copy {destination : DragonBitSet} (h : Represents set n S)
    (hdest : destination.size = n) :
    ∃ set', dragonBitsetCopy destination set = .ok set' ∧ Represents set' n S := by
  unfold dragonBitsetCopy
  rw [if_neg (by rw [h.size_eq, hdest]; exact not_not.mpr rfl)]
  refine ⟨_, rfl, ⟨h.size_eq, h.lt_of_mem, ?_, h.length_eq, h.leading_eq⟩⟩
  intro i hi
  rw [← h.bit_iff i hi]
  unfold DragonBitSet.bit
  have hsz := h.size_eq
  simp only
  rw [if_pos (by unfold dragonBitsetSize; simp only; omega)]

/-! ## The queries -/

theorem Represents.get {i : ℕ} (h : Represents set n S) (hi : i < n) :
    dragonBitsetGet set i = .ok (decide (i ∈ S)) := by
  rw [dragonBitsetGet_of_lt (by rw [h.size_eq]; exact hi)]
  congr 1
  have := h.bit_iff i hi
  cases hb : set.bit i <;> simp_all

theorem Represents.first (h : Represents set n S) :
    dragonBitsetFirst set = iterationAnswer S n := by
  unfold dragonBitsetFirst iterationAnswer
  simp only [h.length_eq, Finset.card_eq_zero]
  split
  · rfl
  · rename_i hne
    have hmem := firstOr_mem (Finset.nonempty_iff_ne_empty.mpr hne) n
    have hlt := h.lt_of_mem _ hmem
    rw [h.leading_eq, h.size_eq, if_neg (by omega), h.get hlt]
    simp [hmem]

/-- **`dragon_bitset_next`** returns the least member after `i`, unless the scan
skips it. -/
theorem Represents.next_iff (h : Represents set n S) (i : ℕ) :
    dragonBitsetNext set i = iterationAnswer (membersAfter S i) n ↔
      ¬ SkipsMember n S i := by
  by_cases hi : i < n
  · have hi' : i < set.size := by
      rw [h.size_eq]
      exact hi
    have hscan := firstBitFrom_iff_not_wordSkip hi'
    rw [firstBitFrom_iff_eq_firstOr h.size_eq h.lt_of_mem h.bit_iff (by omega),
      wordSkip_iff_skipsMember h.size_eq h.lt_of_mem h.bit_iff, h.size_eq] at hscan
    rw [← hscan]
    have hafter : S.filter (i + 1 ≤ ·) = membersAfter S i := rfl
    rw [hafter]
    unfold dragonBitsetNext dragonBitsetZeroesToRight
    rw [h.size_eq, if_neg (by omega), if_neg (by omega)]
    simp only
    have hend : i + zeroesToRightLoop set n (i + 1) 0 + 1 = scanEnd set n (i + 1) := by
      unfold scanEnd
      omega
    rw [hend]
    unfold iterationAnswer
    by_cases hempty : membersAfter S i = ∅
    · rw [if_pos hempty, hempty, firstOr_empty]
      constructor
      · intro hans
        have hle : n ≤ scanEnd set n (i + 1) := by
          by_contra hlt
          rw [if_neg hlt] at hans
          cases hans
        -- the scan never leaves the set when nothing is left to find
        by_contra hne
        apply hne
        have hnoskip : ¬ SkipsMember n S i := by
          rintro ⟨-, -, -, m, hm, him, -⟩
          have : m ∈ membersAfter S i := Finset.mem_filter.mpr ⟨hm, him⟩
          rw [hempty] at this
          exact absurd this (Finset.notMem_empty m)
        have := hscan.mpr hnoskip
        rwa [hafter, hempty, firstOr_empty] at this
      · intro heq
        rw [heq, if_pos le_rfl]
    · rw [if_neg hempty]
      have hmem := firstOr_mem (Finset.nonempty_iff_ne_empty.mpr hempty) n
      have hlt := h.lt_of_mem _ (Finset.mem_filter.mp hmem).1
      constructor
      · intro hans
        split at hans
        · cases hans
        · exact Except.ok.inj hans
      · intro heq
        rw [heq, if_neg (by omega)]
  · have hempty : membersAfter S i = ∅ := by
      apply Finset.filter_false_of_mem
      intro j hj
      have := h.lt_of_mem j hj
      omega
    unfold dragonBitsetNext iterationAnswer
    rw [if_pos (by rw [h.size_eq]; omega), if_pos hempty]
    refine ⟨fun _ => ?_, fun _ => rfl⟩
    rintro ⟨-, -, -, m, hm, him, -⟩
    have := h.lt_of_mem m hm
    omega

/-! ## Sequences of calls -/

/-- The modifying calls on a family of bitsets with handles `ι`. -/
inductive BitsetOp (ι : Type) : Type where
  | set (b : ι) (valIndex : ℕ)
  | reset (b : ι) (valIndex : ℕ)
  | clear (b : ι)
  | copy (destination source : ι)

variable {ι : Type} [DecidableEq ι]

/-- One call on the bitsets.  A call that returns an error changes nothing. -/
def bitsetStep (store : ι → DragonBitSet) : BitsetOp ι → ι → DragonBitSet
  | .set b i => match dragonBitsetSet (store b) i with
    | .ok set => Function.update store b set
    | .error _ => store
  | .reset b i => match dragonBitsetReset (store b) i with
    | .ok set => Function.update store b set
    | .error _ => store
  | .clear b => Function.update store b (dragonBitsetClear (store b))
  | .copy d s => match dragonBitsetCopy (store d) (store s) with
    | .ok set => Function.update store d set
    | .error _ => store

/-- The same call on the sets: inserts and deletes of numbers below `num_bits`,
and copies between sets of the same `num_bits`. -/
def setStep (n : ι → ℕ) (S : ι → Finset ℕ) : BitsetOp ι → ι → Finset ℕ
  | .set b i => if i < n b then Function.update S b (insert i (S b)) else S
  | .reset b i => Function.update S b ((S b).erase i)
  | .clear b => Function.update S b ∅
  | .copy d s => if n s = n d then Function.update S d (S s) else S

/-- The call is not a reset that skips the new least member. -/
def ResetSafe (n : ι → ℕ) (S : ι → Finset ℕ) : BitsetOp ι → Prop
  | .reset b i => ¬ ResetSkips (n b) (S b) i
  | _ => True

instance (n : ι → ℕ) (S : ι → Finset ℕ) (op : BitsetOp ι) :
    Decidable (ResetSafe n S op) := by
  cases op <;> unfold ResetSafe <;> infer_instance

/-- Changing one handle on both sides leaves the others related. -/
theorem represents_update_iff {n : ι → ℕ} {store : ι → DragonBitSet} {S : ι → Finset ℕ}
    (h : ∀ b, Represents (store b) (n b) (S b)) (b : ι) (set : DragonBitSet)
    (T : Finset ℕ) :
    (∀ c, Represents (Function.update store b set c) (n c) (Function.update S b T c)) ↔
      Represents set (n b) T := by
  constructor
  · intro hall
    simpa using hall b
  · intro hset c
    by_cases hc : c = b
    · subst hc
      simpa using hset
    · simpa [hc] using h c

/-- **One call** keeps every bitset in step with its set if and only if it is not a
reset that skips the new least member. -/
theorem represents_step_iff (n : ι → ℕ) (S : ι → Finset ℕ) (store : ι → DragonBitSet)
    (op : BitsetOp ι) (h : ∀ b, Represents (store b) (n b) (S b)) :
    (∀ b, Represents (bitsetStep store op b) (n b) (setStep n S op b)) ↔
      ResetSafe n S op := by
  cases op with
  | set b i =>
    simp only [bitsetStep, setStep, ResetSafe, iff_true]
    by_cases hi : i < n b
    · obtain ⟨set', hset, hrep⟩ := (h b).insert hi
      rw [hset, if_pos hi]
      exact (represents_update_iff h b set' _).mpr hrep
    · have herr : dragonBitsetSet (store b) i = .error .bitsetBoundsError := by
        unfold dragonBitsetSet
        rw [if_pos (by rw [(h b).size_eq]; omega)]
      rw [herr, if_neg hi]
      exact h
  | reset b i =>
    simp only [bitsetStep, setStep, ResetSafe]
    by_cases hi : i < n b
    · obtain ⟨set', hreset, hiff⟩ := (h b).reset_iff hi
      rw [hreset, ← hiff]
      exact represents_update_iff h b set' _
    · have herr : dragonBitsetReset (store b) i = .error .bitsetBoundsError := by
        unfold dragonBitsetReset
        rw [if_pos (by rw [(h b).size_eq]; omega)]
      have hmem : i ∉ S b := fun hmem => hi ((h b).lt_of_mem i hmem)
      rw [herr, Finset.erase_eq_of_notMem hmem, Function.update_eq_self]
      exact ⟨fun _ hskip => hmem hskip.1, fun _ => h⟩
  | clear b =>
    simp only [bitsetStep, setStep, ResetSafe, iff_true]
    exact (represents_update_iff h b _ _).mpr (represents_clear (h b).size_eq)
  | copy d s =>
    simp only [bitsetStep, setStep, ResetSafe, iff_true]
    by_cases hn : n s = n d
    · have hsize : (store d).size = n s := by rw [(h d).size_eq, hn]
      obtain ⟨set', hcopy, hrep⟩ := (h s).copy hsize
      rw [hcopy, if_pos hn]
      exact (represents_update_iff h d set' _).mpr (hn ▸ hrep)
    · have herr : dragonBitsetCopy (store d) (store s) = .error .invalidArgument := by
        unfold dragonBitsetCopy
        rw [if_pos (by rw [(h s).size_eq, (h d).size_eq]; exact hn)]
      rw [herr, if_neg hn]
      exact h

/-- `dragon_bitset_get_num_bits`. -/
def dragonBitsetGetNumBits (set : DragonBitSet) : ℕ := set.size

/-- The answers of a bitset that stands for the set `S` of numbers below `n`. -/
structure BitsetAnswers (set : DragonBitSet) (n : ℕ) (S : Finset ℕ) : Prop where
  numBits : dragonBitsetGetNumBits set = n
  bounded : ∀ i ∈ S, i < n
  get : ∀ i < n, dragonBitsetGet set i = .ok (decide (i ∈ S))
  length : dragonBitsetLength set = S.card
  leading : set.leadingZeroes = firstOr S n
  first : dragonBitsetFirst set = iterationAnswer S n

theorem represents_iff_bitsetAnswers (set : DragonBitSet) (n : ℕ) (S : Finset ℕ) :
    Represents set n S ↔ BitsetAnswers set n S := by
  constructor
  · intro h
    exact ⟨h.size_eq, h.lt_of_mem, fun i hi => h.get hi, h.length_eq, h.leading_eq, h.first⟩
  · intro h
    refine ⟨h.numBits, h.bounded, ?_, h.length, h.leading⟩
    intro i hi
    have hsize : set.size = n := h.numBits
    have hget := h.get i hi
    rw [dragonBitsetGet_of_lt (by omega)] at hget
    rw [Except.ok.inj hget, decide_eq_true_iff]

/-- The state of the bitsets after a sequence of calls on initialised bitsets. -/
def bitsetRun (n : ι → ℕ) (mem : ι → ℕ → BitVec 8) (ops : List (BitsetOp ι)) :
    ι → DragonBitSet :=
  ops.foldl bitsetStep fun b => dragonBitsetInit (mem b) (n b)

/-- The sets after the same sequence. -/
def setRun (n : ι → ℕ) (ops : List (BitsetOp ι)) : ι → Finset ℕ :=
  ops.foldl (setStep n) fun _ => ∅

/-- Every reset of the sequence finds the new least member. -/
def ResetsSafe (n : ι → ℕ) (ops : List (BitsetOp ι)) : Prop :=
  Runs.Legal (setStep n) (ResetSafe n) (fun _ => ∅) ops

/-- **The bitset refines a finite set.**  Along every sequence of calls on
initialised bitsets, every bitset answers for the set of the same inserts and deletes
if and only if no reset of the sequence removes a least member whose successor the
scan skips; and then `dragon_bitset_next` is right at exactly the indices whose
successor is not skipped. -/
theorem dragonBitset_refines_finset (n : ι → ℕ) (mem : ι → ℕ → BitVec 8)
    (ops : List (BitsetOp ι)) :
    ((∀ pre, pre <+: ops →
        ∀ b, BitsetAnswers (bitsetRun n mem pre b) (n b) (setRun n pre b)) ↔
      ResetsSafe n ops) ∧
    (ResetsSafe n ops → ∀ b i,
      (dragonBitsetNext (bitsetRun n mem ops b) i
          = iterationAnswer (membersAfter (setRun n ops b) i) (n b) ↔
        ¬ SkipsMember (n b) (setRun n ops b) i)) := by
  have hinit : ∀ b, Represents (dragonBitsetInit (mem b) (n b)) (n b) ∅ :=
    fun b => represents_init (mem b) (n b)
  have hiff := Runs.forall_prefix_iff_legal
    (R := fun S store => ∀ b, Represents (store b) (n b) (S b))
    (fun S store op h => represents_step_iff n S store op h) hinit ops
  constructor
  · unfold ResetsSafe
    rw [← hiff]
    simp only [represents_iff_bitsetAnswers]
    rfl
  · intro hsafe b i
    exact (hiff.mpr hsafe ops (List.prefix_refl ops) b).next_iff i

/-- The refinement on a sequence with a reset of the least member in a word of its
own. -/
theorem dragonBitset_refines_finset_example :
    ResetsSafe (fun _ : Unit => 200) [.set () 7, .set () 130, .reset () 7] ∧
      BitsetAnswers (bitsetRun (fun _ => 200) (fun _ _ => 255)
        [.set () 7, .set () 130, .reset () 7] ()) 200 {130} := by
  have hsafe : ResetsSafe (fun _ : Unit => 200) [.set () 7, .set () 130, .reset () 7] := by
    refine ⟨trivial, trivial, ?_, trivial⟩
    decide
  refine ⟨hsafe, ?_⟩
  exact (dragonBitset_refines_finset (fun _ : Unit => 200) (fun _ _ => 255)
    [.set () 7, .set () 130, .reset () 7]).1.mpr hsafe _ (List.prefix_refl _) ()

/-- With 128 bits, resetting `0` in `{0, 64}` loses the member `64`: the scan strides
from index `1` to index `65`, and `dragon_bitset_first` reports an empty set. -/
theorem dragonBitset_first_loses_member :
    setRun (fun _ : Unit => 128) [.set () 0, .set () 64, .reset () 0] () = {64} ∧
      dragonBitsetFirst (bitsetRun (fun _ : Unit => 128) (fun _ _ => 0)
        [.set () 0, .set () 64, .reset () 0] ()) = .error .bitsetIterationComplete ∧
      ¬ BitsetAnswers (bitsetRun (fun _ : Unit => 128) (fun _ _ => 0)
        [.set () 0, .set () 64, .reset () 0] ()) 128 {64} := by
  have hfirst : dragonBitsetFirst (bitsetRun (fun _ : Unit => 128) (fun _ _ => 0)
      [.set () 0, .set () 64, .reset () 0] ()) = .error .bitsetIterationComplete := by
    decide +kernel
  refine ⟨by decide, hfirst, fun h => ?_⟩
  have hans := h.first
  rw [hfirst] at hans
  simp [iterationAnswer] at hans
