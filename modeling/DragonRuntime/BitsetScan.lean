/-
# The scan of the bitset

What `dragon_bitset_zeroes_to_right` computes.  The loop has three strides: a
word, a byte and a bit.  The byte stride is taken from byte boundaries only, but
the word stride is taken from every index whose *byte* starts a word, that is
from the indices `64 * q + r` with `r < 8`.  A word stride from such an index with
`r > 0` lands at the same offset `r` of the next word and passes over its first
`r` bits unread.
-/
import DragonRuntime.Bitset

namespace DragonBitSet

/-- `m` is the first set bit at or after `idx`, or the size when there is none. -/
def FirstBitFrom (set : DragonBitSet) (idx m : ℕ) : Prop :=
  idx ≤ m ∧ m ≤ set.size ∧ (∀ j, idx ≤ j → j < m → set.bit j = false) ∧
    (m < set.size → set.bit m = true)

/-- No stride of the loop that starts at `idx` passes over an unread bit: `idx` is
not in the first byte of a word behind its first bit, or no whole word is left, or
the word of `idx` is not zero. -/
def ScanSafe (set : DragonBitSet) (idx : ℕ) : Prop :=
  idx % 64 = 0 ∨ 8 ≤ idx % 64 ∨ set.size ≤ idx + 64 ∨
    ∃ j, j / 64 = idx / 64 ∧ set.bit j = true

/-- The next set bit after `i` is one of the bits that the word stride passes over
unread: the word of `i + 1` is zero, `i + 1` is in its first byte but not its first
bit, and the next set bit `m` has a smaller offset in its own word, which is not
the last one. -/
def WordSkip (set : DragonBitSet) (i : ℕ) : Prop :=
  0 < (i + 1) % 64 ∧ (i + 1) % 64 < 8 ∧
    (∀ j, j / 64 = (i + 1) / 64 → set.bit j = false) ∧
    ∃ m, set.FirstBitFrom (i + 1) m ∧ m < set.size ∧ m % 64 < (i + 1) % 64 ∧
      64 * (m / 64) + (i + 1) % 64 < set.size

end DragonBitSet

open DragonBitSet

variable {set : DragonBitSet}

theorem DragonBitSet.FirstBitFrom.unique {idx m m' : ℕ} (h : set.FirstBitFrom idx m)
    (h' : set.FirstBitFrom idx m') : m = m' := by
  obtain ⟨hle, hsize, hzero, hone⟩ := h
  obtain ⟨hle', hsize', hzero', hone'⟩ := h'
  rcases lt_trichotomy m m' with hlt | heq | hlt
  · have h1 := hzero' m hle hlt
    rw [hone (by omega)] at h1
    cases h1
  · exact heq
  · have h1 := hzero m' hle' hlt
    rw [hone' (by omega)] at h1
    cases h1

theorem DragonBitSet.FirstBitFrom.of_le {idx idx' m : ℕ} (h : set.FirstBitFrom idx' m)
    (hle : idx ≤ idx') (hzero : ∀ j, idx ≤ j → j < idx' → set.bit j = false) :
    set.FirstBitFrom idx m := by
  obtain ⟨hm, hsize, hz, hone⟩ := h
  refine ⟨by omega, hsize, ?_, hone⟩
  intro j hj hjm
  by_cases hj' : j < idx'
  · exact hzero j hj hj'
  · exact hz j (by omega) hjm

/-- There is a first set bit from every index that is at most the size. -/
theorem exists_firstBitFrom (set : DragonBitSet) {idx : ℕ} (h : idx ≤ set.size) :
    ∃ m, set.FirstBitFrom idx m := by
  induction hd : set.size - idx generalizing idx with
  | zero => exact ⟨idx, le_rfl, h, fun j hj hj' => by omega, fun hlt => by omega⟩
  | succ d ih =>
    cases hbit : set.bit idx with
    | true => exact ⟨idx, le_rfl, h, fun j hj hj' => by omega, fun _ => hbit⟩
    | false =>
      have hle : idx + 1 ≤ set.size := by omega
      obtain ⟨m, hm⟩ := ih hle (by omega)
      refine ⟨m, hm.of_le (by omega) ?_⟩
      intro j hj hj'
      rwa [show j = idx by omega]

/-! ## One stride -/

theorem wordIsZero_iff (set : DragonBitSet) {k : ℕ} (hk : k % 8 = 0) :
    wordIsZero set k = true ↔ ∀ j, j / 64 = k / 8 → set.bit j = false := by
  unfold wordIsZero
  simp only [List.all_eq_true, List.mem_range, beq_iff_eq, data_eq_zero_iff]
  constructor
  · intro h j hj
    exact h (j / 8 - k) (by omega) j (by omega)
  · intro h b hb j hj
    exact h j (by omega)

/-- The accumulator only adds up. -/
theorem zeroesToRightLoop_lval (set : DragonBitSet) (fuel idx lval : ℕ) :
    zeroesToRightLoop set fuel idx lval = lval + zeroesToRightLoop set fuel idx 0 := by
  induction fuel generalizing idx lval with
  | zero => simp [zeroesToRightLoop]
  | succ fuel ih =>
    simp only [zeroesToRightLoop]
    split
    · split
      · rw [ih (idx + 64) (lval + 64), ih (idx + 64) (0 + 64)]
        omega
      · split
        · rw [ih (idx + 8) (lval + 8), ih (idx + 8) (0 + 8)]
          omega
        · split
          · omega
          · rw [ih (idx + 1) (lval + 1), ih (idx + 1) (0 + 1)]
            omega
    · omega

/-- The index at which the loop stops. -/
def scanEnd (set : DragonBitSet) (fuel idx : ℕ) : ℕ :=
  idx + zeroesToRightLoop set fuel idx 0

theorem le_scanEnd (set : DragonBitSet) (fuel idx : ℕ) : idx ≤ scanEnd set fuel idx :=
  Nat.le_add_right _ _

/-- **What one round of the loop does.**  It stops outside the set or at a set bit,
or it passes a zero word, a zero byte or a zero bit. -/
theorem scanEnd_succ_cases (set : DragonBitSet) (fuel idx : ℕ) :
    (set.size ≤ idx ∧ scanEnd set (fuel + 1) idx = idx) ∨
    (idx + 64 < set.size ∧ idx % 64 < 8 ∧
      (∀ j, j / 64 = idx / 64 → set.bit j = false) ∧
      scanEnd set (fuel + 1) idx = scanEnd set fuel (idx + 64)) ∨
    (idx < set.size ∧ (idx + 64 < set.size → idx % 64 < 8 →
        ∃ j, j / 64 = idx / 64 ∧ set.bit j = true) ∧
      ((idx % 8 = 0 ∧ (∀ j, j / 8 = idx / 8 → set.bit j = false) ∧ idx + 8 < set.size ∧
          scanEnd set (fuel + 1) idx = scanEnd set fuel (idx + 8)) ∨
        (set.bit idx = true ∧ scanEnd set (fuel + 1) idx = idx) ∨
        (set.bit idx = false ∧
          scanEnd set (fuel + 1) idx = scanEnd set fuel (idx + 1)))) := by
  unfold scanEnd
  simp only [zeroesToRightLoop]
  by_cases hlt : idx < set.size
  · rw [if_pos hlt, dragonBitsetGet_of_lt hlt]
    right
    by_cases hword : idx + 64 < set.size ∧ idx / 8 % 8 = 0 ∧ wordIsZero set (idx / 8)
    · obtain ⟨h64, halign, hzero⟩ := hword
      left
      rw [if_pos ⟨h64, halign, hzero⟩, zeroesToRightLoop_lval]
      rw [wordIsZero_iff set halign] at hzero
      refine ⟨h64, by omega, fun j hj => hzero j (by omega), by omega⟩
    · right
      rw [if_neg hword]
      refine ⟨hlt, ?_, ?_⟩
      · intro h64 hoff
        by_contra hnone
        apply hword
        refine ⟨h64, by omega, ?_⟩
        rw [wordIsZero_iff set (by omega)]
        intro j hj
        by_contra hbit
        exact hnone ⟨j, by omega, by simpa using hbit⟩
      · by_cases hbyte : idx + 8 < set.size ∧ idx % 8 = 0 ∧ set.data (idx / 8) = 0
        · left
          rw [if_pos hbyte, zeroesToRightLoop_lval]
          exact ⟨hbyte.2.1, (data_eq_zero_iff set _).mp hbyte.2.2, hbyte.1, by omega⟩
        · right
          rw [if_neg hbyte]
          cases hbit : set.bit idx with
          | true => left; simp
          | false =>
            right
            simp only [Except.ok.injEq, Bool.false_eq_true, if_false, true_and]
            rw [zeroesToRightLoop_lval]
            omega
  · left
    rw [if_neg hlt]
    omega

/-! ## Scans that read every bit -/

/-- **The safe scan.**  From a safe index the loop stops at the first set bit. -/
theorem firstBitFrom_of_scanSafe {fuel idx : ℕ} (hsafe : set.ScanSafe idx)
    (hidx : idx ≤ set.size) (hfuel : set.size ≤ fuel + idx) :
    set.FirstBitFrom idx (scanEnd set fuel idx) := by
  induction fuel generalizing idx with
  | zero =>
    have hend : scanEnd set 0 idx = idx := by simp [scanEnd, zeroesToRightLoop]
    rw [hend]
    exact ⟨le_rfl, hidx, fun j hj hj' => by omega, fun hlt => by omega⟩
  | succ fuel ih =>
    rcases scanEnd_succ_cases set fuel idx with
      ⟨hout, hend⟩ | ⟨h64, hoff, hzero, hend⟩ | ⟨hlt, hword, hcase⟩
    · rw [hend]
      exact ⟨le_rfl, hidx, fun j hj hj' => by omega, fun hlt => by omega⟩
    · -- the word stride: a safe index with a zero word is the start of its word
      have hstart : idx % 64 = 0 := by
        rcases hsafe with h | h | h | ⟨j, hj, hbit⟩
        · exact h
        · omega
        · omega
        · rw [hzero j hj] at hbit
          cases hbit
      rw [hend]
      have hle : idx + 64 ≤ set.size := by omega
      refine (ih (Or.inl (by omega)) hle (by omega)).of_le (by omega) ?_
      intro j hj hj'
      exact hzero j (by omega)
    · rcases hcase with ⟨h8, hzero, hle, hend⟩ | ⟨hbit, hend⟩ | ⟨hbit, hend⟩
      · rw [hend]
        have hsafe' : set.ScanSafe (idx + 8) := by
          rcases (by omega : (idx + 8) % 64 = 0 ∨ 8 ≤ (idx + 8) % 64) with h | h
          · exact Or.inl h
          · exact Or.inr (Or.inl h)
        refine (ih hsafe' (by omega) (by omega)).of_le (by omega) ?_
        intro j hj hj'
        exact hzero j (by omega)
      · rw [hend]
        exact ⟨le_rfl, hidx, fun j hj hj' => by omega, fun _ => hbit⟩
      · rw [hend]
        have hsafe' : set.ScanSafe (idx + 1) := by
          by_cases hmod : (idx + 1) % 64 = 0 ∨ 8 ≤ (idx + 1) % 64
          · rcases hmod with h | h
            · exact Or.inl h
            · exact Or.inr (Or.inl h)
          · -- still inside the first byte of the word of `idx`
            right; right
            by_cases h64 : set.size ≤ idx + 1 + 64
            · exact Or.inl h64
            · obtain ⟨j, hj, hjbit⟩ := hword (by omega) (by omega)
              exact Or.inr ⟨j, by omega, hjbit⟩
        refine (ih hsafe' (by omega) (by omega)).of_le (by omega) ?_
        intro j hj hj'
        rwa [show j = idx by omega]

/-! ## Scans with an unread prefix -/

/-- A zero word with another word behind it, entered inside its first byte: the next
round is a word stride. -/
theorem scanEnd_of_not_scanSafe {fuel idx : ℕ} (hsafe : ¬ set.ScanSafe idx) :
    scanEnd set (fuel + 1) idx = scanEnd set fuel (idx + 64) := by
  unfold DragonBitSet.ScanSafe at hsafe
  push Not at hsafe
  obtain ⟨h0, h8, h64, hnone⟩ := hsafe
  rcases scanEnd_succ_cases set fuel idx with
    ⟨hout, _⟩ | ⟨_, _, _, hend⟩ | ⟨_, hword, _⟩
  · omega
  · exact hend
  · obtain ⟨j, hj, hbit⟩ := hword (by omega) (by omega)
    exact absurd hbit (hnone j hj)

/-- From an unsafe index the loop stops at the first set bit `m` if and only if `m`
does not lie at a smaller offset of a word that the word stride lands in. -/
theorem scanEnd_eq_iff {fuel idx m : ℕ} (hsafe : ¬ set.ScanSafe idx)
    (hm : set.FirstBitFrom idx m) (hfuel : set.size ≤ fuel + idx) :
    scanEnd set fuel idx = m ↔
      ¬ (m < set.size ∧ m % 64 < idx % 64 ∧ 64 * (m / 64) + idx % 64 < set.size) := by
  induction fuel generalizing idx with
  | zero =>
    exfalso
    apply hsafe
    exact Or.inr (Or.inr (Or.inl (by omega)))
  | succ fuel ih =>
    rw [scanEnd_of_not_scanSafe hsafe]
    have hsafe0 := hsafe
    unfold DragonBitSet.ScanSafe at hsafe
    push Not at hsafe
    obtain ⟨h0, h8, h64, hnone⟩ := hsafe
    have hzero : ∀ j, j / 64 = idx / 64 → set.bit j = false := by
      intro j hj
      simpa using hnone j hj
    obtain ⟨hle, hsize, hbefore, hone⟩ := hm
    have hword : m / 64 ≠ idx / 64 := by
      intro hmw
      have h1 := hzero m hmw
      rw [hone (by omega)] at h1
      cases h1
    by_cases hskip : m < idx + 64
    · -- the word stride passes `m`
      have hend := le_scanEnd set fuel (idx + 64)
      have hmsize : m < set.size := by omega
      constructor
      · intro heq
        omega
      · intro hno
        exact absurd ⟨hmsize, by omega, by omega⟩ hno
    · have hm' : set.FirstBitFrom (idx + 64) m :=
        ⟨by omega, hsize, fun j hj hj' => hbefore j (by omega) hj', hone⟩
      by_cases hsafe' : set.ScanSafe (idx + 64)
      · have hend := firstBitFrom_of_scanSafe hsafe' (by omega) (by omega : set.size ≤ fuel + (idx + 64))
        constructor
        · rintro - ⟨hmsize, hoff, hlast⟩
          rcases hsafe' with h | h | h | ⟨j, hj, hbit⟩
          · omega
          · omega
          · omega
          · -- the word that is not zero starts behind the stride, so it holds `m`
            have hjm : m ≤ j := by
              by_contra hlt
              have h1 : set.bit j = false := by
                by_cases hj64 : idx + 64 ≤ j
                · exact hbefore j (by omega) (by omega)
                · exact hbefore j (by omega) (by omega)
              rw [h1] at hbit
              cases hbit
            omega
        · intro _
          exact FirstBitFrom.unique hend hm'
      · rw [ih hsafe' hm' (by omega), show (idx + 64) % 64 = idx % 64 by omega]

/-- **The scan to the right of `i`** stops at the next set bit if and only if the
word stride does not skip it. -/
theorem firstBitFrom_iff_not_wordSkip {i : ℕ} (hi : i < set.size) :
    set.FirstBitFrom (i + 1) (scanEnd set set.size (i + 1)) ↔ ¬ set.WordSkip i := by
  obtain ⟨m, hm⟩ := exists_firstBitFrom set (show i + 1 ≤ set.size by omega)
  have hend : set.FirstBitFrom (i + 1) (scanEnd set set.size (i + 1)) ↔
      scanEnd set set.size (i + 1) = m :=
    ⟨fun h => FirstBitFrom.unique h hm, fun h => by rw [h]; exact hm⟩
  by_cases hsafe : set.ScanSafe (i + 1)
  · have hscan := firstBitFrom_of_scanSafe hsafe (by omega)
      (show set.size ≤ set.size + (i + 1) by omega)
    refine ⟨fun _ => ?_, fun _ => hscan⟩
    rintro ⟨h0, h8, hzero, m', hm', hsize, hoff, hlast⟩
    rcases hsafe with h | h | h | ⟨j, hj, hbit⟩
    · omega
    · omega
    · have hword : m' / 64 ≠ (i + 1) / 64 := by
        intro hmw
        have h1 := hzero m' hmw
        rw [hm'.2.2.2 hsize] at h1
        cases h1
      have := hm'.1
      omega
    · rw [hzero j hj] at hbit
      cases hbit
  · rw [hend, scanEnd_eq_iff hsafe hm (by omega)]
    unfold DragonBitSet.ScanSafe at hsafe
    push Not at hsafe
    obtain ⟨h0, h8, h64, hnone⟩ := hsafe
    constructor
    · rintro hno ⟨-, -, -, m', hm', hsize, hoff, hlast⟩
      rw [FirstBitFrom.unique hm' hm] at hsize hoff hlast
      exact hno ⟨hsize, hoff, hlast⟩
    · rintro hno ⟨hsize, hoff, hlast⟩
      exact hno ⟨by omega, by omega, fun j hj => by simpa using hnone j hj,
        m, hm, hsize, hoff, hlast⟩
