/-
# Dyadic blocks and their tilings

General mathematics of buddy systems, over an interval of `2^(n-1)` unit segments.
A *block* is a pair `(k, b)` of a level and an index; it consists of the segments
`s` with `s / 2^k = b`.  A set of blocks is given by its indicator `F k b`, a list of
further blocks by a list of pairs.
-/
import Mathlib

namespace Buddy

/-! ## Blocks -/

/-- The other half of the parent of block `b`. -/
def sibling (b : ℕ) : ℕ := if b % 2 = 0 then b + 1 else b - 1

/-- The block lies inside the `2^(n-1)` segments. -/
def InRange (n : ℕ) (block : ℕ × ℕ) : Prop :=
  block.1 < n ∧ block.2 < 2 ^ (n - 1 - block.1)

/-- Replace one entry of an indicator. -/
def setBlock (F : ℕ → ℕ → Bool) (k b : ℕ) (v : Bool) : ℕ → ℕ → Bool :=
  fun k' b' => if k' = k ∧ b' = b then v else F k' b'

@[simp] theorem setBlock_same (F : ℕ → ℕ → Bool) (k b : ℕ) (v : Bool) :
    setBlock F k b v k b = v := by simp [setBlock]

variable {b k c j n s : ℕ} {L' : List (ℕ × ℕ)} {pre : ℕ → Bool}

theorem setBlock_ne {F : ℕ → ℕ → Bool} {k' b' : ℕ} {v : Bool} (h : ¬ (k' = k ∧ b' = b)) :
    setBlock F k b v k' b' = F k' b' := by
  simp only [setBlock, if_neg h]

theorem sibling_div_two (b : ℕ) : sibling b / 2 = b / 2 := by
  unfold sibling
  split <;> omega

theorem sibling_ne (b : ℕ) : sibling b ≠ b := by
  unfold sibling
  split <;> omega

theorem sibling_sibling (b : ℕ) : sibling (sibling b) = b := by
  unfold sibling
  split <;> split <;> omega

theorem eq_or_eq_sibling_of_div_two (h : c / 2 = b / 2) : c = b ∨ c = sibling b := by
  unfold sibling
  split <;> omega

theorem div_pow_succ (s k : ℕ) : s / 2 ^ (k + 1) = s / 2 ^ k / 2 := by
  rw [pow_succ, Nat.div_div_eq_div_mul]

/-- Segments of a block of a lower level lie in one block of each higher level. -/
theorem div_pow_of_le (s : ℕ) (h : j ≤ k) : s / 2 ^ k = s / 2 ^ j / 2 ^ (k - j) := by
  rw [Nat.div_div_eq_div_mul, ← pow_add, Nat.add_sub_cancel' h]

theorem mul_pow_div_pow (b k : ℕ) : b * 2 ^ k / 2 ^ k = b :=
  Nat.mul_div_cancel b (Nat.two_pow_pos k)

/-- The segments of a block in range are segments of the interval. -/
theorem lt_of_div_eq {block : ℕ × ℕ} (h : InRange n block) (hs : s / 2 ^ block.1 = block.2) :
    s < 2 ^ (n - 1) := by
  obtain ⟨hk, hb⟩ := h
  have hpow : 2 ^ (n - 1) = 2 ^ (n - 1 - block.1) * 2 ^ block.1 := by
    rw [← pow_add]
    congr 1
    omega
  rw [hpow]
  rw [← hs] at hb
  exact (Nat.div_lt_iff_lt_mul (Nat.two_pow_pos _)).mp hb

theorem inRange_of_lt (hs : s < 2 ^ (n - 1)) (hk : k < n) : InRange n (k, s / 2 ^ k) := by
  refine ⟨hk, ?_⟩
  have hpow : 2 ^ (n - 1) = 2 ^ (n - 1 - k) * 2 ^ k := by
    rw [← pow_add]
    congr 1
    omega
  rw [hpow] at hs
  exact (Nat.div_lt_iff_lt_mul (Nat.two_pow_pos _)).mpr hs

/-- Two blocks in range that share a segment and a level are the same; the parent of
a block in range is in range. -/
theorem InRange.parent (h : InRange n (k, b)) (hk : k + 1 < n) : InRange n (k + 1, b / 2) := by
  refine ⟨hk, ?_⟩
  have hb : b < 2 ^ (n - 1 - k) := h.2
  have hpow : 2 ^ (n - 1 - k) = 2 ^ (n - 1 - (k + 1)) * 2 := by
    rw [← pow_succ]
    congr 1
    omega
  show b / 2 < 2 ^ (n - 1 - (k + 1))
  omega

theorem InRange.half (h : InRange n (k + 1, b)) (hc : c / 2 = b) : InRange n (k, c) := by
  obtain ⟨hk, hb⟩ := h
  simp only at hk hb
  refine ⟨by simp only; omega, ?_⟩
  have hpow : 2 ^ (n - 1 - k) = 2 ^ (n - 1 - (k + 1)) * 2 := by
    rw [← pow_succ]
    congr 1
    omega
  show c < 2 ^ (n - 1 - k)
  omega

theorem InRange.sibling (h : InRange n (k, b)) (hk : k + 1 < n) : InRange n (k, sibling b) :=
  (h.parent hk).half (sibling_div_two b)

/-! ## Tilings -/

/-- The number of blocks of `F` of the levels below `n` that contain segment `s`. -/
def cover (F : ℕ → ℕ → Bool) (n s : ℕ) : ℕ :=
  ((Finset.range n).filter fun k => F k (s / 2 ^ k) = true).card

/-- The number of blocks of the list that contain segment `s`. -/
def held (L : List (ℕ × ℕ)) (s : ℕ) : ℕ :=
  L.countP fun block => s / 2 ^ block.1 = block.2

/-- Every segment lies in exactly one block of `F` or of `L`. -/
def Tiling (F : ℕ → ℕ → Bool) (n : ℕ) (L : List (ℕ × ℕ)) : Prop :=
  ∀ s < 2 ^ (n - 1), cover F n s + held L s = 1

variable {F G : ℕ → ℕ → Bool} {n k b : ℕ} {L : List (ℕ × ℕ)}

theorem held_cons (block : ℕ × ℕ) (L : List (ℕ × ℕ)) (s : ℕ) :
    held (block :: L) s = held L s + if s / 2 ^ block.1 = block.2 then 1 else 0 := by
  unfold held
  rw [List.countP_cons]
  simp

theorem cover_pos_iff (s : ℕ) : 0 < cover F n s ↔ ∃ k < n, F k (s / 2 ^ k) = true := by
  unfold cover
  rw [Finset.card_pos]
  constructor
  · rintro ⟨k, hk⟩
    rw [Finset.mem_filter, Finset.mem_range] at hk
    exact ⟨k, hk.1, hk.2⟩
  · rintro ⟨k, hk, hF⟩
    exact ⟨k, Finset.mem_filter.mpr ⟨Finset.mem_range.mpr hk, hF⟩⟩

theorem held_pos_iff (s : ℕ) : 0 < held L s ↔ ∃ block ∈ L, s / 2 ^ block.1 = block.2 := by
  unfold held
  rw [List.countP_pos_iff]
  simp

theorem cover_setBlock_true (hF : F k b = false) (hk : k < n) (s : ℕ) :
    cover (setBlock F k b true) n s
      = cover F n s + if s / 2 ^ k = b then 1 else 0 := by
  unfold cover
  by_cases hs : s / 2 ^ k = b
  · have hset : ((Finset.range n).filter fun j => setBlock F k b true j (s / 2 ^ j) = true)
        = insert k ((Finset.range n).filter fun j => F j (s / 2 ^ j) = true) := by
      ext j
      simp only [Finset.mem_filter, Finset.mem_insert, Finset.mem_range]
      by_cases hj : j = k
      · subst hj
        simp [hs, hk]
      · rw [setBlock_ne (fun h => hj h.1)]
        simp [hj]
    have hnot : k ∉ (Finset.range n).filter fun j => F j (s / 2 ^ j) = true := by
      simp [hs, hF]
    rw [hset, Finset.card_insert_of_notMem hnot, if_pos hs]
  · rw [if_neg hs, Nat.add_zero]
    congr 1
    ext j
    simp only [Finset.mem_filter]
    by_cases hj : j = k
    · subst hj
      rw [setBlock_ne (fun h => hs h.2)]
    · rw [setBlock_ne (fun h => hj h.1)]

theorem cover_setBlock_false (hF : F k b = true) (hk : k < n) (s : ℕ) :
    cover (setBlock F k b false) n s + (if s / 2 ^ k = b then 1 else 0) = cover F n s := by
  have h := cover_setBlock_true (F := setBlock F k b false) (n := n) (k := k) (b := b)
    (by simp) hk s
  rw [← h]
  congr 1
  funext j c
  by_cases hjc : j = k ∧ c = b
  · obtain ⟨rfl, rfl⟩ := hjc
    simp [hF]
  · rw [setBlock_ne hjc, setBlock_ne hjc]

/-- A segment of a held block is in no block of `F`. -/
theorem Tiling.eq_false_of_held (h : Tiling F n L) (hs : s < 2 ^ (n - 1)) (hheld : 0 < held L s)
    (hj : j < n) : F j (s / 2 ^ j) = false := by
  by_contra hne
  have hcover : 0 < cover F n s := (cover_pos_iff s).mpr ⟨j, hj, by simpa using hne⟩
  have := h s hs
  omega

/-- **Take** a block out of `F`. -/
theorem Tiling.take (h : Tiling F n L) (hF : F k b = true) (hk : k < n) :
    Tiling (setBlock F k b false) n ((k, b) :: L) := by
  intro s hs
  have h1 := h s hs
  have h2 := cover_setBlock_false hF hk s
  rw [held_cons]
  simp only
  omega

/-- The held block at the head of the list is not in `F`. -/
theorem Tiling.head_eq_false (h : Tiling F n ((k, b) :: L)) (hr : InRange n (k, b)) :
    F k b = false := by
  have hs : b * 2 ^ k < 2 ^ (n - 1) := lt_of_div_eq hr (mul_pow_div_pow b k)
  have hpos : 0 < held ((k, b) :: L) (b * 2 ^ k) :=
    (held_pos_iff _).mpr ⟨(k, b), List.mem_cons_self, mul_pow_div_pow b k⟩
  have := h.eq_false_of_held hs hpos hr.1
  rwa [mul_pow_div_pow] at this

/-- **Put** the held block back into `F`. -/
theorem Tiling.put (h : Tiling F n ((k, b) :: L)) (hr : InRange n (k, b)) :
    Tiling (setBlock F k b true) n L := by
  intro s hs
  have h1 := h s hs
  have h2 := cover_setBlock_true (h.head_eq_false hr) hr.1 s
  rw [held_cons] at h1
  simp only at h1
  omega

/-- The halves of a block share its segments. -/
theorem half_count (s k b : ℕ) :
    (if s / 2 ^ (k + 1) = b / 2 then 1 else 0)
      = (if s / 2 ^ k = b then 1 else 0) + if s / 2 ^ k = sibling b then 1 else 0 := by
  rw [div_pow_succ]
  have hne := sibling_ne b
  by_cases h : s / 2 ^ k / 2 = b / 2
  · rw [if_pos h]
    rcases eq_or_eq_sibling_of_div_two h with hb | hb
    · rw [if_pos hb, if_neg (by omega)]
    · rw [if_pos hb, if_neg (by omega)]
  · rw [if_neg h, if_neg, if_neg]
    · intro hb
      exact h (by rw [hb, sibling_div_two])
    · intro hb
      exact h (by rw [hb])

/-- **Halve** the held block: keep one half and put the other into `F`. -/
theorem Tiling.halve (h : Tiling F n ((k + 1, b / 2) :: L)) (hr : InRange n (k + 1, b / 2)) :
    F k (sibling b) = false ∧ Tiling (setBlock F k (sibling b) true) n ((k, b) :: L) := by
  have hother : InRange n (k, sibling b) := hr.half (sibling_div_two b)
  have hs : sibling b * 2 ^ k < 2 ^ (n - 1) := lt_of_div_eq hother (mul_pow_div_pow _ k)
  have hpos : 0 < held ((k + 1, b / 2) :: L) (sibling b * 2 ^ k) := by
    refine (held_pos_iff _).mpr ⟨(k + 1, b / 2), List.mem_cons_self, ?_⟩
    rw [div_pow_succ, mul_pow_div_pow, sibling_div_two]
  have hfalse : F k (sibling b) = false := by
    have := h.eq_false_of_held hs hpos hother.1
    rwa [mul_pow_div_pow] at this
  refine ⟨hfalse, ?_⟩
  intro s hlt
  have h1 := h s hlt
  have h2 := cover_setBlock_true hfalse hother.1 s
  have h3 := half_count s k b
  rw [held_cons] at h1 ⊢
  simp only at h1 h2 ⊢
  omega

/-- **Join** the held block with its sibling in `F`. -/
theorem Tiling.join (h : Tiling F n ((k, b) :: L)) (hF : F k (sibling b) = true)
    (hk : k < n) : Tiling (setBlock F k (sibling b) false) n ((k + 1, b / 2) :: L) := by
  intro s hlt
  have h1 := h s hlt
  have h2 := cover_setBlock_false hF hk s
  have h3 := half_count s k b
  rw [held_cons] at h1 ⊢
  simp only at h1 h2 ⊢
  omega

/-! ## What a tiling says -/

/-- Two blocks of `F` that share a segment are of the same level. -/
theorem Tiling.level_unique (h : Tiling F n L) (hs : s < 2 ^ (n - 1)) (hj : j < n) (hk : k < n)
    (hFj : F j (s / 2 ^ j) = true) (hFk : F k (s / 2 ^ k) = true) : j = k := by
  have hcard : cover F n s ≤ 1 := by have := h s hs; omega
  unfold cover at hcard
  exact Finset.card_le_one.mp hcard j (Finset.mem_filter.mpr ⟨Finset.mem_range.mpr hj, hFj⟩)
    k (Finset.mem_filter.mpr ⟨Finset.mem_range.mpr hk, hFk⟩)

/-- Two occurrences in the list do not share a segment. -/
theorem Tiling.pairwise (h : Tiling F n L) (hL : ∀ block ∈ L, InRange n block) :
    L.Pairwise fun x y => ∀ s, ¬ (s / 2 ^ x.1 = x.2 ∧ s / 2 ^ y.1 = y.2) := by
  have key : ∀ M : List (ℕ × ℕ), (∀ block ∈ M, InRange n block) →
      (∀ s < 2 ^ (n - 1), held M s ≤ 1) →
      M.Pairwise fun x y => ∀ s, ¬ (s / 2 ^ x.1 = x.2 ∧ s / 2 ^ y.1 = y.2) := by
    intro M
    induction M with
    | nil => intro _ _; exact List.Pairwise.nil
    | cons x M ih =>
      intro hM hone
      refine List.Pairwise.cons ?_ (ih (fun y hy => hM y (List.mem_cons_of_mem x hy)) ?_)
      · rintro y hy s ⟨hx, hys⟩
        have hs := lt_of_div_eq (hM x List.mem_cons_self) hx
        have h1 := hone s hs
        have h2 : 0 < held M s := (held_pos_iff s).mpr ⟨y, hy, hys⟩
        rw [held_cons, if_pos hx] at h1
        omega
      · intro s hs
        have h1 := hone s hs
        rw [held_cons] at h1
        omega
  exact key L hL fun s hs => by have := h s hs; omega

/-- A block of `F` and a block of the list do not share a segment. -/
theorem Tiling.disjoint (h : Tiling F n L) (hk : InRange n (k, b)) (hF : F k b = true)
    {block : ℕ × ℕ} (hmem : block ∈ L) (s : ℕ) (hs : s / 2 ^ k = b) :
    s / 2 ^ block.1 ≠ block.2 := by
  intro hblock
  have hlt : s < 2 ^ (n - 1) := lt_of_div_eq hk hs
  have := h.eq_false_of_held hlt ((held_pos_iff s).mpr ⟨block, hmem, hblock⟩) hk.1
  rw [hs, hF] at this
  cases this

/-- Every segment is in a block of `F` or of the list. -/
theorem Tiling.exists_block (h : Tiling F n L) (hs : s < 2 ^ (n - 1)) :
    (∃ k < n, F k (s / 2 ^ k) = true) ∨ ∃ block ∈ L, s / 2 ^ block.1 = block.2 := by
  rw [← cover_pos_iff, ← held_pos_iff]
  have := h s hs
  omega

theorem Tiling.perm (h : Tiling F n L) (hp : L.Perm L') : Tiling F n L' := by
  intro s hs
  have := h s hs
  unfold held at this ⊢
  rw [← hp.countP_eq]
  exact this

/-! ## Siblings -/

/-- **Covered blocks contain siblings.**  If every segment of a block lies in a block
of `F` of at most its level, then the block is in `F`, or two siblings inside it are. -/
theorem exists_pair_of_covered
    (hcov : ∀ s, s / 2 ^ k = b → ∃ j ≤ k, F j (s / 2 ^ j) = true) :
    F k b = true ∨ ∃ j c, j < k ∧ F j (2 * c) = true ∧ F j (2 * c + 1) = true ∧
      2 * c * 2 ^ j / 2 ^ k = b ∧ (2 * c + 1) * 2 ^ j / 2 ^ k = b := by
  induction k generalizing b with
  | zero =>
    obtain ⟨j, hj, hF⟩ := hcov b (by simp)
    rw [Nat.le_zero.mp hj] at hF
    left
    simpa using hF
  | succ k ih =>
    by_cases htop : F (k + 1) b = true
    · exact Or.inl htop
    · right
      -- each half is covered by blocks of level at most `k`
      have hhalf : ∀ c, c / 2 = b → ∀ s, s / 2 ^ k = c → ∃ j ≤ k, F j (s / 2 ^ j) = true := by
        intro c hc s hs
        have hsb : s / 2 ^ (k + 1) = b := by rw [div_pow_succ, hs, hc]
        obtain ⟨j, hj, hF⟩ := hcov s hsb
        refine ⟨j, ?_, hF⟩
        by_contra hlt
        have hjk : j = k + 1 := by omega
        rw [hjk, hsb] at hF
        exact htop hF
      have hinside : ∀ c j d, j < k → 2 * d * 2 ^ j / 2 ^ k = c →
          (2 * d + 1) * 2 ^ j / 2 ^ k = c → c / 2 = b →
          F j (2 * d) = true → F j (2 * d + 1) = true →
          ∃ j c, j < k + 1 ∧ F j (2 * c) = true ∧ F j (2 * c + 1) = true ∧
            2 * c * 2 ^ j / 2 ^ (k + 1) = b ∧ (2 * c + 1) * 2 ^ j / 2 ^ (k + 1) = b := by
        intro c j d hj h0 h1 hc hF0 hF1
        exact ⟨j, d, by omega, hF0, hF1, by rw [div_pow_succ, h0, hc],
          by rw [div_pow_succ, h1, hc]⟩
      rcases ih (hhalf (2 * b) (by omega)) with hl | ⟨j, d, hj, hF0, hF1, h0, h1⟩
      · rcases ih (hhalf (2 * b + 1) (by omega)) with hr | ⟨j, d, hj, hF0, hF1, h0, h1⟩
        · refine ⟨k, b, by omega, hl, hr, ?_, ?_⟩
          · rw [div_pow_succ, mul_pow_div_pow]
            omega
          · rw [div_pow_succ, mul_pow_div_pow]
            omega
        · exact hinside _ j d hj h0 h1 (by omega) hF0 hF1
      · exact hinside _ j d hj h0 h1 (by omega) hF0 hF1

/-- No two siblings below the top level are both in `F`, unless one of them starts
with a segment marked by `pre`. -/
def NoPair (F : ℕ → ℕ → Bool) (n : ℕ) (pre : ℕ → Bool) : Prop :=
  ∀ k b, InRange n (k, b) → k + 1 < n → F k b = true → F k (sibling b) = true →
    pre (b * 2 ^ k) = true ∨ pre (sibling b * 2 ^ k) = true

/-- **Room is a free block.**  A block that the list leaves alone and that no mark lies in gives a
block of `F` of at least its level. -/
theorem Tiling.exists_level_ge (h : Tiling F n L) (hpair : NoPair F n pre) (hr : InRange n (k, b))
    (hroom : ∀ s, s / 2 ^ k = b → held L s = 0 ∧ pre s = false) :
    ∃ j c, k ≤ j ∧ InRange n (j, c) ∧ F j c = true := by
  by_contra hnone
  have hcov : ∀ s, s / 2 ^ k = b → ∃ j ≤ k, F j (s / 2 ^ j) = true := by
    intro s hs
    have hlt := lt_of_div_eq hr hs
    have hone := h s hlt
    rw [(hroom s hs).1] at hone
    obtain ⟨j, hj, hF⟩ := (cover_pos_iff s).mp (by omega : 0 < cover F n s)
    refine ⟨j, ?_, hF⟩
    by_contra hjk
    exact hnone ⟨j, _, by omega, inRange_of_lt hlt hj, hF⟩
  rcases exists_pair_of_covered hcov with htop | ⟨j, c, hj, h0, h1, hs0, hs1⟩
  · exact hnone ⟨k, b, le_rfl, hr, htop⟩
  · have hk : k < n := hr.1
    have hr0 := inRange_of_lt (lt_of_div_eq hr hs0) (hj.trans hk)
    rw [mul_pow_div_pow] at hr0
    have hsib : sibling (2 * c) = 2 * c + 1 := if_pos (by omega)
    -- the two siblings lie in the block, where no mark is
    rcases hpair j (2 * c) hr0 (by omega) h0 (by rwa [hsib]) with hp | hp
    · rw [(hroom _ hs0).2] at hp
      cases hp
    · rw [hsib, (hroom _ hs1).2] at hp
      cases hp

/-- A block of `F` that a larger block of `G` contains is impossible when the free
block over every marked segment is the same in both. -/
theorem not_inside (hF : Tiling F n L) (hG : Tiling G n L')
    (hheld : ∀ s < 2 ^ (n - 1), held L s = held L' s) (hpair : NoPair F n pre)
    (hpre : ∀ s < 2 ^ (n - 1), pre s = true → ∀ j < n, F j (s / 2 ^ j) = true →
      G j (s / 2 ^ j) = true) (hjr : InRange n (j, c)) (hGj : G j c = true) (hs : s / 2 ^ j = c)
    (hk : k < j) (hFk : F k (s / 2 ^ k) = true) : False := by
  have hjn : j < n := hjr.1
  have hlt : ∀ t, t / 2 ^ j = c → t < 2 ^ (n - 1) := fun t ht => lt_of_div_eq hjr ht
  -- no segment of the block of `G` is held
  have hnoheld : ∀ t, t / 2 ^ j = c → held L t = 0 := by
    intro t ht
    rw [hheld t (hlt t ht)]
    by_contra hne
    have := hG.eq_false_of_held (hlt t ht) (by omega) hjn
    rw [ht, hGj] at this
    cases this
  -- a block of `F` over such a segment cannot be larger, it would contain `s`
  have hcov : ∀ t, t / 2 ^ j = c → ∃ i ≤ j, F i (t / 2 ^ i) = true := by
    intro t ht
    have hpos : 0 < cover F n t := by
      have h1 := hF t (hlt t ht)
      have h2 := hnoheld t ht
      omega
    obtain ⟨i, hi, hFi⟩ := (cover_pos_iff t).mp hpos
    refine ⟨i, ?_, hFi⟩
    by_contra hij
    have hsame : t / 2 ^ i = s / 2 ^ i := by
      rw [div_pow_of_le t (by omega : j ≤ i), div_pow_of_le s (by omega : j ≤ i), ht, hs]
    rw [hsame] at hFi
    have := hF.level_unique (hlt s hs) hi (by omega) hFi hFk
    omega
  rcases exists_pair_of_covered hcov with htop | ⟨i, d, hij, hF0, hF1, h0, h1⟩
  · have := hF.level_unique (hlt s hs) hjn (by omega) (by rw [hs]; exact htop) hFk
    omega
  · have hs0 := hlt _ h0
    have hs1 := hlt _ h1
    have hr0 : InRange n (i, 2 * d) := by
      have := inRange_of_lt hs0 (by omega : i < n)
      rwa [mul_pow_div_pow] at this
    have hsib : sibling (2 * d) = 2 * d + 1 := by unfold sibling; rw [if_pos (by omega)]
    have hmark := hpair i (2 * d) hr0 (by omega) hF0 (by rw [hsib]; exact hF1)
    rw [hsib] at hmark
    -- over the marked segment both have the same block, but `G` has the larger one
    have hcontra : ∀ t, t / 2 ^ j = c → pre t = true → F i (t / 2 ^ i) = true → False := by
      intro t ht hp hFi
      have hGi := hpre t (hlt t ht) hp i (by omega) hFi
      have := hG.level_unique (hlt t ht) (by omega) hjn hGi (by rw [ht]; exact hGj)
      omega
    rcases hmark with hp | hp
    · exact hcontra _ h0 hp (by rw [mul_pow_div_pow]; exact hF0)
    · exact hcontra _ h1 hp (by rw [mul_pow_div_pow]; exact hF1)

/-- One half of the uniqueness of the free blocks. -/
theorem le_of_tiling (hF : Tiling F n L) (hG : Tiling G n L')
    (hheld : ∀ s < 2 ^ (n - 1), held L s = held L' s) (hpairF : NoPair F n pre)
    (hpairG : NoPair G n pre)
    (hpreFG : ∀ s < 2 ^ (n - 1), pre s = true → ∀ j < n, F j (s / 2 ^ j) = true →
      G j (s / 2 ^ j) = true)
    (hpreGF : ∀ s < 2 ^ (n - 1), pre s = true → ∀ j < n, G j (s / 2 ^ j) = true →
      F j (s / 2 ^ j) = true) (hr : InRange n (k, b)) (hFk : F k b = true) : G k b = true := by
  have hs : b * 2 ^ k / 2 ^ k = b := mul_pow_div_pow b k
  have hlt : b * 2 ^ k < 2 ^ (n - 1) := lt_of_div_eq hr hs
  have hnoheld : held L (b * 2 ^ k) = 0 := by
    by_contra hne
    have := hF.eq_false_of_held hlt (by omega) hr.1
    rw [hs, hFk] at this
    cases this
  have hpos : 0 < cover G n (b * 2 ^ k) := by
    have h1 := hG _ hlt
    have h2 := hheld _ hlt
    omega
  obtain ⟨j, hj, hGj⟩ := (cover_pos_iff _).mp hpos
  rcases lt_trichotomy j k with hjk | hjk | hjk
  · exact (not_inside hG hF (fun s hs => (hheld s hs).symm) hpairG hpreGF hr hFk hs hjk
      hGj).elim
  · subst hjk
    rwa [hs] at hGj
  · exact (not_inside hF hG hheld hpairF hpreFG (inRange_of_lt hlt hj) hGj rfl hjk
      (by rw [hs]; exact hFk)).elim

/-- **Uniqueness of the free blocks.**  Two tilings that hold the same segments, have
no unmarked free sibling pairs and agree over the marked segments have the same free
blocks. -/
theorem eq_of_tiling (hF : Tiling F n L) (hG : Tiling G n L')
    (hheld : ∀ s < 2 ^ (n - 1), held L s = held L' s) (hpairF : NoPair F n pre)
    (hpairG : NoPair G n pre) (hpre : ∀ s < 2 ^ (n - 1), pre s = true → ∀ j < n,
      (F j (s / 2 ^ j) = true ↔ G j (s / 2 ^ j) = true)) (hr : InRange n (k, b)) :
    F k b = G k b := by
  have hFG : ∀ s < 2 ^ (n - 1), pre s = true → ∀ j < n, F j (s / 2 ^ j) = true →
      G j (s / 2 ^ j) = true := fun s hs hp j hj => (hpre s hs hp j hj).mp
  have hGF : ∀ s < 2 ^ (n - 1), pre s = true → ∀ j < n, G j (s / 2 ^ j) = true →
      F j (s / 2 ^ j) = true := fun s hs hp j hj => (hpre s hs hp j hj).mpr
  have h1 := le_of_tiling hF hG hheld hpairF hpairG hFG hGF hr
  have h2 := le_of_tiling hG hF (fun s hs => (hheld s hs).symm) hpairG hpairF hGF hFG hr
  exact Bool.eq_iff_iff.mpr ⟨h1, h2⟩

end Buddy
