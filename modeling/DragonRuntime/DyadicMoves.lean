/-
# Whole moves of a buddy system

The elementary moves of a tiling put together into the two moves of a buddy system:

* `splitMap F p k b` : block `(k, b)` is taken out of `F` and halved down to level `p`,
  keeping the lower half each time;
* `joinMap F p q b` : block `(p, b)` is joined with its siblings up to level `q`, and the
  result is put into `F`.
-/
import DragonRuntime.DyadicBlocks

namespace Buddy

/-! ## Splitting down -/

/-- The indicator after block `(k, b)` has been taken and halved down to level `p`. -/
def splitMap (F : ℕ → ℕ → Bool) (p k b : ℕ) : ℕ → ℕ → Bool :=
  fun j c =>
    if p ≤ j ∧ j < k ∧ c = b * 2 ^ (k - j) + 1 then true
    else if j = k ∧ c = b then false
    else F j c

variable {F : ℕ → ℕ → Bool} {n p q k b : ℕ} {L : List (ℕ × ℕ)} {pre : ℕ → Bool}

theorem sibling_of_even {c : ℕ} (h : c % 2 = 0) : sibling c = c + 1 := by
  unfold sibling
  rw [if_pos h]

theorem mul_pow_even {j : ℕ} (h : j < k) : b * 2 ^ (k - j) % 2 = 0 := by
  obtain ⟨d, hd⟩ : ∃ d, k - j = d + 1 := ⟨k - j - 1, by omega⟩
  rw [hd, pow_succ, ← mul_assoc]
  exact Nat.mul_mod_left _ 2

theorem mul_pow_half {j : ℕ} (h : j < k) :
    b * 2 ^ (k - j) / 2 = b * 2 ^ (k - (j + 1)) := by
  obtain ⟨d, hd⟩ : ∃ d, k - j = d + 1 := ⟨k - j - 1, by omega⟩
  have hd' : k - (j + 1) = d := by omega
  rw [hd, hd', pow_succ, ← mul_assoc]
  exact Nat.mul_div_cancel _ (by omega)

theorem splitMap_self : splitMap F k k b = setBlock F k b false := by
  funext j c
  unfold splitMap setBlock
  rw [if_neg (by omega)]

theorem splitMap_succ (h : p < k) :
    splitMap F p k b
      = setBlock (splitMap F (p + 1) k b) p (sibling (b * 2 ^ (k - p))) true := by
  rw [sibling_of_even (mul_pow_even h)]
  funext j c
  by_cases hj : j = p ∧ c = b * 2 ^ (k - p) + 1
  · obtain ⟨rfl, rfl⟩ := hj
    rw [setBlock_same]
    unfold splitMap
    rw [if_pos ⟨le_rfl, h, rfl⟩]
  · rw [setBlock_ne hj]
    unfold splitMap
    by_cases hjc : p ≤ j ∧ j < k ∧ c = b * 2 ^ (k - j) + 1
    · have hlt : p + 1 ≤ j := by
        rcases Nat.lt_or_ge p j with hlt | hge
        · exact hlt
        · have hjp : j = p := by omega
          subst hjp
          exact absurd ⟨rfl, hjc.2.2⟩ hj
      rw [if_pos hjc, if_pos ⟨hlt, hjc.2⟩]
    · have hjc' : ¬ (p + 1 ≤ j ∧ j < k ∧ c = b * 2 ^ (k - j) + 1) :=
        fun h' => hjc ⟨by omega, h'.2⟩
      rw [if_neg hjc, if_neg hjc']

/-- The lower end of a block in range is in range at every level below. -/
theorem InRange.lower (hr : InRange n (k, b)) (hp : p ≤ k) :
    InRange n (p, b * 2 ^ (k - p)) := by
  have hs : b * 2 ^ k / 2 ^ k = b := mul_pow_div_pow b k
  have hlt : b * 2 ^ k < 2 ^ (n - 1) := lt_of_div_eq hr hs
  have hin := inRange_of_lt hlt (show p < n by have := hr.1; simp only at this; omega)
  have hpow : b * 2 ^ k = b * 2 ^ (k - p) * 2 ^ p := by
    rw [mul_assoc, ← pow_add, Nat.sub_add_cancel hp]
  rwa [hpow, mul_pow_div_pow] at hin

theorem InRange.upper (hr : InRange n (p, b)) (hp : p ≤ q) (hq : q < n) :
    InRange n (q, b / 2 ^ (q - p)) := by
  have hlt : b * 2 ^ p < 2 ^ (n - 1) := lt_of_div_eq hr (mul_pow_div_pow b p)
  have hin := inRange_of_lt hlt hq
  rwa [div_pow_of_le _ hp, mul_pow_div_pow] at hin

/-- **Take a block and split it down.** -/
theorem Tiling.takeDown (h : Tiling F n L) (hF : F k b = true) (hr : InRange n (k, b))
    (hp : p ≤ k) : Tiling (splitMap F p k b) n ((p, b * 2 ^ (k - p)) :: L) := by
  -- downwards from `k`
  induction hp using Nat.decreasingInduction with
  | self =>
    rw [splitMap_self]
    simpa using h.take hF hr.1
  | of_succ p hp ih =>
    have hpk : p < k := hp
    have hheld := mul_pow_half (b := b) hpk
    have hrange : InRange n (p + 1, b * 2 ^ (k - p) / 2) := by
      rw [hheld]
      exact hr.lower hpk
    rw [← hheld] at ih
    rw [splitMap_succ hpk]
    exact (ih.halve hrange).2

/-! ## Joining up -/

/-- The indicator after the siblings of block `(p, b)` below level `q` have been
removed. -/
def raiseMap (F : ℕ → ℕ → Bool) (p q b : ℕ) : ℕ → ℕ → Bool :=
  fun j c => if p ≤ j ∧ j < q ∧ c = sibling (b / 2 ^ (j - p)) then false else F j c

/-- The indicator after block `(p, b)` has been joined up to level `q` and put. -/
def joinMap (F : ℕ → ℕ → Bool) (p q b : ℕ) : ℕ → ℕ → Bool :=
  setBlock (raiseMap F p q b) q (b / 2 ^ (q - p)) true

theorem raiseMap_self : raiseMap F p p b = F := by
  funext j c
  unfold raiseMap
  rw [if_neg (by omega)]

theorem raiseMap_of_le {j : ℕ} (h : q ≤ j) (c : ℕ) : raiseMap F p q b j c = F j c := by
  unfold raiseMap
  rw [if_neg (by omega)]

theorem raiseMap_succ (h : p ≤ q) :
    raiseMap F p (q + 1) b
      = setBlock (raiseMap F p q b) q (sibling (b / 2 ^ (q - p))) false := by
  funext j c
  by_cases hj : j = q ∧ c = sibling (b / 2 ^ (q - p))
  · obtain ⟨rfl, rfl⟩ := hj
    rw [setBlock_same]
    unfold raiseMap
    rw [if_pos ⟨h, by omega, rfl⟩]
  · rw [setBlock_ne hj]
    unfold raiseMap
    by_cases hjc : p ≤ j ∧ j < q + 1 ∧ c = sibling (b / 2 ^ (j - p))
    · have hlt : j < q := by
        rcases Nat.lt_or_ge j q with hlt | hge
        · exact hlt
        · have hjq : j = q := by omega
          subst hjq
          exact absurd ⟨rfl, hjc.2.2⟩ hj
      rw [if_pos hjc, if_pos ⟨hjc.1, hlt, hjc.2.2⟩]
    · rw [if_neg hjc, if_neg (fun h' => hjc ⟨h'.1, by omega, h'.2.2⟩)]

/-- The siblings on the way up are removed, and the block on the way is held. -/
theorem Tiling.raise (h : Tiling F n ((p, b) :: L)) (hp : p ≤ q) (hq : q < n)
    (hfree : ∀ j, p ≤ j → j < q → F j (sibling (b / 2 ^ (j - p))) = true) :
    Tiling (raiseMap F p q b) n ((q, b / 2 ^ (q - p)) :: L) := by
  induction q, hp using Nat.le_induction with
  | base =>
    rw [raiseMap_self]
    simpa using h
  | succ q hp ih =>
    have hprev := ih (by omega) fun j h1 h2 => hfree j h1 (by omega)
    have hsib : raiseMap F p q b q (sibling (b / 2 ^ (q - p))) = true := by
      rw [raiseMap_of_le le_rfl]
      exact hfree q hp (by omega)
    have hdiv : b / 2 ^ (q + 1 - p) = b / 2 ^ (q - p) / 2 := by
      rw [show q + 1 - p = q - p + 1 by omega, div_pow_succ]
    rw [raiseMap_succ hp, hdiv]
    exact hprev.join hsib (by omega)

/-- **Join a block up and put the result.** -/
theorem Tiling.putUp (h : Tiling F n ((p, b) :: L)) (hr : InRange n (p, b)) (hp : p ≤ q)
    (hq : q < n) (hfree : ∀ j, p ≤ j → j < q → F j (sibling (b / 2 ^ (j - p))) = true) :
    Tiling (joinMap F p q b) n L :=
  (h.raise hp hq hfree).put (hr.upper hp hq)

/-! ## No new pairs -/

/-- More marks allow more pairs. -/
theorem NoPair.mono {pre' : ℕ → Bool} (h : NoPair F n pre)
    (hpre : ∀ s, pre s = true → pre' s = true) : NoPair F n pre' := by
  intro k b hr hk hF hG
  rcases h k b hr hk hF hG with hp | hp
  · exact Or.inl (hpre _ hp)
  · exact Or.inr (hpre _ hp)

theorem eq_true_of_splitMap {j c : ℕ} (h : splitMap F p k b j c = true) :
    F j c = true ∨ p ≤ j ∧ j < k ∧ c = b * 2 ^ (k - j) + 1 := by
  unfold splitMap at h
  split at h
  · rename_i hnew
    exact Or.inr hnew
  · split at h
    · cases h
    · exact Or.inl h

/-- The lower halves on the way down are not free. -/
theorem Tiling.splitMap_lower (h : Tiling F n L) (hF : F k b = true)
    (hr : InRange n (k, b)) {j : ℕ} (hp : p ≤ j) (hj : j < k) :
    splitMap F p k b j (b * 2 ^ (k - j)) = false := by
  have htile := h.takeDown hF hr (by omega : p ≤ k)
  have hlow : InRange n (p, b * 2 ^ (k - p)) := hr.lower (by omega)
  have hlt := lt_of_div_eq hlow (mul_pow_div_pow _ p)
  have hpos : 0 < held ((p, b * 2 ^ (k - p)) :: L) (b * 2 ^ (k - p) * 2 ^ p) :=
    (held_pos_iff _).mpr ⟨(p, b * 2 ^ (k - p)), List.mem_cons_self, mul_pow_div_pow _ p⟩
  have hjn : j < n := by have := hr.1; simp only at this; omega
  have hfalse := htile.eq_false_of_held hlt hpos hjn
  have hpow : b * 2 ^ (k - p) * 2 ^ p = b * 2 ^ (k - j) * 2 ^ j := by
    rw [mul_assoc, mul_assoc, ← pow_add, ← pow_add, Nat.sub_add_cancel (by omega),
      Nat.sub_add_cancel (by omega)]
  rwa [hpow, mul_pow_div_pow] at hfalse

theorem NoPair.takeDown (hpair : NoPair F n pre) (h : Tiling F n L) (hF : F k b = true)
    (hr : InRange n (k, b)) : NoPair (splitMap F p k b) n pre := by
  intro j c hjr hj h1 h2
  -- a new block has a lower half as its sibling
  have hnew : ∀ d, p ≤ j → j < k → d = b * 2 ^ (k - j) + 1 →
      splitMap F p k b j (sibling d) = true → False := by
    intro d hpj hjk hd hsib
    have heven := mul_pow_even (b := b) hjk
    have hsd : sibling d = b * 2 ^ (k - j) := by
      unfold sibling
      rw [if_neg (by omega)]
      omega
    rw [hsd, h.splitMap_lower hF hr hpj hjk] at hsib
    cases hsib
  rcases eq_true_of_splitMap h1 with hold1 | ⟨hpj, hjk, hc⟩
  · rcases eq_true_of_splitMap h2 with hold2 | ⟨hpj, hjk, hc⟩
    · exact hpair j c hjr hj hold1 hold2
    · exact (hnew _ hpj hjk hc (by rw [sibling_sibling]; exact h1)).elim
  · exact (hnew _ hpj hjk hc h2).elim

theorem eq_true_of_joinMap {j c : ℕ} (h : joinMap F p q b j c = true) :
    F j c = true ∨ j = q ∧ c = b / 2 ^ (q - p) := by
  by_cases hnew : j = q ∧ c = b / 2 ^ (q - p)
  · exact Or.inr hnew
  · left
    unfold joinMap at h
    rw [setBlock_ne hnew] at h
    unfold raiseMap at h
    split at h
    · cases h
    · exact h

/-- Joining up leaves no new pair behind when it only stops at the top, at a sibling
that is not free, or at a mark. -/
theorem NoPair.putUp (hpair : NoPair F n pre)
    (hstop : q + 1 < n → F q (sibling (b / 2 ^ (q - p))) = true →
      pre (b / 2 ^ (q - p) * 2 ^ q) = true ∨
        pre (sibling (b / 2 ^ (q - p)) * 2 ^ q) = true) :
    NoPair (joinMap F p q b) n pre := by
  intro j c hjr hj h1 h2
  have hlevel : ∀ d, d ≠ b / 2 ^ (q - p) → joinMap F p q b q d = F q d := by
    intro d hd
    unfold joinMap
    rw [setBlock_ne (fun h => hd h.2), raiseMap_of_le le_rfl]
  rcases eq_true_of_joinMap h1 with hold1 | ⟨rfl, rfl⟩
  · rcases eq_true_of_joinMap h2 with hold2 | ⟨rfl, hc⟩
    · exact hpair j c hjr hj hold1 hold2
    · have hc' : c = sibling (b / 2 ^ (j - p)) := by rw [← hc, sibling_sibling]
      rw [hc', hlevel _ (sibling_ne _)] at h1
      rw [hc', sibling_sibling]
      exact (hstop hj h1).symm
  · rw [hlevel _ (sibling_ne _)] at h2
    exact hstop hj h2

end Buddy
