/-
# Runs of a step function

General infrastructure for systems that are driven by a sequence of calls.  A
system is a step function `step : σ → α → σ`; the state after a sequence `as` of
calls is `as.foldl step s`.  A side condition `ok : σ → α → Prop` on the state
before a call singles out the *legal* sequences, those whose every call meets
the condition in the state it is made in.

An invariant kept by every legal call holds after every legal sequence, and a relation
kept by *exactly* the legal calls holds along a sequence iff the sequence is legal.
-/
import Mathlib

namespace Runs

variable {σ τ α : Type*}

/-- Every call of the sequence meets `ok` in the state it is made in. -/
def Legal (step : σ → α → σ) (ok : σ → α → Prop) : σ → List α → Prop
  | _, [] => True
  | s, a :: as => ok s a ∧ Legal step ok (step s a) as

@[simp] theorem legal_nil (step : σ → α → σ) (ok : σ → α → Prop) (s : σ) :
    Legal step ok s [] := trivial

@[simp] theorem legal_cons (step : σ → α → σ) (ok : σ → α → Prop) (s : σ) (a : α)
    (as : List α) :
    Legal step ok s (a :: as) ↔ ok s a ∧ Legal step ok (step s a) as := Iff.rfl

/-- Legality is decided call by call. -/
instance decidableLegal (step : σ → α → σ) (ok : σ → α → Prop) [∀ s a, Decidable (ok s a)] :
    ∀ s as, Decidable (Legal step ok s as)
  | _, [] => isTrue trivial
  | s, a :: as =>
    have := decidableLegal step ok (step s a) as
    inferInstanceAs (Decidable (ok s a ∧ Legal step ok (step s a) as))

variable {as : List α} {ok ok' : σ → α → Prop} {s : σ} {step : σ → α → σ} {I : σ → Prop}

theorem legal_append {bs : List α} :
    Legal step ok s (as ++ bs) ↔ Legal step ok s as ∧ Legal step ok (as.foldl step s) bs := by
  induction as generalizing s with
  | nil => exact (iff_of_eq (true_and _)).symm
  | cons a as ih => exact (and_congr_right fun _ => ih).trans and_assoc.symm

/-- A sequence is legal if each of its calls is, after the calls before it. -/
theorem legal_iff_forall :
    Legal step ok s as ↔
      ∀ before a after, as = before ++ a :: after → ok (before.foldl step s) a := by
  constructor
  · rintro h before a after rfl
    exact (legal_append.mp h).2.1
  · intro h
    induction as generalizing s with
    | nil => trivial
    | cons a as ih =>
      refine ⟨h [] a as rfl, ih fun before b after has => ?_⟩
      exact h (a :: before) b after (congrArg (List.cons a) has)

/-- **Invariant rule.**  What one legal call preserves, a legal sequence
preserves. -/
theorem Legal.invariant (hstep : ∀ s a, I s → ok s a → I (step s a)) (h : Legal step ok s as)
    (hs : I s) : I (as.foldl step s) := by
  induction as generalizing s with
  | nil => exact hs
  | cons a as ih =>
    obtain ⟨ha, has⟩ := h
    exact ih has (hstep s a hs ha)

/-- Two side conditions that are met one by one are met together. -/
theorem Legal.and (h : Legal step ok s as) (h' : Legal step ok' s as) :
    Legal step (fun s a => ok s a ∧ ok' s a) s as := by
  induction as generalizing s with
  | nil => trivial
  | cons a as ih => exact ⟨⟨h.1, h'.1⟩, ih h.2 h'.2⟩

/-- Two side conditions that agree where an invariant holds, and of which one keeps it, are met by
the same sequences. -/
theorem legal_congr (hiff : ∀ s a, I s → (ok s a ↔ ok' s a))
    (hstep : ∀ s a, I s → ok' s a → I (step s a)) (hs : I s) (as : List α) :
    Legal step ok s as ↔ Legal step ok' s as := by
  induction as generalizing s with
  | nil => exact Iff.rfl
  | cons a as ih =>
    rw [legal_cons, legal_cons, hiff s a hs]
    refine and_congr_right fun ha => ?_
    exact ih (hstep s a hs ha)

/-- **Step rule.**  A side condition that keeps an invariant and with it implies another one: the
sequences that meet the first one meet the second one. -/
theorem Legal.imp (himp : ∀ s a, I s → ok s a → ok' s a)
    (hstep : ∀ s a, I s → ok s a → I (step s a)) (h : Legal step ok s as) (hs : I s) :
    Legal step ok' s as := by
  induction as generalizing s with
  | nil => trivial
  | cons a as ih => exact ⟨himp s a hs h.1, ih h.2 (hstep s a hs h.1)⟩

/-- **Exactness rule**, for the calls of one sequence. -/
theorem forall_prefix_iff_legal_of_mem {step : σ → α → σ} {ok : σ → α → Prop}
    {astep : τ → α → τ} {R : σ → τ → Prop} {as : List α}
    (hstep : ∀ s t, ∀ a ∈ as, R s t → (R (step s a) (astep t a) ↔ ok s a)) {s : σ} {t : τ}
    (hs : R s t) :
    (∀ pre, pre <+: as → R (pre.foldl step s) (pre.foldl astep t)) ↔
      Legal step ok s as := by
  induction as generalizing s t with
  | nil =>
    simp only [List.prefix_nil, legal_nil, iff_true]
    rintro pre rfl
    exact hs
  | cons a as ih =>
    have hhead := hstep s t a List.mem_cons_self hs
    have htail : ∀ s t, ∀ b ∈ as, R s t → (R (step s b) (astep t b) ↔ ok s b) :=
      fun s t b hb => hstep s t b (List.mem_cons_of_mem _ hb)
    constructor
    · intro h
      have h1 : R (step s a) (astep t a) := h [a] ⟨as, rfl⟩
      refine ⟨hhead.mp h1, (ih htail h1).mp ?_⟩
      intro pre hpre
      exact h (a :: pre) (List.cons_prefix_cons.mpr ⟨rfl, hpre⟩)
    · rintro ⟨ha, has⟩ pre hpre
      have h1 : R (step s a) (astep t a) := hhead.mpr ha
      cases pre with
      | nil => exact hs
      | cons b pre =>
        obtain ⟨rfl, hrest⟩ := List.cons_prefix_cons.mp hpre
        exact (ih htail h1).mpr has pre hrest

/-- **Exactness rule.**  If a call keeps `R` precisely when it is legal, then `R`
holds after every prefix of a sequence precisely when the sequence is legal. -/
theorem forall_prefix_iff_legal {astep : τ → α → τ} {R : σ → τ → Prop}
    (hstep : ∀ s t a, R s t → (R (step s a) (astep t a) ↔ ok s a)) {t : τ} (hs : R s t)
    (as : List α) :
    (∀ pre, pre <+: as → R (pre.foldl step s) (pre.foldl astep t)) ↔
      Legal step ok s as :=
  forall_prefix_iff_legal_of_mem (fun s t a _ => hstep s t a) hs

/-- **Exactness rule** for an invariant. -/
theorem forall_prefix_inv_iff_legal (hstep : ∀ s, ∀ a ∈ as, I s → (I (step s a) ↔ ok s a))
    (hs : I s) : (∀ pre, pre <+: as → I (pre.foldl step s)) ↔ Legal step ok s as := by
  have hlift : ∀ (s : σ) (_ : Unit), ∀ a ∈ as, I s → (I (step s a) ↔ ok s a) :=
    fun s _ => hstep s
  exact @forall_prefix_iff_legal_of_mem σ Unit α step ok (fun _ _ => ()) (fun s _ => I s) as
    hlift s () hs

/-! ## Shadows -/

/-- A step with a shadow of the state, which follows the calls and may stop the run. -/
def shadowStep (step : σ → α → σ) (shadow : σ → τ → α → Option τ) (s : σ × τ) (a : α) :
    Option (σ × τ) :=
  (shadow s.1 s.2 a).map fun t => (step s.1 a, t)

/-- The shadow decides nothing but how far a run goes. -/
theorem fst_of_shadow_run {shadow : σ → τ → α → Option τ} {s s' : σ × τ}
    (hrun : as.foldlM (shadowStep step shadow) s = some s') : s'.1 = as.foldl step s.1 := by
  induction as generalizing s with
  | nil =>
    cases hrun
    rfl
  | cons a as ih =>
    obtain ⟨s1, hstep, hrest⟩ := Option.bind_eq_some_iff.mp hrun
    obtain ⟨t, -, rfl⟩ := Option.map_eq_some_iff.mp hstep
    exact ih hrest

/-- What runs to its end has run through every prefix. -/
theorem exists_shadow_prefix {shadow : σ → τ → α → Option τ} {s : σ × τ} {pre : List α}
    (hrun : (as.foldlM (shadowStep step shadow) s).isSome) (hpre : pre <+: as) :
    ∃ s', pre.foldlM (shadowStep step shadow) s = some s' := by
  obtain ⟨later, rfl⟩ := hpre
  rw [List.foldlM_append] at hrun
  obtain ⟨s', hs', -⟩ := Option.bind_eq_some_iff.mp (Option.isSome_iff_exists.mp hrun).choose_spec
  exact ⟨s', hs'⟩

/-! ## Runs without an end -/

/-- The state after the first `n` calls of a run without an end. -/
def states (step : σ → α → σ) (s : σ) (later : ℕ → α) : ℕ → σ
  | 0 => s
  | n + 1 => step (states step s later n) (later n)

/-- What one call preserves holds along the run. -/
theorem states_invariant (hstep : ∀ s a, I s → I (step s a)) (hs : I s) (later : ℕ → α) (n : ℕ) :
    I (states step s later n) := by
  induction n with
  | zero => exact hs
  | succ n ih => exact hstep _ _ ih

/-- **Progress rule.**  A rank that no call raises before the goal is reached, and that a call
lowers again and again, leads to the goal. -/
theorem exists_states_of_rank {later : ℕ → α} {goal : σ → Prop} (rank : σ → ℕ)
    (hle : ∀ n, ¬ goal (states step s later n) →
      rank (states step s later (n + 1)) ≤ rank (states step s later n))
    (hlt : ∀ n, ¬ goal (states step s later n) → ∃ m, n ≤ m ∧
      (¬ goal (states step s later m) →
        rank (states step s later (m + 1)) < rank (states step s later m))) :
    ∃ n, goal (states step s later n) := by
  by_contra hnever
  have hnot : ∀ n, ¬ goal (states step s later n) := fun n hgoal => hnever ⟨n, hgoal⟩
  have hanti : Antitone fun n => rank (states step s later n) :=
    antitone_nat_of_succ_le fun n => hle n (hnot n)
  have hdescent : ∀ r n, rank (states step s later n) ≤ r → False := by
    intro r
    induction r with
    | zero =>
      intro n hn
      obtain ⟨m, hm, hfalls⟩ := hlt n (hnot n)
      have hrank : rank (states step s later m) ≤ rank (states step s later n) := hanti hm
      have := hfalls (hnot m)
      omega
    | succ r ih =>
      intro n hn
      obtain ⟨m, hm, hfalls⟩ := hlt n (hnot n)
      have hrank : rank (states step s later m) ≤ rank (states step s later n) := hanti hm
      have := hfalls (hnot m)
      exact ih (m + 1) (by omega)
  exact hdescent _ 0 le_rfl

end Runs
