/-
# Custody of tokens

General infrastructure for systems that hand tokens on.  A token is in a queue or in the hand of
an agent; the custody is exact for a set of tokens if each of them is in exactly one place, once,
and no other token is anywhere.

A move gives one token a new place and leaves the others where they are (`Exact.move`): a token
is taken from the head of a queue, put at the end of one, handed from the head of one queue to the
end of another, or passed from hand to hand.  A token that is let go of is nowhere, and the
custody is not exact any more.
-/
import Mathlib

/-- The queues `κ` and the hands of the agents `ω`, with tokens `τ`. -/
structure Custody (κ ω τ : Type*) where
  queue : κ → List τ
  hand : ω → Option τ

namespace Custody

/-- Where a token can be. -/
inductive Place (κ ω : Type*) : Type _ where
  | queued (q : κ)
  | held (w : ω)

variable {κ ω τ : Type*}

/-- The token is in that place. -/
def At (c : Custody κ ω τ) (t : τ) : Place κ ω → Prop
  | .queued q => t ∈ c.queue q
  | .held w => c.hand w = some t

/-- Each token of the set is in exactly one place, once, and no other token is anywhere. -/
structure Exact (c : Custody κ ω τ) (tokens : Finset τ) : Prop where
  unique : ∀ t ∈ tokens, ∃! p, c.At t p
  once : ∀ q, (c.queue q).Nodup
  mem : ∀ t p, c.At t p → t ∈ tokens

variable {c c' : Custody κ ω τ} {tokens : Finset τ} {t : τ} {rest : List τ}

theorem Exact.place_eq (h : c.Exact tokens) {p r : Place κ ω} (hp : c.At t p)
    (hr : c.At t r) : p = r :=
  (h.unique t (h.mem t p hp)).unique hp hr

/-- **Move rule.**  One token gets a new place, and the others keep theirs. -/
theorem Exact.move (h : c.Exact tokens) {p r : Place κ ω} (hp : c.At t p)
    (hself : ∀ p₁, c'.At t p₁ ↔ p₁ = r) (hother : ∀ t₁ ≠ t, ∀ p₁, c'.At t₁ p₁ ↔ c.At t₁ p₁)
    (honce : ∀ q, (c'.queue q).Nodup) : c'.Exact tokens := by
  refine ⟨?_, honce, ?_⟩
  · intro t₁ ht₁
    by_cases heq : t₁ = t
    · subst heq
      exact ⟨r, (hself r).mpr rfl, fun p₁ hp₁ => (hself p₁).mp hp₁⟩
    · obtain ⟨p₁, hp₁, huniq⟩ := h.unique t₁ ht₁
      refine ⟨p₁, (hother t₁ heq p₁).mpr hp₁, ?_⟩
      intro p₂ hp₂
      exact huniq p₂ ((hother t₁ heq p₂).mp hp₂)
  · intro t₁ p₁ hp₁
    by_cases heq : t₁ = t
    · subst heq
      exact h.mem t₁ p hp
    · exact h.mem t₁ p₁ ((hother t₁ heq p₁).mp hp₁)

/-- A token that was in a place and is in none afterwards. -/
theorem not_exact_of_lost (h : c.Exact tokens) {p : Place κ ω} (hp : c.At t p)
    (hlost : ∀ p', ¬ c'.At t p') : ¬ c'.Exact tokens := by
  intro h'
  obtain ⟨p', hp', -⟩ := h'.unique t (h.mem t p hp)
  exact hlost p' hp'

/-! ## The moves -/

section Moves

variable [DecidableEq κ] [DecidableEq ω] {q r : κ} {w : ω}

def setQueue (c : Custody κ ω τ) (q : κ) (l : List τ) : Custody κ ω τ :=
  { c with queue := Function.update c.queue q l }

def setHand (c : Custody κ ω τ) (w : ω) (o : Option τ) : Custody κ ω τ :=
  { c with hand := Function.update c.hand w o }

omit [DecidableEq ω] in
theorem at_setQueue {l : List τ} {p : Place κ ω} :
    (c.setQueue q l).At t p ↔ (p = .queued q ∧ t ∈ l) ∨ (p ≠ .queued q ∧ c.At t p) := by
  cases p with
  | queued q₁ =>
    by_cases hq : q₁ = q
    · subst hq
      simp [At, setQueue]
    · simp [At, setQueue, hq]
  | held => simp [At, setQueue]

omit [DecidableEq κ] in
theorem at_setHand {o : Option τ} {p : Place κ ω} :
    (c.setHand w o).At t p ↔ (p = .held w ∧ o = some t) ∨ (p ≠ .held w ∧ c.At t p) := by
  cases p with
  | queued => simp [At, setHand]
  | held w₁ =>
    by_cases hw : w₁ = w
    · subst hw
      simp [At, setHand]
    · simp [At, setHand, hw]

omit [DecidableEq κ] in
theorem setHand_eq_self {o : Option τ} (hw : c.hand w = o) : c.setHand w o = c := by
  subst hw
  unfold setHand
  rw [Function.update_eq_self]

omit [DecidableEq ω] in
theorem once_setQueue (h : ∀ q, (c.queue q).Nodup) {l : List τ} (hl : l.Nodup) (q₁ : κ) :
    ((c.setQueue q l).queue q₁).Nodup := by
  by_cases hq : q₁ = q
  · subst hq
    simpa [setQueue] using hl
  · simpa [setQueue, hq] using h q₁

/-- The head of a queue goes to an empty hand. -/
theorem Exact.take (h : c.Exact tokens) (hq : c.queue q = t :: rest) (hw : c.hand w = none) :
    ((c.setQueue q rest).setHand w (some t)).Exact tokens := by
  have hat : c.At t (.queued q) := by
    show t ∈ c.queue q
    rw [hq]
    exact List.mem_cons_self
  have hnodup : (t :: rest).Nodup := hq ▸ h.once q
  apply h.move hat (r := .held w)
  · intro p₁
    rw [at_setHand, at_setQueue]
    constructor
    · rintro (⟨hp₁, -⟩ | ⟨-, ⟨-, hmem⟩ | ⟨hne, hp₁⟩⟩)
      · exact hp₁
      · exact absurd hmem (List.nodup_cons.mp hnodup).1
      · exact absurd (h.place_eq hp₁ hat) hne
    · intro hp₁
      exact .inl ⟨hp₁, rfl⟩
  · intro t₁ ht₁ p₁
    rw [at_setHand, at_setQueue]
    constructor
    · rintro (⟨-, heq⟩ | ⟨-, ⟨rfl, hmem⟩ | ⟨-, hp₁⟩⟩)
      · exact absurd (Option.some.inj heq).symm ht₁
      · show t₁ ∈ c.queue q
        rw [hq]
        exact List.mem_cons_of_mem _ hmem
      · exact hp₁
    · intro hp₁
      refine .inr ⟨?_, ?_⟩
      · rintro rfl
        rw [At, hw] at hp₁
        exact absurd hp₁ (Option.some_ne_none t₁).symm
      · by_cases hp : p₁ = .queued q
        · subst hp
          refine .inl ⟨rfl, ?_⟩
          rw [At, hq] at hp₁
          exact List.mem_of_ne_of_mem ht₁ hp₁
        · exact .inr ⟨hp, hp₁⟩
  · exact once_setQueue h.once (List.nodup_cons.mp hnodup).2

/-- The token in a hand is put at the end of a queue. -/
theorem Exact.put (h : c.Exact tokens) (hw : c.hand w = some t) :
    ((c.setQueue q (c.queue q ++ [t])).setHand w none).Exact tokens := by
  have hat : c.At t (.held w) := hw
  have hnot : t ∉ c.queue q := by
    intro hmem
    cases h.place_eq (p := .queued q) hmem hat
  apply h.move hat (r := .queued q)
  · intro p₁
    rw [at_setHand, at_setQueue]
    constructor
    · rintro (⟨-, heq⟩ | ⟨hne, ⟨hp₁, -⟩ | ⟨-, hp₁⟩⟩)
      · exact absurd heq.symm (Option.some_ne_none _)
      · exact hp₁
      · exact absurd (h.place_eq hp₁ hat) hne
    · rintro rfl
      refine .inr ⟨nofun, .inl ⟨rfl, ?_⟩⟩
      exact List.mem_append_right _ List.mem_cons_self
  · intro t₁ ht₁ p₁
    rw [at_setHand, at_setQueue]
    constructor
    · rintro (⟨-, heq⟩ | ⟨-, ⟨rfl, hmem⟩ | ⟨-, hp₁⟩⟩)
      · exact absurd heq.symm (Option.some_ne_none _)
      · rcases List.mem_append.mp hmem with hmem | hmem
        · exact hmem
        · exact absurd (List.mem_singleton.mp hmem) ht₁
      · exact hp₁
    · intro hp₁
      refine .inr ⟨?_, ?_⟩
      · rintro rfl
        exact ht₁ (Option.some.inj (hp₁.symm.trans hw))
      · by_cases hp : p₁ = .queued q
        · subst hp
          exact .inl ⟨rfl, List.mem_append_left _ hp₁⟩
        · exact .inr ⟨hp, hp₁⟩
  · apply once_setQueue h.once
    rw [List.nodup_append]
    exact ⟨h.once q, List.nodup_singleton t,
      fun a ha b hb => by rw [List.mem_singleton.mp hb]; rintro rfl; exact hnot ha⟩

omit [DecidableEq ω] in
/-- The head of a queue goes to the end of another one. -/
theorem Exact.transfer (h : c.Exact tokens) (hq : c.queue q = t :: rest) (hne : r ≠ q) :
    ((c.setQueue q rest).setQueue r (c.queue r ++ [t])).Exact tokens := by
  have hat : c.At t (.queued q) := by
    show t ∈ c.queue q
    rw [hq]
    exact List.mem_cons_self
  have hnodup : (t :: rest).Nodup := hq ▸ h.once q
  have hnot : t ∉ c.queue r := by
    intro hmem
    injection h.place_eq (p := .queued r) hmem hat with heq
    exact hne heq
  apply h.move hat (r := .queued r)
  · intro p₁
    rw [at_setQueue, at_setQueue]
    constructor
    · rintro (⟨hp₁, -⟩ | ⟨-, ⟨-, hmem⟩ | ⟨hp, hp₁⟩⟩)
      · exact hp₁
      · exact absurd hmem (List.nodup_cons.mp hnodup).1
      · exact absurd (h.place_eq hp₁ hat) hp
    · intro hp₁
      exact .inl ⟨hp₁, List.mem_append_right _ List.mem_cons_self⟩
  · intro t₁ ht₁ p₁
    rw [at_setQueue, at_setQueue]
    constructor
    · rintro (⟨rfl, hmem⟩ | ⟨-, ⟨rfl, hmem⟩ | ⟨-, hp₁⟩⟩)
      · rcases List.mem_append.mp hmem with hmem | hmem
        · exact hmem
        · exact absurd (List.mem_singleton.mp hmem) ht₁
      · show t₁ ∈ c.queue q
        rw [hq]
        exact List.mem_cons_of_mem _ hmem
      · exact hp₁
    · intro hp₁
      by_cases hr : p₁ = .queued r
      · subst hr
        exact .inl ⟨rfl, List.mem_append_left _ hp₁⟩
      · refine .inr ⟨hr, ?_⟩
        by_cases hp : p₁ = .queued q
        · subst hp
          refine .inl ⟨rfl, ?_⟩
          rw [At, hq] at hp₁
          exact List.mem_of_ne_of_mem ht₁ hp₁
        · exact .inr ⟨hp, hp₁⟩
  · apply once_setQueue (once_setQueue h.once (List.nodup_cons.mp hnodup).2)
    rw [List.nodup_append]
    exact ⟨h.once r, List.nodup_singleton t,
      fun a ha b hb => by rw [List.mem_singleton.mp hb]; rintro rfl; exact hnot ha⟩

omit [DecidableEq κ] in
/-- A hand lets go of its token. -/
theorem Exact.not_drop (h : c.Exact tokens) (hw : c.hand w = some t) :
    ¬ (c.setHand w none).Exact tokens := by
  have hat : c.At t (.held w) := hw
  apply not_exact_of_lost h hat
  intro p' hp'
  rcases at_setHand.mp hp' with ⟨-, heq⟩ | ⟨hne, hp'⟩
  · exact absurd heq.symm (Option.some_ne_none _)
  · exact hne (h.place_eq hp' hat)

end Moves

/-- A queue without one of the tokens is shorter than the set of tokens. -/
theorem Exact.length_lt (h : c.Exact tokens) {q : κ} (ht : t ∈ tokens) (hnot : t ∉ c.queue q) :
    (c.queue q).length < tokens.card := by
  classical
  rw [← List.toFinset_card_of_nodup (h.once q)]
  apply Finset.card_lt_card
  rw [Finset.ssubset_iff_of_subset]
  · refine ⟨t, ht, ?_⟩
    rw [List.mem_toFinset]
    exact hnot
  · intro t₁ ht₁
    exact h.mem t₁ (.queued q) (List.mem_toFinset.mp ht₁)

theorem Exact.length_lt_of_held (h : c.Exact tokens) {w : ω} (hw : c.hand w = some t) (q : κ) :
    (c.queue q).length < tokens.card := by
  apply h.length_lt (h.mem t (.held w) hw)
  intro hmem
  cases h.place_eq (p := .queued q) (r := .held w) hmem hw

theorem Exact.length_lt_of_queued (h : c.Exact tokens) {q r : κ} (hmem : t ∈ c.queue q)
    (hne : r ≠ q) : (c.queue r).length < tokens.card := by
  apply h.length_lt (h.mem t (.queued q) hmem)
  intro hmem'
  injection h.place_eq (p := .queued r) (r := .queued q) hmem' hmem with heq
  exact hne heq

/-- With empty hands the tokens are all in the queues. -/
theorem Exact.card_eq (h : c.Exact tokens) [Fintype κ] (hhand : ∀ w, c.hand w = none) :
    ∑ q, (c.queue q).length = tokens.card := by
  classical
  have hcard : ∀ q, (c.queue q).length = (c.queue q).toFinset.card :=
    fun q => (List.toFinset_card_of_nodup (h.once q)).symm
  simp only [hcard]
  rw [← Finset.card_biUnion]
  · congr 1
    ext t
    simp only [Finset.mem_biUnion, Finset.mem_univ, true_and, List.mem_toFinset]
    constructor
    · rintro ⟨q, hmem⟩
      exact h.mem t (.queued q) hmem
    · intro ht
      obtain ⟨p, hp, -⟩ := h.unique t ht
      cases p with
      | queued q => exact ⟨q, hp⟩
      | held w =>
        rw [At, hhand w] at hp
        exact absurd hp.symm (Option.some_ne_none t)
  · intro q _ q' _ hne
    rw [Function.onFun, Finset.disjoint_left]
    intro t hmem hmem'
    rw [List.mem_toFinset] at hmem hmem'
    injection h.place_eq (p := .queued q) (r := .queued q') hmem hmem' with heq
    exact hne heq

end Custody
