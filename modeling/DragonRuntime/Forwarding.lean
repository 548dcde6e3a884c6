/-
# Requests that are forwarded

General infrastructure for a request that is handled by one party, which forwards it to others,
which forward it further.  A *scheme* says which requests the handling of a request puts in flight,
and carries a weight that each forwarding lowers, so that no request is forwarded for ever.

The requests in flight are handled in any order.  Whatever the order, what a request brings about
in the end is the multiset of its *visits*, and no run is longer than there are visits.  A scheme
may be restricted to the handlers that do not refuse: the visits are then among those of the whole
scheme, and the same ones if no handler refuses.
-/
import Mathlib

/-- What the handling of a request forwards. -/
structure Scheme (α : Type*) where
  next : α → List α
  weight : α → ℕ
  weight_lt : ∀ a, ∀ b ∈ next a, weight b < weight a

/-- The requests in flight, and those that were handled. -/
structure Flight (α : Type*) where
  inFlight : Multiset α
  handled : Multiset α

namespace Scheme

variable {α : Type*} (S : Scheme α)

/-- A request in flight is handled. -/
inductive Step : Flight α → Flight α → Prop where
  | handle (a : α) (inFlight handled : Multiset α) :
      Step ⟨a ::ₘ inFlight, handled⟩ ⟨inFlight + S.next a, a ::ₘ handled⟩

/-- So many requests are handled, one after the other. -/
inductive Run : ℕ → Flight α → Flight α → Prop where
  | refl (s : Flight α) : Run 0 s s
  | step {k : ℕ} {s s' s'' : Flight α} : Run k s s' → S.Step s' s'' → Run (k + 1) s s''

/-- Only the request is in flight. -/
def start (a : α) : Flight α := ⟨{a}, 0⟩

/-- What the handling of a request brings about, itself included. -/
def visits (a : α) : Multiset α :=
  a ::ₘ ((S.next a).attach.map fun b => visits b.1).sum
termination_by S.weight a
decreasing_by exact S.weight_lt a b.1 b.2

theorem visits_eq (a : α) : S.visits a = a ::ₘ ((S.next a).map S.visits).sum := by
  rw [visits]
  congr 2
  exact List.attach_map_val (f := S.visits)

variable {a : α} {s s' : Flight α} {k : ℕ}

theorem mem_visits {b : α} : b ∈ S.visits a ↔ b = a ∨ ∃ c ∈ S.next a, b ∈ S.visits c := by
  rw [visits_eq, Multiset.mem_cons]
  refine or_congr_right ?_
  induction S.next a with
  | nil => simp
  | cons c cs ih => simp only [List.map_cons, List.sum_cons, Multiset.mem_add, ih,
      List.exists_mem_cons_iff]

/-- What forwarding keeps holds of all visits. -/
theorem visits_induction {P : α → Prop} (hnext : ∀ a, P a → ∀ b ∈ S.next a, P b) (ha : P a) :
    ∀ b ∈ S.visits a, P b := by
  induction hn : S.weight a using Nat.strong_induction_on generalizing a with
  | _ n ih =>
    intro b hb
    rcases (S.mem_visits).mp hb with rfl | ⟨c, hc, hb⟩
    · exact ha
    · exact ih (S.weight c) (hn ▸ S.weight_lt a c hc) (hnext a ha c hc) rfl b hb

theorem count_visits [DecidableEq α] (a k : α) :
    (S.visits a).count k =
      (if k = a then 1 else 0) + ((S.next a).map fun c => (S.visits c).count k).sum := by
  rw [visits_eq, Multiset.count_cons, add_comm]
  congr 1
  induction S.next a with
  | nil => rfl
  | cons c cs ih => rw [List.map_cons, List.sum_cons, Multiset.count_add, ih]; rfl

/-- What is in flight or handled in the end. -/
def total (s : Flight α) : Multiset α := s.handled + (s.inFlight.map S.visits).sum

@[simp] theorem total_start (a : α) : S.total (start a) = S.visits a := by
  simp [total, start]

variable {S}

theorem Step.total_eq (h : S.Step s s') : S.total s' = S.total s := by
  cases h with
  | handle a =>
    simp only [total, Multiset.map_cons, Multiset.sum_cons, Multiset.map_add, Multiset.sum_add,
      S.visits_eq a, Multiset.map_coe, Multiset.sum_coe, Multiset.cons_add, Multiset.add_cons]
    congr 1
    abel

/-- **Step lemma of a run.**  What is in flight or handled in the end does not change. -/
theorem Run.total_eq (h : S.Run k s s') : S.total s' = S.total s := by
  induction h with
  | refl => rfl
  | step _ hstep ih => rw [hstep.total_eq, ih]

theorem Run.card_handled (h : S.Run k s s') : s'.handled.card = s.handled.card + k := by
  induction h with
  | refl => rfl
  | step _ hstep ih =>
    cases hstep with
    | handle =>
      simp only [Multiset.card_cons] at ih ⊢
      omega

/-- What was handled is among the visits of the request. -/
theorem Run.handled_le (h : S.Run k (start a) s) : s.handled ≤ S.visits a := by
  rw [← total_start, ← h.total_eq]
  exact Multiset.le_add_right _ _

theorem Run.le_card (h : S.Run k (start a) s) : k ≤ (S.visits a).card := by
  have hcard := h.card_handled
  have hle := Multiset.card_le_card h.handled_le
  simp only [start, Multiset.card_zero, zero_add] at hcard
  omega

/-- When nothing is in flight any more, the visits were handled. -/
theorem Run.handled_eq (h : S.Run k (start a) s) (hdone : s.inFlight = 0) :
    s.handled = S.visits a := by
  rw [← total_start, ← h.total_eq, total, hdone]
  simp

/-- As long as a request is in flight, it can be handled. -/
theorem exists_step (h : s.inFlight ≠ 0) : ∃ s', S.Step s s' := by
  obtain ⟨inFlight, handled⟩ := s
  obtain ⟨a, ha⟩ := Multiset.exists_mem_of_ne_zero h
  obtain ⟨rest, rfl⟩ := Multiset.exists_cons_of_mem ha
  exact ⟨_, Step.handle a rest handled⟩

variable (S) in
/-- From a request no run is longer than the bound, and none is stuck with a request in flight. -/
def Ends (a : α) (bound : ℕ) : Prop :=
  ∀ k s, S.Run k (start a) s → k ≤ bound ∧ (s.inFlight ≠ 0 → ∃ s', S.Step s s')

theorem ends {bound : ℕ} (h : (S.visits a).card ≤ bound) : S.Ends a bound :=
  fun _ _ hrun => ⟨hrun.le_card.trans h, exists_step⟩

/-! ## Handlers that refuse -/

variable (S)

/-- A handler that refuses a request does not forward it. -/
def restrict (accepts : α → Bool) : Scheme α where
  next a := if accepts a then S.next a else []
  weight := S.weight
  weight_lt a b hb := by
    cases h : accepts a with
    | false => simp [h] at hb
    | true => exact S.weight_lt a b (by simpa [h] using hb)

theorem visits_restrict_le (accepts : α → Bool) (a : α) :
    (S.restrict accepts).visits a ≤ S.visits a := by
  induction hn : S.weight a using Nat.strong_induction_on generalizing a with
  | _ n ih =>
    rw [visits_eq, visits_eq]
    refine Multiset.cons_le_cons a ?_
    cases haccept : accepts a with
    | false => simp [restrict, haccept]
    | true =>
      simp only [restrict, haccept, if_true]
      refine List.sum_le_sum fun b hb => ?_
      exact ih (S.weight b) (hn ▸ S.weight_lt a b hb) b rfl

theorem visits_restrict_of_accepts (accepts : α → Bool) (a : α)
    (h : ∀ b ∈ S.visits a, accepts b = true) : (S.restrict accepts).visits a = S.visits a := by
  induction hn : S.weight a using Nat.strong_induction_on generalizing a with
  | _ n ih =>
    have haccept : accepts a = true := h a (S.mem_visits.mpr (Or.inl rfl))
    rw [visits_eq, visits_eq]
    simp only [restrict, haccept, if_true]
    congr 2
    refine List.map_congr_left fun b hb => ?_
    refine ih (S.weight b) (hn ▸ S.weight_lt a b hb) b (fun c hc => ?_) rfl
    exact h c (S.mem_visits.mpr (Or.inr ⟨b, hb, hc⟩))

end Scheme
