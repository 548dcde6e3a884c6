/-
# Lists linked through an array

A free list that is threaded through the slots of an array: `next i` is the index of the
slot after slot `i`, and `eol` marks the end.  `Linked next eol head L` says that the
list that starts at `head` visits the slots of `L` in order.
-/
import Mathlib

namespace LinkedSlots

/-- The list that starts at `head` visits the slots of `L` and ends with `eol`. -/
def Linked (next : ℕ → ℕ) (eol : ℕ) : ℕ → List ℕ → Prop
  | head, [] => head = eol
  | head, i :: L => head = i ∧ Linked next eol (next i) L

variable {next : ℕ → ℕ} {eol head : ℕ} {L : List ℕ}

/-- A write to a slot outside the list does not matter. -/
theorem Linked.update {i : ℕ} (h : Linked next eol head L) (hi : i ∉ L) (x : ℕ) :
    Linked (Function.update next i x) eol head L := by
  induction L generalizing head with
  | nil => exact h
  | cons j L ih =>
    obtain ⟨rfl, htail⟩ := h
    rw [List.mem_cons, not_or] at hi
    refine ⟨rfl, ?_⟩
    rw [Function.update_of_ne (Ne.symm hi.1)]
    exact ih htail hi.2

/-- **Push** a slot outside the list. -/
theorem Linked.push {i : ℕ} (h : Linked next eol head L) (hi : i ∉ L) :
    Linked (Function.update next i head) eol i (i :: L) := by
  refine ⟨rfl, ?_⟩
  rw [Function.update_self]
  exact h.update hi head

/-- **Pop** the first slot, which may then be written. -/
theorem Linked.pop {i : ℕ} (h : Linked next eol head (i :: L)) (hi : i ∉ L) (x : ℕ) :
    head = i ∧ Linked (Function.update next i x) eol (next i) L :=
  ⟨h.1, h.2.update hi x⟩

/-- What a slot of the list holds is the next slot or the mark of the end. -/
theorem Linked.next_eq_or_mem {i : ℕ} (h : Linked next eol head L) (hi : i ∈ L) :
    next i = eol ∨ next i ∈ L := by
  induction L generalizing head with
  | nil => exact absurd hi (List.not_mem_nil)
  | cons j L ih =>
    obtain ⟨-, htail⟩ := h
    rcases List.mem_cons.mp hi with rfl | hmem
    · cases L with
      | nil => exact Or.inl htail
      | cons k L =>
        right
        rw [htail.1]
        exact List.mem_cons_of_mem _ List.mem_cons_self
    · rcases ih htail hmem with heol | hnext
      · exact Or.inl heol
      · exact Or.inr (List.mem_cons_of_mem _ hnext)

end LinkedSlots
