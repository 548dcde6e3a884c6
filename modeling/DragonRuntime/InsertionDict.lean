/-
# Dictionaries in the order of insertion

A dictionary is the list of its entries.  A new key comes last, and a key that is set again keeps
its place.
-/
import Mathlib

namespace InsertionDict

variable {K V : Type*} [DecidableEq K]

def keys (d : List (K × V)) : List K := d.map Prod.fst

/-- The value of a key is set. -/
def set (k : K) (v : V) : List (K × V) → List (K × V)
  | [] => [(k, v)]
  | (k', v') :: d => if k' = k then (k, v) :: d else (k', v') :: set k v d

theorem lookup_entry (k k' : K) (v : V) (d : List (K × V)) :
    ((k', v) :: d).lookup k = if k = k' then some v else d.lookup k := by
  rw [List.lookup_cons]
  by_cases h : k = k'
  · rw [if_pos h, beq_iff_eq.mpr h]
  · rw [if_neg h, beq_eq_false_iff_ne.mpr h]

/-- A lookup after a write. -/
theorem lookup_set (k : K) (v : V) (k' : K) (d : List (K × V)) :
    (set k v d).lookup k' = if k' = k then some v else d.lookup k' := by
  induction d with
  | nil => exact lookup_entry k' k v []
  | cons entry d ih =>
    obtain ⟨k₁, v₁⟩ := entry
    unfold set
    by_cases hk : k₁ = k
    · subst hk
      rw [if_pos rfl, lookup_entry, lookup_entry]
      by_cases h : k' = k₁
      · rw [if_pos h, if_pos h]
      · rw [if_neg h, if_neg h, if_neg h]
    · rw [if_neg hk, lookup_entry, lookup_entry, ih]
      by_cases h : k' = k₁
      · subst h
        rw [if_pos rfl, if_neg hk, if_pos rfl]
      · rw [if_neg h, if_neg h]

/-- A new key goes to the end, an old one stays where it is. -/
theorem keys_set (k : K) (v : V) (d : List (K × V)) :
    keys (set k v d) = if k ∈ keys d then keys d else keys d ++ [k] := by
  induction d with
  | nil => rfl
  | cons entry d ih =>
    obtain ⟨k₁, v₁⟩ := entry
    unfold set
    by_cases hk : k₁ = k
    · subst hk
      have hmem : k₁ ∈ keys ((k₁, v₁) :: d) := List.mem_cons_self
      rw [if_pos rfl, if_pos hmem]
      rfl
    · rw [if_neg hk]
      show k₁ :: keys (set k v d) = _
      rw [ih]
      show (k₁ :: if k ∈ keys d then keys d else keys d ++ [k]) =
        if k ∈ k₁ :: keys d then k₁ :: keys d else k₁ :: keys d ++ [k]
      by_cases hmem : k ∈ keys d <;> simp [hmem, Ne.symm hk]

theorem nodup_keys_set (k : K) (v : V) {d : List (K × V)} (h : (keys d).Nodup) :
    (keys (set k v d)).Nodup := by
  rw [keys_set]
  split
  · exact h
  next hnew => exact List.nodup_append.mpr ⟨h, List.nodup_singleton k, by
      rintro a ha b hb rfl
      exact hnew (List.mem_singleton.mp hb ▸ ha)⟩

theorem mem_keys_iff {k : K} {d : List (K × V)} : k ∈ keys d ↔ (d.lookup k).isSome := by
  induction d with
  | nil => simp [keys]
  | cons entry d ih =>
    obtain ⟨k₁, v₁⟩ := entry
    show k ∈ k₁ :: keys d ↔ _
    rw [List.mem_cons, ih, lookup_entry]
    by_cases h : k = k₁ <;> simp [h]

theorem lookup_of_mem {k : K} {v : V} {d : List (K × V)} (hnodup : (keys d).Nodup)
    (h : (k, v) ∈ d) : d.lookup k = some v := by
  induction d with
  | nil => exact absurd h List.not_mem_nil
  | cons entry d ih =>
    obtain ⟨k₁, v₁⟩ := entry
    have hnodup : k₁ ∉ keys d ∧ (keys d).Nodup := List.nodup_cons.mp hnodup
    rw [lookup_entry]
    rcases List.mem_cons.mp h with heq | hmem
    · obtain ⟨rfl, rfl⟩ := Prod.mk.inj heq
      exact if_pos rfl
    · have hne : k ≠ k₁ := by
        rintro rfl
        exact hnodup.1 (List.mem_map_of_mem hmem)
      rw [if_neg hne]
      exact ih hnodup.2 hmem

theorem mem_of_lookup {k : K} {v : V} {d : List (K × V)} (h : d.lookup k = some v) :
    (k, v) ∈ d := by
  obtain ⟨before, after, rfl, _⟩ := List.lookup_eq_some_iff.mp h
  exact List.mem_append_right _ List.mem_cons_self

end InsertionDict
