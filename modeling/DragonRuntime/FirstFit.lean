/-
# First fit among sorted ranges

A range is a base and a size.  Ranges that are packed between two bounds (`Packed`) are sorted,
apart and inside the bounds.  The search for the first gap that is large enough (`search`) finds one
unless there is none, and the ranges with a new one in that gap, once they are sorted again, are
packed.
-/
import Mathlib

namespace FirstFit

abbrev Range : Type := ℤ × ℕ

/-- The order of ranges, by base and then by size. -/
def Le (r r' : Range) : Prop := r.1 < r'.1 ∨ r.1 = r'.1 ∧ r.2 ≤ r'.2

instance : DecidableRel Le :=
  fun r r' => inferInstanceAs (Decidable (r.1 < r'.1 ∨ r.1 = r'.1 ∧ r.2 ≤ r'.2))

instance : Std.Total Le := ⟨fun r r' => by unfold Le; omega⟩

instance : IsTrans Range Le := ⟨fun r r' r'' => by unfold Le; omega⟩

theorem le_antisymm {r r' : Range} (h : Le r r') (h' : Le r' r) : r = r' := by
  obtain ⟨base, size⟩ := r
  obtain ⟨base', size'⟩ := r'
  unfold Le at h h'
  obtain ⟨hbase, hsize⟩ : base = base' ∧ size = size' := by
    simp only at h h'
    omega
  rw [hbase, hsize]

def sort (ranges : List Range) : List Range := ranges.insertionSort Le

/-- The first place for a range of some size, between the bounds and before, between or after the
ranges. -/
def search (size : ℕ) (stop : ℤ) : ℤ → List Range → Option ℤ
  | start, [] => if size ≤ stop - start then some start else none
  | start, r :: ranges =>
    if size ≤ r.1 - start then some start else search size stop (r.1 + r.2) ranges

/-- Ranges one after the other between two bounds, none of them empty. -/
def Packed (stop : ℤ) : ℤ → List Range → Prop
  | start, [] => start ≤ stop
  | start, r :: ranges => start ≤ r.1 ∧ 0 < r.2 ∧ Packed stop (r.1 + r.2) ranges

/-- Two ranges have no number in common. -/
def Apart (r r' : Range) : Prop := r.1 + r.2 ≤ r'.1 ∨ r'.1 + r'.2 ≤ r.1

/-- There is a place for a range of some size. -/
def Fits (size : ℕ) (start stop : ℤ) (ranges : List Range) : Prop :=
  ∃ base, start ≤ base ∧ base + size ≤ stop ∧ ∀ r ∈ ranges, Apart (base, size) r

section

variable {stop start start' : ℤ} {ranges : List Range} {r : Range} {size : ℕ} {base : ℤ}

theorem Packed.le (h : Packed stop start ranges) : start ≤ stop := by
  induction ranges generalizing start with
  | nil => exact h
  | cons r ranges ih =>
    obtain ⟨hstart, _, hrest⟩ := h
    have hle := ih hrest
    omega

theorem Packed.mono (h : Packed stop start ranges) (hle : start' ≤ start) :
    Packed stop start' ranges := by
  cases ranges with
  | nil => exact hle.trans h
  | cons r ranges => exact ⟨hle.trans h.1, h.2⟩

theorem Packed.inside (h : Packed stop start ranges) :
    ∀ r ∈ ranges, start ≤ r.1 ∧ 0 < r.2 ∧ r.1 + r.2 ≤ stop := by
  induction ranges generalizing start with
  | nil => exact fun r hr => absurd hr List.not_mem_nil
  | cons r ranges ih =>
    obtain ⟨hstart, hsize, hrest⟩ := h
    intro r' hr'
    rcases List.mem_cons.mp hr' with rfl | hmem
    · exact ⟨hstart, hsize, hrest.le⟩
    · obtain ⟨hbase, hsize', hstop⟩ := ih hrest r' hmem
      refine ⟨?_, hsize', hstop⟩
      omega

theorem Packed.pairwise (h : Packed stop start ranges) :
    ranges.Pairwise fun r r' : Range => r.1 + r.2 ≤ r'.1 := by
  induction ranges generalizing start with
  | nil => exact .nil
  | cons r ranges ih => exact .cons (fun r' hr' => (h.2.2.inside r' hr').1) (ih h.2.2)

theorem Packed.sorted (h : Packed stop start ranges) : ranges.Pairwise Le := by
  refine h.pairwise.imp_of_mem ?_
  intro r r' hr _ hle
  have hsize := (h.inside r hr).2.1
  unfold Le
  omega

theorem Packed.erase (h : Packed stop start ranges) (r : Range) :
    Packed stop start (ranges.erase r) := by
  induction ranges generalizing start with
  | nil => exact h
  | cons r' ranges ih =>
    obtain ⟨hstart, hsize, hrest⟩ := h
    rw [List.erase_cons]
    split
    · exact hrest.mono (by omega)
    · exact ⟨hstart, hsize, ih hrest⟩

theorem search_some (h : Packed stop start ranges) (hsize : 0 < size)
    (hsearch : search size stop start ranges = some base) :
    ∃ before after, ranges = before ++ after ∧
      Packed stop start (before ++ (base, size) :: after) := by
  induction ranges generalizing start with
  | nil =>
    unfold search at hsearch
    obtain ⟨hgap, hbase⟩ := Option.ite_none_right_eq_some.mp hsearch
    obtain rfl := Option.some.inj hbase
    refine ⟨[], [], rfl, le_refl _, hsize, ?_⟩
    show start + size ≤ stop
    omega
  | cons r ranges ih =>
    obtain ⟨hstart, hpos, hrest⟩ := h
    unfold search at hsearch
    split at hsearch
    next hgap =>
      obtain rfl := Option.some.inj hsearch
      refine ⟨[], r :: ranges, rfl, le_refl _, hsize, ?_, hpos, hrest⟩
      show start + size ≤ r.1
      omega
    next =>
      obtain ⟨before, after, rfl, hpacked⟩ := ih hrest hsearch
      exact ⟨r :: before, after, rfl, hstart, hpos, hpacked⟩

theorem not_fits_of_search (hsearch : search size stop start ranges = none) :
    ¬ Fits size start stop ranges := by
  rintro ⟨base, hbase, hstop, hapart⟩
  induction ranges generalizing start with
  | nil =>
    unfold search at hsearch
    rw [if_pos (by omega)] at hsearch
    exact absurd hsearch nofun
  | cons r ranges ih =>
    unfold search at hsearch
    split at hsearch
    next => exact absurd hsearch nofun
    next hgap =>
      have hr := hapart r List.mem_cons_self
      refine ih hsearch ?_ fun r' hr' => hapart r' (List.mem_cons_of_mem _ hr')
      unfold Apart at hr
      simp only at hr
      omega

theorem fits_of_packed {before after : List Range}
    (h : Packed stop start (before ++ (base, size) :: after)) :
    Fits size start stop (before ++ after) := by
  have hmem : (base, size) ∈ before ++ (base, size) :: after :=
    List.mem_append_right _ List.mem_cons_self
  obtain ⟨hstart, _, hstop⟩ := h.inside _ hmem
  refine ⟨base, hstart, hstop, ?_⟩
  obtain ⟨_, hafter, hbefore⟩ := List.pairwise_append.mp h.pairwise
  intro r hr
  rcases List.mem_append.mp hr with hr | hr
  · exact .inr (hbefore r hr _ List.mem_cons_self)
  · exact .inl ((List.pairwise_cons.mp hafter).1 r hr)

/-- **The search is exact.** -/
theorem search_isSome_iff (h : Packed stop start ranges) (hsize : 0 < size) :
    (search size stop start ranges).isSome ↔ Fits size start stop ranges := by
  constructor
  · intro hsome
    obtain ⟨base, hbase⟩ := Option.isSome_iff_exists.mp hsome
    obtain ⟨before, after, rfl, hpacked⟩ := search_some h hsize hbase
    exact fits_of_packed hpacked
  · intro hfits
    by_contra hnone
    exact not_fits_of_search (Option.not_isSome_iff_eq_none.mp hnone) hfits

theorem sort_append {before after : List Range}
    (h : Packed stop start (before ++ (base, size) :: after)) :
    sort (before ++ after ++ [(base, size)]) = before ++ (base, size) :: after := by
  refine List.Perm.eq_of_pairwise (fun _ _ _ _ => le_antisymm)
    (List.pairwise_insertionSort Le _) h.sorted ?_
  refine (List.perm_insertionSort Le _).trans ?_
  rw [List.append_assoc]
  exact (List.perm_append_singleton _ after).append_left before

/-- **The ranges stay packed.** -/
theorem packed_sort (h : Packed stop start ranges) (hsize : 0 < size)
    (hsearch : search size stop start ranges = some base) :
    Packed stop start (sort (ranges ++ [(base, size)])) := by
  obtain ⟨before, after, rfl, hpacked⟩ := search_some h hsize hsearch
  rw [sort_append hpacked]
  exact hpacked

end

end FirstFit
