/-
# Tables of buckets

General infrastructure for a table that holds a list, its *bucket*, for each key: what
all its buckets hold together, as a multiset.

Replacing a bucket moves its elements and no others (`elems_insert`), so a program that
takes the elements out of a bucket, one after the other, loses none of them.
-/
import Mathlib

namespace Buckets

variable {K α : Type*} [DecidableEq K]

/-- The bucket of a key. -/
def bucket (table : AList fun _ : K => List α) (key : K) : List α := (table.lookup key).getD []

/-- The elements of all buckets. -/
def elems (table : AList fun _ : K => List α) : Multiset α :=
  table.entries.flatMap fun entry => entry.2

theorem bucket_of_lookup {table : AList fun _ : K => List α} {key : K} {xs : List α}
    (hlookup : table.lookup key = some xs) : bucket table key = xs := by
  unfold bucket
  rw [hlookup]
  rfl

@[simp] theorem bucket_insert (table : AList fun _ : K => List α) (key : K) (xs : List α) :
    bucket (table.insert key xs) key = xs :=
  bucket_of_lookup (AList.lookup_insert table)

theorem bucket_insert_ne {key key' : K} (hne : key' ≠ key) (table : AList fun _ : K => List α)
    (xs : List α) : bucket (table.insert key xs) key' = bucket table key' := by
  unfold bucket
  rw [AList.lookup_insert_ne hne]

theorem bucket_erase_ne {key key' : K} (hne : key' ≠ key) (table : AList fun _ : K => List α) :
    bucket (table.erase key) key' = bucket table key' := by
  unfold bucket
  rw [AList.lookup_erase_ne hne]

@[simp] theorem bucket_erase (table : AList fun _ : K => List α) (key : K) :
    bucket (table.erase key) key = [] := by
  unfold bucket
  rw [AList.lookup_erase]
  rfl

/-- A bucket, and what the others hold. -/
theorem elems_erase (table : AList fun _ : K => List α) (key : K) :
    elems table = elems (table.erase key) + (bucket table key : Multiset α) := by
  by_cases hkey : key ∈ table
  · obtain ⟨xs, first, last, hfirst, hsplit, herase⟩ :=
      List.exists_of_kerase (AList.mem_keys.mp hkey)
    have hlookup : table.lookup key = some xs := by
      unfold AList.lookup
      rw [hsplit, List.dlookup_append, List.dlookup_eq_none.mpr hfirst]
      exact List.dlookup_cons_eq _ _ _
    have herase' : (table.erase key).entries = first ++ last := herase
    rw [bucket_of_lookup hlookup]
    unfold elems
    rw [hsplit, herase', Multiset.coe_add, Multiset.coe_eq_coe]
    simp only [List.flatMap_append, List.flatMap_cons, List.append_assoc]
    exact (List.perm_append_comm).append_left _
  · have hnone : table.lookup key = none := AList.lookup_eq_none.mpr hkey
    have herase : table.erase key = table := AList.ext (List.kerase_of_notMem_keys hkey)
    unfold bucket
    rw [hnone, herase, Option.getD_none, Multiset.coe_nil, add_zero]

/-- A new bucket takes the place of the old one. -/
theorem elems_insert (table : AList fun _ : K => List α) (key : K) (xs : List α) :
    elems (table.insert key xs) = elems (table.erase key) + (xs : Multiset α) := by
  have herase : (table.insert key xs).erase key = table.erase key := by
    apply AList.ext
    -- an insertion puts the new entry in front
    change List.kerase key (List.kinsert key xs table.entries) = List.kerase key table.entries
    rw [List.kinsert_def]
    exact @List.kerase_cons_eq K (fun _ => List α) _ key ⟨key, xs⟩ _ rfl
  rw [elems_erase _ key, herase, bucket_insert]

theorem mem_elems {table : AList fun _ : K => List α} {x : α} :
    x ∈ elems table ↔ ∃ key xs, table.lookup key = some xs ∧ x ∈ xs := by
  unfold elems
  rw [Multiset.mem_coe, List.mem_flatMap]
  constructor
  · rintro ⟨⟨key, xs⟩, hentry, hx⟩
    exact ⟨key, xs, AList.mem_lookup_iff.mpr hentry, hx⟩
  · rintro ⟨key, xs, hlookup, hx⟩
    exact ⟨⟨key, xs⟩, AList.mem_lookup_iff.mp hlookup, hx⟩

end Buckets
