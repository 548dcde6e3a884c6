/-
# The handle tables of a process (`src/lib/umap.cpp`)

Every kind of runtime object has one table for each process, from the index in a descriptor to
the handle of the object.  The keys are generated: each is the hash of the one before, starting
from a seed that is a constant of the kind of object, so that all processes generate the same
keys in the same order.

The tables are used under their lock, and `malloc` does not fail.
-/
import Mathlib

/-- `_hash`: one step of splitmix64. -/
@[irreducible] def umapHash (x : UInt64) : UInt64 :=
  let z := x + 0x9e3779b97f4a7c15
  let z := (z ^^^ (z >>> 30)) * 0xbf58476d1ce4e5b9
  let z := (z ^^^ (z >>> 27)) * 0x94d049bb133111eb
  z ^^^ (z >>> 31)

/-- The loop of `dragonMap::new_key`, which hashes until the key is not zero.  Zero is not its
own hash, so that there is no third turn. -/
def newKey (lkey : UInt64) : UInt64 :=
  if umapHash lkey = 0 then umapHash 0 else umapHash lkey

/-- The keys that a table generates from the last key `lkey`, counted from zero. -/
def keyAfter (lkey : UInt64) (n : ℕ) : UInt64 := newKey (newKey^[n] lkey)

/-- `dragonMap`: the items, and the key that was generated last. -/
structure Umap (α : Type*) where
  dMap : UInt64 → Option α
  lkey : UInt64

namespace Umap

variable {α : Type*}

/-- `dragon_umap_create`. -/
def create (seed : UInt64) : Umap α := ⟨fun _ => none, seed⟩

/-- `dragon_umap_additem_genkey`: the table with the new item, and its key. -/
def addItemGenKey (map : Umap α) (data : α) : Umap α × UInt64 :=
  (⟨Function.update map.dMap (newKey map.lkey) (some data), newKey map.lkey⟩, newKey map.lkey)

/-- `dragon_umap_delitem`. -/
def delItem (map : Umap α) (key : UInt64) : Umap α :=
  { map with dMap := Function.update map.dMap key none }

theorem addItemGenKey_dMap (map : Umap α) (data : α) :
    (map.addItemGenKey data).1.dMap = Function.update map.dMap (newKey map.lkey) (some data) := rfl

/-- An item is found under its key. -/
theorem addItemGenKey_find (map : Umap α) (data : α) :
    (map.addItemGenKey data).1.dMap (map.addItemGenKey data).2 = some data :=
  Function.update_self _ _ _

theorem delItem_dMap (map : Umap α) (key : UInt64) :
    (map.delItem key).dMap = Function.update map.dMap key none := rfl

section Tables

/-! A process has no table until the first item is added. -/

variable {P : Type*} [DecidableEq P] {tables : P → Option (Umap α)} {p q : P} {key : UInt64}
  {item : α}

/-- An item that is found after one was added is that one, or was found before. -/
theorem find_of_addItemGenKey {seed : UInt64} {data : α}
    (h : (Function.update tables q (some (((tables q).getD (.create seed)).addItemGenKey data).1)
      p).bind (fun map => map.dMap key) = some item) :
    (q = p ∧ data = item) ∨ (tables p).bind (fun map => map.dMap key) = some item := by
  by_cases hp : p = q
  · subst hp
    rw [Function.update_self, Option.bind_some, addItemGenKey_dMap] at h
    by_cases hkey : key = newKey ((tables p).getD (.create seed)).lkey
    · rw [hkey, Function.update_self] at h
      exact .inl ⟨rfl, Option.some.inj h⟩
    · rw [Function.update_of_ne hkey] at h
      -- the item was in the table before, so there was a table
      cases htable : tables p with
      | none =>
        rw [htable] at h
        exact absurd h.symm (Option.some_ne_none item)
      | some map =>
        rw [htable] at h
        exact .inr h
  · rw [Function.update_of_ne hp] at h
    exact .inr h

/-- An item that is found after the entry of a key was set is the new one, or was found before. -/
theorem find_of_update {key' : UInt64} {entry : Option α}
    (h : (Function.update tables q ((tables q).map fun map =>
      { map with dMap := Function.update map.dMap key' entry }) p).bind (fun map => map.dMap key) =
        some item) :
    (q = p ∧ entry = some item) ∨ (tables p).bind (fun map => map.dMap key) = some item := by
  by_cases hp : p = q
  · subst hp
    rw [Function.update_self] at h
    obtain ⟨map', hmap', hitem⟩ := Option.bind_eq_some_iff.mp h
    obtain ⟨map, hmap, rfl⟩ := Option.map_eq_some_iff.mp hmap'
    dsimp only at hitem
    by_cases hkey : key = key'
    · rw [hkey, Function.update_self] at hitem
      exact .inl ⟨rfl, hitem⟩
    · rw [Function.update_of_ne hkey] at hitem
      rw [hmap]
      exact .inr hitem
  · rw [Function.update_of_ne hp] at h
    exact .inr h

theorem find_of_delItem {key' : UInt64}
    (h : (Function.update tables q ((tables q).map (fun map => map.delItem key')) p).bind
      (fun map => map.dMap key) = some item) :
    (tables p).bind (fun map => map.dMap key) = some item :=
  (find_of_update h).resolve_left fun hentry => Option.some_ne_none item hentry.2.symm

end Tables

/-- The last key and the keys of all items are among those that are generated from the seed. -/
structure WellKeyed (seed : UInt64) (map : Umap α) : Prop where
  generated : ∃ n, map.lkey = newKey^[n] seed
  keyed : ∀ key, map.dMap key ≠ none → ∃ n, key = keyAfter seed n

theorem WellKeyed.create (seed : UInt64) : (Umap.create seed : Umap α).WellKeyed seed :=
  ⟨⟨0, rfl⟩, fun _ h => absurd rfl h⟩

/-- A new item gets the next key of the sequence. -/
theorem WellKeyed.addItemGenKey {seed : UInt64} {map : Umap α} (h : map.WellKeyed seed)
    (data : α) : (map.addItemGenKey data).1.WellKeyed seed := by
  obtain ⟨n, hn⟩ := h.generated
  have hkey : newKey map.lkey = keyAfter seed n := by rw [keyAfter, hn]
  refine ⟨⟨n + 1, ?_⟩, ?_⟩
  · rw [Function.iterate_succ_apply', ← hn]
    rfl
  · intro key hne
    by_cases heq : key = newKey map.lkey
    · exact ⟨n, heq.trans hkey⟩
    · apply h.keyed key
      rwa [addItemGenKey_dMap, Function.update_of_ne heq] at hne

theorem WellKeyed.delItem {seed : UInt64} {map : Umap α} (h : map.WellKeyed seed)
    (key : UInt64) : (map.delItem key).WellKeyed seed := by
  refine ⟨h.generated, ?_⟩
  intro key' hne
  apply h.keyed key'
  intro hnone
  apply hne
  rw [delItem_dMap]
  by_cases heq : key' = key
  · rw [heq, Function.update_self]
  · rw [Function.update_of_ne heq, hnone]

end Umap
