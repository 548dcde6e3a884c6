/-
# Merging many queues with a heap

General infrastructure for the merge of any number of queues.  The heap holds the first item of
each queue that is not empty; the least entry is popped, its item is put out, and the next item of
its queue is pushed.  An entry carries what is left of its queue.

The heap is a parameter: whatever comparator it is given, it returns one of its entries and keeps
the others, and no other entry is less than that one if the comparator is a strict weak order.

The result is a permutation of the items for any comparator, and it is in order if every queue is
and the comparator is a strict weak order.
-/
import Mathlib

/-- An irreflexive and transitive relation, for which not being less is transitive as well. -/
structure StrictWeakOrder {V : Type*} (lt : V → V → Bool) : Prop where
  irrefl : ∀ a, lt a a = false
  trans : ∀ a b c, lt a b = true → lt b c = true → lt a c = true
  incomp : ∀ a b c, lt b a = false → lt c b = false → lt c a = false

/-- No item comes before an earlier one. -/
def InOrder {V : Type*} (lt : V → V → Bool) (l : List V) : Prop :=
  l.Pairwise fun a b => lt b a = false

/-- An item, with what is left of its queue. -/
structure MergeEntry (V : Type*) where
  value : V
  queue : List V

namespace MergeEntry

variable {V : Type*}

/-- The items of the queue of an entry, its own item first. -/
def items (e : MergeEntry V) : List V := e.value :: e.queue

/-- The entry of a queue, if there is an item in it. -/
def ofQueue : List V → List (MergeEntry V)
  | [] => []
  | value :: queue => [⟨value, queue⟩]

theorem flatMap_items_ofQueue (q : List V) : (ofQueue q).flatMap items = q := by
  cases q <;> simp [ofQueue, items]

theorem items_of_mem_ofQueue {q : List V} {e : MergeEntry V} (he : e ∈ ofQueue q) :
    e.items = q := by
  cases q with
  | nil => simp [ofQueue] at he
  | cons value queue =>
    obtain rfl : e = ⟨value, queue⟩ := by simpa [ofQueue] using he
    rfl

end MergeEntry

/-- A heap of entries. -/
structure EntryHeap {V : Type*} (lt : V → V → Bool) where
  pop : List (MergeEntry V) → Option (MergeEntry V × List (MergeEntry V))
  pop_eq_none : ∀ {pq}, pop pq = none → pq = []
  perm : ∀ {pq e rest}, pop pq = some (e, rest) → pq.Perm (e :: rest)
  least : StrictWeakOrder lt → ∀ {pq e rest}, pop pq = some (e, rest) →
    ∀ x ∈ rest, lt x.value e.value = false

/-- The first one of the least entries, by a scan from the end. -/
def scanPop {V : Type*} (lt : V → V → Bool) :
    List (MergeEntry V) → Option (MergeEntry V × List (MergeEntry V))
  | [] => none
  | e :: pq =>
    match scanPop lt pq with
    | none => some (e, [])
    | some (x, rest) => if lt x.value e.value then some (x, e :: rest) else some (e, x :: rest)

theorem scanPop_spec {V : Type*} (lt : V → V → Bool) (pq : List (MergeEntry V)) :
    (scanPop lt pq = none → pq = []) ∧
      ∀ e rest, scanPop lt pq = some (e, rest) → pq.Perm (e :: rest) ∧
        (StrictWeakOrder lt → ∀ x ∈ rest, lt x.value e.value = false) := by
  induction pq with
  | nil => exact ⟨fun _ => rfl, fun e rest h => (by cases h)⟩
  | cons e pq ih =>
    rw [scanPop]
    cases hscan : scanPop lt pq with
    | none =>
      obtain rfl := ih.1 hscan
      refine ⟨fun h => (by cases h), fun x rest h => ?_⟩
      cases h
      exact ⟨List.Perm.refl _, fun _ x hx => (by cases hx)⟩
    | some r =>
      obtain ⟨x, rest⟩ := r
      obtain ⟨hperm, hleast⟩ := ih.2 x rest hscan
      dsimp only
      split_ifs with hlt
      · refine ⟨fun h => (by cases h), fun y rest' h => ?_⟩
        cases h
        refine ⟨(hperm.cons e).trans (List.Perm.swap x e rest), fun hswo y hy => ?_⟩
        rcases List.mem_cons.mp hy with rfl | hy
        · -- two entries are not less than each other
          cases hback : lt y.value x.value with
          | false => rfl
          | true => exact absurd (hswo.trans _ _ _ hlt hback) (by simp [hswo.irrefl])
        · exact hleast hswo y hy
      · refine ⟨fun h => (by cases h), fun y rest' h => ?_⟩
        cases h
        refine ⟨hperm.cons e, fun hswo y hy => ?_⟩
        have hx : lt x.value e.value = false := by simpa using hlt
        rcases List.mem_cons.mp hy with rfl | hy
        · exact hx
        · exact hswo.incomp _ _ _ hx (hleast hswo y hy)

/-- A heap that scans its entries. -/
def scanHeap {V : Type*} (lt : V → V → Bool) : EntryHeap lt where
  pop := scanPop lt
  pop_eq_none h := (scanPop_spec lt _).1 h
  perm h := ((scanPop_spec lt _).2 _ _ h).1
  least hlt _ _ _ h := ((scanPop_spec lt _).2 _ _ h).2 hlt

namespace EntryHeap

variable {V : Type*} {lt : V → V → Bool} (heap : EntryHeap lt)

/-- How many items there are still to be put out. -/
def itemCount (pq : List (MergeEntry V)) : ℕ := (pq.map fun e => e.queue.length + 1).sum

theorem itemCount_append (pq pq' : List (MergeEntry V)) :
    itemCount (pq ++ pq') = itemCount pq + itemCount pq' := by
  simp [itemCount]

theorem itemCount_ofQueue (q : List V) : itemCount (MergeEntry.ofQueue q) = q.length := by
  cases q <;> simp [itemCount, MergeEntry.ofQueue]

theorem itemCount_of_pop {pq rest : List (MergeEntry V)} {e : MergeEntry V}
    (h : heap.pop pq = some (e, rest)) :
    itemCount pq = itemCount rest + e.queue.length + 1 := by
  have hsum := ((heap.perm h).map fun e => e.queue.length + 1).sum_eq
  simp only [List.map_cons, List.sum_cons] at hsum
  simp only [itemCount]
  omega

/-- The merge loop. -/
def merge (pq : List (MergeEntry V)) : List V :=
  match _h : heap.pop pq with
  | none => []
  | some (item, rest) => item.value :: merge (MergeEntry.ofQueue item.queue ++ rest)
termination_by itemCount pq
decreasing_by
  have hcount := heap.itemCount_of_pop _h
  rw [itemCount_append, itemCount_ofQueue]
  omega

theorem merge_of_none {pq : List (MergeEntry V)} (h : heap.pop pq = none) :
    heap.merge pq = [] := by
  rw [merge]
  split
  · rfl
  · rename_i heq
    rw [h] at heq
    cases heq

theorem merge_of_some {pq rest : List (MergeEntry V)} {e : MergeEntry V}
    (h : heap.pop pq = some (e, rest)) :
    heap.merge pq = e.value :: heap.merge (MergeEntry.ofQueue e.queue ++ rest) := by
  rw [merge]
  split
  · rename_i heq
    rw [h] at heq
    cases heq
  · rename_i heq
    rw [h] at heq
    cases heq
    rfl

/-- **Induction along the merge loop.** -/
theorem merge_induction {P : List (MergeEntry V) → Prop} (hnil : P [])
    (hpop : ∀ pq e rest, heap.pop pq = some (e, rest) →
      P (MergeEntry.ofQueue e.queue ++ rest) → P pq) (pq : List (MergeEntry V)) : P pq := by
  induction hn : itemCount pq using Nat.strong_induction_on generalizing pq with
  | _ n ih =>
    cases h : heap.pop pq with
    | none => exact heap.pop_eq_none h ▸ hnil
    | some r =>
      obtain ⟨e, rest⟩ := r
      have hcount := heap.itemCount_of_pop h
      refine hpop pq e rest h (ih _ ?_ _ rfl)
      rw [itemCount_append, itemCount_ofQueue]
      omega

theorem merge_nil : heap.merge [] = [] := by
  cases h : heap.pop [] with
  | none => exact heap.merge_of_none h
  | some r =>
    obtain ⟨e, rest⟩ := r
    exact absurd (heap.perm h).length_eq (by simp)

/-- Every item is put out, as often as it is in the queues. -/
theorem merge_perm (pq : List (MergeEntry V)) :
    (heap.merge pq).Perm (pq.flatMap MergeEntry.items) := by
  induction pq using heap.merge_induction with
  | hnil =>
    rw [merge_nil]
    rfl
  | hpop _ e _ h ih =>
    rw [heap.merge_of_some h]
    rw [List.flatMap_append, MergeEntry.flatMap_items_ofQueue] at ih
    have hpq := (heap.perm h).flatMap_right MergeEntry.items
    rw [List.flatMap_cons] at hpq
    exact (ih.cons e.value).trans hpq.symm

/-- If every queue is in order, so is what is put out. -/
theorem merge_inOrder (hlt : StrictWeakOrder lt) {pq : List (MergeEntry V)}
    (horder : ∀ e ∈ pq, InOrder lt e.items) : InOrder lt (heap.merge pq) := by
  induction pq using heap.merge_induction with
  | hnil =>
    rw [merge_nil]
    exact List.Pairwise.nil
  | hpop pq e rest h ih =>
    rw [heap.merge_of_some h]
    have hmem : ∀ x, x ∈ pq ↔ x = e ∨ x ∈ rest := fun x => by
      rw [(heap.perm h).mem_iff, List.mem_cons]
    have he := horder e ((hmem e).mpr (Or.inl rfl))
    refine List.Pairwise.cons (fun b hb => ?_) (ih fun x hx => ?_)
    · -- what is left is in the queue of the entry, or in a queue with a head that is not less
      rw [(heap.merge_perm _).mem_iff, List.flatMap_append, MergeEntry.flatMap_items_ofQueue,
        List.mem_append, List.mem_flatMap] at hb
      rcases hb with hb | ⟨x, hx, hb⟩
      · exact List.rel_of_pairwise_cons he hb
      · have hhead := heap.least hlt h x hx
        rcases List.mem_cons.mp hb with rfl | hb
        · exact hhead
        · have hqueue := horder x ((hmem x).mpr (Or.inr hx))
          exact hlt.incomp _ _ _ hhead (List.rel_of_pairwise_cons hqueue hb)
    · rcases List.mem_append.mp hx with hx | hx
      · rw [MergeEntry.items_of_mem_ofQueue hx]
        exact he.of_cons
      · exact horder x ((hmem x).mpr (Or.inr hx))

end EntryHeap
