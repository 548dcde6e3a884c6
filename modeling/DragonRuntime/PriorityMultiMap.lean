/-
# The timeout map of Global Services (`src/dragon/infrastructure/util.py`)

`PriorityMultiMap` holds the requests that wait for something, by key, and those of them that have a
deadline in a queue as well.  Entries of the queue are not taken out when their request is removed.
They stay until their deadline, and `get_timed_out` passes over those whose key is dead.

Conventions:

* the queue of `heapq` is the list of its entries in their order, so that the first one is
  `timeout_pq[0]`;
* dictionaries are functions to `Option`; the tests of `deadlines` for emptiness change nothing and
  are left out;
* the time of a call is an argument of it, and times are any linear order with an addition.
-/
import DragonRuntime.Runs

/-- An entry of the queue, with the order of the tuples `(deadline, key, value)`. -/
abbrev TimeoutEntry (T K V : Type*) := T ×ₗ K ×ₗ V

namespace TimeoutEntry

variable {T K V : Type*}

def mk (deadline : T) (pair : K × V) : TimeoutEntry T K V := toLex (deadline, toLex pair)

def deadline (e : TimeoutEntry T K V) : T := (ofLex e).1

def pair (e : TimeoutEntry T K V) : K × V := ofLex (ofLex e).2

theorem deadline_le_of_le [LinearOrder T] [LinearOrder K] [LinearOrder V]
    {e e' : TimeoutEntry T K V} (h : e ≤ e') : e.deadline ≤ e'.deadline := by
  obtain hlt | ⟨heq, -⟩ := Prod.Lex.le_iff.mp h
  · exact hlt.le
  · exact heq.le

end TimeoutEntry

/-- `PriorityMultiMap` -/
structure PriorityMultiMap (T K V : Type*) where
  internalItems : K → Option (Finset V)
  deadKeys : Finset K
  timeoutKeys : Finset K
  timeoutPq : List (TimeoutEntry T K V)
  deadlines : K × V → Option T

namespace PriorityMultiMap

variable {T K V : Type*} [LinearOrder T] [Add T] [LinearOrder K] [LinearOrder V]

/-- `__init__` -/
def init : PriorityMultiMap T K V :=
  ⟨fun _ => none, ∅, ∅, [], fun _ => none⟩

/-- `put` -/
def put (m : PriorityMultiMap T K V) (key : K) (value : V) (timeout : Option T) (now : T) :
    PriorityMultiMap T K V :=
  let m := { m with
    internalItems := Function.update m.internalItems key
      (some (insert value ((m.internalItems key).getD ∅))) }
  match timeout with
  | none => m
  | some timeout =>
    { m with
      deadlines := Function.update m.deadlines (key, value) (some (now + timeout))
      timeoutPq := m.timeoutPq.orderedInsert (· ≤ ·) (.mk (now + timeout) (key, value))
      timeoutKeys := insert key m.timeoutKeys
      deadKeys := m.deadKeys.erase key }

/-- The loop of `get_timed_out`: what it returns, and what it leaves of the queue and of the
deadlines. -/
def popTimedOut (deadKeys : Finset K) (now : T) :
    List (TimeoutEntry T K V) → (K × V → Option T) →
      List (K × V) × List (TimeoutEntry T K V) × (K × V → Option T)
  | [], deadlines => ([], [], deadlines)
  | e :: pq, deadlines =>
    if e.deadline ≤ now then
      let r := popTimedOut deadKeys now pq (Function.update deadlines e.pair none)
      (if e.pair.1 ∈ deadKeys then r.1 else e.pair :: r.1, r.2)
    else ([], e :: pq, deadlines)

/-- `get_timed_out` -/
def getTimedOut (m : PriorityMultiMap T K V) (now : T) : List (K × V) × PriorityMultiMap T K V :=
  let r := popTimedOut m.deadKeys now m.timeoutPq m.deadlines
  (r.1,
    { m with
      timeoutPq := r.2.1
      deadlines := r.2.2
      deadKeys := if r.2.1 = [] then ∅ else m.deadKeys })

/-- `remove` -/
def remove (m : PriorityMultiMap T K V) (k : K) : PriorityMultiMap T K V :=
  let m := { m with
    deadlines := fun p =>
      if p.1 = k ∧ p.2 ∈ (m.internalItems k).getD ∅ then none else m.deadlines p
    internalItems := Function.update m.internalItems k none }
  if k ∈ m.timeoutKeys then
    { m with deadKeys := insert k m.deadKeys, timeoutKeys := m.timeoutKeys.erase k }
  else m

/-- `remove_one`, `none` for a `KeyError`. -/
def removeOne (m : PriorityMultiMap T K V) (k : K) (v : V) : Option (PriorityMultiMap T K V) :=
  (m.internalItems k).map fun values =>
    let m :=
      if v ∈ values then
        let m := { m with
          internalItems := Function.update m.internalItems k (some (values.erase v)) }
        if values.erase v = ∅ then m.remove k else m
      else m
    { m with deadlines := Function.update m.deadlines (k, v) none }

end PriorityMultiMap

/-! ## The calls and what becomes of the requests -/

/-- A call, those that look at the clock with the time. -/
inductive TimeoutCall (T K V : Type*) where
  | put (key : K) (value : V) (timeout : Option T) (now : T)
  | remove (k : K)
  | removeOne (k : K) (v : V)
  | getTimedOut (now : T)

/-- The requests that were put, those with a deadline, those that were removed, those that
`get_timed_out` has returned, and those whose deadline a call of `get_timed_out` has reached. -/
structure Requests (T K V : Type*) where
  put : List (K × V)
  timed : List (T × K × V)
  removed : List (K × V)
  returned : List (K × V)
  reached : List (K × V)

namespace Requests

variable {T K V : Type*} [LinearOrder T] [Add T] [LinearOrder K] [LinearOrder V]

/-- All values of a key were removed. -/
def Finished (r : Requests T K V) (k : K) : Prop :=
  (∃ p ∈ r.put, p.1 = k) ∧ ∀ p ∈ r.put, p.1 = k → p ∈ r.removed

instance (r : Requests T K V) (k : K) : Decidable (r.Finished k) :=
  inferInstanceAs (Decidable (_ ∧ _))

/-- A list has the requests that are due, each once and in the order of their deadlines. -/
def Answers (r : Requests T K V) (now : T) (rv : List (K × V)) : Prop :=
  ∃ entries : List (T × K × V),
    rv = entries.map Prod.snd ∧ rv.Nodup ∧ entries.Pairwise (fun e e' => e.1 ≤ e'.1) ∧
      ∀ e, e ∈ entries ↔ e ∈ r.timed ∧ e.1 ≤ now ∧ e.2 ∉ r.removed ∧ e.2 ∉ r.returned

/-- Where a request was removed before its deadline was reached, all of its key was removed. -/
def NoStale (r : Requests T K V) (now : T) : Prop :=
  ∀ e ∈ r.timed, e.1 ≤ now → e.2 ∈ r.removed → e.2 ∉ r.reached → r.Finished e.2.1

/-- What a call and its answer add. -/
def note (r : Requests T K V) (rv : List (K × V)) : TimeoutCall T K V → Requests T K V
  | .put key value timeout now =>
    { r with
      put := (key, value) :: r.put
      timed := match timeout with
        | none => r.timed
        | some timeout => (now + timeout, key, value) :: r.timed }
  | .remove k => { r with removed := r.put.filter (fun p => p.1 = k) ++ r.removed }
  | .removeOne k v =>
    { r with removed := if (k, v) ∈ r.put then (k, v) :: r.removed else r.removed }
  | .getTimedOut now =>
    { r with
      returned := rv ++ r.returned
      reached := (r.timed.filter (fun e => e.1 ≤ now)).map Prod.snd ++ r.reached }

end Requests

namespace PriorityMultiMap

variable {T K V : Type*} [LinearOrder T] [Add T] [LinearOrder K] [LinearOrder V]

/-- The map after a call; a call that raises leaves it as it is. -/
def call (m : PriorityMultiMap T K V) : TimeoutCall T K V → List (K × V) × PriorityMultiMap T K V
  | .put key value timeout now => ([], m.put key value timeout now)
  | .remove k => ([], m.remove k)
  | .removeOne k v => ([], (m.removeOne k v).getD m)
  | .getTimedOut now => m.getTimedOut now

/-- A call on a map whose requests are on record. -/
def requestStep (s : PriorityMultiMap T K V × Requests T K V) (c : TimeoutCall T K V) :
    PriorityMultiMap T K V × Requests T K V :=
  ((s.1.call c).2, s.2.note (s.1.call c).1 c)

/-- No pair is put twice, and no key after all its values were removed. -/
def LegalCall (s : PriorityMultiMap T K V × Requests T K V) : TimeoutCall T K V → Prop
  | .put key value _ _ => (key, value) ∉ s.2.put ∧ ¬ s.2.Finished key
  | _ => True

instance (s : PriorityMultiMap T K V × Requests T K V) :
    ∀ c : TimeoutCall T K V, Decidable (LegalCall s c)
  | .put _ _ _ _ => inferInstanceAs (Decidable (_ ∧ _))
  | .remove _ => isTrue trivial
  | .removeOne _ _ => isTrue trivial
  | .getTimedOut _ => isTrue trivial

/-- A call of `get_timed_out` returns the requests that are due. -/
def RightAnswer (s : PriorityMultiMap T K V × Requests T K V) : TimeoutCall T K V → Prop
  | .getTimedOut now => s.2.Answers now (s.1.getTimedOut now).1
  | _ => True

/-- A call of `get_timed_out` reaches no request that was removed from a key with others left. -/
def NoStaleCall (s : PriorityMultiMap T K V × Requests T K V) : TimeoutCall T K V → Prop
  | .getTimedOut now => s.2.NoStale now
  | _ => True

/-- No call yet. -/
def noRequests : PriorityMultiMap T K V × Requests T K V := (init, ⟨[], [], [], [], []⟩)

end PriorityMultiMap

/-! ## What the map knows of the requests -/

namespace PriorityMultiMap

variable {T K V : Type*} [LinearOrder T] [LinearOrder K] [LinearOrder V]

/-- **The invariant.**  The queue has the requests with a deadline that was not reached, and among
their keys the dead ones are those of which everything was removed. -/
structure Inv (s : PriorityMultiMap T K V × Requests T K V) : Prop where
  sorted : s.1.timeoutPq.Pairwise (· ≤ ·)
  nodup : s.1.timeoutPq.Nodup
  mem_pq : ∀ e, e ∈ s.1.timeoutPq ↔ (e.deadline, e.pair) ∈ s.2.timed ∧ e.pair ∉ s.2.reached
  timed_put : ∀ e ∈ s.2.timed, e.2 ∈ s.2.put
  timed_unique : ∀ e ∈ s.2.timed, ∀ e' ∈ s.2.timed, e.2 = e'.2 → e = e'
  removed_put : ∀ p ∈ s.2.removed, p ∈ s.2.put
  reached_put : ∀ p ∈ s.2.reached, p ∈ s.2.put
  items : ∀ k v, v ∈ (s.1.internalItems k).getD ∅ ↔ (k, v) ∈ s.2.put ∧ (k, v) ∉ s.2.removed
  items_ne : ∀ k, s.1.internalItems k ≠ some ∅
  timeoutKeys : ∀ k, k ∈ s.1.timeoutKeys ↔
    (∃ e ∈ s.2.timed, e.2.1 = k) ∧ ¬ s.2.Finished k
  dead : ∀ k ∈ s.1.deadKeys, s.2.Finished k
  finished : ∀ e ∈ s.1.timeoutPq, s.2.Finished e.pair.1 → e.pair.1 ∈ s.1.deadKeys
  returned : ∀ p ∈ s.2.returned, p ∈ s.2.reached
  reached : ∀ p ∈ s.2.reached, p ∈ s.2.returned ∨ p ∈ s.2.removed

section Queue

variable (deadKeys : Finset K) (now : T)

/-- **The loop of `get_timed_out`** on a queue in order: it splits the queue at the time. -/
theorem popTimedOut_of_sorted {pq : List (TimeoutEntry T K V)} (hsorted : pq.Pairwise (· ≤ ·))
    (deadlines : K × V → Option T) :
    (popTimedOut deadKeys now pq deadlines).1 =
        (pq.filter fun e => e.deadline ≤ now ∧ e.pair.1 ∉ deadKeys).map TimeoutEntry.pair ∧
      (popTimedOut deadKeys now pq deadlines).2.1 = pq.filter fun e => now < e.deadline := by
  induction pq generalizing deadlines with
  | nil => exact ⟨rfl, rfl⟩
  | cons e pq ih =>
    obtain ⟨hfirst, hrest⟩ := List.pairwise_cons.mp hsorted
    by_cases hdue : e.deadline ≤ now
    · obtain ⟨hrv, hpq⟩ := ih hrest (Function.update deadlines e.pair none)
      have hlate : ¬ now < e.deadline := not_lt.mpr hdue
      unfold popTimedOut
      rw [if_pos hdue]
      constructor
      · by_cases hdead : e.pair.1 ∈ deadKeys
        · simp only [hdead, if_true, hrv, List.filter_cons, not_true, and_false, decide_false]
          rfl
        · simp only [hdead, if_false, hrv, List.filter_cons, hdue, not_false_eq_true, and_self,
            decide_true, if_true, List.map_cons]
      · simp only [hpq, List.filter_cons, hlate, decide_false]
        rfl
    · -- the first entry is not due, and no later one is
      have hall : ∀ e' ∈ e :: pq, now < e'.deadline := by
        intro e' he'
        obtain rfl | he' := List.mem_cons.mp he'
        · exact not_le.mp hdue
        · exact (not_le.mp hdue).trans_le (TimeoutEntry.deadline_le_of_le (hfirst e' he'))
      unfold popTimedOut
      rw [if_neg hdue]
      constructor
      · rw [List.filter_eq_nil_iff.mpr]
        · rfl
        · intro e' he' hcon
          exact (hall e' he').not_ge (of_decide_eq_true hcon).1
      · exact (List.filter_eq_self.mpr fun e' he' => decide_eq_true (hall e' he')).symm

end Queue

namespace Inv

variable {m : PriorityMultiMap T K V} {r : Requests T K V}

/-- Only what was removed counts, not how often. -/
theorem of_removed (h : Inv (m, r)) {removed : List (K × V)}
    (hmem : ∀ p, p ∈ removed ↔ p ∈ r.removed) : Inv (m, { r with removed := removed }) := by
  have hfinished : ∀ k, Requests.Finished { r with removed := removed } k ↔ r.Finished k := by
    intro k
    simp only [Requests.Finished, hmem]
  constructor
  · exact h.sorted
  · exact h.nodup
  · exact h.mem_pq
  · exact h.timed_put
  · exact h.timed_unique
  · exact fun p hp => h.removed_put p ((hmem p).mp hp)
  · exact h.reached_put
  · intro k v
    rw [h.items k v]
    exact and_congr_right fun _ => not_congr (hmem _).symm
  · exact h.items_ne
  · intro k
    rw [hfinished, h.timeoutKeys k]
  · exact fun k hk => (hfinished k).mpr (h.dead k hk)
  · exact fun e he hk => h.finished e he ((hfinished _).mp hk)
  · exact h.returned
  · exact fun p hp => (h.reached p hp).imp_right (hmem p).mpr

theorem of_deadlines (h : Inv (m, r)) (deadlines : K × V → Option T) :
    Inv ({ m with deadlines := deadlines }, r) := by
  constructor
  · exact h.sorted
  · exact h.nodup
  · exact h.mem_pq
  · exact h.timed_put
  · exact h.timed_unique
  · exact h.removed_put
  · exact h.reached_put
  · exact h.items
  · exact h.items_ne
  · exact h.timeoutKeys
  · exact h.dead
  · exact h.finished
  · exact h.returned
  · exact h.reached

/-- A key has an entry in the dictionary iff a value of it was put and not removed. -/
theorem isSome_items_iff (h : Inv (m, r)) (k : K) :
    (m.internalItems k).isSome ↔ ∃ v, (k, v) ∈ r.put ∧ (k, v) ∉ r.removed := by
  constructor
  · intro hsome
    obtain ⟨values, hvalues⟩ := Option.isSome_iff_exists.mp hsome
    have hne : values.Nonempty := by
      rw [Finset.nonempty_iff_ne_empty]
      rintro rfl
      exact h.items_ne k hvalues
    obtain ⟨v, hv⟩ := hne
    refine ⟨v, (h.items k v).mp ?_⟩
    simp only [hvalues, Option.getD_some]
    exact hv
  · rintro ⟨v, hv⟩
    have hmem := (h.items k v).mpr hv
    cases hvalues : m.internalItems k with
    | none =>
      simp only [hvalues, Option.getD_none] at hmem
      exact absurd hmem (Finset.notMem_empty v)
    | some values => rfl

/-! ### Each call keeps the invariant -/

section Put

variable {key : K} {value : V}

theorem finished_put_iff (h : Inv (m, r)) (hfresh : (key, value) ∉ r.put)
    (hlive : ¬ r.Finished key) (timed : List (T × K × V)) (k : K) :
    Requests.Finished { r with put := (key, value) :: r.put, timed := timed } k ↔
      r.Finished k := by
  by_cases hk : k = key
  · subst hk
    refine iff_of_false (fun hfin => ?_) hlive
    have hremoved := hfin.2 (k, value) List.mem_cons_self rfl
    exact hfresh (h.removed_put _ hremoved)
  · have hne : (key, value).1 ≠ k := fun heq => hk heq.symm
    constructor
    · rintro ⟨⟨p, hp, hpk⟩, hall⟩
      refine ⟨⟨p, ?_, hpk⟩, fun p hp hpk => hall p (List.mem_cons_of_mem _ hp) hpk⟩
      obtain rfl | hp := List.mem_cons.mp hp
      · exact absurd hpk hne
      · exact hp
    · rintro ⟨⟨p, hp, hpk⟩, hall⟩
      refine ⟨⟨p, List.mem_cons_of_mem _ hp, hpk⟩, fun p hp hpk => ?_⟩
      obtain rfl | hp := List.mem_cons.mp hp
      · exact absurd hpk hne
      · exact hall p hp hpk

theorem items_put (h : Inv (m, r)) (hfresh : (key, value) ∉ r.put) (k : K) (v : V) :
    v ∈ (Function.update m.internalItems key
        (some (insert value ((m.internalItems key).getD ∅))) k).getD ∅ ↔
      (k, v) ∈ (key, value) :: r.put ∧ (k, v) ∉ r.removed := by
  by_cases hk : k = key
  · subst hk
    rw [Function.update_self, Option.getD_some, Finset.mem_insert, h.items k v, List.mem_cons,
      Prod.mk.injEq]
    constructor
    · rintro (rfl | ⟨hput, hremoved⟩)
      · exact ⟨.inl ⟨rfl, rfl⟩, fun hremoved => hfresh (h.removed_put _ hremoved)⟩
      · exact ⟨.inr hput, hremoved⟩
    · rintro ⟨⟨-, rfl⟩ | hput, hremoved⟩
      · exact .inl rfl
      · exact .inr ⟨hput, hremoved⟩
  · rw [Function.update_of_ne hk, h.items k v, List.mem_cons, Prod.mk.injEq]
    constructor
    · exact fun ⟨hput, hremoved⟩ => ⟨.inr hput, hremoved⟩
    · rintro ⟨⟨hcon, -⟩ | hput, hremoved⟩
      · exact absurd hcon hk
      · exact ⟨hput, hremoved⟩

theorem items_ne_put (h : Inv (m, r)) (k : K) :
    Function.update m.internalItems key
      (some (insert value ((m.internalItems key).getD ∅))) k ≠ some ∅ := by
  by_cases hk : k = key
  · subst hk
    rw [Function.update_self]
    exact fun hcon => Finset.insert_ne_empty _ _ (Option.some.inj hcon)
  · rw [Function.update_of_ne hk]
    exact h.items_ne k

theorem put_none (h : Inv (m, r)) (hfresh : (key, value) ∉ r.put) (hlive : ¬ r.Finished key) :
    Inv ({ m with
        internalItems := Function.update m.internalItems key
          (some (insert value ((m.internalItems key).getD ∅))) },
      { r with put := (key, value) :: r.put, timed := r.timed }) := by
  have hfinished := finished_put_iff h hfresh hlive r.timed
  constructor
  · exact h.sorted
  · exact h.nodup
  · exact h.mem_pq
  · exact fun e he => List.mem_cons_of_mem _ (h.timed_put e he)
  · exact h.timed_unique
  · exact fun p hp => List.mem_cons_of_mem _ (h.removed_put p hp)
  · exact fun p hp => List.mem_cons_of_mem _ (h.reached_put p hp)
  · exact items_put h hfresh
  · exact items_ne_put h
  · intro k
    rw [hfinished, h.timeoutKeys k]
  · exact fun k hk => (hfinished k).mpr (h.dead k hk)
  · exact fun e he hk => h.finished e he ((hfinished _).mp hk)
  · exact h.returned
  · exact h.reached

theorem put_some (h : Inv (m, r)) (hfresh : (key, value) ∉ r.put) (hlive : ¬ r.Finished key)
    (deadline : T) (deadlines : K × V → Option T) :
    Inv (⟨Function.update m.internalItems key
          (some (insert value ((m.internalItems key).getD ∅))),
        m.deadKeys.erase key, insert key m.timeoutKeys,
        m.timeoutPq.orderedInsert (· ≤ ·) (.mk deadline (key, value)), deadlines⟩,
      { r with put := (key, value) :: r.put, timed := (deadline, key, value) :: r.timed }) := by
  have hfinished := finished_put_iff h hfresh hlive ((deadline, key, value) :: r.timed)
  have hnew : ∀ e ∈ r.timed, e.2 ≠ (key, value) := fun e he heq => hfresh (heq ▸ h.timed_put e he)
  constructor
  · exact h.sorted.orderedInsert _ _
  · rw [(List.perm_orderedInsert _ _ _).nodup_iff, List.nodup_cons]
    refine ⟨fun hmem => ?_, h.nodup⟩
    exact hfresh (h.timed_put _ ((h.mem_pq _).mp hmem).1)
  · intro e
    rw [List.mem_orderedInsert, h.mem_pq e, List.mem_cons]
    constructor
    · rintro (rfl | ⟨htimed, hreached⟩)
      · exact ⟨.inl rfl, fun hreached => hfresh (h.reached_put _ hreached)⟩
      · exact ⟨.inr htimed, hreached⟩
    · rintro ⟨heq | htimed, hreached⟩
      · exact .inl heq
      · exact .inr ⟨htimed, hreached⟩
  · intro e he
    obtain rfl | he := List.mem_cons.mp he
    · exact List.mem_cons_self
    · exact List.mem_cons_of_mem _ (h.timed_put e he)
  · intro e he e' he' heq
    obtain rfl | he := List.mem_cons.mp he
    · obtain rfl | he' := List.mem_cons.mp he'
      · rfl
      · exact absurd heq.symm (hnew e' he')
    · obtain rfl | he' := List.mem_cons.mp he'
      · exact absurd heq (hnew e he)
      · exact h.timed_unique e he e' he' heq
  · exact fun p hp => List.mem_cons_of_mem _ (h.removed_put p hp)
  · exact fun p hp => List.mem_cons_of_mem _ (h.reached_put p hp)
  · exact items_put h hfresh
  · exact items_ne_put h
  · intro k
    rw [hfinished, Finset.mem_insert, h.timeoutKeys k]
    constructor
    · rintro (rfl | ⟨⟨e, he, hek⟩, hk⟩)
      · exact ⟨⟨_, List.mem_cons_self, rfl⟩, hlive⟩
      · exact ⟨⟨e, List.mem_cons_of_mem _ he, hek⟩, hk⟩
    · rintro ⟨⟨e, he, hek⟩, hk⟩
      obtain rfl | he := List.mem_cons.mp he
      · exact .inl hek.symm
      · exact .inr ⟨⟨e, he, hek⟩, hk⟩
  · exact fun k hk => (hfinished k).mpr (h.dead k (Finset.mem_of_mem_erase hk))
  · intro e he hk
    have hk := (hfinished _).mp hk
    have hne : e.pair.1 ≠ key := fun heq => hlive (heq ▸ hk)
    obtain rfl | he := (List.mem_orderedInsert _).mp he
    · exact absurd rfl hne
    · exact Finset.mem_erase.mpr ⟨hne, h.finished e he hk⟩
  · exact h.returned
  · exact h.reached

end Put

/-- **Everything of a key is removed.** -/
theorem remove (h : Inv (m, r)) (k : K) {removed : List (K × V)}
    (hmem : ∀ p, p ∈ removed ↔ p ∈ r.removed ∨ p ∈ r.put ∧ p.1 = k) :
    Inv (m.remove k, { r with removed := removed }) := by
  have hother : ∀ k', k' ≠ k →
      (Requests.Finished { r with removed := removed } k' ↔ r.Finished k') := by
    intro k' hk'
    refine and_congr_right fun _ => forall_congr' fun p => imp_congr_right fun _ => ?_
    refine imp_congr_right fun hpk => (hmem p).trans (or_iff_left ?_)
    exact fun hcon => hk' (hpk.symm.trans hcon.2)
  have hself : (∃ p ∈ r.put, p.1 = k) → Requests.Finished { r with removed := removed } k :=
    fun hput => ⟨hput, fun p hp hpk => (hmem p).mpr (.inr ⟨hp, hpk⟩)⟩
  have hitems : (m.remove k).internalItems = Function.update m.internalItems k none := by
    unfold PriorityMultiMap.remove
    simp only
    split_ifs <;> rfl
  have hpq : (m.remove k).timeoutPq = m.timeoutPq := by
    unfold PriorityMultiMap.remove
    simp only
    split_ifs <;> rfl
  have htimeout : (m.remove k).timeoutKeys = m.timeoutKeys.erase k := by
    unfold PriorityMultiMap.remove
    simp only
    split_ifs with hk
    · rfl
    · exact (Finset.erase_eq_of_notMem hk).symm
  have hdead : ∀ k', k' ∈ (m.remove k).deadKeys ↔
      k' ∈ m.deadKeys ∨ k' = k ∧ k ∈ m.timeoutKeys := by
    intro k'
    unfold PriorityMultiMap.remove
    simp only
    split_ifs with hk
    · rw [Finset.mem_insert, or_comm, and_iff_left hk]
    · exact (or_iff_left fun hcon => hk hcon.2).symm
  constructor
  · rw [hpq]
    exact h.sorted
  · rw [hpq]
    exact h.nodup
  · rw [hpq]
    exact h.mem_pq
  · exact h.timed_put
  · exact h.timed_unique
  · intro p hp
    obtain hp | hp := (hmem p).mp hp
    · exact h.removed_put p hp
    · exact hp.1
  · exact h.reached_put
  · intro k' v
    rw [hitems]
    by_cases hk : k' = k
    · subst hk
      rw [Function.update_self]
      refine iff_of_false (Finset.notMem_empty v) fun ⟨hput, hremoved⟩ => ?_
      exact hremoved ((hmem _).mpr (.inr ⟨hput, rfl⟩))
    · rw [Function.update_of_ne hk, h.items k' v]
      refine and_congr_right fun _ => not_congr ((hmem _).trans (or_iff_left ?_)).symm
      exact fun hcon => hk hcon.2
  · intro k'
    rw [hitems]
    by_cases hk : k' = k
    · subst hk
      rw [Function.update_self]
      exact fun hcon => by cases hcon
    · rw [Function.update_of_ne hk]
      exact h.items_ne k'
  · intro k'
    rw [htimeout, Finset.mem_erase, h.timeoutKeys k']
    by_cases hk : k' = k
    · subst hk
      refine iff_of_false (fun hcon => hcon.1 rfl) ?_
      rintro ⟨⟨e, he, hek⟩, hlive⟩
      exact hlive (hself ⟨e.2, h.timed_put e he, hek⟩)
    · rw [hother k' hk]
      exact and_iff_right hk
  · intro k' hk'
    obtain hbefore | ⟨rfl, htimed⟩ := (hdead k').mp hk'
    · by_cases hk : k' = k
      · exact hk ▸ hself (hk ▸ (h.dead k' hbefore).1)
      · exact (hother k' hk).mpr (h.dead k' hbefore)
    · obtain ⟨⟨e, he, hek⟩, -⟩ := (h.timeoutKeys k').mp htimed
      exact hself ⟨e.2, h.timed_put e he, hek⟩
  · intro e he hfin
    rw [hpq] at he
    rw [hdead]
    by_cases hk : e.pair.1 = k
    · by_cases hbefore : r.Finished k
      · exact .inl (h.finished e he (hk ▸ hbefore))
      · exact .inr ⟨hk, (h.timeoutKeys k).mpr
          ⟨⟨_, ((h.mem_pq e).mp he).1, hk⟩, hbefore⟩⟩
    · exact .inl (h.finished e he ((hother _ hk).mp hfin))
  · exact h.returned
  · exact fun p hp => (h.reached p hp).imp_right fun hremoved => (hmem p).mpr (.inl hremoved)

theorem remove_value (h : Inv (m, r)) {k : K} {v : V} {values : Finset V}
    (hvalues : m.internalItems k = some values) (hrest : values.erase v ≠ ∅)
    (hput : (k, v) ∈ r.put) :
    Inv ({ m with
        internalItems := Function.update m.internalItems k (some (values.erase v)) },
      { r with removed := (k, v) :: r.removed }) := by
  have hlive : ∀ w, w ∈ values ↔ (k, w) ∈ r.put ∧ (k, w) ∉ r.removed := by
    intro w
    rw [← h.items k w, hvalues, Option.getD_some]
  -- the key had another value before, and has it still
  obtain ⟨w, hw⟩ := Finset.nonempty_iff_ne_empty.mpr hrest
  obtain ⟨hwv, hw⟩ := Finset.mem_erase.mp hw
  have hw := (hlive w).mp hw
  have hfinished : ∀ k', Requests.Finished { r with removed := (k, v) :: r.removed } k' ↔
      r.Finished k' := by
    intro k'
    by_cases hk : k' = k
    · subst hk
      refine iff_of_false (fun hfin => ?_) fun hfin => hw.2 (hfin.2 _ hw.1 rfl)
      obtain heq | hremoved := List.mem_cons.mp (hfin.2 _ hw.1 rfl)
      · exact hwv (Prod.ext_iff.mp heq).2
      · exact hw.2 hremoved
    · refine and_congr_right fun _ => forall_congr' fun p => imp_congr_right fun _ => ?_
      refine imp_congr_right fun hpk => List.mem_cons.trans (or_iff_right ?_)
      rintro rfl
      exact hk hpk.symm
  constructor
  · exact h.sorted
  · exact h.nodup
  · exact h.mem_pq
  · exact h.timed_put
  · exact h.timed_unique
  · intro p hp
    obtain rfl | hp := List.mem_cons.mp hp
    · exact hput
    · exact h.removed_put p hp
  · exact h.reached_put
  · intro k' w'
    dsimp only
    by_cases hk : k' = k
    · subst hk
      rw [Function.update_self, Option.getD_some, Finset.mem_erase, hlive w', List.mem_cons,
        Prod.mk.injEq, not_or, and_iff_right rfl]
      exact and_left_comm
    · rw [Function.update_of_ne hk, h.items k' w', List.mem_cons, Prod.mk.injEq]
      refine and_congr_right fun _ => not_congr (or_iff_right ?_).symm
      exact fun hcon => hk hcon.1
  · intro k'
    dsimp only
    by_cases hk : k' = k
    · subst hk
      rw [Function.update_self]
      exact fun hcon => hrest (Option.some.inj hcon)
    · rw [Function.update_of_ne hk]
      exact h.items_ne k'
  · intro k'
    rw [hfinished, h.timeoutKeys k']
  · exact fun k' hk' => (hfinished k').mpr (h.dead k' hk')
  · exact fun e he hk' => h.finished e he ((hfinished _).mp hk')
  · exact h.returned
  · exact fun p hp => (h.reached p hp).imp_right (List.mem_cons_of_mem _)

omit [LinearOrder T] in
/-- A key that has lost its last value is removed like any other. -/
theorem remove_update_items (k : K) (values : Option (Finset V)) :
    PriorityMultiMap.remove
        { m with internalItems := Function.update m.internalItems k values } k =
      { m.remove k with
        deadlines := fun p => if p.1 = k ∧ p.2 ∈ values.getD ∅ then none else m.deadlines p } := by
  unfold PriorityMultiMap.remove
  simp only [Function.update_self, Function.update_idem]
  split_ifs <;> rfl

theorem removeOne (h : Inv (m, r)) (k : K) (v : V) :
    Inv ((m.removeOne k v).getD m,
      { r with removed := if (k, v) ∈ r.put then (k, v) :: r.removed else r.removed }) := by
  -- a value that is not there is not there any more
  have hsame : ((k, v) ∈ r.put → (k, v) ∈ r.removed) →
      Inv (m, { r with removed := if (k, v) ∈ r.put then (k, v) :: r.removed else r.removed }) := by
    intro hgone
    refine h.of_removed fun p => ?_
    split_ifs with hput
    · rw [List.mem_cons]
      refine or_iff_right_of_imp ?_
      rintro rfl
      exact hgone hput
    · rfl
  unfold PriorityMultiMap.removeOne
  cases hvalues : m.internalItems k with
  | none =>
    refine hsame fun hput => ?_
    by_contra hremoved
    have hsome := (h.isSome_items_iff k).mpr ⟨v, hput, hremoved⟩
    rw [hvalues] at hsome
    cases hsome
  | some values =>
    have hlive : ∀ w, w ∈ values ↔ (k, w) ∈ r.put ∧ (k, w) ∉ r.removed := by
      intro w
      rw [← h.items k w, hvalues, Option.getD_some]
    simp only [Option.map_some, Option.getD_some]
    by_cases hv : v ∈ values
    · have hput := ((hlive v).mp hv).1
      rw [if_pos hv, if_pos hput]
      by_cases hrest : values.erase v = ∅
      · rw [if_pos hrest, remove_update_items]
        refine (h.remove k fun p => ?_).of_deadlines _
        rw [List.mem_cons, or_comm]
        constructor
        · rintro (hp | rfl)
          · exact .inl hp
          · exact .inr ⟨hput, rfl⟩
        · rintro (hp | ⟨hp, rfl⟩)
          · exact .inl hp
          · -- any other value of the key was removed before
            by_cases hpv : p.2 = v
            · exact .inr (Prod.ext rfl hpv)
            · left
              by_contra hremoved
              have hmem := Finset.mem_erase.mpr ⟨hpv, (hlive p.2).mpr ⟨hp, hremoved⟩⟩
              rw [hrest] at hmem
              exact Finset.notMem_empty _ hmem
      · rw [if_neg hrest]
        exact (h.remove_value hvalues hrest hput).of_deadlines _
    · rw [if_neg hv]
      refine (hsame fun hput => ?_).of_deadlines _
      by_contra hremoved
      exact hv ((hlive v).mpr ⟨hput, hremoved⟩)

section TimedOut

theorem getTimedOut_eq (h : Inv (m, r)) (now : T) :
    (m.getTimedOut now).1 =
      (m.timeoutPq.filter fun e => e.deadline ≤ now ∧ e.pair.1 ∉ m.deadKeys).map
        TimeoutEntry.pair :=
  (popTimedOut_of_sorted m.deadKeys now h.sorted m.deadlines).1

/-- The request of an entry that it returns. -/
theorem mem_getTimedOut (h : Inv (m, r)) (now : T) (p : K × V) :
    p ∈ (m.getTimedOut now).1 ↔
      ∃ deadline, (deadline, p) ∈ r.timed ∧ deadline ≤ now ∧ p ∉ r.reached ∧
        ¬ r.Finished p.1 := by
  rw [h.getTimedOut_eq now, List.mem_map]
  constructor
  · rintro ⟨e, he, rfl⟩
    obtain ⟨he, hdue⟩ := List.mem_filter.mp he
    obtain ⟨hdue, hdead⟩ := of_decide_eq_true hdue
    obtain ⟨htimed, hreached⟩ := (h.mem_pq e).mp he
    exact ⟨e.deadline, htimed, hdue, hreached, fun hfin => hdead (h.finished e he hfin)⟩
  · rintro ⟨deadline, htimed, hdue, hreached, hlive⟩
    refine ⟨.mk deadline p, List.mem_filter.mpr ⟨(h.mem_pq _).mpr ⟨htimed, hreached⟩, ?_⟩, rfl⟩
    exact decide_eq_true ⟨hdue, fun hdead => hlive (h.dead _ hdead)⟩

theorem getTimedOut (h : Inv (m, r)) (now : T) :
    Inv ((m.getTimedOut now).2,
      { r with
        returned := (m.getTimedOut now).1 ++ r.returned
        reached := (r.timed.filter (fun e => e.1 ≤ now)).map Prod.snd ++ r.reached }) := by
  have hpq : (m.getTimedOut now).2.timeoutPq = m.timeoutPq.filter fun e => now < e.deadline :=
    (popTimedOut_of_sorted m.deadKeys now h.sorted m.deadlines).2
  have hdead : (m.getTimedOut now).2.deadKeys =
      if (m.getTimedOut now).2.timeoutPq = [] then ∅ else m.deadKeys := rfl
  have hreached : ∀ p, p ∈ (r.timed.filter (fun e => e.1 ≤ now)).map Prod.snd ++ r.reached ↔
      (∃ deadline, (deadline, p) ∈ r.timed ∧ deadline ≤ now) ∨ p ∈ r.reached := by
    intro p
    rw [List.mem_append]
    refine or_congr_left ?_
    rw [List.mem_map]
    constructor
    · rintro ⟨e, he, rfl⟩
      obtain ⟨he, hdue⟩ := List.mem_filter.mp he
      exact ⟨e.1, he, of_decide_eq_true hdue⟩
    · rintro ⟨deadline, htimed, hdue⟩
      exact ⟨(deadline, p), List.mem_filter.mpr ⟨htimed, decide_eq_true hdue⟩, rfl⟩
  constructor
  · rw [hpq]
    exact h.sorted.filter _
  · rw [hpq]
    exact h.nodup.filter _
  · intro e
    rw [hpq, List.mem_filter, h.mem_pq e, hreached, decide_eq_true_iff, and_assoc, not_or]
    refine and_congr_right fun htimed => ?_
    rw [and_comm]
    refine and_congr_left fun _ => ?_
    constructor
    · rintro hlate ⟨deadline, htimed', hdue⟩
      have heq := h.timed_unique _ htimed' _ htimed rfl
      obtain rfl := (Prod.ext_iff.mp heq).1
      exact hlate.not_ge hdue
    · intro hnone
      exact not_le.mp fun hdue => hnone ⟨_, htimed, hdue⟩
  · exact h.timed_put
  · exact h.timed_unique
  · exact h.removed_put
  · intro p hp
    obtain ⟨deadline, htimed, -⟩ | hp := (hreached p).mp hp
    · exact h.timed_put _ htimed
    · exact h.reached_put p hp
  · exact h.items
  · exact h.items_ne
  · exact h.timeoutKeys
  · intro k hk
    rw [hdead] at hk
    split_ifs at hk with hempty
    · exact absurd hk (Finset.notMem_empty k)
    · exact h.dead k hk
  · intro e he hfin
    have hmem : e ∈ m.timeoutPq := by
      rw [hpq] at he
      exact List.mem_of_mem_filter he
    have hne : (m.getTimedOut now).2.timeoutPq ≠ [] := List.ne_nil_of_mem he
    rw [hdead, if_neg hne]
    exact h.finished e hmem hfin
  · intro p hp
    rw [hreached]
    obtain hp | hp := List.mem_append.mp hp
    · obtain ⟨deadline, htimed, hdue, -⟩ := (h.mem_getTimedOut now p).mp hp
      exact .inl ⟨deadline, htimed, hdue⟩
    · exact .inr (h.returned p hp)
  · intro p hp
    by_cases hbefore : p ∈ r.reached
    · exact (h.reached p hbefore).imp_left (List.mem_append_right _)
    · obtain ⟨deadline, htimed, hdue⟩ | hp := (hreached p).mp hp
      · by_cases hfin : r.Finished p.1
        · exact .inr (hfin.2 p (h.timed_put _ htimed) rfl)
        · exact .inl (List.mem_append_left _
            ((h.mem_getTimedOut now p).mpr ⟨deadline, htimed, hdue, hbefore, hfin⟩))
      · exact absurd hp hbefore

end TimedOut

/-- **A call of `get_timed_out` is right iff it reaches no stale request.** -/
theorem answers_iff (h : Inv (m, r)) (now : T) :
    r.Answers now (m.getTimedOut now).1 ↔ r.NoStale now := by
  constructor
  · rintro ⟨entries, hrv, -, -, hentries⟩ e htimed hdue hremoved hreached
    by_contra hlive
    have hmem : e.2 ∈ (m.getTimedOut now).1 :=
      (h.mem_getTimedOut now e.2).mpr ⟨e.1, htimed, hdue, hreached, hlive⟩
    rw [hrv, List.mem_map] at hmem
    obtain ⟨e', he', heq⟩ := hmem
    exact ((hentries e').mp he').2.2.1 (heq ▸ hremoved)
  · intro hstale
    refine ⟨(m.timeoutPq.filter fun e => e.deadline ≤ now ∧ e.pair.1 ∉ m.deadKeys).map
      fun e => (e.deadline, e.pair), ?_, ?_, ?_, ?_⟩
    · rw [h.getTimedOut_eq now, List.map_map]
      rfl
    · rw [h.getTimedOut_eq now]
      refine (h.nodup.filter _).map_on fun e he e' he' heq => ?_
      -- two entries of one request have one deadline
      have htimed := ((h.mem_pq e).mp (List.mem_of_mem_filter he)).1
      have htimed' := ((h.mem_pq e').mp (List.mem_of_mem_filter he')).1
      have hdeadline := (Prod.ext_iff.mp (h.timed_unique _ htimed _ htimed' heq)).1
      exact Prod.ext hdeadline heq
    · rw [List.pairwise_map]
      exact (h.sorted.filter _).imp TimeoutEntry.deadline_le_of_le
    · intro e
      have hmem : e ∈ (m.timeoutPq.filter fun e => e.deadline ≤ now ∧ e.pair.1 ∉ m.deadKeys).map
            (fun e => (e.deadline, e.pair)) ↔
          e ∈ r.timed ∧ e.1 ≤ now ∧ e.2 ∉ r.reached ∧ ¬ r.Finished e.2.1 := by
        rw [List.mem_map]
        constructor
        · rintro ⟨e, he, rfl⟩
          obtain ⟨he, hdue⟩ := List.mem_filter.mp he
          obtain ⟨hdue, hdead⟩ := of_decide_eq_true hdue
          obtain ⟨htimed, hreached⟩ := (h.mem_pq e).mp he
          exact ⟨htimed, hdue, hreached, fun hfin => hdead (h.finished e he hfin)⟩
        · rintro ⟨htimed, hdue, hreached, hlive⟩
          refine ⟨.mk e.1 e.2, List.mem_filter.mpr ⟨(h.mem_pq _).mpr ⟨htimed, hreached⟩, ?_⟩, rfl⟩
          exact decide_eq_true ⟨hdue, fun hdead => hlive (h.dead _ hdead)⟩
      rw [hmem]
      refine and_congr_right fun htimed => and_congr_right fun hdue => ?_
      constructor
      · rintro ⟨hreached, hlive⟩
        refine ⟨fun hremoved => ?_, fun hreturned => hreached (h.returned _ hreturned)⟩
        exact hlive (hstale e htimed hdue hremoved hreached)
      · rintro ⟨hremoved, hreturned⟩
        refine ⟨fun hreached => ?_, fun hfin => hremoved (hfin.2 _ (h.timed_put e htimed) rfl)⟩
        obtain hcon | hcon := h.reached _ hreached
        · exact hreturned hcon
        · exact hremoved hcon

end Inv

section Run

theorem inv_noRequests : Inv (noRequests : PriorityMultiMap T K V × Requests T K V) := by
  have hnot : ∀ k : K, ¬ Requests.Finished (⟨[], [], [], [], []⟩ : Requests T K V) k := by
    rintro k ⟨⟨p, hp, -⟩, -⟩
    exact absurd hp List.not_mem_nil
  constructor
  · exact List.Pairwise.nil
  · exact List.nodup_nil
  · exact fun e => iff_of_false List.not_mem_nil fun hcon => List.not_mem_nil hcon.1
  · exact fun e he => absurd he List.not_mem_nil
  · exact fun e he => absurd he List.not_mem_nil
  · exact fun p hp => absurd hp List.not_mem_nil
  · exact fun p hp => absurd hp List.not_mem_nil
  · exact fun k v => iff_of_false (Finset.notMem_empty v) fun hcon => List.not_mem_nil hcon.1
  · exact fun k hcon => by cases hcon
  · refine fun k => iff_of_false (Finset.notMem_empty k) ?_
    rintro ⟨⟨e, he, -⟩, -⟩
    exact List.not_mem_nil he
  · exact fun k hk => absurd hk (Finset.notMem_empty k)
  · exact fun e he => absurd he List.not_mem_nil
  · exact fun p hp => absurd hp List.not_mem_nil
  · exact fun p hp => absurd hp List.not_mem_nil

theorem Inv.rightAnswer_iff {s : PriorityMultiMap T K V × Requests T K V} (h : Inv s)
    (c : TimeoutCall T K V) : RightAnswer s c ↔ NoStaleCall s c := by
  cases c with
  | getTimedOut now => exact h.answers_iff now
  | put => exact Iff.rfl
  | remove => exact Iff.rfl
  | removeOne => exact Iff.rfl

variable [Add T]

/-- **Every legal call keeps the invariant.** -/
theorem Inv.step {s : PriorityMultiMap T K V × Requests T K V} {c : TimeoutCall T K V}
    (h : Inv s) (hc : LegalCall s c) : Inv (requestStep s c) := by
  obtain ⟨m, r⟩ := s
  cases c with
  | put _ _ timeout now =>
    obtain ⟨hfresh, hlive⟩ := hc
    cases timeout with
    | none => exact h.put_none hfresh hlive
    | some timeout => exact h.put_some hfresh hlive (now + timeout) _
  | remove k =>
    refine h.remove k fun p => ?_
    rw [List.mem_append, List.mem_filter, decide_eq_true_iff, or_comm]
  | removeOne k v => exact h.removeOne k v
  | getTimedOut now => exact h.getTimedOut now

end Run

end PriorityMultiMap
