/-
# The history of a process group (`PGProcessHistory`)

The operations of the history, each with what it does to the two lists and to the dictionary, and
what the history knows of the workers in every run: an exit code that it has is the one that the
worker has exited with, and a worker that is running is in the active list without one.  With it, no
worker is running where the state runner has come to rest in `Idle`.

The list of all workers that were ever created is only complete in the history if no worker is left
in the active list when a new group is started, and a worker is only at the place of its template if
the set of the new workers is listed in the order in which the templates were given.
-/
import DragonRuntime.ProcessGroupMoves

namespace PGProcessHistory

variable {h h' : PGProcessHistory}

/-! ## The dictionary -/

/-- The dictionary is the inverse of the active list, and the two counts are the lengths. -/
structure Indexed (h : PGProcessHistory) : Prop where
  inverse : ∀ p i, h.active_processes_inv_map p = some i ↔
    ∃ e, h.active_processes[i]? = some (p, e)
  active_nprocs : h.active_nprocs = h.active_processes.length
  inactive_nprocs : h.inactive_nprocs = h.inactive_processes.length

theorem invMap_eq_some {p_uids : List ℕ} (hnodup : p_uids.Nodup) (p i : ℕ) :
    invMap p_uids p = some i ↔ p_uids[i]? = some p := by
  rw [invMap]
  constructor
  · intro hp
    split at hp
    next hmem =>
      obtain rfl := Option.some.inj hp
      exact List.getElem?_idxOf hmem
    next => exact nomatch hp
  · intro hi
    obtain ⟨hlt, hget⟩ := List.getElem?_eq_some_iff.1 hi
    rw [if_pos (List.mem_of_getElem? hi), ← hget, hnodup.idxOf_getElem]

theorem Indexed.init_active_processes (hi : h.Indexed) {p_uids : List ℕ} (hnodup : p_uids.Nodup) :
    (h.init_active_processes p_uids).Indexed := by
  refine ⟨fun p i => ?_, (List.length_map _).symm, hi.inactive_nprocs⟩
  rw [PGProcessHistory.init_active_processes, invMap_eq_some hnodup, List.getElem?_map]
  constructor
  · intro hp
    exact ⟨none, by rw [hp]; rfl⟩
  · rintro ⟨e, he⟩
    obtain ⟨q, hq, heq⟩ := Option.map_eq_some_iff.1 he
    rw [hq, (Prod.mk.inj heq).1]

theorem Indexed.archive_active (hi : h.Indexed) : h.archive_active.Indexed := by
  refine ⟨fun p i => ?_, rfl, ?_⟩
  · simp [PGProcessHistory.archive_active]
  · simp only [PGProcessHistory.archive_active, List.length_append, hi.active_nprocs,
      hi.inactive_nprocs]

variable {i p : ℕ}

/-- Every entry is at the place that the dictionary gives. -/
theorem Indexed.idx_eq (hi : h.Indexed) {j : ℕ} {e e' : Option ℤ}
    (hp : h.active_processes[i]? = some (p, e)) (hp' : h.active_processes[j]? = some (p, e')) :
    i = j := by
  have hpi := (hi.inverse p i).2 ⟨e, hp⟩
  have hpj := (hi.inverse p j).2 ⟨e', hp'⟩
  rw [hpi] at hpj
  exact Option.some.inj hpj

theorem getElem?_set_of_lt {α : Type} {l : List α} {k : ℕ} (hk : k < l.length) (a : α) (i : ℕ) :
    (l.set k a)[i]? = if k = i then some a else l[i]? := by
  simp only [List.getElem?_set, if_pos hk]

/-! ## Recording exit codes -/

theorem update_of_none {c : ℤ} (hp : h.active_processes_inv_map p = none) :
    h.update (p, c) = h := by
  rw [update, hp]

theorem update_of_some {c : ℤ} (hp : h.active_processes_inv_map p = some i) :
    h.update (p, c) = { h with active_processes := h.active_processes.set i (p, some c) } := by
  rw [update, hp]

/-- What is at a place after exit codes were recorded: the same worker, and its code if it had
one. -/
structure Updated (h : PGProcessHistory) (puid_ecodes : List (ℕ × ℤ)) (h' : PGProcessHistory) :
    Prop where
  inactive : h'.inactive_processes = h.inactive_processes
  length : h'.active_processes.length = h.active_processes.length
  puids : h'.active_processes.map Prod.fst = h.active_processes.map Prod.fst
  code : ∀ (i p : ℕ) (c : ℤ), h'.active_processes[i]? = some (p, some c) →
    h.active_processes[i]? = some (p, some c) ∨ (p, c) ∈ puid_ecodes
  running : ∀ i p : ℕ, h'.active_processes[i]? = some (p, none) →
    h.active_processes[i]? = some (p, none)
  stays : ∀ i p : ℕ, h.active_processes[i]? = some (p, none) → (∀ c, (p, c) ∉ puid_ecodes) →
    h'.active_processes[i]? = some (p, none)
  gone : ∀ (i p : ℕ) (c : ℤ), h.active_processes[i]? = some (p, some c) →
    ∃ c', h'.active_processes[i]? = some (p, some c')

theorem Updated.refl (h : PGProcessHistory) (puid_ecodes : List (ℕ × ℤ)) :
    h.Updated puid_ecodes h where
  inactive := rfl
  length := rfl
  puids := rfl
  code _ _ _ hp := Or.inl hp
  running _ _ hp := hp
  stays _ _ hp _ := hp
  gone _ _ c hp := ⟨c, hp⟩

theorem Updated.trans {l l' : List (ℕ × ℤ)} {h'' : PGProcessHistory} (hu : h.Updated l h')
    (hu' : h'.Updated l' h'') : h.Updated (l ++ l') h'' where
  inactive := hu'.inactive.trans hu.inactive
  length := hu'.length.trans hu.length
  puids := hu'.puids.trans hu.puids
  code i p c hp := by
    rcases hu'.code i p c hp with hp | hp
    · exact (hu.code i p c hp).imp id fun hmem => List.mem_append_left _ hmem
    · exact Or.inr (List.mem_append_right _ hp)
  running i p hp := hu.running i p (hu'.running i p hp)
  stays i p hp hnot :=
    hu'.stays i p (hu.stays i p hp fun c hmem => hnot c (List.mem_append_left _ hmem))
      fun c hmem => hnot c (List.mem_append_right _ hmem)
  gone i p c hp := by
    obtain ⟨c', hp⟩ := hu.gone i p c hp
    exact hu'.gone i p c' hp

theorem Indexed.update (hi : h.Indexed) (pair : ℕ × ℤ) :
    (h.update pair).Indexed ∧ h.Updated [pair] (h.update pair) := by
  obtain ⟨p, c⟩ := pair
  cases hp : h.active_processes_inv_map p with
  | none =>
    rw [update_of_none hp]
    exact ⟨hi, .refl h _⟩
  | some k =>
    obtain ⟨e, hk⟩ := (hi.inverse p k).1 hp
    obtain ⟨hlt, -⟩ := List.getElem?_eq_some_iff.1 hk
    have hat := getElem?_set_of_lt hlt (p, some c)
    rw [update_of_some hp]
    refine ⟨⟨fun q i => ?_, ?_, hi.inactive_nprocs⟩, rfl, List.length_set, ?_, ?_, ?_, ?_, ?_⟩
    · -- the entry at `k` is still one of `p`
      rw [hi.inverse]
      simp only [hat]
      split
      next hki =>
        subst hki
        rw [hk]
        simp only [Option.some.injEq, Prod.mk.injEq]
        constructor
        · rintro ⟨e', hq, -⟩
          exact ⟨some c, hq, rfl⟩
        · rintro ⟨e', hq, -⟩
          exact ⟨e, hq, rfl⟩
      next => exact Iff.rfl
    · exact hi.active_nprocs.trans List.length_set.symm
    · refine List.ext_getElem? fun i => ?_
      rw [List.getElem?_map, List.getElem?_map, hat]
      split
      next hki =>
        subst hki
        rw [hk]
        rfl
      next => rfl
    · intro i q d hq
      rw [hat] at hq
      split at hq
      next =>
        obtain ⟨rfl, hd⟩ := Prod.mk.inj (Option.some.inj hq)
        obtain rfl := Option.some.inj hd
        exact Or.inr (List.mem_singleton_self _)
      next => exact Or.inl hq
    · intro i q hq
      rw [hat] at hq
      split at hq
      next => exact nomatch (Prod.mk.inj (Option.some.inj hq)).2
      next => exact hq
    · intro i q hq hnot
      rw [hat, if_neg]
      · exact hq
      · rintro rfl
        rw [hk] at hq
        obtain ⟨rfl, -⟩ := Prod.mk.inj (Option.some.inj hq)
        exact hnot c (List.mem_singleton_self _)
    · intro i q d hq
      rw [hat]
      split
      next hki =>
        subst hki
        rw [hk] at hq
        obtain ⟨rfl, -⟩ := Prod.mk.inj (Option.some.inj hq)
        exact ⟨c, rfl⟩
      next => exact ⟨d, hq⟩

/-- **`update_active_processes`.** -/
theorem Indexed.update_active_processes (hi : h.Indexed) (puid_ecodes : List (ℕ × ℤ)) :
    (h.update_active_processes puid_ecodes).Indexed ∧
      h.Updated puid_ecodes (h.update_active_processes puid_ecodes) := by
  induction puid_ecodes generalizing h with
  | nil => exact ⟨hi, .refl h _⟩
  | cons pair rest ih =>
    obtain ⟨hstep, hu⟩ := hi.update pair
    obtain ⟨hrest, hu'⟩ := ih hstep
    exact ⟨hrest, hu.trans hu'⟩

theorem Updated.mem_running {l : List (ℕ × ℤ)} (hu : h.Updated l h')
    (hp : (p, none) ∈ h'.active_processes) : (p, none) ∈ h.active_processes := by
  obtain ⟨i, hi⟩ := List.mem_iff_getElem?.1 hp
  exact List.mem_of_getElem? (hu.running i p hi)

/-! ## Replacing workers -/

theorem set_perm {α : Type} {l : List α} {x : α} (hi : l[i]? = some x) (a : α) :
    (l.set i a ++ [x]).Perm (l ++ [a]) := by
  obtain ⟨hlt, rfl⟩ := List.getElem?_eq_some_iff.1 hi
  have hl : l = l.take i ++ l[i] :: l.drop (i + 1) := by
    rw [← List.drop_eq_getElem_cons hlt, List.take_append_drop]
  have hset : l.set i a = l.take i ++ a :: l.drop (i + 1) := List.set_eq_take_append_cons_drop ..
    |>.trans (if_pos hlt)
  rw [hset]
  calc (l.take i ++ a :: l.drop (i + 1) ++ [l[i]]).Perm
        (l[i] :: (a :: (l.take i ++ l.drop (i + 1)))) :=
          (List.perm_append_singleton _ _).trans (.cons _ List.perm_middle)
    _ |>.Perm (a :: (l[i] :: (l.take i ++ l.drop (i + 1)))) := .swap _ _ _
    _ |>.Perm (a :: (l.take i ++ l[i] :: l.drop (i + 1))) := .cons _ List.perm_middle.symm
    _ |>.Perm (l ++ [a]) := by
          rw [← hl]
          exact (List.perm_append_singleton a l).symm

/-- What the loop of `replace_and_archive_processes` has done for the pairs of an old worker with
its place, and a new one. -/
structure Replaced (h : PGProcessHistory) (pairs : List ((ℕ × ℕ) × ℕ)) (h' : PGProcessHistory) :
    Prop where
  inverse : ∀ p i, h'.active_processes_inv_map p = some i ↔
    ∃ e, h'.active_processes[i]? = some (p, e)
  active_nprocs : h'.active_nprocs = h.active_nprocs
  inactive_nprocs : h'.inactive_nprocs = h.inactive_nprocs
  length : h'.active_processes.length = h.active_processes.length
  untouched : ∀ i, (∀ x ∈ pairs, x.1.2 ≠ i) → h'.active_processes[i]? = h.active_processes[i]?
  placed : ∀ x ∈ pairs, h'.active_processes[x.1.2]? = some (x.2, none)
  archived : ∃ old, h'.inactive_processes = h.inactive_processes ++ old ∧
    old.length = pairs.length ∧
    (∀ item ∈ old, ∃ x ∈ pairs, h.active_processes[x.1.2]? = some item) ∧
    (h'.active_processes.map Prod.fst ++ old.map Prod.fst).Perm
      (h.active_processes.map Prod.fst ++ pairs.map Prod.snd)

theorem replaced_singleton (hinverse : ∀ p i, h.active_processes_inv_map p = some i ↔
      ∃ e, h.active_processes[i]? = some (p, e)) {old : ℕ × ℕ} {new_puid : ℕ} {e : Option ℤ}
    (hold : h.active_processes[old.2]? = some (old.1, e))
    (hnew : new_puid ∉ h.active_processes.map Prod.fst) :
    h.Replaced [(old, new_puid)] (h.replace old new_puid) := by
  obtain ⟨p, k⟩ := old
  obtain ⟨hlt, -⟩ := List.getElem?_eq_some_iff.1 hold
  have hat := getElem?_set_of_lt hlt (new_puid, (none : Option ℤ))
  have hne : new_puid ≠ p := by
    rintro rfl
    exact hnew (List.mem_map.2 ⟨_, List.mem_of_getElem? hold, rfl⟩)
  have hnone : ∀ i e', h.active_processes[i]? ≠ some (new_puid, e') := fun i e' hi =>
    hnew (List.mem_map.2 ⟨_, List.mem_of_getElem? hi, rfl⟩)
  refine ⟨fun q i => ?_, rfl, rfl, List.length_set, fun i hi => ?_, fun x hx => ?_, ?_⟩
  · show Function.update (Function.update h.active_processes_inv_map p none) new_puid (some k) q =
      some i ↔ ∃ e', (h.active_processes.set k (new_puid, none))[i]? = some (q, e')
    rw [hat]
    by_cases hq : q = new_puid
    · subst hq
      rw [Function.update_self]
      split
      next hki => exact iff_of_true (congrArg some hki) ⟨none, rfl⟩
      next hki =>
        exact iff_of_false (fun heq => hki (Option.some.inj heq)) fun ⟨e', he⟩ => hnone i e' he
    rw [Function.update_of_ne hq]
    by_cases hqp : q = p
    · -- the old worker was at `k` only
      subst hqp
      rw [Function.update_self]
      refine iff_of_false (by simp) ?_
      rintro ⟨e', he⟩
      split at he
      next => exact hne (Prod.mk.inj (Option.some.inj he)).1
      next hki =>
        have hidx := (hinverse q i).2 ⟨e', he⟩
        rw [(hinverse q k).2 ⟨e, hold⟩] at hidx
        exact hki (Option.some.inj hidx)
    rw [Function.update_of_ne hqp, hinverse]
    split
    next hki =>
      subst hki
      rw [hold]
      refine iff_of_false ?_ ?_
      · rintro ⟨e', he⟩
        exact hqp (Prod.mk.inj (Option.some.inj he)).1.symm
      · rintro ⟨e', he⟩
        exact hq (Prod.mk.inj (Option.some.inj he)).1.symm
    next => exact Iff.rfl
  · exact (hat i).trans (if_neg (hi _ (List.mem_singleton_self _)))
  · obtain rfl := List.mem_singleton.1 hx
    exact (hat k).trans (if_pos rfl)
  · refine ⟨[(p, e)], ?_, rfl, ?_, ?_⟩
    · rw [replace, hold]
      rfl
    · intro item hitem
      obtain rfl := List.mem_singleton.1 hitem
      exact ⟨_, List.mem_singleton_self _, hold⟩
    · have hperm := (set_perm hold (new_puid, none)).map Prod.fst
      rwa [List.map_append, List.map_append] at hperm

/-- **The loop of `replace_and_archive_processes`.**  The places are different ones, with the old
workers, and the new ones are not there yet. -/
theorem replaced_foldl {pairs : List ((ℕ × ℕ) × ℕ)}
    (hinverse : ∀ p i, h.active_processes_inv_map p = some i ↔
      ∃ e, h.active_processes[i]? = some (p, e))
    (hold : ∀ x ∈ pairs, ∃ e, h.active_processes[x.1.2]? = some (x.1.1, e))
    (hplaces : (pairs.map fun x => x.1.2).Nodup) (hnodup : (pairs.map Prod.snd).Nodup)
    (hnew : ∀ x ∈ pairs, x.2 ∉ h.active_processes.map Prod.fst) :
    h.Replaced pairs (pairs.foldl (fun h pair => h.replace pair.1 pair.2) h) := by
  induction pairs generalizing h with
  | nil =>
    exact ⟨hinverse, rfl, rfl, rfl, fun _ _ => rfl, fun _ hx => absurd hx List.not_mem_nil,
      [], (List.append_nil _).symm, rfl, fun _ hitem => absurd hitem List.not_mem_nil, .refl _⟩
  | cons x rest ih =>
    obtain ⟨e, hx⟩ := hold x List.mem_cons_self
    have hstep := replaced_singleton hinverse hx (hnew x List.mem_cons_self)
    rw [List.map_cons, List.nodup_cons] at hplaces hnodup
    have hother : ∀ y ∈ rest, y.1.2 ≠ x.1.2 := fun y hy heq =>
      hplaces.1 (List.mem_map.2 ⟨y, hy, heq⟩)
    have huntouched : ∀ i, x.1.2 ≠ i → (h.replace x.1 x.2).active_processes[i]? =
        h.active_processes[i]? := fun i hi =>
      hstep.untouched i fun y hy => (List.mem_singleton.1 hy) ▸ hi
    -- the worker that was put in is none of those to come
    have hnew' : ∀ y ∈ rest, y.2 ∉ (h.replace x.1 x.2).active_processes.map Prod.fst := by
      intro y hy hmem
      obtain ⟨⟨q, e'⟩, hq, heq⟩ := List.mem_map.1 hmem
      obtain ⟨i, hi⟩ := List.mem_iff_getElem?.1 hq
      by_cases hxi : x.1.2 = i
      · subst hxi
        rw [hstep.placed x (List.mem_singleton_self _)] at hi
        have hqx := (Prod.mk.inj (Option.some.inj hi)).1
        exact hnodup.1 (List.mem_map.2 ⟨y, hy, (hqx.trans heq).symm⟩)
      · rw [huntouched i hxi] at hi
        exact hnew y (List.mem_cons_of_mem _ hy)
          (List.mem_map.2 ⟨_, List.mem_of_getElem? hi, heq⟩)
    have hrest := ih hstep.inverse
      (fun y hy => by
        rw [huntouched _ (hother y hy).symm]
        exact hold y (List.mem_cons_of_mem _ hy))
      hplaces.2 hnodup.2 hnew'
    refine ⟨hrest.inverse, hrest.active_nprocs, hrest.inactive_nprocs,
      hrest.length.trans hstep.length, fun i hi => ?_, fun y hy => ?_, ?_⟩
    · exact (hrest.untouched i fun y hy => hi y (List.mem_cons_of_mem _ hy)).trans
        (huntouched i (hi x List.mem_cons_self))
    · rcases List.mem_cons.1 hy with rfl | hy
      · exact (hrest.untouched _ hother).trans (hstep.placed y (List.mem_singleton_self _))
      · exact hrest.placed y hy
    · obtain ⟨old, hinactive, hlength, hmem, hperm⟩ := hrest.archived
      have harchived : (h.replace x.1 x.2).inactive_processes =
          h.inactive_processes ++ [(x.1.1, e)] := by
        rw [replace, hx]
        rfl
      have hset := (set_perm hx (x.2, none)).map Prod.fst
      rw [List.map_append, List.map_append] at hset
      refine ⟨(x.1.1, e) :: old, ?_, congrArg (· + 1) hlength, fun item hitem => ?_, ?_⟩
      · rw [List.foldl_cons, hinactive, harchived, List.append_assoc, List.singleton_append]
      · rcases List.mem_cons.1 hitem with rfl | hitem
        · exact ⟨x, List.mem_cons_self, hx⟩
        · obtain ⟨y, hy, hi⟩ := hmem item hitem
          rw [huntouched _ (hother y hy).symm] at hi
          exact ⟨y, List.mem_cons_of_mem _ hy, hi⟩
      · rw [List.foldl_cons, List.map_cons, List.map_cons]
        refine List.perm_middle.trans ((hperm.cons x.1.1).trans ?_)
        rw [← List.cons_append, ← List.singleton_append (l := rest.map Prod.snd),
          ← List.append_assoc]
        exact ((List.perm_append_singleton _ _).symm.trans hset).append_right _

end PGProcessHistory

namespace PGProcessHistory

variable {h h' : PGProcessHistory}

/-- **`replace_and_archive_processes`.** -/
theorem Indexed.replace_and_archive_processes (hi : h.Indexed) {new_puids : List ℕ}
    {gone : List (ℕ × ℕ)} (hgone : ∀ g ∈ gone, ∃ e, h.active_processes[g.2]? = some (g.1, e))
    (hplaces : (gone.map Prod.snd).Nodup) (hnodup : new_puids.Nodup)
    (hnew : ∀ p ∈ new_puids, p ∉ h.active_processes.map Prod.fst)
    (heq : h.replace_and_archive_processes new_puids gone = some h') :
    new_puids.length = gone.length ∧ h'.Indexed ∧
      Replaced { h with inactive_nprocs := h.inactive_nprocs + gone.length }
        (gone.zip new_puids) h' := by
  rw [PGProcessHistory.replace_and_archive_processes] at heq
  split at heq
  next hlength =>
    obtain rfl := Option.some.inj heq
    have hfst : (gone.zip new_puids).map Prod.fst = gone := List.map_fst_zip hlength.ge
    have hsnd : (gone.zip new_puids).map Prod.snd = new_puids := List.map_snd_zip hlength.le
    have hidx : (gone.zip new_puids).map (fun x => x.1.2) = gone.map Prod.snd :=
      List.map_map.symm.trans (congrArg (List.map Prod.snd) hfst)
    have hreplaced := replaced_foldl
      (h := { h with inactive_nprocs := h.inactive_nprocs + gone.length }) hi.inverse
      (fun x hx => hgone x.1 (List.of_mem_zip hx).1) (hidx ▸ hplaces) (hsnd.symm ▸ hnodup)
      fun x hx => hnew x.2 (List.of_mem_zip hx).2
    refine ⟨hlength, ⟨hreplaced.inverse, ?_, ?_⟩, hreplaced⟩
    · rw [hreplaced.active_nprocs, hreplaced.length]
      exact hi.active_nprocs
    · obtain ⟨old, hinactive, hold, -, -⟩ := hreplaced.archived
      rw [hreplaced.inactive_nprocs, hinactive, List.length_append, hold, List.length_zip, hlength,
        Nat.min_self]
      show h.inactive_nprocs + gone.length = h.inactive_processes.length + gone.length
      rw [hi.inactive_nprocs]
  next => exact nomatch heq

end PGProcessHistory

namespace PGManager

variable {τ : Type} {w w' : PGManager τ} {h h' : PGProcessHistory} {workers : List (PGWorker τ)}

/-! ## What the history knows of the workers -/

/-- A worker with this puid has exited, with this code. -/
def Exited (workers : List (PGWorker τ)) (p : ℕ) (c : ℤ) : Prop :=
  ∃ v ∈ workers, v.puid = p ∧ v.ecode = some c

/-- No worker is running. -/
def AllExited (workers : List (PGWorker τ)) : Prop := ∀ v ∈ workers, v.ecode ≠ none

theorem AllExited.exits {workers : List (PGWorker τ)} (hall : AllExited workers) (puid : ℕ)
    (ecode : ℤ) : AllExited (workers.map fun v =>
      if v.puid = puid ∧ v.ecode = none then { v with ecode := some ecode } else v) := by
  intro v hv
  obtain ⟨v', hv', rfl⟩ := List.mem_map.1 hv
  split
  next => exact Option.some_ne_none ecode
  next => exact hall v' hv'

structure Recorded (h : PGProcessHistory) (workers : List (PGWorker τ)) : Prop where
  nodup : (workers.map PGWorker.puid).Nodup
  indexed : h.Indexed
  truth : ∀ p c, (p, some c) ∈ h.active_processes ++ h.inactive_processes → Exited workers p c
  known : ∀ item ∈ h.active_processes ++ h.inactive_processes, item.1 ∈ workers.map PGWorker.puid
  running : ∀ v ∈ workers, v.ecode = none → (v.puid, none) ∈ h.active_processes

variable {v : PGWorker τ} {c : ℤ} {p g : ℕ} {timedOut : Bool} {puids : List ℕ}
  {templates : List τ} {gone_procs : List (ℕ × ℕ)} {msg : PGSignalMessage τ} {w₀ : PGManager τ}
  {d : PGState τ}

/-- Two entries of the table with one puid are the same. -/
theorem eq_of_puid_eq (hnodup : (workers.map PGWorker.puid).Nodup) {v' : PGWorker τ}
    (hv : v ∈ workers) (hv' : v' ∈ workers) (heq : v.puid = v'.puid) : v = v' :=
  List.inj_on_of_nodup_map hnodup hv hv' heq

theorem exited_of_joinStatus (hs : joinStatus workers timedOut p = .success c) :
    Exited workers p c := by
  rw [joinStatus] at hs
  split at hs
  next => exact nomatch hs
  next v hfind =>
    split at hs
    next c' hcode =>
      obtain rfl := JoinStatus.success.inj hs
      have hp := List.find?_some hfind
      exact ⟨v, List.mem_of_find?_eq_some hfind, of_decide_eq_true hp, hcode⟩
    next => split at hs <;> exact nomatch hs

theorem exited_of_mem_puidStatus
    (hp : (p, JoinStatus.success c) ∈ puidStatus workers timedOut puids) : Exited workers p c := by
  obtain ⟨q, -, heq⟩ := List.mem_map.1 hp
  obtain ⟨rfl, hs⟩ := Prod.mk.inj heq
  exact exited_of_joinStatus hs

theorem mem_success_puids {statuses : List (ℕ × JoinStatus)} :
    (p, c) ∈ get_multi_join_success_puids statuses ↔ (p, JoinStatus.success c) ∈ statuses := by
  rw [get_multi_join_success_puids, List.mem_filterMap]
  constructor
  · rintro ⟨⟨q, s⟩, hmem, hs⟩
    cases s with
    | success =>
      obtain ⟨rfl, rfl⟩ := Prod.mk.inj (Option.some.inj hs)
      exact hmem
    | unknown => exact nomatch hs
    | timeout => exact nomatch hs
    | pending => exact nomatch hs
  · intro hmem
    exact ⟨_, hmem, rfl⟩

namespace Recorded

theorem update (hr : Recorded h workers) {l : List (ℕ × ℤ)}
    (hl : ∀ p c, (p, c) ∈ l → Exited workers p c) :
    Recorded (h.update_active_processes l) workers := by
  obtain ⟨hi, hu⟩ := hr.indexed.update_active_processes l
  refine ⟨hr.nodup, hi, fun p c hp => ?_, fun item hitem => ?_, fun v hv hnone => ?_⟩
  · rcases List.mem_append.1 hp with hp | hp
    · obtain ⟨i, hi⟩ := List.mem_iff_getElem?.1 hp
      rcases hu.code i p c hi with hi | hmem
      · exact hr.truth p c (List.mem_append_left _ (List.mem_of_getElem? hi))
      · exact hl p c hmem
    · rw [hu.inactive] at hp
      exact hr.truth p c (List.mem_append_right _ hp)
  · rcases List.mem_append.1 hitem with hitem | hitem
    · have hmem := List.mem_map_of_mem (f := Prod.fst) hitem
      rw [hu.puids] at hmem
      obtain ⟨item', hitem', heq⟩ := List.mem_map.1 hmem
      rw [← heq]
      exact hr.known item' (List.mem_append_left _ hitem')
    · rw [hu.inactive] at hitem
      exact hr.known item (List.mem_append_right _ hitem)
  · obtain ⟨i, hi⟩ := List.mem_iff_getElem?.1 (hr.running v hv hnone)
    refine List.mem_of_getElem? (hu.stays i v.puid hi fun c hmem => ?_)
    obtain ⟨v', hv', hpuid, hcode⟩ := hl v.puid c hmem
    rw [eq_of_puid_eq hr.nodup hv' hv hpuid, hnone] at hcode
    exact nomatch hcode

theorem archive (hr : Recorded h workers) (hall : AllExited workers) :
    Recorded h.archive_active workers := by
  refine ⟨hr.nodup, hr.indexed.archive_active, fun p c hp => hr.truth p c ?_,
    fun item hitem => hr.known item ?_, fun v hv hnone => absurd hnone (hall v hv)⟩
  · exact (List.mem_append.1 hp).elim (fun hp => absurd hp List.not_mem_nil) fun hp =>
      List.mem_append.2 (List.mem_append.1 hp).symm
  · exact (List.mem_append.1 hitem).elim (fun hp => absurd hp List.not_mem_nil) fun hp =>
      List.mem_append.2 (List.mem_append.1 hp).symm

/-- What the history knows of a worker that exits. -/
theorem exits (hr : Recorded h workers) (puid : ℕ) (ecode : ℤ) :
    Recorded h (workers.map fun v =>
      if v.puid = puid ∧ v.ecode = none then { v with ecode := some ecode } else v) := by
  have hpuids : (workers.map fun v =>
      if v.puid = puid ∧ v.ecode = none then { v with ecode := some ecode } else v).map
        PGWorker.puid = workers.map PGWorker.puid := by
    rw [List.map_map]
    refine List.map_congr_left fun v _ => ?_
    show (if _ then _ else _ : PGWorker τ).puid = _
    split <;> rfl
  refine ⟨hpuids ▸ hr.nodup, hr.indexed, fun p c hp => ?_, fun item hitem => ?_,
    fun v hv hnone => ?_⟩
  · obtain ⟨v, hv, hpuid, hcode⟩ := hr.truth p c hp
    refine ⟨v, List.mem_map.2 ⟨v, hv, if_neg fun hnone => ?_⟩, hpuid, hcode⟩
    rw [hnone.2] at hcode
    exact nomatch hcode
  · rw [hpuids]
    exact hr.known item hitem
  · obtain ⟨v', hv', rfl⟩ := List.mem_map.1 hv
    split at hnone
    next => exact nomatch hnone
    next hif =>
      rw [if_neg hif]
      exact hr.running v' hv' hnone

end Recorded

/-! ## New workers -/

theorem fresh_iff :
    w.fresh puids = true ↔ puids.Nodup ∧ ∀ p ∈ puids, p ∉ w.workers.map PGWorker.puid := by
  simp only [fresh, Bool.and_eq_true, decide_eq_true_eq, List.all_eq_true, List.mem_map, not_exists,
    not_and]

theorem newWorkers_puid (hlength : puids.length = templates.length) :
    (newWorkers g puids templates).map PGWorker.puid = puids := by
  rw [newWorkers, List.map_map]
  exact List.map_fst_zip hlength.le

theorem mem_newWorkers :
    v ∈ newWorkers g puids templates ↔
      (v.puid, v.template) ∈ puids.zip templates ∧ v.group = g ∧ v.ecode = none := by
  rw [newWorkers, List.mem_map]
  constructor
  · rintro ⟨⟨p, t⟩, hmem, rfl⟩
    exact ⟨hmem, rfl, rfl⟩
  · rintro ⟨hmem, rfl, hnone⟩
    refine ⟨_, hmem, ?_⟩
    rw [← hnone]

theorem nodup_append_newWorkers (hnodup : (w.workers.map PGWorker.puid).Nodup)
    (hfresh : w.fresh puids = true) (hlength : puids.length = templates.length) :
    ((w.workers ++ newWorkers g puids templates).map PGWorker.puid).Nodup := by
  obtain ⟨hpuids, hnot⟩ := fresh_iff.1 hfresh
  rw [List.map_append, newWorkers_puid hlength]
  exact List.Nodup.append hnodup hpuids fun p hp hp' => hnot p hp' hp

theorem Exited.append (he : Exited workers p c) (more : List (PGWorker τ)) :
    Exited (workers ++ more) p c := by
  obtain ⟨v, hv, hpuid, hcode⟩ := he
  exact ⟨v, List.mem_append_left _ hv, hpuid, hcode⟩

/-- A group is started where no worker is running. -/
theorem Recorded.created (hr : Recorded w.cur_procs w.workers) (hall : AllExited w.workers)
    (hfresh : w.fresh puids = true) (hlength : puids.length = templates.length) :
    Recorded ((w.cur_procs.init_active_processes puids).add_guid g)
      (w.workers ++ newWorkers g puids templates) := by
  have hnodup := nodup_append_newWorkers (g := g) hr.nodup hfresh hlength
  have hi := hr.indexed.init_active_processes (fresh_iff.1 hfresh).1
  have hnew : ∀ p ∈ puids, p ∈ (w.workers ++ newWorkers g puids templates).map PGWorker.puid := by
    intro p hp
    rw [List.map_append, newWorkers_puid hlength]
    exact List.mem_append_right _ hp
  have hactive : ∀ item ∈ ((w.cur_procs.init_active_processes puids).add_guid g).active_processes,
      item.1 ∈ puids ∧ item.2 = none := by
    intro item hitem
    obtain ⟨p, hp, rfl⟩ := List.mem_map.1 hitem
    exact ⟨hp, rfl⟩
  refine ⟨hnodup, ⟨hi.inverse, hi.active_nprocs, hi.inactive_nprocs⟩, fun p c hp => ?_,
    fun item hitem => ?_, fun v hv hnone => ?_⟩
  · rcases List.mem_append.1 hp with hp | hp
    · exact nomatch (hactive _ hp).2
    · exact (hr.truth p c (List.mem_append_right _ hp)).append _
  · rcases List.mem_append.1 hitem with hitem | hitem
    · exact hnew _ (hactive item hitem).1
    · rw [List.map_append]
      exact List.mem_append_left _ (hr.known item (List.mem_append_right _ hitem))
  · rcases List.mem_append.1 hv with hv | hv
    · exact absurd hnone (hall v hv)
    · exact List.mem_map.2 ⟨v.puid, (List.of_mem_zip (mem_newWorkers.1 hv).1).1, rfl⟩

/-- What is needed of the workers that are to be replaced: they are at their places in the active
list, with an exit code, and these are different places. -/
structure Gone (h : PGProcessHistory) (gone_procs : List (ℕ × ℕ)) : Prop where
  code : ∀ g ∈ gone_procs, ∃ c : ℤ, h.active_processes[g.2]? = some (g.1, some c)
  places : (gone_procs.map Prod.snd).Nodup

theorem Gone.update (hg : Gone h gone_procs) (hi : h.Indexed) (l : List (ℕ × ℤ)) :
    Gone (h.update_active_processes l) gone_procs := by
  refine ⟨fun g hmem => ?_, hg.places⟩
  obtain ⟨c, hc⟩ := hg.code g hmem
  exact (hi.update_active_processes l).2.gone g.2 g.1 c hc

theorem gone_goneProcs (w : PGManager τ) : Gone w.cur_procs w.goneProcs := by
  constructor
  · intro g hg
    obtain ⟨⟨⟨p, e⟩, i⟩, hmem, rfl⟩ := List.mem_map.1 hg
    obtain ⟨hzip, hne⟩ := List.mem_filter.1 hmem
    have hi := List.mem_zipIdx_iff_getElem?.1 hzip
    cases e with
    | none => exact absurd rfl (of_decide_eq_true hne)
    | some c => exact ⟨c, hi⟩
  · have hsub : (w.goneProcs.map Prod.snd).Sublist
        (w.cur_procs.active_processes.zipIdx.map Prod.snd) := by
      rw [goneProcs, List.map_map]
      exact List.Sublist.map _ List.filter_sublist
    refine hsub.nodup ?_
    rw [List.zipIdx_map_snd]
    exact List.nodup_range'

theorem mem_newPuids : p ∈ w.newPuids ↔
    (∃ v ∈ w.workers, some v.group = w.the_state.g_uid ∧ v.puid = p) ∧
      p ∉ w.cur_procs.active_processes.map Prod.fst ∧
      p ∉ w.cur_procs.inactive_processes.map Prod.fst := by
  rw [newPuids, List.mem_filter, List.mem_map, decide_eq_true_eq]
  simp only [List.mem_filter, decide_eq_true_eq, and_assoc]

theorem nodup_newPuids (hnodup : (w.workers.map PGWorker.puid).Nodup) : w.newPuids.Nodup :=
  List.Nodup.filter _ ((List.Sublist.map _ List.filter_sublist).nodup hnodup)

/-- All workers that the history had are still there, with the new ones. -/
theorem replaced_perm {pairs : List ((ℕ × ℕ) × ℕ)} (hr : h.Replaced pairs h') :
    ((h'.active_processes ++ h'.inactive_processes).map Prod.fst).Perm
      ((h.active_processes ++ h.inactive_processes).map Prod.fst ++ pairs.map Prod.snd) := by
  obtain ⟨old, hinactive, -, -, hperm⟩ := hr.archived
  rw [hinactive, ← List.append_assoc, List.map_append, List.map_append, List.map_append]
  calc (h'.active_processes.map Prod.fst ++ h.inactive_processes.map Prod.fst ++
          old.map Prod.fst).Perm
        (h'.active_processes.map Prod.fst ++ old.map Prod.fst ++
          h.inactive_processes.map Prod.fst) := by
          rw [List.append_assoc, List.append_assoc]
          exact List.perm_append_comm.append_left _
    _ |>.Perm (h.active_processes.map Prod.fst ++ pairs.map Prod.snd ++
          h.inactive_processes.map Prod.fst) := hperm.append_right _
    _ |>.Perm (h.active_processes.map Prod.fst ++ h.inactive_processes.map Prod.fst ++
          pairs.map Prod.snd) := by
          rw [List.append_assoc, List.append_assoc]
          exact List.perm_append_comm.append_left _

/-- What is at a place of the active list after workers were replaced. -/
theorem replaced_cases {pairs : List ((ℕ × ℕ) × ℕ)}
    (hr : h.Replaced pairs h') {i : ℕ} {item : ℕ × Option ℤ}
    (hi : h'.active_processes[i]? = some item) :
    (∃ x ∈ pairs, x.1.2 = i ∧ item = (x.2, none)) ∨
      (∀ x ∈ pairs, x.1.2 ≠ i) ∧ h.active_processes[i]? = some item := by
  by_cases hx : ∃ x ∈ pairs, x.1.2 = i
  · obtain ⟨x, hx, rfl⟩ := hx
    rw [hr.placed x hx] at hi
    exact Or.inl ⟨x, hx, rfl, (Option.some.inj hi).symm⟩
  · have hne : ∀ x ∈ pairs, x.1.2 ≠ i := fun x hmem heq => hx ⟨x, hmem, heq⟩
    rw [hr.untouched i hne] at hi
    exact Or.inr ⟨hne, hi⟩

/-- Workers that have exited are replaced. -/
theorem Recorded.added (hr : Recorded w.cur_procs w.workers) (hg : Gone w.cur_procs gone_procs)
    (hgroup : w.the_state.g_uid ≠ none) {new_puids : List ℕ}
    (hadds : Adds w gone_procs msg templates puids new_puids w₀)
    (hreplace : w.cur_procs.replace_and_archive_processes new_puids gone_procs = some h) :
    Recorded h w₀.workers := by
  obtain ⟨-, -, hfresh, hlength, hw₀, hnew⟩ := hadds
  have hnodup : (w₀.workers.map PGWorker.puid).Nodup := by
    rw [hw₀]
    exact nodup_append_newWorkers hr.nodup hfresh hlength
  have hmem : ∀ p, p ∈ new_puids ↔ p ∈ w₀.newPuids := fun p => hnew.mem_iff
  have hcur : w₀.cur_procs = w.cur_procs := by rw [hw₀]
  have hworkers : ∀ p ∈ new_puids, p ∈ w₀.workers.map PGWorker.puid := by
    intro p hp
    obtain ⟨⟨v, hv, -, rfl⟩, -⟩ := mem_newPuids.1 ((hmem p).1 hp)
    exact List.mem_map_of_mem hv
  obtain ⟨hlen, hi, hrep⟩ := hr.indexed.replace_and_archive_processes
    (fun g hgm => (hg.code g hgm).elim fun c hc => ⟨some c, hc⟩) hg.places
    (hnew.nodup_iff.2 (nodup_newPuids hnodup))
    (fun p hp => hcur ▸ (mem_newPuids.1 ((hmem p).1 hp)).2.1) hreplace
  obtain ⟨old, hinactive, -, hold, -⟩ := hrep.archived
  have hsub : ∀ v ∈ w.workers, v ∈ w₀.workers := fun v hv => by
    rw [hw₀]
    exact List.mem_append_left _ hv
  -- every entry is a new one without a code, or was there before
  have hentry : ∀ item ∈ h.active_processes ++ h.inactive_processes,
      item.1 ∈ new_puids ∧ item.2 = none ∨
        item ∈ w.cur_procs.active_processes ++ w.cur_procs.inactive_processes := by
    intro item hitem
    rcases List.mem_append.1 hitem with hitem | hitem
    · obtain ⟨i, hi⟩ := List.mem_iff_getElem?.1 hitem
      rcases replaced_cases hrep hi with ⟨x, hx, -, rfl⟩ | ⟨-, hi⟩
      · exact Or.inl ⟨(List.of_mem_zip hx).2, rfl⟩
      · exact Or.inr (List.mem_append_left _ (List.mem_of_getElem? hi))
    · rw [hinactive] at hitem
      rcases List.mem_append.1 hitem with hitem | hitem
      · exact Or.inr (List.mem_append_right _ hitem)
      · obtain ⟨x, -, hx⟩ := hold item hitem
        exact Or.inr (List.mem_append_left _ (List.mem_of_getElem? hx))
  refine ⟨hnodup, hi, fun p c hp => ?_, fun item hitem => ?_, fun v hv hnone => ?_⟩
  · rcases hentry _ hp with ⟨-, hnone⟩ | hp
    · exact nomatch hnone
    · obtain ⟨v, hv, hv'⟩ := hr.truth p c hp
      exact ⟨v, hsub v hv, hv'⟩
  · rcases hentry item hitem with ⟨hmem', -⟩ | hitem
    · exact hworkers _ hmem'
    · obtain ⟨v, hv, heq⟩ := List.mem_map.1 (hr.known item hitem)
      exact List.mem_map.2 ⟨v, hsub v hv, heq⟩
  · have hpair : v.puid ∈ new_puids → (v.puid, none) ∈ h.active_processes := by
      intro hv'
      rw [← List.map_snd_zip hlen.le] at hv'
      obtain ⟨x, hx, heq⟩ := List.mem_map.1 hv'
      rw [← heq]
      exact List.mem_of_getElem? (hrep.placed x hx)
    rw [hw₀] at hv
    rcases List.mem_append.1 hv with hv | hv
    · obtain ⟨i, hvi⟩ := List.mem_iff_getElem?.1 (hr.running v hv hnone)
      refine List.mem_of_getElem? ((hrep.untouched i fun x hx heq => ?_).trans hvi)
      obtain ⟨c, hc⟩ := hg.code x.1 (List.of_mem_zip hx).1
      rw [heq, hvi] at hc
      exact nomatch (Prod.mk.inj (Option.some.inj hc)).2
    · refine hpair ((hmem _).2 (mem_newPuids.2 ⟨⟨v, ?_, ?_, rfl⟩, ?_, ?_⟩))
      · rw [hw₀]
        exact List.mem_append_right _ hv
      · obtain ⟨g, hgu⟩ := Option.ne_none_iff_exists'.1 hgroup
        rw [(mem_newWorkers.1 hv).2.1, hw₀, hgu]
        rfl
      all_goals
        rw [hcur]
        intro hitem
        obtain ⟨item, hitem, heq⟩ := List.mem_map.1 hitem
        refine (fresh_iff.1 hfresh).2 v.puid (List.of_mem_zip (mem_newWorkers.1 hv).1).1 ?_
        rw [← heq]
      · exact hr.known item (List.mem_append_left _ hitem)
      · exact hr.known item (List.mem_append_right _ hitem)

/-! ## The history in every run -/

/-- The history is true, and so are the answers that joiner threads have been given. -/
structure Known (h : PGProcessHistory) (workers : List (PGWorker τ)) (joiners : List Joiner) :
    Prop where
  recorded : Recorded h workers
  stat : ∀ j ∈ joiners, ∀ stat, j.phase = .returned stat →
    ∀ p c, (p, JoinStatus.success c) ∈ stat → Exited workers p c

/-- There is a group in the states that need one, the active list has a template for each place,
and the history has all workers of the group. -/
structure Grouped (h : PGProcessHistory) (workers : List (PGWorker τ)) (d : PGState τ) : Prop where
  g_uid : d.state = .makeJoiner ∨ d.state = .running ∨ d.state = .join → d.g_uid ≠ none
  places : d.g_uid ≠ none → h.active_processes.length ≤ d.p_templates_expanded.length
  members : ∀ v ∈ workers, some v.group = d.g_uid →
    v.puid ∈ (h.active_processes ++ h.inactive_processes).map Prod.fst

theorem grouped_of_none (s : BaseState) (hstate : d.state = s)
    (hs : s ∉ [BaseState.makeJoiner, .running, .join]) (hnone : d.g_uid = none) :
    Grouped h workers d where
  g_uid hd := by
    rw [hstate] at hd
    rcases hd with rfl | rfl | rfl <;> exact absurd (by decide) hs
  places hne := absurd hnone hne
  members _ _ hv := by
    rw [hnone] at hv
    exact nomatch hv

theorem Grouped.goes {d' : PGState τ} (hg : Grouped h workers d) (hgroup : d.g_uid ≠ none)
    (heq : d'.g_uid = d.g_uid) (hexpanded : d'.p_templates_expanded = d.p_templates_expanded) :
    Grouped h workers d' where
  g_uid _ := by
    rw [heq]
    exact hgroup
  places _ := by
    rw [hexpanded]
    exact hg.places hgroup
  members v hv hv' := by
    rw [heq] at hv'
    exact hg.members v hv hv'

/-- The active list keeps its puids, or is archived. -/
theorem Grouped.archive (hg : Grouped h workers d) :
    Grouped h.archive_active workers d where
  g_uid := hg.g_uid
  places _ := Nat.zero_le _
  members v hv hv' := by
    obtain ⟨item, hitem, heq⟩ := List.mem_map.1 (hg.members v hv hv')
    refine List.mem_map.2 ⟨item, List.mem_append_right _ ?_, heq⟩
    exact List.mem_append.2 (List.mem_append.1 hitem).symm

theorem Grouped.update (hg : Grouped h workers d) (hi : h.Indexed) (l : List (ℕ × ℤ)) :
    Grouped (h.update_active_processes l) workers d := by
  obtain ⟨-, hu⟩ := hi.update_active_processes l
  refine ⟨hg.g_uid, fun hne => hu.length.trans_le (hg.places hne), fun v hv hv' => ?_⟩
  rw [List.map_append, hu.puids, hu.inactive, ← List.map_append]
  exact hg.members v hv hv'

/-- **Invariant.**  With what is known while the state runner waits in `Idle` for workers and in
`Running` for new ones, and where no worker is running. -/
structure Hist (w : PGManager τ) : Prop where
  known : Known w.cur_procs w.workers w.joiners
  stopping : ∀ phase running_procs msg, w.place = .stopping phase running_procs msg →
    (∀ p, (p, none) ∈ w.cur_procs.active_processes → p ∈ running_procs) ∧
      running_procs ≠ [] ∧ ∀ p ∈ running_procs, p ∈ w.workers.map PGWorker.puid
  adding : ∀ templates gone_procs msg, w.place = .adding templates gone_procs msg →
    Gone w.cur_procs gone_procs ∧
      templates = gone_procs.filterMap fun g => w.the_state.p_templates_expanded[g.2]?
  grouped : Grouped w.cur_procs w.workers w.the_state
  started : w.the_state.state = .start → AllExited w.workers
  settled : w.the_state.state = .idle → w.place = .ready → AllExited w.workers

theorem Known.goes (hw : Known w.cur_procs w.workers w.joiners) (m : PGSignalMessage τ)
    (hgroup : Grouped w.cur_procs w.workers d) (hstart : d.state = .start → AllExited w.workers) :
    (w.goes m d).Hist where
  known := hw
  stopping _ _ _ hplace := nomatch hplace
  adding _ _ _ hplace := nomatch hplace
  grouped := hgroup
  started := hstart
  settled _ hplace := nomatch hplace

theorem Known.finish (hw : Known w.cur_procs w.workers w.joiners) (valid : Bool) (reply : PGReply)
    (hgroup : Grouped w.cur_procs w.workers w.the_state) (hstart : w.the_state.state ≠ .start)
    (hidle : w.the_state.state = .idle → AllExited w.workers) : (w.finish valid reply).Hist := by
  have hplace := finish_place w valid reply
  refine ⟨?_, fun _ _ _ h => ?_, fun _ _ _ h => ?_, ?_, fun h => ?_, fun h _ => ?_⟩
  · rw [finish_cur_procs, finish_workers, finish_joiners]
    exact hw
  · rw [h] at hplace
    exact hplace.elim nofun nofun
  · rw [h] at hplace
    exact hplace.elim nofun nofun
  · rw [finish_the_state, finish_cur_procs, finish_workers]
    exact hgroup
  · rw [finish_the_state] at h
    exact absurd h hstart
  · rw [finish_the_state] at h
    rw [finish_workers]
    exact hidle h

theorem Known.fail (hw : Known w.cur_procs w.workers w.joiners) (valid : Bool) : (w.fail valid).Hist :=
  Known.finish (w := { w with the_state := { state := .error } }) hw _ _
    (grouped_of_none .error rfl (by decide) rfl) nofun nofun

theorem mem_running_p_uids : p ∈ h.get_running_p_uids ↔ (p, none) ∈ h.active_processes := by
  rw [PGProcessHistory.get_running_p_uids, List.mem_map]
  constructor
  · rintro ⟨⟨q, e⟩, hmem, rfl⟩
    obtain ⟨hitem, he⟩ := List.mem_filter.1 hmem
    obtain rfl := of_decide_eq_true he
    exact hitem
  · intro hp
    exact ⟨_, List.mem_filter.2 ⟨hp, rfl⟩, rfl⟩

/-- As many exit codes as workers were asked for: all of them have exited. -/
theorem exited_of_length
    (hlength : (get_multi_join_success_puids (puidStatus workers timedOut puids)).length =
      puids.length) (hp : p ∈ puids) : ∃ c, Exited workers p c := by
  have hstatuses : (puidStatus workers timedOut puids).length = puids.length := List.length_map _
  rw [← hstatuses, get_multi_join_success_puids, List.filterMap_length_eq_length] at hlength
  have hsome := hlength _ (List.mem_map.2 ⟨p, hp, rfl⟩)
  cases hs : joinStatus workers timedOut p with
  | success c => exact ⟨c, exited_of_joinStatus hs⟩
  | unknown | timeout | pending =>
    rw [hs] at hsome
    exact nomatch hsome

theorem Exited.ecode_ne_none (he : Exited workers v.puid c)
    (hnodup : (workers.map PGWorker.puid).Nodup) (hv : v ∈ workers) : v.ecode ≠ none := by
  obtain ⟨v', hv', hpuid, hcode⟩ := he
  rw [eq_of_puid_eq hnodup hv' hv hpuid] at hcode
  rw [hcode]
  exact Option.some_ne_none c

/-- **`Idle.run` ends with no worker running.** -/
theorem Hist.stopped (hw : w.Hist) (hs : Stopped w msg w₀) :
    Known w₀.cur_procs w₀.workers w₀.joiners ∧ Grouped w₀.cur_procs w₀.workers w₀.the_state ∧
      w₀.workers = w.workers ∧ AllExited w.workers := by
  cases hs with
  | quiet _ _ hrunning =>
    refine ⟨hw.known, hw.grouped, rfl, fun v hv hnone => ?_⟩
    have hmem := mem_running_p_uids.2 (hw.known.recorded.running v hv hnone)
    rw [hrunning] at hmem
    exact nomatch hmem
  | joined _ running_procs timedOut _ hplace _ hsuccess hall =>
    subst hsuccess
    have hexited : AllExited w.workers := by
      intro v hv hnone
      have hmem := (hw.stopping _ _ _ hplace).1 _ (hw.known.recorded.running v hv hnone)
      obtain ⟨c, hc⟩ := exited_of_length hall hmem
      exact hc.ecode_ne_none hw.known.recorded.nodup hv hnone
    have hupdated := hw.known.recorded.update (l := get_multi_join_success_puids
      (puidStatus w.workers timedOut running_procs)) fun p c hp =>
        exited_of_mem_puidStatus (mem_success_puids.1 hp)
    exact ⟨⟨hupdated.archive hexited, hw.known.stat⟩,
      (hw.grouped.update hw.known.recorded.indexed _).archive, rfl, hexited⟩

theorem Taken.frame (h : Taken w msg w₀) :
    w₀.cur_procs = w.cur_procs ∧ w₀.workers = w.workers ∧ w₀.joiners = w.joiners := by
  cases h <;> exact ⟨rfl, rfl, rfl⟩

theorem Known.setJoiner {joiners : List Joiner} (hw : Known h workers joiners) (i : ℕ) {j : Joiner}
    (hj : ∀ stat, j.phase = .returned stat →
      ∀ p c, (p, JoinStatus.success c) ∈ stat → Exited workers p c) :
    Known h workers (joiners.set i j) := by
  refine ⟨hw.recorded, fun j' hj' => ?_⟩
  rcases List.mem_or_eq_of_mem_set hj' with hj' | rfl
  · exact hw.stat j' hj'
  · exact hj

/-- The places and the state are as before, and the history has only learnt exit codes. -/
theorem Hist.joiner (hw : w.Hist) (hknown : Known w'.cur_procs w'.workers w'.joiners)
    (hplace : w'.place = w.place)
    (hstate : w'.the_state = w.the_state) (hworkers : w'.workers = w.workers) {l : List (ℕ × ℤ)}
    (hcur : w'.cur_procs = w.cur_procs.update_active_processes l) : w'.Hist where
  known := hknown
  stopping phase running_procs msg h := by
    rw [hplace] at h
    rw [hcur, hworkers]
    exact (hw.stopping _ _ _ h).imp (fun hmem p hp => hmem p
      ((hw.known.recorded.indexed.update_active_processes l).2.mem_running hp)) id
  adding templates gone_procs msg h := by
    rw [hplace] at h
    rw [hcur, hstate]
    exact (hw.adding _ _ _ h).imp (fun hg => hg.update hw.known.recorded.indexed l) id
  grouped := by
    rw [hstate, hcur, hworkers]
    exact hw.grouped.update hw.known.recorded.indexed l
  started := by
    rw [hstate, hworkers]
    exact hw.started
  settled := by
    rw [hstate, hplace, hworkers]
    exact hw.settled

/-- The workers that were added are the ones of the group that the history does not have. -/
theorem newPuids_added (hr : Recorded w.cur_procs w.workers)
    (hg : Grouped w.cur_procs w.workers w.the_state) (hgroup : w.the_state.g_uid = some g)
    (hfresh : w.fresh puids = true) (hlength : puids.length = templates.length) :
    newPuids { w with workers := w.workers ++ newWorkers g puids templates } = puids := by
  have hold : ((w.workers.filter fun v => some v.group = w.the_state.g_uid).map
      PGWorker.puid).filter (fun p => p ∉ w.cur_procs.active_processes.map Prod.fst ∧
        p ∉ w.cur_procs.inactive_processes.map Prod.fst) = [] := by
    rw [List.filter_eq_nil_iff]
    intro p hp
    obtain ⟨v, hv, rfl⟩ := List.mem_map.1 hp
    obtain ⟨hv, hv'⟩ := List.mem_filter.1 hv
    have hmem := hg.members v hv (of_decide_eq_true hv')
    rw [List.map_append, List.mem_append] at hmem
    rw [decide_eq_true_eq]
    exact fun hnot => hmem.elim hnot.1 hnot.2
  have hnew : ((newWorkers g puids templates).filter fun v => some v.group = w.the_state.g_uid) =
      newWorkers g puids templates := by
    rw [List.filter_eq_self]
    intro v hv
    rw [decide_eq_true_eq, (mem_newWorkers.1 hv).2.1, hgroup]
  show (((w.workers ++ newWorkers g puids templates).filter fun v =>
    some v.group = w.the_state.g_uid).map PGWorker.puid).filter (fun p =>
      p ∉ w.cur_procs.active_processes.map Prod.fst ∧
        p ∉ w.cur_procs.inactive_processes.map Prod.fst) = puids
  rw [List.filter_append, List.map_append, List.filter_append, hold, hnew, newWorkers_puid hlength,
    List.nil_append, List.filter_eq_self]
  intro p hp
  rw [decide_eq_true_eq]
  have hnot := (fresh_iff.1 hfresh).2 p hp
  constructor <;> intro hmem <;> obtain ⟨item, hitem, rfl⟩ := List.mem_map.1 hmem
  · exact hnot (hr.known item (List.mem_append_left _ hitem))
  · exact hnot (hr.known item (List.mem_append_right _ hitem))

/-- There is a template for each worker that is to be replaced. -/
theorem Hist.length_templates (hw : w.Hist) (hplace : w.place = .adding templates gone_procs msg)
    (hstate : w.the_state.state = .running) : templates.length = gone_procs.length := by
  obtain ⟨hg, rfl⟩ := hw.adding _ _ _ hplace
  rw [List.filterMap_length_eq_length]
  intro g hmem
  obtain ⟨c, hc⟩ := hg.code g hmem
  obtain ⟨hlt, -⟩ := List.getElem?_eq_some_iff.1 hc
  have hle := hw.grouped.places (hw.grouped.g_uid (Or.inr (Or.inl hstate)))
  rw [List.getElem?_eq_getElem (hlt.trans_le hle)]
  rfl

section Adds

variable {gone_procs : List (ℕ × ℕ)} {msg : PGSignalMessage τ} {templates : List τ}
  {puids new_puids : List ℕ} {w₀ : PGManager τ}

theorem Hist.adds_perm (hw : w.Hist) (hadds : Adds w gone_procs msg templates puids new_puids w₀) :
    new_puids.Perm puids := by
  obtain ⟨-, hstate, hfresh, hlength, hw₀, hnew⟩ := hadds
  obtain ⟨g, hg⟩ := Option.ne_none_iff_exists'.1 (hw.grouped.g_uid (Or.inr (Or.inl hstate)))
  rwa [hw₀, hg, Option.getD_some, newPuids_added hw.known.recorded hw.grouped hg hfresh hlength]
    at hnew

/-- The assertion in `replace_and_archive_processes` never fails. -/
theorem Hist.replace_ne_none (hw : w.Hist)
    (hadds : Adds w gone_procs msg templates puids new_puids w₀) :
    w.cur_procs.replace_and_archive_processes new_puids gone_procs ≠ none := by
  rw [PGProcessHistory.replace_and_archive_processes, if_pos]
  · exact Option.some_ne_none _
  · rw [(hw.adds_perm hadds).length_eq, hadds.length, hw.length_templates hadds.place hadds.state]

theorem Hist.replaced (hw : w.Hist) (hadds : Adds w gone_procs msg templates puids new_puids w₀)
    (hreplace : w.cur_procs.replace_and_archive_processes new_puids gone_procs = some h) :
    new_puids.length = gone_procs.length ∧ h.Indexed ∧ PGProcessHistory.Replaced
      { w.cur_procs with inactive_nprocs := w.cur_procs.inactive_nprocs + gone_procs.length }
      (gone_procs.zip new_puids) h := by
  have hperm := hw.adds_perm hadds
  obtain ⟨hg, -⟩ := hw.adding _ _ _ hadds.place
  obtain ⟨hnodup, hnot⟩ := fresh_iff.1 hadds.fresh
  refine hw.known.recorded.indexed.replace_and_archive_processes
    (fun g hmem => (hg.code g hmem).elim fun c hc => ⟨some c, hc⟩) hg.places
    (hperm.nodup_iff.2 hnodup) (fun p hp hmem => hnot p (hperm.mem_iff.1 hp) ?_) hreplace
  obtain ⟨item, hitem, rfl⟩ := List.mem_map.1 hmem
  exact hw.known.recorded.known item (List.mem_append_left _ hitem)

theorem Hist.grouped_added (hw : w.Hist)
    (hadds : Adds w gone_procs msg templates puids new_puids w₀)
    (hreplace : w.cur_procs.replace_and_archive_processes new_puids gone_procs = some h) :
    Grouped h w₀.workers { w.the_state with state := .makeJoiner, exq := false } := by
  have hgroup := hw.grouped.g_uid (Or.inr (Or.inl hadds.state))
  obtain ⟨hlen, -, hrep⟩ := hw.replaced hadds hreplace
  refine ⟨fun _ => hgroup, fun _ => ?_, fun v hv hv' => ?_⟩
  · exact hrep.length.trans_le (hw.grouped.places hgroup)
  · rw [(replaced_perm hrep).mem_iff, List.mem_append, List.map_snd_zip hlen.le]
    rw [hadds.eq] at hv
    rcases List.mem_append.1 hv with hv | hv
    · exact Or.inl (hw.grouped.members v hv hv')
    · refine Or.inr ((hw.adds_perm hadds).mem_iff.2 ?_)
      exact (List.of_mem_zip (mem_newWorkers.1 hv).1).1

end Adds

/-- What global services answer of workers that they know is no error. -/
theorem joinStatus_of_mem (hp : p ∈ workers.map PGWorker.puid) :
    joinStatus workers timedOut p = (if timedOut then .timeout else .pending) ∨
      ∃ c, joinStatus workers timedOut p = .success c := by
  obtain ⟨v, hv, rfl⟩ := List.mem_map.1 hp
  rw [joinStatus]
  split
  next hfind => exact absurd (List.find?_eq_none.1 hfind v hv) (by simp)
  next v' hfind =>
    split
    next c _ => exact Or.inr ⟨c, rfl⟩
    next => exact Or.inl rfl

/-- The join of `Idle.run`, where all workers have exited. -/
theorem multi_join_of_success (phase : ℕ) {running_procs : List ℕ} (msg : PGSignalMessage τ)
    (hne : running_procs ≠ [])
    (hall : ∀ p ∈ running_procs, ∃ c, joinStatus workers timedOut p = .success c) :
    (stopRequest phase running_procs msg).multi_join (puidStatus workers timedOut running_procs)
      = some (some (get_multi_join_success_puids (puidStatus workers timedOut running_procs))) := by
  have hlength : (get_multi_join_success_puids
      (puidStatus workers timedOut running_procs)).length = running_procs.length := by
    have hmap : (running_procs.map fun p => (p, joinStatus workers timedOut p)).length
        = running_procs.length := List.length_map _
    rw [← hmap, get_multi_join_success_puids, puidStatus, List.filterMap_length_eq_length]
    intro s hs
    obtain ⟨p, hp, rfl⟩ := List.mem_map.1 hs
    obtain ⟨c, hc⟩ := hall p hp
    simp only [hc]
    rfl
  have hsuccess : (get_multi_join_success_puids
      (puidStatus workers timedOut running_procs)).isEmpty = false := by
    refine Bool.eq_false_iff.2 fun h => hne ?_
    rw [List.isEmpty_iff.1 h] at hlength
    exact List.length_eq_zero_iff.1 hlength.symm
  have hempty : running_procs.isEmpty = false := Bool.eq_false_iff.2 fun h =>
    hne (List.isEmpty_iff.1 h)
  rw [JoinListRequest.multi_join, stopRequest, hempty, if_neg (by decide), hsuccess,
    if_pos (by decide), hlength, if_neg (by simp)]

/-- **The join of `Idle.run` never fails.**  Global services know the workers, and without a timeout
they wait for all of them. -/
theorem Hist.not_joinedFails (hw : w.Hist) {phase : ℕ} {running_procs : List ℕ}
    (hplace : w.place = .stopping phase running_procs msg)
    (hanswered : (stopRequest phase running_procs msg).answered w.workers timedOut = true) :
    ¬ ((stopRequest phase running_procs msg).multi_join
          (puidStatus w.workers timedOut running_procs) = none ∨
        ¬ phase < 2 ∧ (stopRequest phase running_procs msg).multi_join
          (puidStatus w.workers timedOut running_procs) = some none) := by
  obtain ⟨-, hne, hknown⟩ := hw.stopping _ _ _ hplace
  have hstatus : ∀ p ∈ running_procs,
      joinStatus w.workers timedOut p = (if timedOut then .timeout else .pending) ∨
        ∃ c, joinStatus w.workers timedOut p = .success c := fun p hp =>
    joinStatus_of_mem (hknown p hp)
  have hempty : running_procs.isEmpty = false := Bool.eq_false_iff.2 fun h =>
    hne (List.isEmpty_iff.1 h)
  cases timedOut with
  | true =>
    -- the time is up, in the first two phases: there is an exit code or a timeout
    have htimeout : (stopRequest phase running_procs msg).timeout.isSome = true := hanswered
    have hphase : phase < 2 := by
      by_contra hphase
      rw [stopRequest, if_neg hphase] at htimeout
      cases htimeout
    rintro (hnone | ⟨hnot, -⟩)
    · rw [JoinListRequest.multi_join, stopRequest, hempty, if_neg (by decide)] at hnone
      split at hnone
      next => split at hnone <;> cases hnone
      next hsuccess =>
        split at hnone
        next => cases hnone
        next hflag =>
          obtain ⟨p, rest, rfl⟩ := List.exists_cons_of_ne_nil hne
          rcases hstatus p List.mem_cons_self with hp | ⟨c, hp⟩
          · refine hflag (List.any_eq_true.2 ⟨_, List.mem_map.2 ⟨p, List.mem_cons_self, rfl⟩, ?_⟩)
            exact decide_eq_true hp
          · refine hsuccess ?_
            have hmem : (p, c) ∈ get_multi_join_success_puids
                (puidStatus w.workers true (p :: rest)) :=
              mem_success_puids.2 (List.mem_map.2 ⟨p, List.mem_cons_self, by rw [hp]⟩)
            rw [Bool.not_eq_true']
            exact Bool.eq_false_iff.2 fun h => List.not_mem_nil (List.isEmpty_iff.1 h ▸ hmem)
    · exact hnot hphase
  | false =>
    -- no worker that was asked for is running
    have hall : ∀ p ∈ running_procs, ∃ c, joinStatus w.workers false p = .success c := by
      have hanswered : ((stopRequest phase running_procs msg).puids.all fun p =>
          joinStatus w.workers false p ≠ .pending) = true := by
        simpa [JoinListRequest.answered, stopRequest] using hanswered
      intro p hp
      rcases hstatus p hp with hp' | hp'
      · exact absurd hp' (by simpa using List.all_eq_true.1 hanswered p hp)
      · exact hp'
    have hsome := multi_join_of_success phase msg hne hall
    rw [hsome]
    rintro (h | ⟨-, h⟩)
    · cases h
    · cases h

/-- **Step lemma.** -/
theorem Hist.move {a : PGAction τ} (hw : w.Hist) (hplaced : w.Placed) (hmove : Move w a w') :
    w'.Hist := by
  cases hmove with
  | stutter => exact hw
  | request => exact ⟨hw.known, hw.stopping, hw.adding, hw.grouped, hw.started, hw.settled⟩
  | tick => exact ⟨hw.known, hw.stopping, hw.adding, hw.grouped, hw.started, hw.settled⟩
  | exits puid ecode =>
    have hpuids : (w.workerExits puid ecode).workers.map PGWorker.puid =
        w.workers.map PGWorker.puid := by
      rw [workerExits, List.map_map]
      refine List.map_congr_left fun v _ => ?_
      show (if _ then _ else _ : PGWorker τ).puid = _
      split <;> rfl
    refine ⟨⟨hw.known.recorded.exits puid ecode, fun j hj stat hphase p c hp => ?_⟩,
      fun phase running_procs msg h => hpuids ▸ hw.stopping phase running_procs msg h,
      hw.adding, ⟨hw.grouped.g_uid, hw.grouped.places, fun v hv hgroup => ?_⟩,
      fun h => (hw.started h).exits puid ecode,
      fun h h' => (hw.settled h h').exits puid ecode⟩
    · obtain ⟨v, hv, hpuid, hcode⟩ := hw.known.stat j hj stat hphase p c hp
      refine ⟨v, List.mem_map.2 ⟨v, hv, if_neg fun hnone => ?_⟩, hpuid, hcode⟩
      rw [hnone.2] at hcode
      exact nomatch hcode
    · obtain ⟨v', hv', rfl⟩ := List.mem_map.1 hv
      split at hgroup <;> split <;> exact hw.grouped.members v' hv' hgroup
  | take _ w₀ _ htaken =>
    obtain ⟨hcur, hworkers, hjoiners⟩ := htaken.frame
    have hstate := htaken.the_state
    refine ⟨?_, fun _ _ _ h => (nomatch h), fun _ _ _ h => (nomatch h), ?_, ?_,
      fun _ h => nomatch h⟩
    · show Known w₀.cur_procs w₀.workers w₀.joiners
      rw [hcur, hworkers, hjoiners]
      exact hw.known
    · show Grouped w₀.cur_procs w₀.workers w₀.the_state
      rw [hstate, hcur, hworkers]
      exact hw.grouped
    · show w₀.the_state.state = .start → AllExited w₀.workers
      rw [hstate, hworkers]
      exact hw.started
  | refuse _ _ hplace htaken =>
    obtain ⟨hcur, hworkers, hjoiners⟩ := htaken.frame
    have hstate := htaken.the_state
    refine Known.finish ?_ _ _ ?_ ?_ ?_
    · rw [hcur, hworkers, hjoiners]
      exact hw.known
    · rw [hstate, hcur, hworkers]
      exact hw.grouped
    · rw [hstate]
      rcases hplaced.ready hplace with h | h | h <;> rw [h] <;> decide
    · rw [hstate, hworkers]
      exact fun h => hw.settled h hplace
  | addTemplates =>
    exact hw.known.goes _ (grouped_of_none .idle rfl (by decide) rfl) nofun
  | stopping _ _ _ hrunning =>
    refine ⟨hw.known, fun phase running_procs msg' h => ?_, fun _ _ _ h => (nomatch h),
      hw.grouped, hw.started, fun _ h => nomatch h⟩
    obtain ⟨-, rfl, -⟩ := PGPlace.stopping.inj h
    refine ⟨fun p hp => mem_running_p_uids.2 hp, hrunning, fun p hp => ?_⟩
    exact hw.known.recorded.known _ (List.mem_append_left _ (mem_running_p_uids.1 hp))
  | stopAgain _ _ _ _ hplace =>
    refine ⟨hw.known, fun phase' running_procs' msg' h => ?_, fun _ _ _ h => (nomatch h),
      hw.grouped, hw.started, fun _ h => nomatch h⟩
    obtain ⟨-, rfl, -⟩ := PGPlace.stopping.inj h
    exact hw.stopping _ _ _ hplace
  | idleStart _ _ hstopped =>
    obtain ⟨hknown, -, hworkers, hall⟩ := hw.stopped hstopped
    exact hknown.goes _ (grouped_of_none .start rfl (by decide) rfl) fun _ => hworkers ▸ hall
  | idleJoin _ _ hstopped _ hgroup =>
    obtain ⟨hknown, hgrouped, -, -⟩ := hw.stopped hstopped
    rw [hstopped.the_state] at hgrouped
    exact hknown.goes _ (hgrouped.goes hgroup rfl rfl) nofun
  | idleStays _ w₀ hstopped =>
    obtain ⟨hknown, hgrouped, hworkers, hall⟩ := hw.stopped hstopped
    have hstate : w₀.the_state.state = .idle := by rw [hstopped.the_state, hstopped.state]
    refine Known.finish (w := w₀.receive _) hknown _ _ hgrouped ?_ fun _ => ?_
    · show w₀.the_state.state ≠ .start
      rw [hstate]
      decide
    · show AllExited w₀.workers
      rw [hworkers]
      exact hall
  | created _ g_uid _ _ hstate hfresh hgroup hlength =>
    refine Known.goes ⟨?_, fun j hj stat hphase p c hp => ?_⟩ _
      ⟨fun _ => Option.some_ne_none g_uid, fun _ => ?_, fun v hv hv' => ?_⟩ nofun
    · exact hw.known.recorded.created (hw.started hstate) hfresh hlength
    · exact (hw.known.stat j hj stat hphase p c hp).append _
    · exact ((List.length_map _).trans hlength).le
    · rcases List.mem_append.1 hv with hv | hv
      · exact absurd (Option.some.inj hv') (hgroup v hv)
      · refine List.mem_map.2 ⟨(v.puid, none), List.mem_append_left _ ?_, rfl⟩
        exact List.mem_map.2 ⟨v.puid, (List.of_mem_zip (mem_newWorkers.1 hv).1).1, rfl⟩
  | makeJoiner _ _ hstate =>
    refine Known.goes ?_ _ ?_ nofun
    · refine ⟨hw.known.recorded, fun j hj stat hphase => ?_⟩
      rcases List.mem_append.1 hj with hj | hj
      · exact hw.known.stat j hj stat hphase
      · obtain rfl := List.mem_singleton.1 hj
        exact nomatch hphase
    · exact hw.grouped.goes (hw.grouped.g_uid (Or.inl hstate)) rfl rfl
  | runStop _ _ hstate | runJoin _ _ hstate | runJoinFinal _ _ hstate =>
    exact hw.known.goes _ (hw.grouped.goes (hw.grouped.g_uid (Or.inr (Or.inl hstate))) rfl rfl)
      nofun
  | runStopMaintaining _ _ hstate =>
    refine Known.goes ?_ _ ?_ nofun
    · exact hw.known
    · exact hw.grouped.goes (hw.grouped.g_uid (Or.inr (Or.inl hstate))) rfl rfl
  | runStays _ _ hstate =>
    refine Known.finish (w := w.receive _) hw.known _ _ hw.grouped ?_ ?_
    · show w.the_state.state ≠ .start
      rw [hstate]
      decide
    · show w.the_state.state = .idle → _
      rw [hstate]
      exact nofun
  | runExit _ _ hstate =>
    exact hw.known.goes _ (hw.grouped.goes (hw.grouped.g_uid (Or.inr (Or.inl hstate))) rfl rfl)
      nofun
  | runRestart =>
    refine ⟨hw.known, fun _ _ _ h => (nomatch h), fun templates gone_procs msg' h => ?_,
      hw.grouped, hw.started, fun _ h => nomatch h⟩
    obtain ⟨rfl, rfl, -⟩ := PGPlace.adding.inj h
    exact ⟨gone_goneProcs w, rfl⟩
  | added _ _ _ _ _ _ _ hadds hreplace =>
    have hgroup := hw.grouped.g_uid (Or.inr (Or.inl hadds.state))
    have hr := hw.known.recorded.added (hw.adding _ _ _ hadds.place).1 hgroup hadds hreplace
    have hgrouped := hw.grouped_added hadds hreplace
    refine Known.goes ⟨hr, fun j hj stat hphase p c hp => ?_⟩ _ hgrouped nofun
    obtain rfl := hadds.eq
    exact (hw.known.stat j hj stat hphase p c hp).append _
  | addedFails _ _ _ _ _ _ hadds hreplace =>
    exact absurd hreplace (hw.replace_ne_none hadds)
  | joinBegin _ _ hstate | joinItem _ _ _ _ _ _ _ _ hstate =>
    refine ⟨hw.known, fun _ _ _ h => (nomatch h), fun _ _ _ h => (nomatch h), ?_, ?_,
      fun _ h => nomatch h⟩
    · exact hw.grouped.goes (hw.grouped.g_uid (Or.inr (Or.inr hstate))) rfl rfl
    · show w.the_state.state = .start → _
      rw [hstate]
      exact nofun
  | joinEnd _ _ _ _ hstate =>
    exact hw.known.goes _ (hw.grouped.goes (hw.grouped.g_uid (Or.inr (Or.inr hstate))) rfl rfl)
      nofun
  | joinedFails _ _ _ _ hplace hanswered hjoin =>
    exact absurd hjoin (hw.not_joinedFails hplace hanswered)
  | raises => exact hw.known.fail _
  | joinerMoves i _ _ _ hj =>
    refine hw.joiner (l := []) (hw.known.setJoiner i ?_) rfl rfl rfl rfl
    intro stat hphase p c hp
    cases hj with
    | empty => exact nomatch hphase
    | snapshot => exact nomatch hphase
    | again => exact nomatch hphase
    | returned =>
      obtain rfl := JoinerPhase.returned.inj hphase
      exact exited_of_mem_puidStatus hp
    | raised => exact nomatch hphase
  | joinerRecord i j stat hi hphase =>
    have htrue := hw.known.stat j (List.mem_of_getElem? hi) stat hphase
    have hl : ∀ p c, (p, c) ∈ get_multi_join_failure_puids stat ++
        get_multi_join_success_puids stat → Exited w.workers p c := by
      intro p c hp
      rcases List.mem_append.1 hp with hp | hp
      · exact htrue p c (mem_success_puids.1 (List.mem_filter.1 hp).1)
      · exact htrue p c (mem_success_puids.1 hp)
    have hcur : (w.joinerRecord i j stat).cur_procs = w.cur_procs.update_active_processes
        (get_multi_join_failure_puids stat ++ get_multi_join_success_puids stat) :=
      List.foldl_append.symm
    refine hw.joiner (l := get_multi_join_failure_puids stat ++ get_multi_join_success_puids stat)
      ?_ rfl rfl rfl hcur
    rw [hcur]
    exact Known.setJoiner ⟨hw.known.recorded.update hl, hw.known.stat⟩ i fun _ h => nomatch h
  | joinerEnds i =>
    exact hw.joiner (l := []) (hw.known.setJoiner i fun _ h => nomatch h) rfl rfl rfl rfl

theorem hist_init (puid : ℕ) (restart ignore_error_on_exit : Bool) (walltime : Option ℚ) :
    (init puid restart ignore_error_on_exit walltime : PGManager τ).Hist where
  known :=
    { recorded :=
        { nodup := List.nodup_nil
          indexed := ⟨fun _ _ => ⟨nofun, fun ⟨_, h⟩ => nomatch h⟩, rfl, rfl⟩
          truth := fun _ _ h => absurd h List.not_mem_nil
          known := fun _ h => absurd h List.not_mem_nil
          running := fun _ h => absurd h List.not_mem_nil }
      stat := fun _ h => absurd h List.not_mem_nil }
  stopping _ _ _ h := nomatch h
  adding _ _ _ h := nomatch h
  grouped := grouped_of_none .addTemplates rfl (by decide) rfl
  started h := nomatch h
  settled h := nomatch h

/-- **Run lemma.** -/
theorem hist_run (puid : ℕ) (restart ignore_error_on_exit : Bool) (walltime : Option ℚ)
    (actions : List (PGAction τ)) :
    (actions.foldl exec (init puid restart ignore_error_on_exit walltime)).Placed ∧
      (actions.foldl exec (init puid restart ignore_error_on_exit walltime)).Hist :=
  run_invariant (fun _ _ _ hplaced hw hmove => hw.move hplaced hmove)
    (placed_init puid restart ignore_error_on_exit walltime)
    (hist_init puid restart ignore_error_on_exit walltime) actions

end PGManager
