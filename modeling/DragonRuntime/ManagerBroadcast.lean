/-
# Broadcasts among the managers of a dictionary (`src/dragon/data/ddict/manager.py`)

A broadcast request is sent to manager `0` and goes down an implicit binary tree: manager `i`
sends it to the managers `2 * i + 1` and `2 * i + 2` that there are.  A broadcast put carries the
list of the managers that are to perform it.  The manager that gets it, the first one of the list,
splits the rest in two halves, sends each half that is not empty to its first manager, and performs
the put itself.

Conventions:

* the managers handle the requests in flight in any order;
* a request of the tree is the manager it is sent to; a broadcast put is the manager it is sent to
  with the message;
* a manager `refuses` a request if its handler returns before it forwards: it is frozen, or, for a
  put, its pool is full;
* a put is performed for each key of the stream of the request, one key if it is not a batch.
-/
import DragonRuntime.Forwarding

namespace ManagerBroadcast

/-! ## `_send_dmsg_to_children` -/

/-- The managers to which manager `managerId` of `numManagers` sends the request. -/
def sendDmsgToChildren (numManagers managerId : ℕ) : List ℕ :=
  let leftChild := 2 * managerId + 1
  let rightChild := 2 * managerId + 2
  (if leftChild < numManagers then [leftChild] else []) ++
    if rightChild < numManagers then [rightChild] else []

variable {child numManagers : ℕ} {managers : List ℕ}

theorem mem_sendDmsgToChildren {managerId : ℕ} :
    child ∈ sendDmsgToChildren numManagers managerId ↔
      child < numManagers ∧ (child = 2 * managerId + 1 ∨ child = 2 * managerId + 2) := by
  simp only [sendDmsgToChildren, List.mem_append, List.mem_ite_nil_right, List.mem_singleton]
  omega

/-- The broadcast over the tree. -/
def tree (numManagers : ℕ) : Scheme ℕ where
  next := sendDmsgToChildren numManagers
  weight managerId := numManagers - managerId
  weight_lt managerId child hchild := by
    rw [mem_sendDmsgToChildren] at hchild
    omega

theorem tree_next (numManagers managerId : ℕ) :
    (tree numManagers).next managerId = sendDmsgToChildren numManagers managerId := rfl

/-- A manager is the child of one manager, and of that one once. -/
theorem count_sendDmsgToChildren (hchild : child < numManagers) (managerId : ℕ) :
    (sendDmsgToChildren numManagers managerId).count child =
      if 0 < child ∧ (child - 1) / 2 = managerId then 1 else 0 := by
  simp only [sendDmsgToChildren, List.count_append]
  split_ifs <;> simp only [List.count_nil, List.count_singleton, beq_iff_eq] <;>
    (try split_ifs) <;> omega

/-- Below a manager, a manager is visited as that one or through its own parent. -/
theorem count_visits_tree (hchild : child < numManagers) (managerId : ℕ) :
    ((tree numManagers).visits managerId).count child =
      (if child = managerId then 1 else 0) +
        if 0 < child then ((tree numManagers).visits managerId).count ((child - 1) / 2) else 0 := by
  induction hn : numManagers - managerId using Nat.strong_induction_on generalizing managerId with
  | _ n ih =>
    -- the children of the manager are nearer to the leaves
    have hbelow : ∀ cs : List ℕ, (∀ c ∈ cs, c ∈ sendDmsgToChildren numManagers managerId) →
        (cs.map fun c => ((tree numManagers).visits c).count child).sum =
          cs.count child + if 0 < child then
            (cs.map fun c => ((tree numManagers).visits c).count ((child - 1) / 2)).sum
          else 0 := by
      intro cs hcs
      induction cs with
      | nil => simp
      | cons c cs ihcs =>
        have hc := mem_sendDmsgToChildren.mp (hcs c List.mem_cons_self)
        have hvisits := ih (numManagers - c) (by omega) c rfl
        have hrest := ihcs fun b hb => hcs b (List.mem_cons_of_mem c hb)
        simp only [List.map_cons, List.sum_cons, List.count_cons, beq_iff_eq, hvisits, hrest,
          eq_comm (a := child)]
        split_ifs <;> omega
    rw [Scheme.count_visits, Scheme.count_visits, tree_next, hbelow _ fun c hc => hc,
      count_sendDmsgToChildren hchild]
    split_ifs <;> omega

/-- Only managers that there are get the request. -/
theorem lt_of_mem_visits_tree (hmanagers : 0 < numManagers) :
    ∀ k ∈ (tree numManagers).visits 0, k < numManagers := by
  refine Scheme.visits_induction _ (fun managerId _ child hchild => ?_) hmanagers
  exact (mem_sendDmsgToChildren.mp hchild).1

/-- From manager `0`, every manager is visited once. -/
theorem visits_tree (hmanagers : 0 < numManagers) :
    (tree numManagers).visits 0 = Multiset.range numManagers := by
  have hcount : ∀ k < numManagers, ((tree numManagers).visits 0).count k = 1 := by
    intro k
    -- a manager is reached through its parent, which has a smaller number
    induction k using Nat.strong_induction_on with
    | _ k ih =>
      intro hk
      rw [count_visits_tree hk]
      rcases Nat.eq_zero_or_pos k with rfl | hpos
      · simp
      · rw [ih ((k - 1) / 2) (by omega) (by omega), if_neg (by omega), if_pos hpos]
  ext k
  rcases Nat.lt_or_ge k numManagers with hk | hk
  · rw [hcount k hk, Multiset.count_eq_one_of_mem (Multiset.nodup_range _)
      (Multiset.mem_range.mpr hk)]
  · rw [Multiset.count_eq_zero_of_notMem fun h => ?_, Multiset.count_eq_zero_of_notMem fun h => ?_]
    · exact absurd (Multiset.mem_range.mp h) (by omega)
    · exact absurd (lt_of_mem_visits_tree hmanagers k h) (by omega)

/-! ## `bput` and `_bput_batch` -/

/-- What follows the message of a broadcast put: one key, or those of a batch. -/
inductive PutStream (ι : Type*) : Type _ where
  | one (key : ι)
  | batch (keys : List ι)

/-- `DDBPut` -/
structure DDBPut (ι : Type*) where
  managers : List ℕ
  stream : PutStream ι

/-- A message on its way to a manager. -/
structure Sent (ι : Type*) where
  managerId : ℕ
  msg : DDBPut ι

variable {ι : Type*}

/-- A half that is not empty is sent to its first manager. -/
def sendHalf (msg : DDBPut ι) : List ℕ → List (Sent ι)
  | [] => []
  | managerId :: half => [⟨managerId, { msg with managers := managerId :: half }⟩]

/-- The list-splitting code of `_bput` and of `_bput_batch`. -/
def bcastToHalves (msg : DDBPut ι) : List (Sent ι) :=
  let managers := msg.managers.drop 1
  let mid := managers.length / 2
  sendHalf msg (managers.take mid) ++ sendHalf msg (managers.drop mid)

theorem mem_sendHalf {msg : DDBPut ι} {half : List ℕ} {r : Sent ι} (hr : r ∈ sendHalf msg half) :
    0 < half.length ∧ r.msg.managers = half ∧ half.head? = some r.managerId ∧
      r.msg.stream = msg.stream := by
  cases half with
  | nil => simp [sendHalf] at hr
  | cons managerId half =>
    obtain rfl : r = ⟨managerId, { msg with managers := managerId :: half }⟩ := by
      simpa [sendHalf] using hr
    exact ⟨Nat.succ_pos _, rfl, rfl, rfl⟩

/-- What is forwarded has fewer managers, the first of which it is sent to, and the same keys. -/
theorem mem_bcastToHalves {msg : DDBPut ι} {r : Sent ι} (hr : r ∈ bcastToHalves msg) :
    r.msg.managers.length < msg.managers.length ∧ r.msg.managers.head? = some r.managerId ∧
      r.msg.stream = msg.stream := by
  have hsub : ∃ half : List ℕ, half.length ≤ (msg.managers.drop 1).length ∧
      r ∈ sendHalf msg half := by
    rcases List.mem_append.mp hr with hr | hr
    · exact ⟨_, List.length_take_le' _ _, hr⟩
    · refine ⟨_, ?_, hr⟩
      rw [List.length_drop]
      omega
  obtain ⟨half, hlen, hr⟩ := hsub
  obtain ⟨hpos, rfl, hhead, hstream⟩ := mem_sendHalf hr
  refine ⟨?_, hhead, hstream⟩
  rw [List.length_drop] at hlen
  omega

/-- The broadcast put. -/
def halving (ι : Type*) : Scheme (Sent ι) where
  next r := bcastToHalves r.msg
  weight r := r.msg.managers.length
  weight_lt _ _ hr := (mem_bcastToHalves hr).1

theorem halving_next (r : Sent ι) : (halving ι).next r = bcastToHalves r.msg := rfl

/-- The request that the client sends. -/
def firstPut (managers : List ℕ) (hne : managers ≠ []) (stream : PutStream ι) : Sent ι :=
  ⟨managers.head hne, ⟨managers, stream⟩⟩

/-- From the first one of a list, every manager of the list is visited as often as it is listed. -/
theorem map_visits_halving {r : Sent ι} (hr : r.msg.managers.head? = some r.managerId) :
    ((halving ι).visits r).map Sent.managerId = r.msg.managers := by
  induction hn : r.msg.managers.length using Nat.strong_induction_on generalizing r with
  | _ n ih =>
    obtain ⟨managerId, ⟨managers, stream⟩⟩ := r
    cases managers with
    | nil => simp at hr
    | cons first rest =>
      obtain rfl : first = managerId := by simpa using hr
      -- a half, if it is not empty, is covered from its first manager
      have hhalf : ∀ half : List ℕ, half.length < n →
          (((sendHalf ⟨first :: rest, stream⟩ half).map (halving ι).visits).sum.map
            Sent.managerId) = half := by
        intro half hlen
        cases half with
        | nil => rfl
        | cons b half =>
          simp only [sendHalf, List.map_cons, List.map_nil, List.sum_cons, List.sum_nil,
            add_zero]
          exact ih (half.length + 1) (by simpa using hlen) rfl rfl
      simp only [List.length_cons] at hn
      have hleft := hhalf (rest.take (rest.length / 2)) (by rw [List.length_take]; omega)
      have hright := hhalf (rest.drop (rest.length / 2)) (by rw [List.length_drop]; omega)
      rw [Scheme.visits_eq, Multiset.map_cons, halving_next]
      simp only [bcastToHalves, List.drop_one, List.tail_cons, List.map_append, List.sum_append,
        Multiset.map_add]
      rw [hleft, hright, Multiset.coe_add, List.take_append_drop]
      rfl

/-- Every request of the broadcast carries the keys of the first one. -/
theorem stream_of_mem_visits_halving {r b : Sent ι} (hb : b ∈ (halving ι).visits r) :
    b.msg.stream = r.msg.stream := by
  refine Scheme.visits_induction _ (P := fun b => b.msg.stream = r.msg.stream) ?_ rfl b hb
  intro b hstream c hc
  rw [(mem_bcastToHalves hc).2.2, hstream]

/-- The managers that have performed the put, with the keys they have put. -/
def performed (accepts : ℕ → Bool) (s : Flight (Sent ι)) : Multiset (ℕ × PutStream ι) :=
  (s.handled.filter fun r => accepts r.managerId = true).map fun r => (r.managerId, r.msg.stream)

theorem performed_le (accepts : ℕ → Bool) {s t : Flight (Sent ι)} (h : s.handled ≤ t.handled) :
    performed accepts s ≤ performed accepts t :=
  Multiset.map_le_map (Multiset.filter_le_filter _ h)

/-- The visits of the first request, as the puts that they would perform. -/
theorem map_visits_firstPut (hne : managers ≠ []) (stream : PutStream ι) :
    ((halving ι).visits (firstPut managers hne stream)).map
        (fun r => (r.managerId, r.msg.stream)) =
      ((managers.map fun m => (m, stream) : List (ℕ × PutStream ι)) : Multiset _) := by
  have hmap := map_visits_halving (r := firstPut managers hne stream)
    (List.head?_eq_some_head hne)
  have hpair := congrArg (Multiset.map fun m => (m, stream)) hmap
  rw [Multiset.map_map] at hpair
  rw [Multiset.map_congr rfl fun r hr => congrArg (Prod.mk r.managerId)
    (stream_of_mem_visits_halving hr)]
  exact hpair

/-- What is performed is among the puts of the managers of the list. -/
theorem performed_visits_le (accepts : ℕ → Bool) (hne : managers ≠ []) (stream : PutStream ι) :
    performed accepts ⟨0, (halving ι).visits (firstPut managers hne stream)⟩ ≤
      ((managers.map fun m => (m, stream) : List (ℕ × PutStream ι)) : Multiset _) := by
  rw [← map_visits_firstPut hne stream]
  exact Multiset.map_le_map (Multiset.filter_le _ _)

/-- If no manager refuses, the managers of the list have performed the put with its keys. -/
theorem performed_visits {accepts : ℕ → Bool} (hne : managers ≠ []) (stream : PutStream ι)
    (haccept : ∀ m ∈ managers, accepts m = true) :
    performed accepts ⟨0, (halving ι).visits (firstPut managers hne stream)⟩ =
      ((managers.map fun m => (m, stream) : List (ℕ × PutStream ι)) : Multiset _) := by
  rw [← map_visits_firstPut hne stream, performed, Multiset.filter_eq_self.mpr]
  intro r hr
  refine haccept r.managerId ?_
  have hmem := Multiset.mem_map_of_mem Sent.managerId hr
  rw [map_visits_halving (List.head?_eq_some_head hne)] at hmem
  exact hmem

/-- In every order of the handlings the two broadcasts end, and no manager gets the request, or
performs the put, twice or without being meant.  Unless a manager refuses, all of them get it. -/
theorem broadcasts_cover {numManagers : ℕ} (hmanagers : 0 < numManagers) {managers : List ℕ}
    (hne : managers ≠ []) (hnodup : managers.Nodup) (stream : PutStream ι) (accepts : ℕ → Bool) :
    (((tree numManagers).restrict accepts).Ends 0 numManagers ∧
      ∀ k s, ((tree numManagers).restrict accepts).Run k (Scheme.start 0) s →
        s.handled.Nodup ∧ (∀ m ∈ s.handled, m < numManagers) ∧
          (s.inFlight = 0 → (∀ m < numManagers, accepts m = true) →
            ∀ m < numManagers, m ∈ s.handled)) ∧
    ((halving ι).restrict fun r => accepts r.managerId).Ends (firstPut managers hne stream)
        managers.length ∧
      ∀ k s, ((halving ι).restrict fun r => accepts r.managerId).Run k
          (Scheme.start (firstPut managers hne stream)) s →
        (performed accepts s).Nodup ∧
          (∀ p ∈ performed accepts s, p.1 ∈ managers ∧ p.2 = stream) ∧
          (s.inFlight = 0 → (∀ m ∈ managers, accepts m = true) →
            ∀ m ∈ managers, (m, stream) ∈ performed accepts s) := by
  have htree := (tree numManagers).visits_restrict_le accepts 0
  rw [visits_tree hmanagers] at htree
  have hput := (halving ι).visits_restrict_le (fun r => accepts r.managerId)
    (firstPut managers hne stream)
  refine ⟨⟨Scheme.ends ?_, fun k s hrun => ?_⟩, Scheme.ends ?_, fun k s hrun => ?_⟩
  · simpa using Multiset.card_le_card htree
  · have hle := hrun.handled_le.trans htree
    refine ⟨Multiset.nodup_of_le hle (Multiset.nodup_range _), fun m hm => ?_, ?_⟩
    · exact Multiset.mem_range.mp (Multiset.mem_of_le hle hm)
    · intro hdone haccept m hm
      rw [hrun.handled_eq hdone, Scheme.visits_restrict_of_accepts, visits_tree hmanagers]
      · exact Multiset.mem_range.mpr hm
      · exact fun b hb => haccept b (lt_of_mem_visits_tree hmanagers b hb)
  · have hcard := congrArg Multiset.card
      (map_visits_halving (r := firstPut managers hne stream) (List.head?_eq_some_head hne))
    rw [Multiset.card_map] at hcard
    exact (Multiset.card_le_card hput).trans hcard.le
  · have hpairs : (managers.map fun m => (m, stream)).Nodup :=
      hnodup.map fun a b hab => (Prod.mk.inj hab).1
    have hle := (performed_le accepts (t := ⟨0, _⟩)
      (hrun.handled_le.trans hput)).trans (performed_visits_le accepts hne stream)
    refine ⟨Multiset.nodup_of_le hle (Multiset.coe_nodup.mpr hpairs), fun p hp => ?_, ?_⟩
    · obtain ⟨m, hm, rfl⟩ := List.mem_map.mp (Multiset.mem_coe.mp (Multiset.mem_of_le hle hp))
      exact ⟨hm, rfl⟩
    · intro hdone haccept m hm
      have hhandled := hrun.handled_eq hdone
      rw [Scheme.visits_restrict_of_accepts] at hhandled
      · have hperformed := performed_visits hne stream haccept
        rw [performed, ← hhandled] at hperformed
        rw [performed, hperformed]
        exact Multiset.mem_coe.mpr (List.mem_map_of_mem hm)
      · intro r hr
        refine haccept r.managerId ?_
        have hmem := Multiset.mem_map_of_mem Sent.managerId hr
        rw [map_visits_halving (List.head?_eq_some_head hne)] at hmem
        exact hmem

/-- Three managers, and a batch of two keys that goes to the managers `2`, `0` and `1`. -/
theorem broadcasts_cover_three :
    (((tree 3).restrict fun _ => true).Ends 0 3 ∧
      ∀ k s, ((tree 3).restrict fun _ => true).Run k (Scheme.start 0) s →
        s.handled.Nodup ∧ (∀ m ∈ s.handled, m < 3) ∧
          (s.inFlight = 0 → (∀ m < 3, true = true) → ∀ m < 3, m ∈ s.handled)) ∧
    ((halving ℕ).restrict fun _ => true).Ends
        (firstPut [2, 0, 1] (by decide) (.batch [5, 6])) 3 ∧
      ∀ k s, ((halving ℕ).restrict fun _ => true).Run k
          (Scheme.start (firstPut [2, 0, 1] (by decide) (.batch [5, 6]))) s →
        (performed (fun _ => true) s).Nodup ∧
          (∀ p ∈ performed (fun _ => true) s, p.1 ∈ [2, 0, 1] ∧ p.2 = .batch [5, 6]) ∧
          (s.inFlight = 0 → (∀ m ∈ [2, 0, 1], true = true) →
            ∀ m ∈ [2, 0, 1], (m, .batch [5, 6]) ∈ performed (fun _ => true) s) :=
  broadcasts_cover (by decide) (by decide) (by decide) (.batch [5, 6]) fun _ => true

end ManagerBroadcast
