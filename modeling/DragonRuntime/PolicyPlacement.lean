/-
# What the placement by policies guarantees

A call of `evaluate` places one policy after the other (`Honoured`), whatever calls came before it.
Policies that go round the nodes are dealt out like cards (`dealt`), and so is what block policies
put on nodes without room, since then no node has room (`Sound`).
-/
import DragonRuntime.PolicyEvaluator

namespace Placement

/-! ## Dealing out -/

/-- How many of so many cards the place `i` gets, when they are dealt out to `n` places from the
place `start`. -/
def dealt (n start cards i : ℕ) : ℕ := Nat.count (fun card => (start + card) % n = i) cards

theorem dealt_succ (n start cards i : ℕ) :
    dealt n start (cards + 1) i =
      dealt n ((start + 1) % n) cards i + if start % n = i then 1 else 0 := by
  unfold dealt
  rw [Nat.count_succ']
  have hshift : (fun card => (start + (card + 1)) % n = i) =
      fun card => ((start + 1) % n + card) % n = i := by
    funext card
    rw [Nat.mod_add_mod, Nat.add_assoc, Nat.add_comm 1 card]
  simp only [hshift, Nat.add_zero]

/-- No place gets more than one card more than another one. -/
theorem dealt_le_succ {n : ℕ} (start cards : ℕ) {i j : ℕ} (hi : i < n) (hj : j < n) :
    dealt n start cards i ≤ dealt n start cards j + 1 := by
  have hpos : 0 < n := (Nat.zero_le i).trans_lt hi
  have hmod : ∀ x < 2 * n, x % n = if x < n then x else x - n := by
    intro x hx
    split
    next hlt => exact Nat.mod_eq_of_lt hlt
    next hge => rw [Nat.mod_eq_sub_mod (Nat.not_lt.mp hge), Nat.mod_eq_of_lt (by omega)]
  -- a place has its turn every `n` cards
  have hcount : ∀ k < n, ∃ turn, dealt n start cards k =
      cards / n + if turn % n < cards % n then 1 else 0 := by
    intro k hk
    refine ⟨k + (n - start % n), ?_⟩
    rw [← Nat.count_modEq_card _ hpos]
    unfold dealt
    congr 1
    funext card
    rw [eq_iff_iff]
    have hstart : start % n < n := Nat.mod_lt _ hpos
    have hcard : card % n < n := Nat.mod_lt _ hpos
    show (start + card) % n = k ↔ card % n = (k + (n - start % n)) % n
    rw [Nat.add_mod, hmod _ (by omega), hmod (k + (n - start % n)) (by omega)]
    split <;> split <;> omega
  obtain ⟨turn, hturn⟩ := hcount i hi
  obtain ⟨turn', hturn'⟩ := hcount j hj
  rw [hturn, hturn']
  split <;> split <;> omega

namespace PolicyEvaluator

/-! ## Counters -/

/-- The counter of a node. -/
def num_policies (s : PolicyEvaluator) (idx : ℕ) : ℕ := (s.nodes[idx]?).elim 0 (·.num_policies)

def num_cpus (s : PolicyEvaluator) (idx : ℕ) : ℕ := (s.nodes[idx]?).elim 0 (·.num_cpus)

variable {idx : ℕ} {s s' : PolicyEvaluator} {node_specified : Bool} {p : Policy}
  {layout : ResourceLayout} {layouts : List ResourceLayout} {policies : List Policy}

theorem isFull_iff : s.isFull idx = true ↔ s.num_cpus idx ≤ s.num_policies idx := by
  unfold isFull num_cpus num_policies
  split
  next node hnode =>
    rw [hnode]
    show decide (node.num_cpus ≤ node.num_policies) = true ↔ node.num_cpus ≤ node.num_policies
    exact decide_eq_true_iff
  next hnone =>
    rw [hnone]
    exact iff_of_true rfl (Nat.le_refl 0)

theorem not_isFull_iff : s.isFull idx = false ↔ s.num_policies idx < s.num_cpus idx := by
  rw [← Bool.not_eq_true, isFull_iff, Nat.not_le]

theorem length_count (s : PolicyEvaluator) (idx : ℕ) :
    (s.count idx).nodes.length = s.nodes.length :=
  List.length_modify ..

theorem num_policies_count (h : idx < s.nodes.length) (i : ℕ) :
    (s.count idx).num_policies i = s.num_policies i + if idx = i then 1 else 0 := by
  unfold num_policies count
  simp only [List.getElem?_modify]
  by_cases heq : idx = i
  · subst heq
    simp [List.getElem?_eq_getElem h]
  · simp [heq]

theorem num_cpus_count (s : PolicyEvaluator) (idx i : ℕ) :
    (s.count idx).num_cpus i = s.num_cpus i := by
  unfold num_cpus count
  simp only [List.getElem?_modify]
  cases s.nodes[i]? with
  | none => rfl
  | some node => by_cases heq : idx = i <;> simp [heq]

theorem num_policies_congr (h : s'.nodes = s.nodes) (i : ℕ) :
    s'.num_policies i = s.num_policies i := by
  unfold num_policies
  rw [h]

theorem num_cpus_congr (h : s'.nodes = s.nodes) (i : ℕ) : s'.num_cpus i = s.num_cpus i := by
  unfold num_cpus
  rw [h]

/-! ## Without room -/

/-- No node has room when the evaluator overprovisions. -/
def Sound (s : PolicyEvaluator) : Prop := s.overprovision = true → ∀ idx, s.isFull idx = true

theorem Sound.of_eq (h : s.Sound) (hnodes : s'.nodes = s.nodes)
    (hover : s'.overprovision = s.overprovision) : s'.Sound := by
  intro htrue idx
  rw [isFull_congr hnodes]
  exact h (hover ▸ htrue) idx

theorem Sound.wrap (h : s.Sound) : s.wrap.Sound :=
  h.of_eq s.wrap_nodes s.wrap_overprovision

/-- A counter that grows makes no room. -/
theorem isFull_count {i : ℕ} (h : s.isFull i = true) (idx : ℕ) : (s.count idx).isFull i = true := by
  rw [isFull_iff] at h ⊢
  rw [num_cpus_count]
  by_cases hlt : idx < s.nodes.length
  · rw [num_policies_count hlt]
    exact h.trans (Nat.le_add_right ..)
  · have hsame : (s.count idx).nodes = s.nodes := by
      show s.nodes.modify idx _ = s.nodes
      exact List.modify_eq_self (Nat.not_lt.mp hlt)
    rw [num_policies_congr hsame]
    exact h

theorem Sound.count (h : s.Sound) (idx : ℕ) : (s.count idx).Sound :=
  fun hover i => isFull_count (h hover i) idx

theorem Chosen.sound (h : s.Sound) (hchosen : s.Chosen p node_specified idx s') : s'.Sound := by
  cases hchosen with
  | host_id | host_name | room => exact h.wrap
  | cycle | overprovisioned => exact h.wrap.of_eq rfl rfl
  | full _ _ _ hfull =>
    intro _ i
    rw [← hfull i]
    exact isFull_congr s.wrap_nodes i

/-- `_get_node` only wraps the cursor before it raises. -/
theorem get_node_error {e : Raised} (h : s.get_node p = (.error e, s')) : s' = s.wrap := by
  unfold get_node at h
  simp only at h
  repeat' split at h
  all_goals first
    | exact (Prod.mk.inj h).2.symm
    | exact absurd (Prod.mk.inj h).1 nofun

theorem get_node_sound (h : s.Sound) (p : Policy) : (s.get_node p).2.Sound := by
  rcases hget : s.get_node p with ⟨_ | ⟨node_specified, idx⟩, s'⟩
  · rw [get_node_error hget]
    exact h.wrap
  · exact (get_node_chosen hget).sound h

theorem apply_sound (h : s.Sound) (p : Policy) : (s.apply p).2.Sound := by
  unfold apply
  split
  · exact h
  next default_policy _ =>
    have hget := get_node_sound h (default_policy.merge p)
    unfold place
    split
    next hraised => rw [hraised] at hget; exact hget
    next hfound =>
      rw [hfound] at hget
      split
      · exact hget
      · split
        · exact hget
        · exact hget.count _

theorem evaluate_sound (h : s.Sound) (policies : List Policy) : (s.evaluate policies).2.Sound := by
  induction policies generalizing s with
  | nil => exact h
  | cons p policies ih =>
    have happly := apply_sound h p
    unfold evaluate
    split
    next hraised => rw [hraised] at happly; exact happly
    next hplaced =>
      rw [hplaced] at happly
      have hrest := ih happly
      split
      next hraised => rw [hraised] at hrest; exact hrest
      next hlayouts => rw [hlayouts] at hrest; exact hrest

/-- The evaluator after calls, which may raise. -/
def after (s : PolicyEvaluator) (calls : List (List Policy)) : PolicyEvaluator :=
  calls.foldl (fun s policies => (s.evaluate policies).2) s

theorem init_sound (nodes : List NodeDescriptor) (default_policy : Option Policy) :
    (init nodes default_policy).Sound := fun h => absurd h nofun

theorem after_sound (h : s.Sound) (calls : List (List Policy)) : (s.after calls).Sound :=
  List.foldlRecOn calls _ h fun _ h policies _ => evaluate_sound h policies

/-! ## Each policy -/

/-- The policy that `evaluate` places. -/
def effective (s : PolicyEvaluator) (p : Policy) : Option Policy :=
  s.default_policy.map (·.merge p)

/-- What the layout for a merged policy comes with. -/
structure Honoured (s : PolicyEvaluator) (p : Policy) (layout : ResourceLayout)
    (s' : PolicyEvaluator) : Prop where
  /-- The layout is that of one node, which is counted; it has room, if it can, when a block policy
  without a host is placed there. -/
  node : ∃ idx node, s.nodes[idx]? = some node ∧ layout.h_uid = node.h_uid ∧
    layout.host_name = node.host_name ∧ s'.nodes = (s.count idx).nodes ∧
    (Free p → p.distribution = .BLOCK → s.num_policies idx < s.num_cpus idx ∨
      ¬ ∃ i < s.nodes.length, s.num_policies i < s.num_cpus i)
  host_id : p.placement = .HOST_ID → layout.h_uid = p.host_id
  host_name : p.placement = .HOST_NAME → layout.host_name = p.host_name
  specified : layout.node_specified = true ↔ ¬ Free p
  /-- The next policy is merged with the same default. -/
  default_policy : s'.default_policy = s.default_policy

/-- The layouts correspond to the policies, one to one and in order. -/
inductive Honours : PolicyEvaluator → List Policy → List ResourceLayout → PolicyEvaluator → Prop where
  | nil {s : PolicyEvaluator} : Honours s [] [] s
  | cons {s s₁ s' : PolicyEvaluator} {p merged : Policy} {layout : ResourceLayout}
      {policies : List Policy} {layouts : List ResourceLayout}
      (hmerged : s.effective p = some merged) (hlayout : s.Honoured merged layout s₁)
      (hrest : Honours s₁ policies layouts s') :
      Honours s (p :: policies) (layout :: layouts) s'

theorem node_by_id_some {host_id : ℤ} {node : NodeDescriptor} (h : s.node_by_id host_id = some idx)
    (hnode : s.nodes[idx]? = some node) : node.h_uid = host_id := by
  unfold node_by_id at h
  obtain ⟨hlt, hfound, _⟩ := List.findIdx?_eq_some_iff_getElem.mp h
  rw [List.getElem?_eq_getElem hlt] at hnode
  obtain rfl := Option.some.inj hnode
  exact of_decide_eq_true hfound

theorem node_by_name_some {host_name : String} {node : NodeDescriptor}
    (h : s.node_by_name host_name = some idx) (hnode : s.nodes[idx]? = some node) :
    node.host_name = host_name := by
  unfold node_by_name at h
  obtain ⟨hlt, hfound, _⟩ := List.findIdx?_eq_some_iff_getElem.mp h
  rw [List.getElem?_eq_getElem hlt] at hnode
  obtain rfl := Option.some.inj hnode
  exact of_decide_eq_true hfound

theorem Chosen.nodes (h : s.Chosen p node_specified idx s') : s'.nodes = s.nodes := by
  cases h <;> exact s.wrap_nodes

theorem Chosen.default_policy (h : s.Chosen p node_specified idx s') :
    s'.default_policy = s.default_policy := by
  cases h <;> exact s.wrap_default_policy

theorem count_nodes_congr (h : s'.nodes = s.nodes) (idx : ℕ) :
    (s'.count idx).nodes = (s.count idx).nodes := by
  unfold count
  rw [h]

theorem Placed.honoured (h : s.Placed p idx layout s') (hsound : s.Sound) :
    s.Honoured p layout s' := by
  obtain ⟨found, hchosen, rfl⟩ := h.chosen
  obtain ⟨node, hnode, -, huid, hname⟩ := h.node
  have hnone : (∀ i, s.isFull i = true) →
      ¬ ∃ i < s.nodes.length, s.num_policies i < s.num_cpus i := by
    rintro hfull ⟨i, _, hroom⟩
    exact absurd (isFull_iff.mp (hfull i)) (Nat.not_le.mpr hroom)
  have hcounted := count_nodes_congr hchosen.nodes idx
  have hdefault : (found.count idx).default_policy = s.default_policy := hchosen.default_policy
  revert huid hname
  generalize hspecified : layout.node_specified = node_specified at hchosen
  intro huid hname
  cases hchosen with
  | host_id hplacement hfound =>
    have hhost := huid.trans (node_by_id_some hfound hnode)
    refine ⟨⟨idx, node, hnode, huid, hname, hcounted, fun hfree => absurd hplacement hfree.1⟩,
      fun _ => hhost, fun h => absurd (hplacement.symm.trans h) nofun, ?_, hdefault⟩
    exact iff_of_true hspecified fun hfree => hfree.1 hplacement
  | host_name hplacement hfound =>
    have hhost := hname.trans (node_by_name_some hfound hnode)
    refine ⟨⟨idx, node, hnode, huid, hname, hcounted, fun hfree => absurd hplacement hfree.2⟩,
      fun h => absurd (hplacement.symm.trans h) nofun, fun _ => hhost, ?_, hdefault⟩
    exact iff_of_true hspecified fun hfree => hfree.2 hplacement
  | cycle hfree hdistribution =>
    exact ⟨⟨_, node, hnode, huid, hname, hcounted, fun _ h => absurd h hdistribution⟩,
      fun h => absurd h hfree.1, fun h => absurd h hfree.2,
      iff_of_false (Bool.eq_false_iff.mp hspecified) (not_not.mpr hfree), hdefault⟩
  | overprovisioned hfree _ hover =>
    exact ⟨⟨_, node, hnode, huid, hname, hcounted, fun _ _ => .inr (hnone (hsound hover))⟩,
      fun h => absurd h hfree.1, fun h => absurd h hfree.2,
      iff_of_false (Bool.eq_false_iff.mp hspecified) (not_not.mpr hfree), hdefault⟩
  | room hfree _ _ hopen =>
    exact ⟨⟨_, node, hnode, huid, hname, hcounted, fun _ _ => .inl (not_isFull_iff.mp hopen)⟩,
      fun h => absurd h hfree.1, fun h => absurd h hfree.2,
      iff_of_false (Bool.eq_false_iff.mp hspecified) (not_not.mpr hfree), hdefault⟩
  | full hfree _ _ hfull =>
    exact ⟨⟨_, node, hnode, huid, hname, hcounted, fun _ _ => .inr (hnone hfull)⟩,
      fun h => absurd h hfree.1, fun h => absurd h hfree.2,
      iff_of_false (Bool.eq_false_iff.mp hspecified) (not_not.mpr hfree), hdefault⟩

/-- The first policy of a call that returns is placed, and then the others are. -/
theorem evaluate_cons (h : s.evaluate (p :: policies) = (.ok layouts, s')) :
    ∃ merged idx layout rest s₁, s.effective p = some merged ∧ s.Placed merged idx layout s₁ ∧
      s₁.evaluate policies = (.ok rest, s') ∧ layouts = layout :: rest := by
  unfold evaluate at h
  split at h
  next => exact absurd (Prod.mk.inj h).1 nofun
  next layout s₁ happly =>
    unfold apply at happly
    split at happly
    next => exact absurd (Prod.mk.inj happly).1 nofun
    next default_policy hdefault =>
      obtain ⟨idx, hplaced⟩ := place_placed happly
      split at h
      next => exact absurd (Prod.mk.inj h).1 nofun
      next rest s₂ hrest =>
        obtain ⟨hok, rfl⟩ := Prod.mk.inj h
        obtain rfl := Except.ok.inj hok
        refine ⟨_, idx, layout, rest, s₁, ?_, hplaced, hrest, rfl⟩
        unfold effective
        rw [hdefault]
        rfl

theorem Placed.sound (h : s.Placed p idx layout s') (hsound : s.Sound) : s'.Sound := by
  obtain ⟨found, hchosen, rfl⟩ := h.chosen
  exact (hchosen.sound hsound).count idx

theorem evaluate_honours (hsound : s.Sound) (h : s.evaluate policies = (.ok layouts, s')) :
    Honours s policies layouts s' := by
  induction policies generalizing s layouts with
  | nil =>
    obtain ⟨hok, rfl⟩ := Prod.mk.inj h
    obtain rfl := Except.ok.inj hok
    exact .nil
  | cons p policies ih =>
    obtain ⟨merged, idx, layout, rest, s₁, hmerged, hplaced, hrest, rfl⟩ := evaluate_cons h
    exact .cons hmerged (hplaced.honoured hsound) (ih (hplaced.sound hsound) hrest)

/-! ## Policies of one kind -/

/-- All policies go round the nodes. -/
def CyclesOnly (s : PolicyEvaluator) (policies : List Policy) : Prop :=
  ∀ p ∈ policies, ∀ merged, s.effective p = some merged →
    Free merged ∧ merged.distribution ≠ .BLOCK

/-- All policies fill up nodes. -/
def BlocksOnly (s : PolicyEvaluator) (policies : List Policy) : Prop :=
  ∀ p ∈ policies, ∀ merged, s.effective p = some merged →
    Free merged ∧ merged.distribution = .BLOCK

theorem Placed.lt (h : s.Placed p idx layout s') : idx < s.nodes.length := by
  obtain ⟨node, hnode, _⟩ := h.node
  exact (List.getElem?_eq_some_iff.mp hnode).1

theorem Placed.length (h : s.Placed p idx layout s') : s'.nodes.length = s.nodes.length := by
  obtain ⟨found, hchosen, rfl⟩ := h.chosen
  rw [length_count, hchosen.nodes]

theorem Placed.num_policies (h : s.Placed p idx layout s') (i : ℕ) :
    s'.num_policies i = s.num_policies i + if idx = i then 1 else 0 := by
  have hidx := h.lt
  obtain ⟨found, hchosen, rfl⟩ := h.chosen
  rw [num_policies_count (hchosen.nodes ▸ hidx), num_policies_congr hchosen.nodes]

theorem Placed.num_cpus (h : s.Placed p idx layout s') (i : ℕ) : s'.num_cpus i = s.num_cpus i := by
  obtain ⟨found, hchosen, rfl⟩ := h.chosen
  rw [num_cpus_count, num_cpus_congr hchosen.nodes]

theorem Placed.effective (h : s.Placed p idx layout s') : s'.effective = s.effective := by
  obtain ⟨found, hchosen, rfl⟩ := h.chosen
  funext p
  unfold PolicyEvaluator.effective
  rw [show (found.count idx).default_policy = s.default_policy from hchosen.default_policy]

theorem wrap_cur_node (s : PolicyEvaluator) :
    s.wrap.cur_node = if s.nodes.length ≤ s.cur_node then 0 else s.cur_node := by
  unfold wrap
  split <;> rfl

/-- The cursor is at the next node of the cycle. -/
theorem cur_node_advance (hne : s.nodes ≠ []) (hcur : s'.cur_node = s.wrap.cur_node + 1)
    (hlength : s'.nodes.length = s.nodes.length) :
    s'.wrap.cur_node = (s.wrap.cur_node + 1) % s.nodes.length := by
  have hlt := wrap_lt hne
  rw [wrap_cur_node s', hcur, hlength]
  split
  next hge =>
    have heq : s.wrap.cur_node + 1 = s.nodes.length := Nat.le_antisymm hlt hge
    rw [heq, Nat.mod_self]
  next hnext => rw [Nat.mod_eq_of_lt (Nat.not_le.mp hnext)]

theorem wrap_wrap_cur_node (hne : s.nodes ≠ []) (hcur : s'.cur_node = s.wrap.cur_node)
    (hlength : s'.nodes.length = s.nodes.length) : s'.wrap.cur_node = s.wrap.cur_node := by
  have hlt := wrap_lt hne
  rw [wrap_cur_node s', hcur, hlength, if_neg (Nat.not_le.mpr hlt)]

theorem evaluate_cycles (hcycles : s.CyclesOnly policies)
    (h : s.evaluate policies = (.ok layouts, s')) (i : ℕ) :
    s'.num_policies i =
      s.num_policies i + dealt s.nodes.length s.wrap.cur_node policies.length i := by
  induction policies generalizing s layouts with
  | nil =>
    obtain ⟨_, rfl⟩ := Prod.mk.inj h
    rfl
  | cons p policies ih =>
    obtain ⟨merged, idx, layout, rest, s₁, hmerged, hplaced, hrest, rfl⟩ := evaluate_cons h
    obtain ⟨hfree, hdistribution⟩ := hcycles p List.mem_cons_self merged hmerged
    have hne : s.nodes ≠ [] := List.length_pos_iff.mp ((Nat.zero_le _).trans_lt hplaced.lt)
    have hlength := hplaced.length
    have hnext := ih (s := s₁) (fun p' hp' => by
      rw [hplaced.effective]
      exact hcycles p' (List.mem_cons_of_mem _ hp')) hrest
    -- the policy takes the node at the cursor
    obtain ⟨rfl, hcur⟩ : idx = s.wrap.cur_node ∧ s₁.cur_node = s.wrap.cur_node + 1 := by
      obtain ⟨found, hchosen, rfl⟩ := hplaced.chosen
      generalize layout.node_specified = node_specified at hchosen
      cases hchosen with
      | cycle => exact ⟨rfl, rfl⟩
      | host_id hplacement => exact absurd hplacement hfree.1
      | host_name hplacement => exact absurd hplacement hfree.2
      | overprovisioned _ h | room _ h | full _ h => exact absurd h hdistribution
    rw [hnext, hplaced.num_policies, hlength, cur_node_advance hne hcur hlength, List.length_cons,
      dealt_succ, Nat.mod_eq_of_lt (wrap_lt hne)]
    omega

/-- What block policies put on nodes beyond their room is dealt out. -/
theorem evaluate_blocks (hsound : s.Sound) (hblocks : s.BlocksOnly policies)
    (h : s.evaluate policies = (.ok layouts, s')) :
    ∃ cards, ∀ i, max (s'.num_policies i) (s.num_cpus i) =
      max (s.num_policies i) (s.num_cpus i) + dealt s.nodes.length s.wrap.cur_node cards i := by
  induction policies generalizing s layouts with
  | nil =>
    obtain ⟨_, rfl⟩ := Prod.mk.inj h
    exact ⟨0, fun _ => rfl⟩
  | cons p policies ih =>
    obtain ⟨merged, idx, layout, rest, s₁, hmerged, hplaced, hrest, rfl⟩ := evaluate_cons h
    obtain ⟨hfree, hdistribution⟩ := hblocks p List.mem_cons_self merged hmerged
    have hne : s.nodes ≠ [] := List.length_pos_iff.mp ((Nat.zero_le _).trans_lt hplaced.lt)
    have hlength := hplaced.length
    obtain ⟨cards, hcards⟩ := ih (s := s₁) (hplaced.sound hsound) (fun p' hp' => by
      rw [hplaced.effective]
      exact hblocks p' (List.mem_cons_of_mem _ hp')) hrest
    -- either the node has room and the cursor stays, or no node has room and it moves on
    have hmoved : (s.num_policies idx < s.num_cpus idx ∧ s₁.cur_node = s.wrap.cur_node) ∨
        ((∀ i, s.num_cpus i ≤ s.num_policies i) ∧ idx = s.wrap.cur_node ∧
          s₁.cur_node = s.wrap.cur_node + 1) := by
      obtain ⟨found, hchosen, rfl⟩ := hplaced.chosen
      generalize layout.node_specified = node_specified at hchosen
      cases hchosen with
      | host_id hplacement => exact absurd hplacement hfree.1
      | host_name hplacement => exact absurd hplacement hfree.2
      | cycle _ h => exact absurd hdistribution h
      | room _ _ _ hopen => exact .inl ⟨not_isFull_iff.mp hopen, rfl⟩
      | overprovisioned _ _ hover =>
        exact .inr ⟨fun i => isFull_iff.mp (hsound hover i), rfl, rfl⟩
      | full _ _ _ hfull => exact .inr ⟨fun i => isFull_iff.mp (hfull i), rfl, rfl⟩
    rcases hmoved with ⟨hroom, hcur⟩ | ⟨hfull, rfl, hcur⟩
    · refine ⟨cards, fun i => ?_⟩
      have hi := hcards i
      rw [hplaced.num_cpus, hplaced.num_policies, hlength,
        wrap_wrap_cur_node hne hcur hlength] at hi
      rw [hi]
      split
      next heq =>
        subst heq
        omega
      next => rfl
    · refine ⟨cards + 1, fun i => ?_⟩
      have hi := hcards i
      have hfull := hfull i
      rw [hplaced.num_cpus, hplaced.num_policies, hlength,
        cur_node_advance hne hcur hlength] at hi
      rw [hi, dealt_succ, Nat.mod_eq_of_lt (wrap_lt hne)]
      omega

/-! ## Calls -/

/-- Calls that return. -/
inductive Calls : PolicyEvaluator → List (List Policy) → List (List ResourceLayout) →
    PolicyEvaluator → Prop where
  | nil {s : PolicyEvaluator} : Calls s [] [] s
  | cons {s s₁ s' : PolicyEvaluator} {policies : List Policy} {layouts : List ResourceLayout}
      {calls : List (List Policy)} {answers : List (List ResourceLayout)}
      (hcall : s.evaluate policies = (.ok layouts, s₁)) (hcalls : Calls s₁ calls answers s') :
      Calls s (policies :: calls) (layouts :: answers) s'

theorem evaluate_append {s₁ : PolicyEvaluator} {more : List Policy} {others : List ResourceLayout}
    (h : s.evaluate policies = (.ok layouts, s₁)) (hmore : s₁.evaluate more = (.ok others, s')) :
    s.evaluate (policies ++ more) = (.ok (layouts ++ others), s') := by
  induction policies generalizing s layouts with
  | nil =>
    obtain ⟨hok, rfl⟩ := Prod.mk.inj h
    obtain rfl := Except.ok.inj hok
    exact hmore
  | cons p policies ih =>
    show evaluate s (p :: (policies ++ more)) = _
    unfold evaluate at h ⊢
    split at h
    next => exact absurd (Prod.mk.inj h).1 nofun
    next layout s₂ happly =>
      split at h
      next => exact absurd (Prod.mk.inj h).1 nofun
      next rest s₃ hrest =>
        obtain ⟨hok, rfl⟩ := Prod.mk.inj h
        obtain rfl := Except.ok.inj hok
        rw [ih hrest]
        rfl

theorem Calls.evaluate_flatten {calls : List (List Policy)} {answers : List (List ResourceLayout)}
    (h : Calls s calls answers s') : s.evaluate calls.flatten = (.ok answers.flatten, s') := by
  induction h with
  | nil => rfl
  | cons hcall _ ih => exact evaluate_append hcall ih

theorem Honours.length (h : Honours s policies layouts s') : layouts.length = policies.length := by
  induction h with
  | nil => rfl
  | cons _ _ _ ih => rw [List.length_cons, List.length_cons, ih]

theorem Calls.length {calls : List (List Policy)} {answers : List (List ResourceLayout)}
    (hsound : s.Sound) (h : Calls s calls answers s') :
    List.Forall₂ (fun policies layouts => layouts.length = policies.length) calls answers := by
  induction h with
  | nil => exact .nil
  | @cons s s₁ s' policies layouts calls answers hcall _ ih =>
    have hnext := evaluate_sound hsound policies
    rw [hcall] at hnext
    exact .cons (evaluate_honours hsound hcall).length (ih hnext)

/-- What calls that return guarantee. -/
structure Guaranteed (s : PolicyEvaluator) (calls : List (List Policy))
    (answers : List (List ResourceLayout)) (s' : PolicyEvaluator) : Prop where
  one_to_one :
    List.Forall₂ (fun policies layouts => layouts.length = policies.length) calls answers
  honours : Honours s calls.flatten answers.flatten s'
  /-- Block policies exceed the processors by amounts that differ by one at most. -/
  blocks : s.BlocksOnly calls.flatten → ∀ i < s.nodes.length, ∀ j < s.nodes.length,
    s'.num_policies i - max (s.num_policies i) (s.num_cpus i) ≤
      s'.num_policies j - max (s.num_policies j) (s.num_cpus j) + 1
  /-- Round-robin policies give the nodes counts that differ by one at most. -/
  cycles : s.CyclesOnly calls.flatten → ∀ i < s.nodes.length, ∀ j < s.nodes.length,
    s'.num_policies i - s.num_policies i ≤ s'.num_policies j - s.num_policies j + 1

theorem guaranteed_of_calls (nodes : List NodeDescriptor) (default_policy : Option Policy)
    (history calls : List (List Policy)) (answers : List (List ResourceLayout))
    (s' : PolicyEvaluator) (h : Calls ((init nodes default_policy).after history) calls answers s') :
    Guaranteed ((init nodes default_policy).after history) calls answers s' := by
  have hsound := after_sound (init_sound nodes default_policy) history
  have hflat := h.evaluate_flatten
  refine ⟨h.length hsound, evaluate_honours hsound hflat, ?_, ?_⟩
  · intro hblocks i hi j hj
    obtain ⟨cards, hcards⟩ := evaluate_blocks hsound hblocks hflat
    have hdealt := dealt_le_succ
      ((init nodes default_policy).after history).wrap.cur_node cards hi hj
    have hfirst := hcards i
    have hsecond := hcards j
    omega
  · intro hcycles i hi j hj
    have hdealt := dealt_le_succ
      ((init nodes default_policy).after history).wrap.cur_node calls.flatten.length hi hj
    rw [evaluate_cycles hcycles hflat i, evaluate_cycles hcycles hflat j, Nat.add_sub_cancel_left,
      Nat.add_sub_cancel_left]
    exact hdealt

/-- A node with one processor. -/
def sampleNode (h_uid : ℤ) : NodeDescriptor where
  h_uid := h_uid
  host_name := ""
  num_cpus := 1
  num_policies := 0
  cpu_devices := none
  accelerators := none

def samplePolicy (placement : Where) (host_id : ℤ) (distribution : Distribution) : Policy where
  placement := placement
  host_name := ""
  host_id := host_id
  distribution := distribution
  cpu_affinity := .list []
  gpu_affinity := .list []

/-- Two nodes, filled up by block policies and exceeded after a call that raised. -/
theorem guaranteed_two_nodes : ∃ answers s', Guaranteed
    ((init [sampleNode 1, sampleNode 2] (some (samplePolicy .ANYWHERE (-1) .ROUNDROBIN))).after
      [[samplePolicy .HOST_ID 3 .DEFAULT]])
    [[samplePolicy .DEFAULT (-1) .BLOCK, samplePolicy .DEFAULT (-1) .BLOCK],
      [samplePolicy .DEFAULT (-1) .BLOCK]] answers s' :=
  ⟨_, _, guaranteed_of_calls _ _ _ _ _ _ (.cons rfl (.cons rfl .nil))⟩

end PolicyEvaluator

end Placement
