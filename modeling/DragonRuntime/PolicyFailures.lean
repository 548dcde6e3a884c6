/-
# What is left of a call that raises

`evaluate` undoes nothing when it raises: the policies before the one that fails stay placed, and
that one has moved the cursor as far as it got (`Failed`).
-/
import DragonRuntime.PolicyPlacement

namespace Placement.PolicyEvaluator

/-- A call that raises leaves all counters, the cursor and the mode as they were. -/
def Atomic (s : PolicyEvaluator) (policies : List Policy) : Prop :=
  ∀ e s', s.evaluate policies = (.error e, s') →
    (∀ i, s'.num_policies i = s.num_policies i) ∧ s'.cur_node = s.cur_node ∧
      s'.overprovision = s.overprovision

/-- An unknown host after a policy that has been placed. -/
theorem not_atomic :
    ¬ ∀ (s : PolicyEvaluator) (policies : List Policy), s.Atomic policies := by
  intro h
  obtain ⟨hcounters, _⟩ := h
    (init [sampleNode 1, sampleNode 2] (some (samplePolicy .ANYWHERE (-1) .ROUNDROBIN)))
    [samplePolicy .DEFAULT (-1) .DEFAULT, samplePolicy .HOST_ID 3 .DEFAULT] _ _ rfl
  exact absurd (hcounters 0) (by decide)

/-- The policy that fails, and the evaluator it leaves. -/
inductive Failed (s : PolicyEvaluator) (p : Policy) : Raised → PolicyEvaluator → Prop where
  | no_default (h : s.default_policy = none) : Failed s p .AttributeError s
  | host_id {merged : Policy} (hmerged : s.effective p = some merged)
      (hplacement : merged.placement = .HOST_ID) (h : s.node_by_id merged.host_id = none) :
      Failed s p .ValueError s.wrap
  | host_name {merged : Policy} (hmerged : s.effective p = some merged)
      (hplacement : merged.placement = .HOST_NAME) (h : s.node_by_name merged.host_name = none) :
      Failed s p .ValueError s.wrap
  | no_nodes {merged : Policy} (hmerged : s.effective p = some merged) (hfree : Free merged)
      (h : s.nodes = []) : Failed s p .IndexError s.wrap
  /-- A node is found, which the affinity does not fit. -/
  | affinity {merged : Policy} {node_specified : Bool} {idx : ℕ} {node : NodeDescriptor}
      {e : Raised} {found : PolicyEvaluator} (hmerged : s.effective p = some merged)
      (hchosen : s.Chosen merged node_specified idx found) (hnode : s.nodes[idx]? = some node)
      (h : layout merged node_specified node = .error e) : Failed s p e found

variable {e : Raised} {p : Policy} {s s' : PolicyEvaluator} {policies : List Policy}
  {node : NodeDescriptor}

theorem Failed.nodes (h : s.Failed p e s') : s'.nodes = s.nodes := by
  cases h with
  | no_default => rfl
  | host_id | host_name | no_nodes => exact s.wrap_nodes
  | affinity _ hchosen => exact hchosen.nodes

theorem Chosen.lt {node_specified : Bool} {idx : ℕ} (hne : s.nodes ≠ [])
    (h : s.Chosen p node_specified idx s') : idx < s.nodes.length := by
  cases h with
  | host_id _ hfound | host_name _ hfound => exact (List.findIdx?_eq_some_iff_getElem.mp hfound).1
  | cycle | overprovisioned | full => exact wrap_lt hne
  | room _ _ _ hopen => exact isFull_lt hopen

theorem get_node_ne_nil {found : Bool × ℕ} (h : s.get_node p = (.ok found, s')) : s.nodes ≠ [] := by
  intro hnil
  have hwrap : s.wrap.nodes = [] := s.wrap_nodes.trans hnil
  unfold get_node node_by_id node_by_name at h
  simp only [hwrap, List.findIdx?_nil, List.length_nil, Nat.zero_le, if_true] at h
  repeat' split at h
  all_goals exact absurd (Prod.mk.inj h).1 nofun

theorem get_node_failed {merged : Policy} (hmerged : s.effective p = some merged)
    (h : s.get_node merged = (.error e, s')) : s.Failed p e s' := by
  obtain rfl := get_node_error h
  have hlength := congrArg List.length s.wrap_nodes
  unfold get_node at h
  simp only at h
  split at h
  next hid =>
    split at h
    · exact absurd (Prod.mk.inj h).1 nofun
    next hnone =>
      obtain rfl := Except.error.inj (Prod.mk.inj h).1
      unfold node_by_id at hnone
      rw [wrap_nodes] at hnone
      exact .host_id hmerged hid hnone
  next hid =>
    split at h
    next hname =>
      split at h
      · exact absurd (Prod.mk.inj h).1 nofun
      next hnone =>
        obtain rfl := Except.error.inj (Prod.mk.inj h).1
        unfold node_by_name at hnone
        rw [wrap_nodes] at hnone
        exact .host_name hmerged hname hnone
    next hname =>
      split at h
      next hge =>
        obtain rfl := Except.error.inj (Prod.mk.inj h).1
        refine .no_nodes hmerged ⟨hid, hname⟩ ?_
        by_contra hne
        rw [hlength] at hge
        exact absurd (wrap_lt hne) (Nat.not_lt.mpr hge)
      next =>
        repeat' split at h
        all_goals exact absurd (Prod.mk.inj h).1 nofun

theorem apply_failed (h : s.apply p = (.error e, s')) : s.Failed p e s' := by
  unfold apply at h
  split at h
  next hnone =>
    obtain ⟨he, rfl⟩ := Prod.mk.inj h
    obtain rfl := Except.error.inj he
    exact .no_default hnone
  next default_policy hdefault =>
    have hmerged : s.effective p = some (default_policy.merge p) := by
      unfold effective
      rw [hdefault]
      rfl
    unfold place at h
    split at h
    next hget =>
      obtain ⟨he, rfl⟩ := Prod.mk.inj h
      obtain rfl := Except.error.inj he
      exact get_node_failed hmerged hget
    next node_specified idx found hget =>
      have hchosen := get_node_chosen hget
      split at h
      next hnone =>
        -- the node that is found exists
        rw [hchosen.nodes] at hnone
        have hge := List.getElem?_eq_none_iff.mp hnone
        exact absurd (hchosen.lt (get_node_ne_nil hget)) (Nat.not_lt.mpr hge)
      next node hnode =>
        split at h
        next e' hlayout =>
          obtain ⟨he, rfl⟩ := Prod.mk.inj h
          obtain rfl := Except.error.inj he
          exact .affinity hmerged hchosen (hchosen.nodes ▸ hnode) hlayout
        next => exact absurd (Prod.mk.inj h).1 nofun

/-- The policy at which a call raises. -/
theorem evaluate_failed (h : s.evaluate policies = (.error e, s')) :
    ∃ before p after layouts s₁, policies = before ++ p :: after ∧
      s.evaluate before = (.ok layouts, s₁) ∧ s₁.Failed p e s' := by
  induction policies generalizing s with
  | nil => cases h
  | cons p policies ih =>
    unfold evaluate at h
    split at h
    next e' s₁ happly =>
      obtain ⟨he, rfl⟩ := Prod.mk.inj h
      obtain rfl := Except.error.inj he
      exact ⟨[], p, policies, [], s, rfl, rfl, apply_failed happly⟩
    next layout s₁ happly =>
      split at h
      next e' s₂ hrest =>
        obtain ⟨he, rfl⟩ := Prod.mk.inj h
        obtain rfl := Except.error.inj he
        obtain ⟨before, p', after, layouts, s₃, rfl, hbefore, hfailed⟩ := ih hrest
        refine ⟨p :: before, p', after, layout :: layouts, s₃, rfl, ?_, hfailed⟩
        unfold evaluate
        rw [happly]
        simp only
        rw [hbefore]
      next => cases h

theorem evaluate_le {layouts : List ResourceLayout} (h : s.evaluate policies = (.ok layouts, s'))
    (i : ℕ) : s.num_policies i ≤ s'.num_policies i := by
  induction policies generalizing s layouts with
  | nil =>
    obtain ⟨_, rfl⟩ := Prod.mk.inj h
    exact Nat.le_refl _
  | cons p policies ih =>
    obtain ⟨merged, idx, layout, rest, s₁, _, hplaced, hrest, rfl⟩ := evaluate_cons h
    have hnext := ih hrest
    rw [hplaced.num_policies] at hnext
    exact (Nat.le_add_right ..).trans hnext

/-- The counters are as before only when nothing has been placed. -/
theorem evaluate_num_policies_iff {layouts : List ResourceLayout}
    (h : s.evaluate policies = (.ok layouts, s')) :
    (∀ i, s'.num_policies i = s.num_policies i) ↔ policies = [] := by
  constructor
  · intro hsame
    cases policies with
    | nil => rfl
    | cons p policies =>
      obtain ⟨merged, idx, layout, rest, s₁, _, hplaced, hrest, rfl⟩ := evaluate_cons h
      have hle := evaluate_le hrest idx
      rw [hplaced.num_policies, if_pos rfl, hsame idx] at hle
      exact absurd hle (Nat.not_succ_le_self _)
  · rintro rfl i
    obtain ⟨_, rfl⟩ := Prod.mk.inj h
    rfl

theorem wrap_wrap (s : PolicyEvaluator) : s.wrap.wrap = s.wrap := by
  unfold wrap
  split
  · split <;> rfl
  · rfl

theorem get_node_wrap (s : PolicyEvaluator) (p : Policy) : s.wrap.get_node p = s.get_node p := by
  unfold get_node
  rw [wrap_wrap]

/-- A cursor that has cycled through is set back by the next placement as well. -/
theorem evaluate_wrap {default_policy : Policy} (h : s.default_policy = some default_policy)
    (p : Policy) (policies : List Policy) :
    s.wrap.evaluate (p :: policies) = s.evaluate (p :: policies) := by
  have happly : s.wrap.apply p = s.apply p := by
    unfold apply place
    rw [wrap_default_policy, h]
    simp only [get_node_wrap]
  unfold evaluate
  rw [happly]

theorem get_cpu_affinity_error (h : get_cpu_affinity p node = .error e) :
    e = .PolicyError ∨ e = .TypeError := by
  unfold get_cpu_affinity at h
  repeat' split at h
  · exact .inl (Except.error.inj h).symm
  · exact .inr (Except.error.inj h).symm
  all_goals exact absurd h nofun

theorem get_gpu_affinity_error (h : get_gpu_affinity p node = .error e) : e = .PolicyError := by
  unfold get_gpu_affinity at h
  repeat' split at h
  · exact (Except.error.inj h).symm
  all_goals exact absurd h nofun

theorem layout_error {node_specified : Bool} (h : layout p node_specified node = .error e) :
    e = .PolicyError ∨ e = .TypeError := by
  unfold layout at h
  split at h
  next hcpu =>
    obtain rfl := Except.error.inj h
    exact get_cpu_affinity_error hcpu
  next =>
    split at h
    next hgpu =>
      obtain rfl := Except.error.inj h
      exact .inl (get_gpu_affinity_error hgpu)
    next => exact absurd h nofun

/-- An unknown host does not change where later policies are placed. -/
theorem Failed.evaluate_eq (h : s.Failed p e s') (he : e = .ValueError) (p' : Policy)
    (policies : List Policy) : s'.evaluate (p' :: policies) = s.evaluate (p' :: policies) := by
  have hwrap : ∀ merged, s.effective p = some merged →
      s.wrap.evaluate (p' :: policies) = s.evaluate (p' :: policies) := by
    intro merged hmerged
    obtain ⟨default_policy, hdefault, _⟩ := Option.map_eq_some_iff.mp hmerged
    exact evaluate_wrap hdefault p' policies
  cases h with
  | no_default | no_nodes => exact absurd he nofun
  | host_id hmerged | host_name hmerged => exact hwrap _ hmerged
  | affinity _ _ _ hlayout =>
    subst he
    exact absurd (layout_error hlayout) (by simp)

/-- What a call leaves that raises `e` at the policy `failing`. -/
structure Abandoned (s : PolicyEvaluator) (placed : List Policy) (failing : Policy) (e : Raised)
    (s' : PolicyEvaluator) : Prop where
  /-- The policies before it stay placed, as after a call with only these; `failing` is placed
  nowhere. -/
  kept : ∃ layouts reached, s.evaluate placed = (.ok layouts, reached) ∧
    reached.Failed failing e s' ∧ s'.nodes = reached.nodes ∧
    (e = .ValueError → ∀ p policies,
      s'.evaluate (p :: policies) = reached.evaluate (p :: policies))
  counters : (∀ i, s'.num_policies i = s.num_policies i) ↔ placed = []

theorem evaluate_abandoned {s s' : PolicyEvaluator} {policies : List Policy} {e : Raised}
    (h : s.evaluate policies = (.error e, s')) :
    ∃ placed failing unplaced, policies = placed ++ failing :: unplaced ∧
      s.Abandoned placed failing e s' := by
  obtain ⟨placed, failing, unplaced, layouts, reached, hpolicies, hplaced, hfailed⟩ :=
    evaluate_failed h
  refine ⟨placed, failing, unplaced, hpolicies, ?_, ?_⟩
  · exact ⟨layouts, reached, hplaced, hfailed, hfailed.nodes, fun he => hfailed.evaluate_eq he⟩
  · rw [← evaluate_num_policies_iff hplaced]
    exact forall_congr' fun i => by rw [num_policies_congr hfailed.nodes]

/-- The second policy names an unknown host. -/
theorem abandoned_two_nodes : ∃ placed failing unplaced,
    [samplePolicy .DEFAULT (-1) .DEFAULT, samplePolicy .HOST_ID 3 .DEFAULT] =
      placed ++ failing :: unplaced ∧
    (init [sampleNode 1, sampleNode 2]
      (some (samplePolicy .ANYWHERE (-1) .ROUNDROBIN))).Abandoned placed failing .ValueError
      { nodes := [{ sampleNode 1 with num_policies := 1 }, sampleNode 2]
        default_policy := some (samplePolicy .ANYWHERE (-1) .ROUNDROBIN)
        overprovision := false
        cur_node := 1 } :=
  evaluate_abandoned rfl

end Placement.PolicyEvaluator
