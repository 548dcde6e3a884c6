/-
# Placement by policies (`src/dragon/globalservices/policy_eval.py`, `infrastructure/policy.py`)

`PolicyEvaluator.evaluate` finds a node for each policy of a list: the node of a host, the next node
of a cycle, or the first node that has room, and the next one of the cycle when no node has room.
The cursor of the cycle and the counters of the nodes stay from one call to the next.

Conventions:

* a function returns its result or what it raises, and the evaluator after it in both cases;
* a node is its place in the list;
* a value that is no list, in the place of an affinity, is known by its truth value;
* `gpu_env_str`, `wait_mode` and `refcounted` of a policy are left out.
-/
import Mathlib

namespace Placement

/-- `Policy.Placement` -/
inductive Where : Type where
  | LOCAL | ANYWHERE | HOST_NAME | HOST_ID | DEFAULT
  deriving DecidableEq

/-- `Policy.Distribution` -/
inductive Distribution : Type where
  | ROUNDROBIN | BLOCK | DEFAULT
  deriving DecidableEq

inductive Affinity : Type where
  | list (devices : List ℕ)
  /-- no list -/
  | other (truthy : Bool)
  deriving DecidableEq

structure Policy where
  placement : Where
  host_name : String
  host_id : ℤ
  distribution : Distribution
  cpu_affinity : Affinity
  gpu_affinity : Affinity
  deriving DecidableEq

/-- `Policy.merge`, of one value. -/
def retain {α : Type} [DecidableEq α] (default low high : α) : α :=
  if high = default then low else high

/-- `Policy.merge` -/
def Policy.merge (low_policy high_policy : Policy) : Policy where
  placement := retain .DEFAULT low_policy.placement high_policy.placement
  host_name := retain "" low_policy.host_name high_policy.host_name
  host_id := retain (-1) low_policy.host_id high_policy.host_id
  distribution := retain .DEFAULT low_policy.distribution high_policy.distribution
  cpu_affinity := retain (.list []) low_policy.cpu_affinity high_policy.cpu_affinity
  gpu_affinity := retain (.list []) low_policy.gpu_affinity high_policy.gpu_affinity

structure AcceleratorDescriptor where
  device_list : List ℕ
  env_str : String
  deriving DecidableEq

structure NodeDescriptor where
  h_uid : ℤ
  host_name : String
  num_cpus : ℕ
  num_policies : ℕ
  cpu_devices : Option (List ℕ)
  accelerators : Option AcceleratorDescriptor
  deriving DecidableEq

structure ResourceLayout where
  h_uid : ℤ
  host_name : String
  node_specified : Bool
  numa_node : ℕ
  cpu_core : List ℕ
  gpu_core : List ℕ
  accelerator_env : String
  deriving DecidableEq

inductive Raised : Type where
  /-- an unknown host -/
  | ValueError
  /-- an affinity that is no list -/
  | PolicyError
  /-- no default policy -/
  | AttributeError
  /-- no devices to choose from -/
  | TypeError
  /-- no nodes -/
  | IndexError
  deriving DecidableEq

structure PolicyEvaluator where
  nodes : List NodeDescriptor
  default_policy : Option Policy
  overprovision : Bool
  cur_node : ℕ
  deriving DecidableEq

/-- `PolicyEvaluator(nodes, default_policy)` -/
def PolicyEvaluator.init (nodes : List NodeDescriptor) (default_policy : Option Policy) :
    PolicyEvaluator where
  nodes := nodes
  default_policy := default_policy
  overprovision := false
  cur_node := 0

/-- The truth value of an affinity. -/
def Affinity.truthy : Affinity → Bool
  | .list devices => !devices.isEmpty
  | .other truthy => truthy

/-- `_get_cpu_affinity` -/
def get_cpu_affinity (p : Policy) (node : NodeDescriptor) : Except Raised (List ℕ) :=
  if p.cpu_affinity.truthy then
    match p.cpu_affinity with
    | .other _ => .error .PolicyError
    | .list devices =>
      match node.cpu_devices with
      | none => .error .TypeError
      | some cpu_devices => .ok (cpu_devices.filter (· ∈ devices))
  else .ok (node.cpu_devices.getD [])

/-- `_get_gpu_affinity` -/
def get_gpu_affinity (p : Policy) (node : NodeDescriptor) : Except Raised (List ℕ) :=
  if p.gpu_affinity.truthy then
    match p.gpu_affinity with
    | .other _ => .error .PolicyError
    | .list devices =>
      match node.accelerators with
      | some accelerators => .ok (devices.filter (· ∈ accelerators.device_list))
      | none => .ok []
  else
    match node.accelerators with
    | some accelerators => .ok accelerators.device_list
    | none => .ok []

namespace PolicyEvaluator

/-- The node at a place has no room. -/
def isFull (s : PolicyEvaluator) (idx : ℕ) : Bool :=
  match s.nodes[idx]? with
  | some node => node.num_cpus ≤ node.num_policies
  | none => true

/-- The loop of `_find_next_open`, which comes back to where it started after a round for each
node. -/
def find_open (s : PolicyEvaluator) (cur_idx : ℕ) : ℕ → ℕ → Option ℕ
  | 0, _ => none
  | rounds + 1, idx =>
    if idx = cur_idx then none
    else if s.isFull idx then s.find_open cur_idx rounds ((idx + 1) % s.nodes.length)
    else some idx

/-- `_find_next_open` -/
def find_next_open (s : PolicyEvaluator) (cur_idx : ℕ) : Option ℕ :=
  if s.nodes.length = 1 then none
  else s.find_open cur_idx s.nodes.length ((cur_idx + 1) % s.nodes.length)

/-- `_node_by_id` -/
def node_by_id (s : PolicyEvaluator) (host_id : ℤ) : Option ℕ :=
  s.nodes.findIdx? fun node => node.h_uid = host_id

/-- `_node_by_name` -/
def node_by_name (s : PolicyEvaluator) (host_name : String) : Option ℕ :=
  s.nodes.findIdx? fun node => node.host_name = host_name

/-- The cursor at the first node again, when it has cycled through. -/
def wrap (s : PolicyEvaluator) : PolicyEvaluator :=
  if s.nodes.length ≤ s.cur_node then { s with cur_node := 0 } else s

def advance (s : PolicyEvaluator) : PolicyEvaluator := { s with cur_node := s.cur_node + 1 }

/-- `_get_node` -/
def get_node (s : PolicyEvaluator) (p : Policy) : Except Raised (Bool × ℕ) × PolicyEvaluator :=
  let s := s.wrap
  if p.placement = .HOST_ID then
    match s.node_by_id p.host_id with
    | some idx => (.ok (true, idx), s)
    | none => (.error .ValueError, s)
  else if p.placement = .HOST_NAME then
    match s.node_by_name p.host_name with
    | some idx => (.ok (true, idx), s)
    | none => (.error .ValueError, s)
  else if s.nodes.length ≤ s.cur_node then (.error .IndexError, s)
  else
    match p.distribution with
    | .DEFAULT | .ROUNDROBIN => (.ok (false, s.cur_node), s.advance)
    | .BLOCK =>
      if s.overprovision then (.ok (false, s.cur_node), s.advance)
      else if s.isFull s.cur_node then
        match s.find_next_open s.cur_node with
        | some idx => (.ok (false, idx), s)
        | none => (.ok (false, s.cur_node), { s.advance with overprovision := true })
      else (.ok (false, s.cur_node), s)

/-- The counter of a node, in `_add_layout`. -/
def count (s : PolicyEvaluator) (idx : ℕ) : PolicyEvaluator :=
  { s with
    nodes := s.nodes.modify idx fun node => { node with num_policies := node.num_policies + 1 } }

/-- The layout that `evaluate` makes for a policy at a node. -/
def layout (p : Policy) (node_specified : Bool) (node : NodeDescriptor) :
    Except Raised ResourceLayout :=
  match get_cpu_affinity p node with
  | .error e => .error e
  | .ok cpu_affinity =>
    match get_gpu_affinity p node with
    | .error e => .error e
    | .ok gpu_affinity =>
      .ok {
        h_uid := node.h_uid
        host_name := node.host_name
        node_specified := node_specified
        numa_node := 0
        cpu_core := cpu_affinity
        gpu_core := gpu_affinity
        accelerator_env :=
          if gpu_affinity = [] then "" else (node.accelerators.map (·.env_str)).getD "" }

/-- The body of the loop of `evaluate`, for a merged policy. -/
def place (s : PolicyEvaluator) (p : Policy) : Except Raised ResourceLayout × PolicyEvaluator :=
  match s.get_node p with
  | (.error e, s) => (.error e, s)
  | (.ok (node_specified, idx), s) =>
    match s.nodes[idx]? with
    | none => (.error .IndexError, s)
    | some node =>
      match layout p node_specified node with
      | .error e => (.error e, s)
      | .ok layout => (.ok layout, s.count idx)

/-- The body of the loop of `evaluate`. -/
def apply (s : PolicyEvaluator) (p : Policy) : Except Raised ResourceLayout × PolicyEvaluator :=
  match s.default_policy with
  | none => (.error .AttributeError, s)
  | some default_policy => s.place (default_policy.merge p)

/-- `evaluate` -/
def evaluate (s : PolicyEvaluator) : List Policy →
    Except Raised (List ResourceLayout) × PolicyEvaluator
  | [] => (.ok [], s)
  | p :: policies =>
    match s.apply p with
    | (.error e, s) => (.error e, s)
    | (.ok layout, s) =>
      match s.evaluate policies with
      | (.error e, s) => (.error e, s)
      | (.ok layouts, s) => (.ok (layout :: layouts), s)

/-! ## The next open node -/

variable {s s' : PolicyEvaluator} {cur_idx : ℕ} {p : Policy}

theorem isFull_lt {idx : ℕ} (h : s.isFull idx = false) : idx < s.nodes.length := by
  by_contra hle
  unfold isFull at h
  rw [List.getElem?_eq_none (Nat.not_lt.mp hle)] at h
  exact absurd h nofun

theorem find_open_some (rounds : ℕ) :
    ∀ {idx found : ℕ}, s.find_open cur_idx rounds idx = some found → s.isFull found = false := by
  induction rounds with
  | zero => exact fun h => absurd h nofun
  | succ rounds ih =>
    intro idx found h
    unfold find_open at h
    split at h
    · exact absurd h nofun
    · split at h
      · exact ih h
      next hopen =>
        obtain rfl := Option.some.inj h
        exact Bool.eq_false_iff.mpr hopen

/-- Without an open node, all nodes up to the start are full. -/
theorem find_open_none (rounds : ℕ) :
    ∀ (distance idx : ℕ), idx < s.nodes.length → distance < s.nodes.length →
      (idx + distance) % s.nodes.length = cur_idx → distance ≤ rounds →
      s.find_open cur_idx rounds idx = none →
      ∀ j < distance, s.isFull ((idx + j) % s.nodes.length) = true := by
  induction rounds with
  | zero =>
    intro distance idx _ _ _ hrounds _ j hj
    exact absurd (hj.trans_le hrounds) (Nat.not_lt_zero j)
  | succ rounds ih =>
    intro distance idx hidx hdistance hcur hrounds h j hj
    have hpos : 0 < distance := (Nat.zero_le j).trans_lt hj
    have hne : idx ≠ cur_idx := by
      rintro rfl
      by_cases hwrap : idx + distance < s.nodes.length
      · rw [Nat.mod_eq_of_lt hwrap] at hcur
        omega
      · rw [Nat.mod_eq_sub_mod (Nat.not_lt.mp hwrap), Nat.mod_eq_of_lt (by omega)] at hcur
        omega
    unfold find_open at h
    rw [if_neg hne] at h
    split at h
    next hfull =>
      cases j with
      | zero =>
        rw [Nat.add_zero, Nat.mod_eq_of_lt hidx]
        exact hfull
      | succ j =>
        have hnext := ih (distance - 1) ((idx + 1) % s.nodes.length)
          (Nat.mod_lt _ ((Nat.zero_le _).trans_lt hidx)) (by omega)
          (by rw [Nat.mod_add_mod, ← hcur]; congr 1; omega) (by omega) h j (by omega)
        rw [Nat.mod_add_mod] at hnext
        rw [← hnext]
        congr 2
        omega
    next => exact absurd h nofun

theorem find_next_open_none (hcur : cur_idx < s.nodes.length) (hfull : s.isFull cur_idx = true)
    (h : s.find_next_open cur_idx = none) : ∀ idx, s.isFull idx = true := by
  intro idx
  by_contra hopen
  have hidx := isFull_lt (Bool.eq_false_iff.mpr hopen)
  have hne : idx ≠ cur_idx := by
    rintro rfl
    exact hopen hfull
  unfold find_next_open at h
  rw [if_neg (by omega)] at h
  have hstart : (cur_idx + 1) % s.nodes.length < s.nodes.length :=
    Nat.mod_lt _ ((Nat.zero_le _).trans_lt hcur)
  have hback : ((cur_idx + 1) % s.nodes.length + (s.nodes.length - 1)) % s.nodes.length =
      cur_idx := by
    rw [Nat.mod_add_mod]
    have hsum : cur_idx + 1 + (s.nodes.length - 1) = cur_idx + s.nodes.length := by omega
    rw [hsum, Nat.add_mod_right, Nat.mod_eq_of_lt hcur]
  have hall := find_open_none s.nodes.length (s.nodes.length - 1) _ hstart (by omega) hback
    (by omega) h
  -- the place of the node after the start
  obtain ⟨j, hj, hplace⟩ : ∃ j < s.nodes.length - 1, (cur_idx + 1 + j) % s.nodes.length = idx := by
    rcases Nat.lt_or_gt_of_ne hne with hlt | hgt
    · refine ⟨idx + s.nodes.length - cur_idx - 1, by omega, ?_⟩
      have hsum : cur_idx + 1 + (idx + s.nodes.length - cur_idx - 1) = idx + s.nodes.length := by
        omega
      rw [hsum, Nat.add_mod_right, Nat.mod_eq_of_lt hidx]
    · refine ⟨idx - cur_idx - 1, by omega, ?_⟩
      have hsum : cur_idx + 1 + (idx - cur_idx - 1) = idx := by omega
      rw [hsum, Nat.mod_eq_of_lt hidx]
  have hplaced := hall j hj
  rw [Nat.mod_add_mod, hplace] at hplaced
  exact hopen hplaced

/-! ## One placement -/

theorem wrap_nodes (s : PolicyEvaluator) : s.wrap.nodes = s.nodes := by
  unfold wrap
  split <;> rfl

theorem wrap_overprovision (s : PolicyEvaluator) : s.wrap.overprovision = s.overprovision := by
  unfold wrap
  split <;> rfl

theorem wrap_default_policy (s : PolicyEvaluator) : s.wrap.default_policy = s.default_policy := by
  unfold wrap
  split <;> rfl

theorem wrap_lt (h : s.nodes ≠ []) : s.wrap.cur_node < s.nodes.length := by
  unfold wrap
  split
  · exact List.length_pos_iff.mpr h
  next hlt => exact Nat.not_le.mp hlt

theorem isFull_congr (h : s'.nodes = s.nodes) (idx : ℕ) : s'.isFull idx = s.isFull idx := by
  unfold isFull
  rw [h]

/-- The policy names no host. -/
def Free (p : Policy) : Prop := p.placement ≠ .HOST_ID ∧ p.placement ≠ .HOST_NAME

/-- The node that `_get_node` finds, and the evaluator after it. -/
inductive Chosen (s : PolicyEvaluator) (p : Policy) : Bool → ℕ → PolicyEvaluator → Prop where
  | host_id {idx : ℕ} (hplacement : p.placement = .HOST_ID)
      (hfound : s.node_by_id p.host_id = some idx) : Chosen s p true idx s.wrap
  | host_name {idx : ℕ} (hplacement : p.placement = .HOST_NAME)
      (hfound : s.node_by_name p.host_name = some idx) : Chosen s p true idx s.wrap
  /-- the next node of the cycle -/
  | cycle (hfree : Free p) (hdistribution : p.distribution ≠ .BLOCK) :
      Chosen s p false s.wrap.cur_node s.wrap.advance
  | overprovisioned (hfree : Free p) (hdistribution : p.distribution = .BLOCK)
      (hover : s.overprovision = true) : Chosen s p false s.wrap.cur_node s.wrap.advance
  /-- a node with room -/
  | room {idx : ℕ} (hfree : Free p) (hdistribution : p.distribution = .BLOCK)
      (hover : s.overprovision = false) (hopen : s.isFull idx = false) :
      Chosen s p false idx s.wrap
  /-- no node has room -/
  | full (hfree : Free p) (hdistribution : p.distribution = .BLOCK)
      (hover : s.overprovision = false) (hfull : ∀ idx, s.isFull idx = true) :
      Chosen s p false s.wrap.cur_node { s.wrap.advance with overprovision := true }

theorem eq_of_ok {ε α β γ : Type*} {a a' : α} {b b' : β} {c c' : γ}
    (h : ((.ok (a, b) : Except ε (α × β)), c) = (.ok (a', b'), c')) : a = a' ∧ b = b' ∧ c = c' := by
  obtain ⟨hok, rfl⟩ := Prod.mk.inj h
  obtain ⟨rfl, rfl⟩ := Prod.mk.inj (Except.ok.inj hok)
  exact ⟨rfl, rfl, rfl⟩

theorem get_node_chosen {node_specified : Bool} {idx : ℕ}
    (h : s.get_node p = (.ok (node_specified, idx), s')) : s.Chosen p node_specified idx s' := by
  unfold get_node at h
  simp only at h
  split at h
  next hid =>
    split at h
    next idx' hfound =>
      obtain ⟨rfl, rfl, rfl⟩ := eq_of_ok h
      refine .host_id hid ?_
      unfold node_by_id at hfound ⊢
      rw [wrap_nodes] at hfound
      exact hfound
    next => exact absurd (Prod.mk.inj h).1 nofun
  next hid =>
    split at h
    next hname =>
      split at h
      next idx' hfound =>
        obtain ⟨rfl, rfl, rfl⟩ := eq_of_ok h
        refine .host_name hname ?_
        unfold node_by_name at hfound ⊢
        rw [wrap_nodes] at hfound
        exact hfound
      next => exact absurd (Prod.mk.inj h).1 nofun
    next hname =>
      have hfree : Free p := ⟨hid, hname⟩
      split at h
      next => exact absurd (Prod.mk.inj h).1 nofun
      next hlt =>
        have hcur : s.wrap.cur_node < s.wrap.nodes.length := Nat.not_le.mp hlt
        split at h
        next hdistribution =>
          obtain ⟨rfl, rfl, rfl⟩ := eq_of_ok h
          exact .cycle hfree (by rw [hdistribution]; exact nofun)
        next hdistribution =>
          obtain ⟨rfl, rfl, rfl⟩ := eq_of_ok h
          exact .cycle hfree (by rw [hdistribution]; exact nofun)
        next hdistribution =>
          split at h
          next hover =>
            obtain ⟨rfl, rfl, rfl⟩ := eq_of_ok h
            exact .overprovisioned hfree hdistribution (s.wrap_overprovision ▸ hover)
          next hover =>
            have hover : s.overprovision = false := by
              rw [← wrap_overprovision]
              exact Bool.eq_false_iff.mpr hover
            split at h
            next hfull =>
              split at h
              next idx' hnext =>
                obtain ⟨rfl, rfl, rfl⟩ := eq_of_ok h
                refine .room hfree hdistribution hover ?_
                unfold find_next_open at hnext
                split at hnext
                · exact absurd hnext nofun
                · rw [← isFull_congr s.wrap_nodes]
                  exact find_open_some _ hnext
              next hnone =>
                obtain ⟨rfl, rfl, rfl⟩ := eq_of_ok h
                refine .full hfree hdistribution hover fun idx => ?_
                rw [← isFull_congr s.wrap_nodes]
                exact find_next_open_none hcur hfull hnone idx
            next hopen =>
              obtain ⟨rfl, rfl, rfl⟩ := eq_of_ok h
              refine .room hfree hdistribution hover ?_
              rw [← isFull_congr s.wrap_nodes]
              exact Bool.eq_false_iff.mpr hopen

/-- `_get_node` leaves the nodes and the default policy as they are, also when it raises. -/
theorem get_node_nodes (s : PolicyEvaluator) (p : Policy) :
    (s.get_node p).2.nodes = s.nodes ∧ (s.get_node p).2.default_policy = s.default_policy := by
  have hwrap := And.intro s.wrap_nodes s.wrap_default_policy
  unfold get_node
  simp only
  repeat' split
  all_goals exact hwrap

/-- A policy is placed at a node, which gets a layout and is counted. -/
structure Placed (s : PolicyEvaluator) (p : Policy) (idx : ℕ) (layout : ResourceLayout)
    (s' : PolicyEvaluator) : Prop where
  chosen : ∃ found, s.Chosen p layout.node_specified idx found ∧ s' = found.count idx
  node : ∃ node, s.nodes[idx]? = some node ∧
    PolicyEvaluator.layout p layout.node_specified node = .ok layout ∧
    layout.h_uid = node.h_uid ∧ layout.host_name = node.host_name

theorem layout_node {node_specified : Bool} {node : NodeDescriptor} {layout : ResourceLayout}
    (h : PolicyEvaluator.layout p node_specified node = .ok layout) :
    layout.node_specified = node_specified ∧ layout.h_uid = node.h_uid ∧
      layout.host_name = node.host_name := by
  unfold PolicyEvaluator.layout at h
  split at h
  · exact absurd h nofun
  · split at h
    · exact absurd h nofun
    · obtain rfl := Except.ok.inj h
      exact ⟨rfl, rfl, rfl⟩

theorem place_placed {layout : ResourceLayout} (h : s.place p = (.ok layout, s')) :
    ∃ idx, s.Placed p idx layout s' := by
  have hnodes := (s.get_node_nodes p).1
  unfold place at h
  split at h
  next => exact absurd (Prod.mk.inj h).1 nofun
  next node_specified idx found hget =>
    rw [hget] at hnodes
    split at h
    next => exact absurd (Prod.mk.inj h).1 nofun
    next node hnode =>
      split at h
      next => exact absurd (Prod.mk.inj h).1 nofun
      next layout' hlayout =>
        obtain ⟨hok, rfl⟩ := Prod.mk.inj h
        obtain rfl := Except.ok.inj hok
        obtain ⟨rfl, huid, hname⟩ := layout_node hlayout
        exact ⟨idx, ⟨found, get_node_chosen hget, rfl⟩, node, hnodes ▸ hnode, hlayout, huid, hname⟩

end PolicyEvaluator

end Placement
