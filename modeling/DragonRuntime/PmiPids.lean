/-
# Process ids of jobs

Jobs are created and removed in any order.  The ranges of a host are packed (`Sound`), and they are
those of the live jobs, as long as no creation puts more than 510 ranks on a host without ranges,
where nothing is checked, and no job is removed that got no range on one of its hosts, which cannot
be given back (`kept_iff_allowed`).
-/
import DragonRuntime.PmiRanks
import DragonRuntime.Runs

namespace Pmi

open FirstFit InsertionDict
open Placement (ResourceLayout)

/-! ## Creations and removals -/

/-- A group with a layout for each process. -/
structure Request where
  items : List Item
  layout_list : List ResourceLayout
  length_eq : layout_list.length = processes items

inductive Act : Type where
  | create (request : Request)
  /-- `cleanup`, of the live job at a place. -/
  | remove (idx : ℕ)

/-- The class state and the live jobs. -/
structure Live where
  state : PmiState
  jobs : List PMIJobHelper

def Live.init : Live where
  state := .init
  jobs := []

/-- The ranges of a host. -/
def Live.ranges (s : Live) (h_uid : ℤ) : List Range := Pmi.ranges s.state.PMI_PID_DICT h_uid

def Live.step (node_table : ℤ → ℕ) (s : Live) : Act → Live
  | .create request =>
    match PMIJobHelper.construct node_table s.state request.items request.layout_list with
    | (.error _, state) => { s with state := state }
    | (.ok job, state) => { state := state, jobs := s.jobs ++ [job] }
  | .remove idx =>
    match s.jobs[idx]? with
    | none => s
    | some job =>
      match job.cleanup s.state with
      | (.error _, state) => { s with state := state }
      | (.ok (), state) => { state := state, jobs := s.jobs.eraseIdx idx }

/-- The range that a job holds on a host. -/
def PMIJobHelper.held (h_uid : ℤ) (job : PMIJobHelper) : List Range :=
  match job.ppn_map.lookup h_uid, job.pid_base_map.lookup h_uid with
  | some lranks, some base => if base = -1 then [] else [(base, lranks)]
  | _, _ => []

/-! ## One host -/

theorem ranges_set (h_uid h : ℤ) (rs : List Range) (dict : List (ℤ × List Range)) :
    ranges (set h_uid rs dict) h = if h = h_uid then rs else ranges dict h := by
  unfold ranges
  rw [lookup_set]
  split <;> rfl

/-- What `allocate_pmi_pid_base` does to the ranges of the host. -/
def allocateRanges (lranks : ℕ) (allocated_bases : List Range) : ℤ × List Range :=
  if allocated_bases = [] then (min_pid, [(min_pid, lranks)])
  else
    match search lranks (max_pid + 1) min_pid allocated_bases with
    | some prev_end => (prev_end, sort (allocated_bases ++ [(prev_end, lranks)]))
    | none => (-1, allocated_bases)

theorem allocate_eq (dict : List (ℤ × List Range)) (hostname : ℤ) (lranks : ℕ) :
    allocate_pmi_pid_base dict hostname lranks =
      ((allocateRanges lranks (ranges dict hostname)).1,
        set hostname (allocateRanges lranks (ranges dict hostname)).2 dict) := by
  unfold allocate_pmi_pid_base allocateRanges
  simp only
  split
  · rfl
  · cases search lranks (max_pid + 1) min_pid (ranges dict hostname) <;> rfl

/-- A range has been allocated, or there is no room for it. -/
inductive Allocated (lranks : ℕ) (before : List Range) : ℤ → List Range → Prop where
  | failed (h : ¬ Fits lranks min_pid (max_pid + 1) before) : Allocated lranks before (-1) before
  | range {base : ℤ} {after : List Range} (hbase : base ≠ -1)
      (hfits : Fits lranks min_pid (max_pid + 1) before)
      (hpacked : Packed (max_pid + 1) min_pid after) (hperm : after.Perm ((base, lranks) :: before)) :
      Allocated lranks before base after

variable {lranks : ℕ} {base h_uid : ℤ} {ppn_map : List (ℤ × ℕ)} {items : List Item}
  {job : PMIJobHelper} {layout_list : List ResourceLayout} {node_table : ℤ → ℕ}

theorem allocateRanges_allocated {rs : List Range} (hpacked : Packed (max_pid + 1) min_pid rs)
    (hpos : 0 < lranks) (hroom : rs = [] → lranks ≤ 510) :
    Allocated lranks rs (allocateRanges lranks rs).1 (allocateRanges lranks rs).2 := by
  unfold allocateRanges
  split
  next hnil =>
    subst hnil
    have hle := hroom rfl
    have hnew : Packed (max_pid + 1) min_pid ([] ++ (min_pid, lranks) :: []) := by
      refine ⟨le_refl _, hpos, ?_⟩
      show (1 : ℤ) + lranks ≤ 510 + 1
      omega
    have hbase : min_pid ≠ -1 := by decide
    exact .range hbase (fits_of_packed hnew) hnew (.refl _)
  next =>
    split
    next base hsearch =>
      have hnew := packed_sort hpacked hpos hsearch
      have hperm : (sort (rs ++ [(base, lranks)])).Perm ((base, lranks) :: rs) :=
        (List.perm_insertionSort Le _).trans (List.perm_append_singleton _ rs)
      have hmem : (base, lranks) ∈ sort (rs ++ [(base, lranks)]) :=
        hperm.symm.subset List.mem_cons_self
      have hbase : min_pid ≤ base := (hnew.inside _ hmem).1
      refine .range ?_ ((search_isSome_iff hpacked hpos).mp (by rw [hsearch]; rfl)) hnew hperm
      rintro rfl
      exact absurd hbase (by decide)
    next hsearch => exact .failed (not_fits_of_search hsearch)

theorem Allocated.packed {before after : List Range} (h : Allocated lranks before base after)
    (hpacked : Packed (max_pid + 1) min_pid before) : Packed (max_pid + 1) min_pid after := by
  cases h with
  | failed => exact hpacked
  | range _ _ hnew => exact hnew

theorem Allocated.failed_iff {before after : List Range} (h : Allocated lranks before base after) :
    base = -1 ↔ ¬ Fits lranks min_pid (max_pid + 1) before := by
  cases h with
  | failed hfits => exact iff_of_true rfl hfits
  | range hbase hfits => exact iff_of_false hbase (not_not.mpr hfits)

/-! ## All hosts of a job -/

/-- Each host of the job gets its range, and the other ones are left alone. -/
theorem allocateAll_eq (hnodup : (keys ppn_map).Nodup) :
    ∀ (dict : List (ℤ × List Range)) (pid_base_map : List (ℤ × ℤ)) (h : ℤ),
      (h ∉ keys ppn_map →
        ranges (allocateAll dict pid_base_map ppn_map).2 h = ranges dict h ∧
          (allocateAll dict pid_base_map ppn_map).1.lookup h = pid_base_map.lookup h) ∧
      ∀ lranks, (h, lranks) ∈ ppn_map →
        ranges (allocateAll dict pid_base_map ppn_map).2 h =
            (allocateRanges lranks (ranges dict h)).2 ∧
          (allocateAll dict pid_base_map ppn_map).1.lookup h =
            some (allocateRanges lranks (ranges dict h)).1 := by
  induction ppn_map with
  | nil =>
    intro dict pid_base_map h
    exact ⟨fun _ => ⟨rfl, rfl⟩, fun _ hmem => absurd hmem List.not_mem_nil⟩
  | cons entry ppn_map ih =>
    obtain ⟨h_uid, count⟩ := entry
    obtain ⟨hnew, hnodup⟩ : h_uid ∉ keys ppn_map ∧ (keys ppn_map).Nodup := List.nodup_cons.mp hnodup
    intro dict pid_base_map h
    unfold allocateAll
    rw [allocate_eq]
    simp only
    have hrest := ih hnodup (set h_uid (allocateRanges count (ranges dict h_uid)).2 dict)
      (set h_uid (allocateRanges count (ranges dict h_uid)).1 pid_base_map) h
    rw [ranges_set, lookup_set] at hrest
    by_cases heq : h = h_uid
    · subst heq
      rw [if_pos rfl, if_pos rfl] at hrest
      refine ⟨fun hmem => absurd List.mem_cons_self hmem, fun lranks hmem => ?_⟩
      rcases List.mem_cons.mp hmem with hhead | htail
      · obtain ⟨-, rfl⟩ := Prod.mk.inj hhead
        exact hrest.1 hnew
      · exact absurd (List.mem_map_of_mem htail) hnew
    · rw [if_neg heq, if_neg heq] at hrest
      refine ⟨fun hmem => hrest.1 fun htail => hmem (List.mem_cons_of_mem _ htail),
        fun lranks hmem => hrest.2 lranks ?_⟩
      exact (List.mem_cons.mp hmem).resolve_left fun hhead => heq (Prod.mk.inj hhead).1

theorem free_eq (dict : List (ℤ × List Range)) (hostname base : ℤ) (size : ℕ) :
    free_pmi_pid_base dict hostname base size =
      if (base, size) ∈ ranges dict hostname then
        (.ok (), set hostname ((ranges dict hostname).erase (base, size)) dict)
      else (.error (if dict.lookup hostname = none then .KeyError else .ValueError), dict) := by
  unfold free_pmi_pid_base ranges
  cases hlookup : dict.lookup hostname with
  | none => rfl
  | some rs => rfl

/-- All ranges of a job are given back, each to its host. -/
theorem freeAll_ok {pid_base_map : List (ℤ × ℤ)} (hnodup : (keys ppn_map).Nodup) :
    ∀ (dict : List (ℤ × List Range)),
    (∀ h lranks, (h, lranks) ∈ ppn_map →
      ∃ base, pid_base_map.lookup h = some base ∧ (base, lranks) ∈ ranges dict h) →
    (freeAll pid_base_map dict ppn_map).1 = .ok () ∧ ∀ h,
      (h ∉ keys ppn_map → ranges (freeAll pid_base_map dict ppn_map).2 h = ranges dict h) ∧
      ∀ lranks base, (h, lranks) ∈ ppn_map → pid_base_map.lookup h = some base →
        ranges (freeAll pid_base_map dict ppn_map).2 h = (ranges dict h).erase (base, lranks) := by
  induction ppn_map with
  | nil =>
    intro dict _
    exact ⟨rfl, fun h => ⟨fun _ => rfl, fun _ _ hmem => absurd hmem List.not_mem_nil⟩⟩
  | cons entry ppn_map ih =>
    obtain ⟨h_uid, count⟩ := entry
    obtain ⟨hnew, hnodup⟩ : h_uid ∉ keys ppn_map ∧ (keys ppn_map).Nodup := List.nodup_cons.mp hnodup
    intro dict hall
    obtain ⟨base, hbase, hmem⟩ := hall h_uid count List.mem_cons_self
    have hrest := ih hnodup (set h_uid ((ranges dict h_uid).erase (base, count)) dict) (by
      intro h lranks htail
      have hne : h ≠ h_uid := by
        rintro rfl
        exact hnew (List.mem_map_of_mem htail)
      rw [ranges_set, if_neg hne]
      exact hall h lranks (List.mem_cons_of_mem _ htail))
    unfold freeAll
    rw [hbase]
    simp only [free_eq, if_pos hmem]
    refine ⟨hrest.1, fun h => ?_⟩
    obtain ⟨hother, hheld⟩ := hrest.2 h
    rw [ranges_set] at hother hheld
    by_cases heq : h = h_uid
    · subst heq
      rw [if_pos rfl] at hother hheld
      refine ⟨fun hmem => absurd List.mem_cons_self hmem, fun lranks base' hmem' hbase' => ?_⟩
      obtain rfl : base = base' := Option.some.inj (hbase.symm.trans hbase')
      rcases List.mem_cons.mp hmem' with hhead | htail
      · obtain ⟨-, rfl⟩ := Prod.mk.inj hhead
        exact hother hnew
      · exact absurd (List.mem_map_of_mem htail) hnew
    · rw [if_neg heq] at hother hheld
      refine ⟨fun hmem => hother fun htail => hmem (List.mem_cons_of_mem _ htail),
        fun lranks base' hmem' => hheld lranks base' ?_⟩
      exact (List.mem_cons.mp hmem').resolve_left fun hhead => heq (Prod.mk.inj hhead).1

/-- A job that can be removed had all its ranges. -/
theorem mem_of_freeAll_ok {pid_base_map : List (ℤ × ℤ)} (hnodup : (keys ppn_map).Nodup) :
    ∀ (dict : List (ℤ × List Range)),
    (freeAll pid_base_map dict ppn_map).1 = .ok () → ∀ h lranks, (h, lranks) ∈ ppn_map →
      ∃ base, pid_base_map.lookup h = some base ∧ (base, lranks) ∈ ranges dict h := by
  induction ppn_map with
  | nil => exact fun _ _ h lranks hmem => absurd hmem List.not_mem_nil
  | cons entry ppn_map ih =>
    obtain ⟨h_uid, count⟩ := entry
    obtain ⟨hnew, hnodup⟩ : h_uid ∉ keys ppn_map ∧ (keys ppn_map).Nodup := List.nodup_cons.mp hnodup
    intro dict hok h lranks hmem
    unfold freeAll at hok
    split at hok
    next => exact absurd hok nofun
    next base hbase =>
      rw [free_eq] at hok
      by_cases hheld : (base, count) ∈ ranges dict h_uid
      · rw [if_pos hheld] at hok
        rcases List.mem_cons.mp hmem with hhead | htail
        · obtain ⟨rfl, rfl⟩ := Prod.mk.inj hhead
          exact ⟨base, hbase, hheld⟩
        · have hne : h ≠ h_uid := by
            rintro rfl
            exact hnew (List.mem_map_of_mem htail)
          have hrest := ih hnodup _ hok h lranks htail
          rw [ranges_set, if_neg hne] at hrest
          exact hrest
      · rw [if_neg hheld] at hok
        exact absurd hok nofun

/-! ## The invariant -/

/-- The hosts of a job and how many ranks it has on each. -/
structure WellFormed (job : PMIJobHelper) : Prop where
  nodup : (keys job.ppn_map).Nodup
  pos : ∀ h lranks, (h, lranks) ∈ job.ppn_map → 0 < lranks
  pids : ∀ h ∈ keys job.ppn_map, (job.pid_base_map.lookup h).isSome

theorem Constructed.mem_ppn_map (h : Constructed node_table items layout_list job) :
    (h_uid, lranks) ∈ job.ppn_map ↔
      h_uid ∈ rankHosts items layout_list ∧ lranks = (rankHosts items layout_list).count h_uid := by
  obtain ⟨maps, hranked, -, hppn, -⟩ := h.ranked
  have hlookup := hranked.ppn h_uid
  rw [hppn] at hlookup
  constructor
  · intro hmem
    rw [lookup_of_mem (hppn ▸ hranked.nodup) hmem] at hlookup
    split at hlookup
    next hhost => exact ⟨hhost, Option.some.inj hlookup⟩
    next => exact absurd hlookup nofun
  · rintro ⟨hhost, rfl⟩
    rw [if_pos hhost] at hlookup
    exact mem_of_lookup hlookup

theorem Constructed.wellFormed (h : Constructed node_table items layout_list job) :
    WellFormed job where
  nodup := by
    obtain ⟨maps, hranked, -, hppn, -⟩ := h.ranked
    exact hppn ▸ hranked.nodup
  pos h_uid lranks hmem := by
    obtain ⟨hhost, rfl⟩ := h.mem_ppn_map.mp hmem
    exact List.count_pos_iff.mpr hhost
  pids := h.pids

/-- The ranges of each host are packed, and they are those of the live jobs. -/
structure Sound (s : Live) : Prop where
  packed : ∀ h, Packed (max_pid + 1) min_pid (s.ranges h)
  live : ∀ h, (s.ranges h).Perm (s.jobs.flatMap (PMIJobHelper.held h))
  jobs : ∀ job ∈ s.jobs, WellFormed job

theorem sound_init : Sound Live.init where
  packed _ := by
    show (1 : ℤ) ≤ 510 + 1
    decide
  live _ := .nil
  jobs _ h := absurd h List.not_mem_nil

/-! ## One step -/

theorem WellFormed.held_eq (h : WellFormed job) (hmem : (h_uid, lranks) ∈ job.ppn_map)
    (hbase : job.pid_base_map.lookup h_uid = some base) :
    job.held h_uid = if base = -1 then [] else [(base, lranks)] := by
  unfold PMIJobHelper.held
  rw [lookup_of_mem h.nodup hmem, hbase]

theorem held_of_not_mem (h : h_uid ∉ keys job.ppn_map) : job.held h_uid = [] := by
  unfold PMIJobHelper.held
  rw [mem_keys_iff, Option.not_isSome_iff_eq_none] at h
  rw [h]

theorem exists_mem_of_mem_keys (h : h_uid ∈ keys ppn_map) :
    ∃ lranks, (h_uid, lranks) ∈ ppn_map := by
  obtain ⟨⟨h', lranks⟩, hmem, rfl⟩ := List.mem_map.mp h
  exact ⟨lranks, hmem⟩

theorem construct_cases {s s' : PmiState} (hlength : processes items ≤ layout_list.length)
    (h : PMIJobHelper.construct node_table s items layout_list = (.ok job, s')) :
    Constructed node_table items layout_list job ∧
      (job.pid_base_map, s'.PMI_PID_DICT) = allocateAll s.PMI_PID_DICT [] job.ppn_map := by
  cases hbackend : findBackend items with
  | error e =>
    unfold PMIJobHelper.construct at h
    rw [hbackend] at h
    exact absurd (Prod.mk.inj h).1 nofun
  | ok backend =>
    obtain ⟨job', s'', hconstruct, hjob⟩ := construct_constructed node_table s hlength hbackend
    have heq := hconstruct.symm.trans h
    obtain rfl := Except.ok.inj (Prod.mk.inj heq).1
    refine ⟨hjob, ?_⟩
    unfold PMIJobHelper.construct at h
    rw [hbackend] at h
    simp only at h
    split at h
    next => exact absurd (Prod.mk.inj h).1 nofun
    next =>
      obtain ⟨hok, rfl⟩ := Prod.mk.inj h
      obtain rfl := Except.ok.inj hok
      rfl

/-- A job that cannot be constructed takes no pids. -/
theorem construct_error {s s' : PmiState} {e : Raised}
    (h : PMIJobHelper.construct node_table s items layout_list = (.error e, s')) :
    s'.PMI_PID_DICT = s.PMI_PID_DICT := by
  unfold PMIJobHelper.construct at h
  split at h
  · obtain ⟨-, rfl⟩ := Prod.mk.inj h
    rfl
  · split at h
    · obtain ⟨-, rfl⟩ := Prod.mk.inj h
      rfl
    · exact absurd (Prod.mk.inj h).1 nofun

/-- The live ranges of a host. -/
structure WellPlaced (ranges : List Range) : Prop where
  sorted : ranges.Pairwise Le
  disjoint : ranges.Pairwise Apart
  inside : ∀ r ∈ ranges, min_pid ≤ r.1 ∧ r.1 + r.2 ≤ max_pid + 1

theorem wellPlaced_of_packed {rs : List Range} (h : Packed (max_pid + 1) min_pid rs) :
    WellPlaced rs where
  sorted := h.sorted
  disjoint := h.pairwise.imp .inl
  inside r hr := ⟨(h.inside r hr).1, (h.inside r hr).2.2⟩

/-- What a creation or a removal has to do. -/
structure Kept (node_table : ℤ → ℕ) (s : Live) (a : Act) : Prop where
  placed : ∀ h, WellPlaced ((s.step node_table a).ranges h)
  live : ∀ h, ((s.step node_table a).ranges h).Perm
    ((s.step node_table a).jobs.flatMap (PMIJobHelper.held h))
  /-- An allocation fails exactly when no gap is large enough. -/
  created : ∀ request job state, a = .create request →
    PMIJobHelper.construct node_table s.state request.items request.layout_list = (.ok job, state) →
      ∀ h lranks, (h, lranks) ∈ job.ppn_map → ∃ base, job.pid_base_map.lookup h = some base ∧
        (base = -1 ↔ ¬ Fits lranks min_pid (max_pid + 1) (s.ranges h))
  /-- A removal succeeds, and frees the ranges of the job and no others. -/
  removed : ∀ idx job, a = .remove idx → s.jobs[idx]? = some job →
    (job.cleanup s.state).1 = .ok () ∧
      ∀ h, (s.ranges h).Perm (job.held h ++ (s.step node_table a).ranges h)

/-- A job is created with at most 510 ranks on each host without ranges, and a job is removed that
has got all its ranges. -/
def Allowed (s : Live) : Act → Prop
  | .create request =>
    (∀ item ∈ request.items.takeWhile (!·.isPmi), item.template ≠ .other) →
      ∀ h, s.ranges h = [] → (rankHosts request.items request.layout_list).count h ≤ 510
  | .remove idx => ∀ job, s.jobs[idx]? = some job →
    ∀ h ∈ keys job.ppn_map, job.pid_base_map.lookup h ≠ some (-1)

section

variable {node_table : ℤ → ℕ} {s : Live}

variable {request : Request} {state : PmiState} {job : PMIJobHelper} {idx : ℕ} {a : Act}

theorem step_create_error {e : Raised}
    (h : PMIJobHelper.construct node_table s.state request.items request.layout_list =
      (.error e, state)) : s.step node_table (.create request) = { s with state := state } := by
  simp only [Live.step, h]

theorem step_create_ok
    (h : PMIJobHelper.construct node_table s.state request.items request.layout_list =
      (.ok job, state)) :
    s.step node_table (.create request) = { state := state, jobs := s.jobs ++ [job] } := by
  simp only [Live.step, h]

/-- The ranges and the jobs after a job has been created. -/
theorem created_cases
    (hconstruct : PMIJobHelper.construct node_table s.state request.items request.layout_list =
      (.ok job, state)) :
    Constructed node_table request.items request.layout_list job ∧
      ∀ h, (h ∉ keys job.ppn_map → ranges state.PMI_PID_DICT h = s.ranges h) ∧
        ∀ lranks, (h, lranks) ∈ job.ppn_map →
          ranges state.PMI_PID_DICT h = (allocateRanges lranks (s.ranges h)).2 ∧
            job.pid_base_map.lookup h = some (allocateRanges lranks (s.ranges h)).1 := by
  obtain ⟨hjob, hall⟩ := construct_cases request.length_eq.ge hconstruct
  refine ⟨hjob, fun h => ?_⟩
  obtain ⟨hother, hhost⟩ := allocateAll_eq hjob.wellFormed.nodup s.state.PMI_PID_DICT [] h
  rw [← hall] at hother hhost
  exact ⟨fun hmem => (hother hmem).1, hhost⟩

theorem created_allocated (hsound : Sound s)
    (hconstruct : PMIJobHelper.construct node_table s.state request.items request.layout_list =
      (.ok job, state)) (hallowed : Allowed s (.create request)) {h : ℤ} {lranks : ℕ}
    (hmem : (h, lranks) ∈ job.ppn_map) :
    ∃ base, job.pid_base_map.lookup h = some base ∧
      Allocated lranks (s.ranges h) base (ranges state.PMI_PID_DICT h) := by
  obtain ⟨hjob, hranges⟩ := created_cases hconstruct
  obtain ⟨hafter, hbase⟩ := (hranges h).2 lranks hmem
  refine ⟨_, hbase, ?_⟩
  rw [hafter]
  refine allocateRanges_allocated (hsound.packed h) (hjob.wellFormed.pos h lranks hmem) fun hnil => ?_
  rw [(hjob.mem_ppn_map.mp hmem).2]
  exact hallowed (findBackend_ok_iff.mp ⟨_, hjob.backend⟩) h hnil

theorem step_create_sound (hsound : Sound s) (hallowed : Allowed s (.create request)) :
    Sound (s.step node_table (.create request)) := by
  rcases hconstruct : PMIJobHelper.construct node_table s.state request.items request.layout_list
    with ⟨e | job, state⟩
  · rw [step_create_error hconstruct]
    have hsame := construct_error hconstruct
    refine ⟨fun h => ?_, fun h => ?_, hsound.jobs⟩
    · show Packed _ _ (ranges state.PMI_PID_DICT h)
      rw [hsame]
      exact hsound.packed h
    · show (ranges state.PMI_PID_DICT h).Perm _
      rw [hsame]
      exact hsound.live h
  · rw [step_create_ok hconstruct]
    obtain ⟨hjob, hranges⟩ := created_cases hconstruct
    refine ⟨fun h => ?_, fun h => ?_, fun job' hjob' => ?_⟩
    · show Packed _ _ (ranges state.PMI_PID_DICT h)
      by_cases hkey : h ∈ keys job.ppn_map
      · obtain ⟨lranks, hmem⟩ := exists_mem_of_mem_keys hkey
        obtain ⟨base, _, hallocated⟩ := created_allocated hsound hconstruct hallowed hmem
        exact hallocated.packed (hsound.packed h)
      · rw [(hranges h).1 hkey]
        exact hsound.packed h
    · show (ranges state.PMI_PID_DICT h).Perm ((s.jobs ++ [job]).flatMap (PMIJobHelper.held h))
      rw [List.flatMap_append, List.flatMap_singleton]
      by_cases hkey : h ∈ keys job.ppn_map
      · obtain ⟨lranks, hmem⟩ := exists_mem_of_mem_keys hkey
        obtain ⟨base, hbase, hallocated⟩ := created_allocated hsound hconstruct hallowed hmem
        rw [hjob.wellFormed.held_eq hmem hbase]
        revert hallocated
        generalize ranges state.PMI_PID_DICT h = after
        intro hallocated
        cases hallocated with
        | failed =>
          rw [if_pos rfl, List.append_nil]
          exact hsound.live h
        | range hne _ _ hperm =>
          rw [if_neg hne]
          exact hperm.trans (((hsound.live h).cons _).trans (List.perm_append_singleton _ _).symm)
      · rw [(hranges h).1 hkey, held_of_not_mem hkey, List.append_nil]
        exact hsound.live h
    · rcases List.mem_append.mp hjob' with hold | hnew
      · exact hsound.jobs job' hold
      · obtain rfl := List.mem_singleton.mp hnew
        exact hjob.wellFormed

/-- The ranges of a live job that has got all of them. -/
theorem held_of_allowed (hsound : Sound s) (hjob : s.jobs[idx]? = some job)
    (hallowed : Allowed s (.remove idx)) {h : ℤ} {lranks : ℕ} (hmem : (h, lranks) ∈ job.ppn_map) :
    ∃ base, job.pid_base_map.lookup h = some base ∧ job.held h = [(base, lranks)] ∧
      (base, lranks) ∈ s.ranges h := by
  have hlive : job ∈ s.jobs := List.mem_of_getElem? hjob
  have hwell := hsound.jobs job hlive
  have hkey : h ∈ keys job.ppn_map := List.mem_map_of_mem hmem
  obtain ⟨base, hbase⟩ := Option.isSome_iff_exists.mp (hwell.pids h hkey)
  have hne : base ≠ -1 := by
    rintro rfl
    exact hallowed job hjob h hkey hbase
  have hheld : job.held h = [(base, lranks)] := by rw [hwell.held_eq hmem hbase, if_neg hne]
  refine ⟨base, hbase, hheld, (hsound.live h).symm.subset ?_⟩
  refine List.mem_flatMap.mpr ⟨job, hlive, ?_⟩
  rw [hheld]
  exact List.mem_singleton_self _

/-- The cleanup of a job frees its ranges and no other. -/
theorem cleanup_allowed (hsound : Sound s) (hjob : s.jobs[idx]? = some job)
    (hallowed : Allowed s (.remove idx)) :
    (job.cleanup s.state).1 = .ok () ∧
      ∀ h, (s.ranges h).Perm (job.held h ++ ranges (job.cleanup s.state).2.PMI_PID_DICT h) ∧
        (Packed (max_pid + 1) min_pid (ranges (job.cleanup s.state).2.PMI_PID_DICT h)) := by
  have hwell := hsound.jobs job (List.mem_of_getElem? hjob)
  obtain ⟨hok, hall⟩ := freeAll_ok hwell.nodup s.state.PMI_PID_DICT fun h lranks hmem => by
    obtain ⟨base, hbase, _, hrange⟩ := held_of_allowed hsound hjob hallowed hmem
    exact ⟨base, hbase, hrange⟩
  refine ⟨hok, fun h => ?_⟩
  show (s.ranges h).Perm (job.held h ++
      ranges (freeAll job.pid_base_map s.state.PMI_PID_DICT job.ppn_map).2 h) ∧
    Packed (max_pid + 1) min_pid
      (ranges (freeAll job.pid_base_map s.state.PMI_PID_DICT job.ppn_map).2 h)
  by_cases hkey : h ∈ keys job.ppn_map
  · obtain ⟨lranks, hmem⟩ := exists_mem_of_mem_keys hkey
    obtain ⟨base, hbase, hheld, hrange⟩ := held_of_allowed hsound hjob hallowed hmem
    rw [(hall h).2 lranks base hmem hbase, hheld]
    exact ⟨List.perm_cons_erase hrange, (hsound.packed h).erase _⟩
  · rw [(hall h).1 hkey, held_of_not_mem hkey]
    exact ⟨.refl _, hsound.packed h⟩

theorem step_remove_none (h : s.jobs[idx]? = none) : s.step node_table (.remove idx) = s := by
  simp only [Live.step, h]

theorem step_remove_ok (hjob : s.jobs[idx]? = some job) (hok : (job.cleanup s.state).1 = .ok ()) :
    s.step node_table (.remove idx) =
      { state := (job.cleanup s.state).2, jobs := s.jobs.eraseIdx idx } := by
  simp only [Live.step, hjob]
  rcases hcleanup : job.cleanup s.state with ⟨result, state⟩
  rw [hcleanup] at hok
  obtain rfl : result = .ok () := hok
  rfl

theorem perm_cons_eraseIdx {jobs : List PMIJobHelper} (h : jobs[idx]? = some job) :
    jobs.Perm (job :: jobs.eraseIdx idx) := by
  obtain ⟨hlt, rfl⟩ := List.getElem?_eq_some_iff.mp h
  exact (List.getElem_cons_eraseIdx_perm hlt).symm

theorem step_remove_sound (hsound : Sound s) (hallowed : Allowed s (.remove idx)) :
    Sound (s.step node_table (.remove idx)) := by
  cases hjob : s.jobs[idx]? with
  | none =>
    rw [step_remove_none hjob]
    exact hsound
  | some job =>
    obtain ⟨hok, hall⟩ := cleanup_allowed hsound hjob hallowed
    rw [step_remove_ok hjob hok]
    have hperm := perm_cons_eraseIdx hjob
    refine ⟨fun h => (hall h).2, fun h => ?_, fun job' hjob' => ?_⟩
    · have hlive := (hsound.live h).trans (hperm.flatMap_right (PMIJobHelper.held h))
      rw [List.flatMap_cons] at hlive
      exact (List.perm_append_left_iff _).mp ((hall h).1.symm.trans hlive)
    · exact hsound.jobs job' (hperm.symm.subset (List.mem_cons_of_mem _ hjob'))

/-- **Step lemma.** -/
theorem step_sound (hsound : Sound s) (hallowed : Allowed s a) : Sound (s.step node_table a) := by
  cases a with
  | create => exact step_create_sound hsound hallowed
  | remove => exact step_remove_sound hsound hallowed

theorem kept_of_allowed (hsound : Sound s) (hallowed : Allowed s a) : Kept node_table s a := by
  have hnext : Sound (s.step node_table a) := step_sound hsound hallowed
  constructor
  case placed => exact fun h => wellPlaced_of_packed (hnext.packed h)
  case live => exact hnext.live
  case created =>
    rintro request job state rfl hconstruct h lranks hmem
    obtain ⟨base, hbase, hallocated⟩ := created_allocated hsound hconstruct hallowed hmem
    exact ⟨base, hbase, hallocated.failed_iff⟩
  case removed =>
    rintro idx job rfl hjob
    obtain ⟨hok, hall⟩ := cleanup_allowed hsound hjob hallowed
    refine ⟨hok, fun h => ?_⟩
    rw [step_remove_ok hjob hok]
    exact (hall h).1

/-- A step that is not allowed breaks a promise. -/
theorem allowed_of_kept (hsound : Sound s) (hkept : Kept node_table s a) : Allowed s a := by
  cases a with
  | create request =>
    intro hprocesses h hnil
    by_contra hmany
    -- the host gets a range that is too large
    obtain ⟨backend, hbackend⟩ := findBackend_ok_iff.mpr hprocesses
    obtain ⟨job, state, hconstruct, hjob⟩ :=
      construct_constructed node_table s.state request.length_eq.ge hbackend
    have hmem : (h, (rankHosts request.items request.layout_list).count h) ∈ job.ppn_map := by
      refine hjob.mem_ppn_map.mpr ⟨List.count_pos_iff.mp ?_, rfl⟩
      omega
    have hrange := (((created_cases hconstruct).2 h).2 _ hmem).1
    rw [hnil] at hrange
    have hplaced := (hkept.placed h).inside
      (min_pid, (rankHosts request.items request.layout_list).count h)
    rw [step_create_ok hconstruct] at hplaced
    have hstop := (hplaced (by
      show _ ∈ ranges state.PMI_PID_DICT h
      rw [hrange]
      exact List.mem_singleton_self _)).2
    have hstop : (1 : ℤ) + ((rankHosts request.items request.layout_list).count h : ℕ) ≤ 510 + 1 :=
      hstop
    omega
  | remove idx =>
    intro job hjob h hkey hfailed
    obtain ⟨lranks, hmem⟩ := exists_mem_of_mem_keys hkey
    have hwell := hsound.jobs job (List.mem_of_getElem? hjob)
    obtain ⟨base, hbase, hrange⟩ :=
      mem_of_freeAll_ok hwell.nodup _ (hkept.removed idx job rfl hjob).1 h lranks hmem
    obtain rfl : -1 = base := Option.some.inj (hfailed.symm.trans hbase)
    have hmin : (1 : ℤ) ≤ -1 := ((hsound.packed h).inside _ hrange).1
    omega

end

/-- **Which runs keep the ranges.** -/
theorem kept_iff_allowed (node_table : ℤ → ℕ) (acts : List Act) :
    Runs.Legal (Live.step node_table) (Kept node_table) Live.init acts ↔
      Runs.Legal (Live.step node_table) Allowed Live.init acts :=
  Runs.legal_congr (I := Sound) (fun _ _ hsound => ⟨allowed_of_kept hsound, kept_of_allowed hsound⟩)
    (fun _ _ hsound hallowed => step_sound hsound hallowed) sound_init acts

/-- So many ranks on one host. -/
def sampleRequest (count : ℕ) : Request where
  items := [⟨count, .process (some .CRAY)⟩]
  layout_list := List.replicate count (sampleLayout 1)
  length_eq := List.length_replicate

/-- 511 ranks on a host without ranges. -/
theorem not_kept :
    ¬ ∀ (node_table : ℤ → ℕ) (acts : List Act),
      Runs.Legal (Live.step node_table) (Kept node_table) Live.init acts := by
  intro h
  have hkept := (h (fun _ => 0) [.create (sampleRequest 511)]).1
  have hcount := allowed_of_kept sound_init hkept (by decide) 1 rfl
  exact absurd hcount (by decide +kernel)

end Pmi
