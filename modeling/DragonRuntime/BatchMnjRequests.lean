/-
# Requests of multi-node jobs (`_request_mnj_alloc` of `dragon/workflows/batch/batch.py`)

A multi-node job asks for as many nodes as its processes need, and when it gets them its ranks
are packed onto them.

Conventions:

* the state in which `_request_mnj_alloc` is called is any that the scheduler gets to by the
  duties of its handlers and of its main loop, in any order;
* a request that is met later is met from any list of nodes, each of which is in it once, as in
  the list of free nodes.
-/
import DragonRuntime.BatchHandles

namespace Batch

/-! ## Explicit hostnames -/

/-- What `_request_mnj_alloc` can raise: an error about a placement without a name, and the
error that a manager has no attribute `_all_node_hostnames`. -/
inductive MnjError : Type where
  | emptyHostName
  | noAllNodeHostnames
  deriving DecidableEq, Repr

namespace Manager

variable {V : Type}

/-- One turn of the loop of `_get_job_requested_hostnames`. -/
def collectHostname (requestedHostnames : List Hostname) :
    TemplatePolicy → Except MnjError (List Hostname)
  | .other => .ok requestedHostnames
  | .hostName none => .error .emptyHostName
  | .hostName (some hostName) =>
    .ok (if hostName ∈ requestedHostnames then requestedHostnames
      else requestedHostnames ++ [hostName])

/-- `_get_job_requested_hostnames`. -/
def getJobRequestedHostnames (taskCore : TaskCore (PyVal V)) :
    Except MnjError (Option (List Hostname)) :=
  match taskCore.kind with
  | .function => .ok none
  | .job _ _ policies =>
    match policies.foldlM collectHostname [] with
    | .error e => .error e
    | .ok [] => .ok none
    | .ok (hostname :: hostnames) => .ok (some (sortHostnames (hostname :: hostnames)))

/-- `_validate_job_requested_hostnames`.  The first hostname is looked for in the attribute
`_all_node_hostnames`, which is one of the client and not of the manager. -/
def validateJobRequestedHostnames : List Hostname → Except MnjError Unit
  | [] => .ok ()
  | _ :: _ => .error .noAllNodeHostnames

/-- What `_request_mnj_alloc` raises, if anything. -/
def requestMnjError (taskCore : TaskCore (PyVal V)) : Except MnjError Unit :=
  match getJobRequestedHostnames taskCore with
  | .error e => .error e
  | .ok none => .ok ()
  | .ok (some hostnames) => validateJobRequestedHostnames hostnames

/-- The hosts that the templates of a job name. -/
def explicitHosts (taskCore : TaskCore (PyVal V)) : List Hostname :=
  match taskCore.kind with
  | .function => []
  | .job _ _ policies => policies.filterMap fun
      | .hostName hostName => hostName
      | .other => none

/-! ### When a request raises -/

variable {hostnames free : List Hostname} {n priorityWeight : ℕ} {taskCore : TaskCore (PyVal V)}

theorem collect_ne_nil {policies : List TemplatePolicy} {requested : List Hostname}
    (h : policies.foldlM collectHostname requested = .ok hostnames) (hne : requested ≠ []) :
    hostnames ≠ [] := by
  induction policies generalizing requested with
  | nil =>
    obtain rfl := Except.ok.inj h
    exact hne
  | cons policy policies ih =>
    rw [List.foldlM_cons] at h
    cases policy with
    | other => exact ih h hne
    | hostName hostName =>
      cases hostName with
      | none => cases h
      | some hostName =>
        apply ih h
        split
        · exact hne
        · exact List.append_ne_nil_of_right_ne_nil _ (List.cons_ne_nil _ _)

/-- No hostname is collected exactly when no template has a `HOST_NAME` placement. -/
theorem collect_eq_nil_iff (policies : List TemplatePolicy) :
    policies.foldlM collectHostname [] = .ok [] ↔
      (policies.any fun policy => policy ≠ .other) = false := by
  induction policies with
  | nil => exact ⟨fun _ => rfl, fun _ => rfl⟩
  | cons policy policies ih =>
    rw [List.foldlM_cons, List.any_cons]
    cases policy with
    | other => exact ih
    | hostName hostName =>
      refine ⟨fun h => ?_, fun h => by cases h⟩
      cases hostName with
      | none => cases h
      | some hostName => exact absurd rfl (collect_ne_nil h (List.cons_ne_nil hostName []))

/-- A request raises exactly when the job names hosts. -/
theorem requestMnjError_eq_ok_iff (taskCore : TaskCore (PyVal V)) :
    requestMnjError taskCore = .ok () ↔ requestsHostnames taskCore = false := by
  rw [requestMnjError, getJobRequestedHostnames, requestsHostnames]
  cases taskCore.kind with
  | function => exact ⟨fun _ => rfl, fun _ => rfl⟩
  | job _ _ policies =>
    simp only []
    rw [← collect_eq_nil_iff]
    rcases hcollect : policies.foldlM collectHostname [] with e | hostnames
    · constructor
      · intro h
        cases h
      · intro h
        cases h
    · cases hostnames with
      | nil => exact ⟨fun _ => rfl, fun _ => rfl⟩
      | cons hostname hostnames =>
        refine ⟨fun h => ?_, fun h => by cases h⟩
        simp only [] at h
        rcases hsort : sortHostnames (hostname :: hostnames) with _ | ⟨first, rest⟩
        · have hlength := congrArg List.length hsort
          rw [sortHostnames, List.length_insertionSort] at hlength
          cases hlength
        · rw [hsort] at h
          cases h

/-! ## Ranks -/

/-- The ranks are as many as there are processes. -/
theorem length_of_build {ranksPerNode : ℕ} {hostnameList : List Hostname}
    (h : buildContiguousHostnameList ranksPerNode hostnames n = some hostnameList) :
    hostnameList.length = n := by
  induction hostnames generalizing n hostnameList with
  | nil =>
    rw [buildContiguousHostnameList] at h
    split at h
    next hzero =>
      obtain rfl := Option.some.inj h
      exact hzero.symm
    next => cases h
  | cons hostname hostnames ih =>
    rw [buildContiguousHostnameList] at h
    split at h
    next hdone =>
      obtain rfl := Option.some.inj h
      rw [List.length_replicate]
      omega
    next =>
      obtain ⟨rest, hrest, rfl⟩ := Option.map_eq_some_iff.mp h
      rw [List.length_append, List.length_replicate, ih hrest]
      omega

/-- A node that is in the allocation once gets at most as many ranks as it has cores. -/
theorem count_le_of_build {ranksPerNode : ℕ} {hostnameList : List Hostname}
    (h : buildContiguousHostnameList ranksPerNode hostnames n = some hostnameList)
    (hostname : Hostname) :
    hostnameList.count hostname ≤ ranksPerNode * hostnames.count hostname := by
  induction hostnames generalizing n hostnameList with
  | nil =>
    rw [buildContiguousHostnameList] at h
    split at h
    · obtain rfl := Option.some.inj h
      exact Nat.zero_le _
    · cases h
  | cons first hostnames ih =>
    -- the ranks on the first node of the list
    have hfirst : (List.replicate (min ranksPerNode n) first).count hostname ≤
        ranksPerNode * if first == hostname then 1 else 0 := by
      rw [List.count_replicate]
      split
      · rw [mul_one]
        exact min_le_left _ _
      · exact Nat.zero_le _
    rw [buildContiguousHostnameList] at h
    rw [List.count_cons, mul_add]
    split at h
    · obtain rfl := Option.some.inj h
      exact hfirst.trans (Nat.le_add_left _ _)
    · obtain ⟨rest, hrest, rfl⟩ := Option.map_eq_some_iff.mp h
      rw [List.count_append, add_comm]
      exact Nat.add_le_add (ih hrest) hfirst

/-! ## Requests and grants -/

/-- The nodes that a job is given fit it. -/
structure GrantFits (physicalCoresPerNode : ℕ) (taskCore : TaskCore (PyVal V))
    (hostnames : List Hostname) : Prop where
  explicit : ∀ hostname ∈ explicitHosts taskCore, hostname ∈ hostnames
  enough : numNodes physicalCoresPerNode taskCore ≤ hostnames.length
  /-- `_build_contiguous_hostname_list` raises for no nodes. -/
  ne_nil : hostnames ≠ []
  /-- `_submit_mnj_task` does not raise, and assigns the ranks. -/
  ranks : ∃ hostnameList,
    buildContiguousHostnameList physicalCoresPerNode hostnames (numProcs taskCore) =
        some hostnameList ∧
      hostnameList.length = numProcs taskCore ∧
      ∀ hostname, hostnameList.count hostname ≤ physicalCoresPerNode

/-- The request of a job is recorded, and whenever it is met its nodes fit the job.  It is met at
once, and the job submitted with these nodes, or it waits under the new handle with the job. -/
structure RequestServed (m m' : Manager V) (ref : TaskRef) (taskCore : TaskCore (PyVal V))
    (request : PendingAllocInfo) : Prop where
  fits : ∀ free hostnames rest, free.Nodup →
    tryAllocateRequest free request = some (hostnames, rest) →
    GrantFits m.physicalCoresPerNode taskCore hostnames
  granted : ∀ hostnames rest,
    tryAllocateRequest m.nodes.availableNodes request = some (hostnames, rest) →
    m'.nodes.availableNodes = rest ∧ m'.nodes.mnjRunning.lookup ref.tuid = some hostnames ∧
      m'.mnjClientIds.lookup ref.tuid = some taskCore.clientId ∧
      m'.poolLaunchArgsList = m.poolLaunchArgsList ++ [ref]
  waits : tryAllocateRequest m.nodes.availableNodes request = none →
    m'.nodes.availableNodes = m.nodes.availableNodes ∧
      m'.nodes.pendingAllocRequests.lookup m.nodes.allocHandleCtr = some request ∧
      m'.nodes.pendingMnjTasks.lookup m.nodes.allocHandleCtr = some (ref, taskCore.clientId)

/-- **Placement of a multi-node job.**  Its request does not raise and is served; if it does
raise, the counts and the nodes are as they were. -/
structure PlacesJob (m : Manager V) (ref : TaskRef) (taskCore : TaskCore (PyVal V)) : Prop where
  succeeds : requestMnjError taskCore = .ok ()
  served : ∃ request, RequestServed m (m.requestMnjAlloc ref taskCore) ref taskCore request
  undone : requestMnjError taskCore ≠ .ok () →
    (m.requestMnjAlloc ref taskCore).mnjPendingCounts = m.mnjPendingCounts ∧
      (m.requestMnjAlloc ref taskCore).nodes = m.nodes

/-- When a request for any nodes is met, and with which nodes. -/
theorem tryAllocate_eq_some {rest : List Hostname}
    (h : tryAllocateRequest free ⟨none, n, priorityWeight⟩ = some (hostnames, rest)) :
    n ≤ free.length ∧ hostnames = free.take n ∧ rest = free.drop n := by
  change claimContiguousNodes free n = _ at h
  rw [claimContiguousNodes] at h
  split at h
  next => cases h
  next henough =>
    obtain ⟨hhostnames, hrest⟩ := Prod.mk.inj (Option.some.inj h)
    exact ⟨not_lt.mp henough, hhostnames.symm, hrest.symm⟩

theorem tryAllocate_eq_none (h : tryAllocateRequest free ⟨none, n, priorityWeight⟩ = none) :
    free.length < n := by
  change claimContiguousNodes free n = _ at h
  rw [claimContiguousNodes] at h
  split at h
  next hfew => exact hfew
  next => cases h

theorem explicitHosts_of_plain (hnames : requestsHostnames taskCore = false) :
    explicitHosts taskCore = [] := by
  rw [requestsHostnames] at hnames
  rw [explicitHosts]
  cases hkind : taskCore.kind with
  | function => rfl
  | job =>
    rw [hkind] at hnames
    refine List.filterMap_eq_nil_iff.mpr fun policy hpolicy => ?_
    have hother := List.any_eq_false.mp hnames policy hpolicy
    rw [decide_eq_true_iff, not_not] at hother
    rw [hother]

/-- Whatever nodes are free when the request of a job without explicit placements is met, the
nodes fit the job. -/
theorem fits_of_plain {physicalCoresPerNode : ℕ} (hcores : 0 < physicalCoresPerNode)
    (hprocs : 0 < numProcs taskCore) (hnames : requestsHostnames taskCore = false)
    {rest : List Hostname} (hfree : free.Nodup)
    (hgrant : tryAllocateRequest free ⟨none, numNodes physicalCoresPerNode taskCore,
      priorityWeight⟩ = some (hostnames, rest)) :
    GrantFits physicalCoresPerNode taskCore hostnames := by
  obtain ⟨henough, rfl, rfl⟩ := tryAllocate_eq_some hgrant
  have hlength := List.length_take_of_le henough
  obtain ⟨hostnameList, hbuild⟩ := Ledger.exists_hostnameList hcores taskCore hlength
  have hnodes : 0 < numNodes physicalCoresPerNode taskCore := by
    rw [numNodes]
    exact Nat.div_pos (by omega) hcores
  refine ⟨?_, hlength.ge, ?_, hostnameList, hbuild, length_of_build hbuild, ?_⟩
  · rw [explicitHosts_of_plain hnames]
    exact fun hostname hmem => absurd hmem List.not_mem_nil
  · exact List.ne_nil_of_length_pos (hlength.symm ▸ hnodes)
  · intro hostname
    calc hostnameList.count hostname
        ≤ physicalCoresPerNode * (free.take _).count hostname := count_le_of_build hbuild hostname
      _ ≤ physicalCoresPerNode * 1 := by
          apply Nat.mul_le_mul_left
          exact List.nodup_iff_count_le_one.mp (hfree.sublist (List.take_sublist _ _)) hostname
      _ = physicalCoresPerNode := mul_one _

/-- The request of a job without explicit placements is served. -/
theorem served_of_plain {m : Manager V} (hcores : 0 < m.physicalCoresPerNode)
    (hfresh : m.nodes.Fresh) (ref : TaskRef) (hprocs : 0 < numProcs taskCore)
    (hnames : requestsHostnames taskCore = false) :
    RequestServed m (m.requestMnjAlloc ref taskCore) ref taskCore
      ⟨none, numNodes m.physicalCoresPerNode taskCore, taskCore.weight⟩ where
  fits free hostnames rest hfree hgrant := fits_of_plain hcores hprocs hnames hfree hgrant
  granted hostnames rest hgrant := by
    obtain ⟨henough, rfl, rfl⟩ := tryAllocate_eq_some hgrant
    obtain ⟨hostnameList, hbuild⟩ := Ledger.exists_hostnameList hcores taskCore
      (List.length_take_of_le henough)
    obtain ⟨_, _, _, _, _, hsubmit⟩ := submitMnjTask_eq
      { m with
        mnjPendingCounts := increase m.mnjPendingCounts taskCore.clientId 1
        nodes := grantedNodes m.nodes (numNodes m.physicalCoresPerNode taskCore) }
      ref taskCore taskCore.clientId hbuild
    rw [requestMnjAlloc_granted hnames henough, hsubmit]
    exact ⟨rfl, AList.lookup_insert _, AList.lookup_insert _, rfl⟩
  waits hwaits := by
    rw [requestMnjAlloc_waits hnames (tryAllocate_eq_none hwaits) (hfresh.allocHandles _ le_rfl)]
    exact ⟨rfl, AList.lookup_insert _, AList.lookup_insert _⟩

theorem numProcs_pos {physicalCoresPerNode : ℕ}
    (hmnj : isMultiNodeJob taskCore physicalCoresPerNode = true) : 0 < numProcs taskCore := by
  rw [isMultiNodeJob] at hmnj
  rw [numProcs]
  cases hkind : taskCore.kind with
  | function =>
    rw [hkind] at hmnj
    cases hmnj
  | job =>
    rw [hkind] at hmnj
    exact Nat.zero_lt_of_lt (of_decide_eq_true hmnj)

/-! ## The scheduler -/

/-- The scheduler after some of the work of its handlers and of its main loop: each piece of it
is done with what the results dictionary has at that time. -/
def schedulerAfter (config : Config) (duties : List ((Tuid → Option (PyVal V × Bool)) × Duty V)) :
    Manager V :=
  duties.foldl (fun m duty => (m.exec duty.1 duty.2).1) (config.manager .scheduler)

theorem schedulerAfter_kept (config : Config)
    (duties : List ((Tuid → Option (PyVal V × Bool)) × Duty V)) :
    (schedulerAfter config duties).nodes.Fresh ∧
      (schedulerAfter config duties).physicalCoresPerNode = config.physicalCoresPerNode := by
  apply List.foldlRecOn (motive := fun m : Manager V =>
    m.nodes.Fresh ∧ m.physicalCoresPerNode = config.physicalCoresPerNode)
  · exact ⟨⟨fun _ _ => rfl, fun _ _ => rfl, fun _ _ => rfl, fun _ _ => rfl⟩, rfl⟩
  · intro m hm duty _
    have hsite := (exec_frame duty.1 m duty.2).site
    have hcores : (m.exec duty.1 duty.2).1.physicalCoresPerNode = m.physicalCoresPerNode :=
      congrArg Site.physicalCoresPerNode hsite
    exact ⟨exec_fresh duty.1 duty.2 hm.1, hcores.trans hm.2⟩

/-- **Placement of multi-node jobs.**  Whatever the scheduler has done before, a multi-node job is
placed exactly when none of its templates has a `HOST_NAME` placement. -/
theorem placesJob_iff (config : Config)
    (duties : List ((Tuid → Option (PyVal V × Bool)) × Duty V)) (ref : TaskRef)
    (taskCore : TaskCore (PyVal V))
    (hmnj : isMultiNodeJob taskCore config.physicalCoresPerNode = true) :
    PlacesJob (schedulerAfter config duties) ref taskCore ↔ requestsHostnames taskCore = false := by
  obtain ⟨hfresh, hcores⟩ := schedulerAfter_kept config duties
  constructor
  · intro h
    exact (requestMnjError_eq_ok_iff taskCore).mp h.succeeds
  · intro hnames
    have hok := (requestMnjError_eq_ok_iff taskCore).mpr hnames
    have hprocs : 0 < numProcs taskCore := numProcs_pos hmnj
    refine ⟨hok, ⟨_, served_of_plain ?_ hfresh ref hprocs hnames⟩, fun hraises => absurd hok hraises⟩
    rw [hcores]
    exact config.cores_pos

end Manager

/-! ### A job of two processes on two nodes -/

/-- Two nodes with a core each. -/
def twoNodes : Config where
  hostnames := [0, 1]
  nodup := by decide
  ne_nil := by decide
  physicalCoresPerNode := 1
  cores_pos := by decide
  managedLifecycle := false
  clients := {0}

/-- A job of two processes. -/
def pairJob (policies : List TemplatePolicy) : TaskCore (PyVal Unit) where
  tuid := ⟨0, 0⟩
  clientId := 0
  kind := .job 2 true policies
  argLists := []
  managerIdx := some .scheduler
  compiledTuid := some ⟨0, 0⟩
  downstreamRoutes := []
  upstreamRoutes := []
  dependencies := []
  numDepSat := 0
  numDepTot := 0
  weight := 1
  heftTopoOrder := 0
  isCancelled := .none
  cancelSourceTuid := none
  cachedQueue := none
  hostnameList := none

theorem Manager.placesJob_pair :
    PlacesJob (schedulerAfter twoNodes []) ⟨⟨0, 0⟩, ⟨0, 0⟩⟩ (pairJob [.other]) :=
  (placesJob_iff twoNodes [] ⟨⟨0, 0⟩, ⟨0, 0⟩⟩ (pairJob [.other]) (by decide)).mpr (by decide)

/-- A job with a process on each of the two nodes is not placed. -/
theorem Manager.not_placesJob_named :
    ¬ PlacesJob (schedulerAfter twoNodes []) ⟨⟨0, 0⟩, ⟨0, 0⟩⟩
      (pairJob [.hostName (some 0), .hostName (some 1)]) := by
  intro h
  have hraises : requestMnjError (pairJob [.hostName (some 0), .hostName (some 1)]) =
      .error .noAllNodeHostnames := rfl
  rw [h.succeeds] at hraises
  cases hraises

end Batch
