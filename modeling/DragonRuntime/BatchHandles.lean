/-
# Allocation handles

Handles are handed out in order, so a new handle is in none of the scheduler's tables
(`NodeState.Fresh`), whatever a duty does (`exec_fresh`).
-/
import DragonRuntime.BatchTouches

namespace Batch

namespace NodeState

/-- No handle is used before it is handed out. -/
structure Fresh (nodes : NodeState) : Prop where
  allocHandles : ∀ handle, nodes.allocHandleCtr ≤ handle → nodes.allocHandles.lookup handle = none
  pendingAllocRequests : ∀ handle, nodes.allocHandleCtr ≤ handle →
    nodes.pendingAllocRequests.lookup handle = none
  subnodeAllocReplyQs : ∀ handle, nodes.allocHandleCtr ≤ handle →
    nodes.subnodeAllocReplyQs.lookup handle = none
  pendingMnjTasks : ∀ handle, nodes.allocHandleCtr ≤ handle →
    nodes.pendingMnjTasks.lookup handle = none

/-- A table in which an old handle is written. -/
theorem lookup_insert_fresh {α : Type} {table : Table ℕ α} {ctr ctr' : ℕ}
    (h : ∀ handle, ctr ≤ handle → table.lookup handle = none) (hctr : ctr ≤ ctr') {key : ℕ}
    (hkey : key < ctr') (value : α) (handle : ℕ) (hhandle : ctr' ≤ handle) :
    (table.insert key value).lookup handle = none := by
  rw [AList.lookup_insert_ne (by omega)]
  exact h handle (hctr.trans hhandle)

theorem lookup_erase_fresh {α : Type} {table : Table ℕ α} {ctr : ℕ}
    (h : ∀ handle, ctr ≤ handle → table.lookup handle = none) (key handle : ℕ)
    (hhandle : ctr ≤ handle) : (table.erase key).lookup handle = none := by
  by_cases hkey : handle = key
  · rw [hkey]
    exact AList.lookup_erase key table
  · rw [AList.lookup_erase_ne hkey]
    exact h handle hhandle

variable {nodes : NodeState}

theorem Fresh.grantPending (h : nodes.Fresh) {entry : (_ : ℕ) × PendingAllocInfo}
    (hentry : entry.1 < nodes.allocHandleCtr) :
    (nodes.grantPending entry).Fresh ∧
      (nodes.grantPending entry).allocHandleCtr = nodes.allocHandleCtr := by
  rw [NodeState.grantPending]
  split
  · refine ⟨⟨?_, ?_, h.subnodeAllocReplyQs, h.pendingMnjTasks⟩, rfl⟩
    · exact lookup_insert_fresh h.allocHandles le_rfl hentry _
    · exact lookup_erase_fresh h.pendingAllocRequests _
  · exact ⟨h, rfl⟩

theorem Fresh.freeNodes (h : nodes.Fresh) (hostnames : List Hostname) :
    (nodes.freeNodes hostnames).Fresh := by
  have hfold : ∀ (entries : List ((_ : ℕ) × PendingAllocInfo)) (nodes : NodeState), nodes.Fresh →
      (∀ entry ∈ entries, entry.1 < nodes.allocHandleCtr) →
      (entries.foldl NodeState.grantPending nodes).Fresh := by
    intro entries
    induction entries with
    | nil => intro nodes h _; exact h
    | cons entry entries ih =>
      intro nodes h hentries
      obtain ⟨hgrant, hctr⟩ := h.grantPending (hentries entry List.mem_cons_self)
      apply ih _ hgrant
      intro other hother
      rw [hctr]
      exact hentries other (List.mem_cons_of_mem _ hother)
  apply hfold
  · exact ⟨h.allocHandles, h.pendingAllocRequests, h.subnodeAllocReplyQs, h.pendingMnjTasks⟩
  · intro entry hentry
    have hmem : entry ∈ nodes.pendingAllocRequests.entries :=
      (List.perm_insertionSort _ _).mem_iff.mp hentry
    by_contra hlt
    have hnone := h.pendingAllocRequests entry.1 (not_lt.mp hlt)
    rw [AList.mem_lookup_iff.mpr hmem] at hnone
    cases hnone

theorem Fresh.requestNodes (h : nodes.Fresh) (numNodes : ℕ) (hostnames : Option (List Hostname))
    (priorityWeight : ℕ) :
    (nodes.requestNodes numNodes hostnames priorityWeight).1.Fresh ∧
      (nodes.requestNodes numNodes hostnames priorityWeight).1.allocHandleCtr =
        nodes.allocHandleCtr + 1 ∧
      (nodes.requestNodes numNodes hostnames priorityWeight).2 = nodes.allocHandleCtr := by
  have hold : ∀ {α : Type} {table : Table ℕ α},
      (∀ handle, nodes.allocHandleCtr ≤ handle → table.lookup handle = none) →
      ∀ handle, nodes.allocHandleCtr + 1 ≤ handle → table.lookup handle = none := by
    intro α table htable handle hhandle
    exact htable handle ((Nat.le_succ _).trans hhandle)
  rw [NodeState.requestNodes]
  split
  · refine ⟨⟨?_, hold h.pendingAllocRequests, hold h.subnodeAllocReplyQs, hold h.pendingMnjTasks⟩,
      rfl, rfl⟩
    exact lookup_insert_fresh h.allocHandles (Nat.le_succ _) (Nat.lt_succ_self _) _
  · refine ⟨⟨hold h.allocHandles, ?_, hold h.subnodeAllocReplyQs, hold h.pendingMnjTasks⟩, rfl, rfl⟩
    exact lookup_insert_fresh h.pendingAllocRequests (Nat.le_succ _) (Nat.lt_succ_self _) _

end NodeState

namespace Manager

variable {V : Type}

/-! ## New handles -/

variable {m : Manager V}

theorem submitMnjTask_fresh (h : m.nodes.Fresh) (ref : TaskRef) (taskCore : TaskCore (PyVal V))
    (clientId : ℕ) (hostnames : List Hostname) :
    (m.submitMnjTask ref taskCore clientId hostnames).nodes.Fresh := by
  rcases hbuild : buildContiguousHostnameList m.physicalCoresPerNode hostnames
    (numProcs taskCore) with _ | hostnameList
  · rw [submitMnjTask, hbuild]
    exact h
  · obtain ⟨_, _, _, _, _, heq⟩ := m.submitMnjTask_eq ref taskCore clientId hbuild
    rw [heq]
    exact ⟨h.allocHandles, h.pendingAllocRequests, h.subnodeAllocReplyQs, h.pendingMnjTasks⟩

theorem requestMnjAlloc_fresh (h : m.nodes.Fresh) (ref : TaskRef) (taskCore : TaskCore (PyVal V)) :
    (m.requestMnjAlloc ref taskCore).nodes.Fresh := by
  have hrequest := h.requestNodes (numNodes m.physicalCoresPerNode taskCore) none taskCore.weight
  rw [requestMnjAlloc]
  split
  · exact h
  · simp only []
    split
    · exact submitMnjTask_fresh hrequest.1 ref taskCore _ _
    · refine ⟨hrequest.1.allocHandles, hrequest.1.pendingAllocRequests,
        hrequest.1.subnodeAllocReplyQs, ?_⟩
      apply NodeState.lookup_insert_fresh hrequest.1.pendingMnjTasks le_rfl
      rw [hrequest.2.1, hrequest.2.2]
      exact Nat.lt_succ_self _

theorem handleSubnodeAllocRequest_fresh (h : m.nodes.Fresh) (managerIdx : ℕ)
    (hostnames : List Hostname) (priorityWeight : ℕ) :
    (m.handleSubnodeAllocRequest managerIdx hostnames priorityWeight).nodes.Fresh := by
  have hrequest := h.requestNodes 0 (some hostnames) priorityWeight
  rw [handleSubnodeAllocRequest]
  split
  · exact ⟨hrequest.1.allocHandles, hrequest.1.pendingAllocRequests,
      hrequest.1.subnodeAllocReplyQs, hrequest.1.pendingMnjTasks⟩
  · refine ⟨hrequest.1.allocHandles, hrequest.1.pendingAllocRequests, ?_,
      hrequest.1.pendingMnjTasks⟩
    apply NodeState.lookup_insert_fresh hrequest.1.subnodeAllocReplyQs le_rfl
    rw [hrequest.2.1, hrequest.2.2]
    exact Nat.lt_succ_self _

theorem freeSubnode_fresh (h : m.nodes.Fresh) (managerIdx : ℕ) :
    (m.freeSubnode managerIdx).nodes.Fresh := by
  rw [freeSubnode]
  split
  · apply NodeState.Fresh.freeNodes
    exact ⟨NodeState.lookup_erase_fresh h.allocHandles _, h.pendingAllocRequests,
      h.subnodeAllocReplyQs, h.pendingMnjTasks⟩
  · exact h

theorem freeMnj_fresh (h : m.nodes.Fresh) (tuid : Tuid) : (m.freeMnj tuid).nodes.Fresh := by
  have hfree := h.freeNodes ((m.nodes.mnjRunning.lookup tuid).getD [])
  exact ⟨hfree.allocHandles, hfree.pendingAllocRequests, hfree.subnodeAllocReplyQs,
    hfree.pendingMnjTasks⟩

theorem processAllocCompletion_fresh (h : m.nodes.Fresh) (entry : ℕ × List Hostname) :
    (m.processAllocCompletion entry).nodes.Fresh := by
  rw [processAllocCompletion]
  split
  · exact ⟨h.allocHandles, h.pendingAllocRequests,
      NodeState.lookup_erase_fresh h.subnodeAllocReplyQs _, h.pendingMnjTasks⟩
  · split
    next ref clientId _ =>
      have herase : ({ m.nodes with
          pendingMnjTasks := m.nodes.pendingMnjTasks.erase entry.1 } : NodeState).Fresh :=
        ⟨h.allocHandles, h.pendingAllocRequests, h.subnodeAllocReplyQs,
          NodeState.lookup_erase_fresh h.pendingMnjTasks _⟩
      simp only []
      split
      · exact submitMnjTask_fresh herase ref _ clientId _
      · exact herase
    next => exact h

/-- A duty uses no handle before it is handed out. -/
theorem exec_fresh (results : Tuid → Option (PyVal V × Bool)) (duty : Duty V) (h : m.nodes.Fresh) :
    (m.exec results duty).1.nodes.Fresh := by
  -- most duties leave the nodes alone
  have hframe : duty.parts.contains .nodes = false → (m.exec results duty).1.nodes.Fresh := by
    intro hparts
    rw [(exec_frame results m duty).nodes hparts]
    exact h
  cases duty with
  | request msg =>
    cases msg with
    | subnodeAllocRequest managerIdx hostnames priorityWeight =>
      change (if m.isScheduler = true then _ else m : Manager V).nodes.Fresh
      split
      · exact handleSubnodeAllocRequest_fresh h managerIdx hostnames priorityWeight
      · exact h
    | subnodeFreeRequest managerIdx =>
      change ((if m.isScheduler = true then _ else (m, []) :
        Manager V × List (Duty V)).1).nodes.Fresh
      split
      · exact freeSubnode_fresh h managerIdx
      · exact h
    | _ => exact hframe rfl
  | enqueue ref taskCore =>
    change (m.enqueueReadyTask ref taskCore).nodes.Fresh
    rw [enqueueReadyTask]
    split
    · split
      · exact requestMnjAlloc_fresh h ref taskCore
      · exact h
    · exact h
  | allocCompletions =>
    exact ⟨h.allocHandles, h.pendingAllocRequests, h.subnodeAllocReplyQs, h.pendingMnjTasks⟩
  | allocCompletion entry => exact processAllocCompletion_fresh h entry
  | mnjComplete tuid =>
    change (m.execMnjComplete tuid).1.nodes.Fresh
    rw [execMnjComplete]
    split
    · exact freeMnj_fresh h tuid
    · exact freeMnj_fresh h tuid
  | _ => exact hframe rfl

end Manager

end Batch
