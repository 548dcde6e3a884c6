/-
# Jobs with PMI ranks (`PMIJobHelper` of `src/dragon/globalservices/group_int.py`)

The items of a group come with one layout for each process.  The processes of some items are the
ranks of a job: `get_nid_and_host_data` goes through items and layouts and records the node of each
rank, and `get_host_id_from_index` goes through them again for each rank that `__next__` returns.
On each of its hosts a job gets a range of process ids, which `cleanup` gives back.

Conventions:

* a host is its `h_uid`, and `node_table` has the `g_idx` of each host of a layout;
* a dictionary is the list of its entries, in the order in which the keys came;
* an item is a template for processes, or for channels or pools, which have no field `pmi`;
* log messages and `control_port` are left out.
-/
import DragonRuntime.FirstFit
import DragonRuntime.InsertionDict
import DragonRuntime.PolicyEvaluator

namespace Pmi

open FirstFit InsertionDict
open Placement (ResourceLayout)

/-- `PMIBackend` -/
inductive PMIBackend : Type where
  | CRAY | PMIX
  deriving DecidableEq

inductive Template : Type where
  /-- `GSProcessCreate` -/
  | process (pmi : Option PMIBackend)
  /-- `GSChannelCreate` or `GSPoolCreate` -/
  | other
  deriving DecidableEq

structure Item where
  count : ℕ
  template : Template
  deriving DecidableEq

inductive Raised : Type where
  /-- no field `pmi` -/
  | AttributeError
  /-- no layout -/
  | IndexError
  /-- no such host -/
  | KeyError
  /-- no such range -/
  | ValueError
  deriving DecidableEq

/-- The processes of the item are ranks. -/
def Item.isPmi (item : Item) : Bool :=
  match item.template with
  | .process (some _) => true
  | _ => false

/-- The loop for the backend in `__init__`. -/
def findBackend : List Item → Except Raised (Option PMIBackend)
  | [] => .ok none
  | item :: items =>
    match item.template with
    | .other => .error .AttributeError
    | .process (some backend) => .ok (some backend)
    | .process none => findBackend items

/-- `get_nranks` -/
def get_nranks : List Item → ℕ
  | [] => 0
  | item :: items => (if item.isPmi then item.count else 0) + get_nranks items

/-- The variables of `get_nid_and_host_data`. -/
structure RankMaps where
  layout_index : ℕ
  nid_map : List (ℕ × ℕ)
  host_map : List (ℕ × String)
  ppn_map : List (ℤ × ℕ)
  lrank_list : List ℕ
  pmod_nid : ℕ
  starting_rank : ℕ
  running_rank : ℕ
  deriving DecidableEq

def RankMaps.init : RankMaps where
  layout_index := 0
  nid_map := []
  host_map := []
  ppn_map := []
  lrank_list := []
  pmod_nid := 0
  starting_rank := 0
  running_rank := 0

section

variable (backend : Option PMIBackend) (layout_list : List ResourceLayout) (node_table : ℤ → ℕ)

/-- The node of a host, in `nid_map`. -/
def nodeId (hosts : List ℤ) (h_uid : ℤ) : Option ℕ :=
  match backend with
  | some .CRAY => some (hosts.idxOf h_uid)
  | some .PMIX => some (node_table h_uid)
  | none => none

/-- A host that has no rank yet is added to `host_map`. -/
def RankMaps.addHost (s : RankMaps) (layout : ResourceLayout) : RankMaps :=
  match backend with
  | some .CRAY =>
    { s with
      host_map := set s.pmod_nid layout.host_name s.host_map
      pmod_nid := s.pmod_nid + 1 }
  | some .PMIX =>
    { s with host_map := set (node_table layout.h_uid) layout.host_name s.host_map }
  | none => s

/-- The body of the loop over the ranks of an item. -/
def RankMaps.placeRank (s : RankMaps) (rank : ℕ) : Except Raised RankMaps :=
  match layout_list[s.layout_index]? with
  | none => .error .IndexError
  | some layout =>
    let running_rank := rank + s.starting_rank
    let lrank := (s.ppn_map.lookup layout.h_uid).getD 0
    let s' := if layout.h_uid ∈ keys s.ppn_map then s else s.addHost backend node_table layout
    let ppn_map := set layout.h_uid (lrank + 1) s.ppn_map
    .ok {
      s' with
      running_rank := running_rank
      lrank_list := s.lrank_list ++ [lrank]
      ppn_map := ppn_map
      nid_map :=
        match nodeId backend node_table (keys ppn_map) layout.h_uid with
        | some nid => set running_rank nid s.nid_map
        | none => s.nid_map
      layout_index := s.layout_index + 1 }

/-- The loop over the ranks of an item. -/
def RankMaps.placeRanks (s : RankMaps) (rank : ℕ) : ℕ → Except Raised RankMaps
  | 0 => .ok s
  | count + 1 =>
    match s.placeRank backend layout_list node_table rank with
    | .error e => .error e
    | .ok s => s.placeRanks (rank + 1) count

/-- The body of the loop over the items. -/
def RankMaps.placeItem (s : RankMaps) (item : Item) : Except Raised RankMaps :=
  if item.isPmi then
    match s.placeRanks backend layout_list node_table 0 item.count with
    | .error e => .error e
    | .ok s => .ok { s with starting_rank := s.running_rank + 1 }
  else
    .ok {
      s with
      layout_index := s.layout_index + item.count
      starting_rank := s.running_rank + 1 }

/-- `get_nid_and_host_data`, from the item that has been reached. -/
def RankMaps.placeItems (s : RankMaps) : List Item → Except Raised RankMaps
  | [] => .ok s
  | item :: items =>
    match s.placeItem backend layout_list node_table item with
    | .error e => .error e
    | .ok s => s.placeItems items

end

/-- `get_host_id_from_index`, from the item that has been reached; after the last item it returns no
host. -/
def get_host_id_from_index (layout_list : List ResourceLayout) :
    List Item → ℕ → ℕ → Except Raised (Option ℤ)
  | [], _, _ => .ok none
  | item :: items, layout_index, rank =>
    if item.isPmi then
      if item.count ≤ rank then
        get_host_id_from_index layout_list items (layout_index + item.count) (rank - item.count)
      else
        match layout_list[layout_index + rank]? with
        | none => .error .IndexError
        | some layout => .ok (some layout.h_uid)
    else get_host_id_from_index layout_list items (layout_index + item.count) rank

/-! ## Process ids -/

/-- The class state of `PMIJobHelper`. -/
structure PmiState where
  NEXT_PMI_JOB_ID : ℕ
  PMI_PID_DICT : List (ℤ × List Range)
  deriving DecidableEq

def PmiState.init : PmiState where
  NEXT_PMI_JOB_ID := 1
  PMI_PID_DICT := []

def min_pid : ℤ := 1

def max_pid : ℤ := 510

/-- The ranges of a host. -/
def ranges (dict : List (ℤ × List Range)) (hostname : ℤ) : List Range :=
  (dict.lookup hostname).getD []

/-- `allocate_pmi_pid_base` -/
def allocate_pmi_pid_base (dict : List (ℤ × List Range)) (hostname : ℤ) (lranks : ℕ) :
    ℤ × List (ℤ × List Range) :=
  let allocated_bases := ranges dict hostname
  if allocated_bases = [] then (min_pid, set hostname [(min_pid, lranks)] dict)
  else
    match search lranks (max_pid + 1) min_pid allocated_bases with
    | some prev_end =>
      (prev_end, set hostname (sort (allocated_bases ++ [(prev_end, lranks)])) dict)
    | none => (-1, set hostname allocated_bases dict)

/-- `free_pmi_pid_base` -/
def free_pmi_pid_base (dict : List (ℤ × List Range)) (hostname base : ℤ) (size : ℕ) :
    Except Raised Unit × List (ℤ × List Range) :=
  match dict.lookup hostname with
  | none => (.error .KeyError, dict)
  | some allocated_bases =>
    if (base, size) ∈ allocated_bases then
      (.ok (), set hostname (allocated_bases.erase (base, size)) dict)
    else (.error .ValueError, dict)

/-! ## Jobs -/

structure PMIJobHelper where
  index : ℕ
  items : List Item
  layout_list : List ResourceLayout
  backend : Option PMIBackend
  job_id : ℕ
  nranks : ℕ
  nid_map : List (ℕ × ℕ)
  host_map : List (ℕ × String)
  ppn_map : List (ℤ × ℕ)
  lrank_list : List ℕ
  pid_base_map : List (ℤ × ℤ)
  deriving DecidableEq

/-- The loop for the process ids in `__init__`. -/
def allocateAll (dict : List (ℤ × List Range)) (pid_base_map : List (ℤ × ℤ)) :
    List (ℤ × ℕ) → List (ℤ × ℤ) × List (ℤ × List Range)
  | [] => (pid_base_map, dict)
  | (h_uid, lranks) :: ppn_map =>
    let (base, dict) := allocate_pmi_pid_base dict h_uid lranks
    allocateAll dict (set h_uid base pid_base_map) ppn_map

/-- `PMIJobHelper(items, layout_list, node_table)` -/
def PMIJobHelper.construct (node_table : ℤ → ℕ) (s : PmiState) (items : List Item)
    (layout_list : List ResourceLayout) : Except Raised PMIJobHelper × PmiState :=
  match findBackend items with
  | .error e => (.error e, s)
  | .ok backend =>
    let s' := { s with NEXT_PMI_JOB_ID := s.NEXT_PMI_JOB_ID + 1 }
    match RankMaps.init.placeItems backend layout_list node_table items with
    | .error e => (.error e, s')
    | .ok maps =>
      let (pid_base_map, dict) := allocateAll s.PMI_PID_DICT [] maps.ppn_map
      (.ok {
        index := 0
        items := items
        layout_list := layout_list
        backend := backend
        job_id := s.NEXT_PMI_JOB_ID
        nranks := get_nranks items
        nid_map := maps.nid_map
        host_map := maps.host_map
        ppn_map := maps.ppn_map
        lrank_list := maps.lrank_list
        pid_base_map := pid_base_map },
      { s' with PMI_PID_DICT := dict })

/-- The loop of `cleanup`, which ends where it raises. -/
def freeAll (pid_base_map : List (ℤ × ℤ)) (dict : List (ℤ × List Range)) :
    List (ℤ × ℕ) → Except Raised Unit × List (ℤ × List Range)
  | [] => (.ok (), dict)
  | (host_id, count) :: ppn_map =>
    match pid_base_map.lookup host_id with
    | none => (.error .KeyError, dict)
    | some base =>
      match free_pmi_pid_base dict host_id base count with
      | (.error e, dict) => (.error e, dict)
      | (.ok (), dict) => freeAll pid_base_map dict ppn_map

/-- `cleanup` -/
def PMIJobHelper.cleanup (job : PMIJobHelper) (s : PmiState) : Except Raised Unit × PmiState :=
  let (result, dict) := freeAll job.pid_base_map s.PMI_PID_DICT job.ppn_map
  (result, { s with PMI_PID_DICT := dict })

/-- `pmi_h_uid_list` -/
def PMIJobHelper.pmi_h_uid_list (job : PMIJobHelper) : List ℤ := keys job.ppn_map

structure PMIProcessInfo where
  lrank : ℕ
  ppn : ℕ
  nid : ℕ
  pmix_nid : ℕ
  pid_base : ℤ
  deriving DecidableEq

/-- `__next__`, without a result when it raises `StopIteration`. -/
def PMIJobHelper.next (node_table : ℤ → ℕ) (job : PMIJobHelper) :
    Except Raised (Option PMIProcessInfo) × PMIJobHelper :=
  if job.index < job.nranks then
    match job.lrank_list[job.index]? with
    | none => (.error .IndexError, job)
    | some lrank =>
      match get_host_id_from_index job.layout_list job.items 0 job.index with
      | .error e => (.error e, job)
      | .ok none => (.error .KeyError, job)
      | .ok (some h_uid) =>
        match job.ppn_map.lookup h_uid, job.pid_base_map.lookup h_uid with
        | some ppn, some pid_base =>
          (.ok (some {
            lrank := lrank
            ppn := ppn
            nid := job.pmi_h_uid_list.idxOf h_uid
            pmix_nid := node_table h_uid
            pid_base := pid_base }),
          { job with index := job.index + 1 })
        | _, _ => (.error .KeyError, job)
  else (.ok none, job)

/-! ## The hosts of the ranks -/

/-- The hosts on which the layouts place the ranks. -/
def rankHosts : List Item → List ResourceLayout → List ℤ
  | [], _ => []
  | item :: items, layouts =>
    (if item.isPmi then (layouts.take item.count).map (·.h_uid) else []) ++
      rankHosts items (layouts.drop item.count)

/-- The number of processes, which is the number of layouts. -/
def processes (items : List Item) : ℕ := (items.map (·.count)).sum

theorem length_rankHosts {items : List Item} {layouts : List ResourceLayout}
    (h : processes items ≤ layouts.length) : (rankHosts items layouts).length = get_nranks items := by
  induction items generalizing layouts with
  | nil => rfl
  | cons item items ih =>
    have hsum : processes (item :: items) = item.count + processes items := List.sum_cons
    unfold rankHosts get_nranks
    rw [List.length_append, ih (by rw [List.length_drop]; omega)]
    congr 1
    split
    · rw [List.length_map, List.length_take]
      omega
    · rfl

/-- A rank is found where the layouts place it. -/
theorem get_host_id_from_index_eq {layout_list : List ResourceLayout} {items : List Item}
    {layout_index rank : ℕ} (h : layout_index + processes items ≤ layout_list.length) :
    get_host_id_from_index layout_list items layout_index rank =
      .ok (rankHosts items (layout_list.drop layout_index))[rank]? := by
  induction items generalizing layout_index rank with
  | nil => rfl
  | cons item items ih =>
    have hsum : processes (item :: items) = item.count + processes items := List.sum_cons
    have hnext : ∀ rank, get_host_id_from_index layout_list items (layout_index + item.count) rank =
        .ok (rankHosts items ((layout_list.drop layout_index).drop item.count))[rank]? := by
      intro rank
      rw [ih (by omega), List.drop_drop]
    unfold get_host_id_from_index rankHosts
    split
    next hpmi =>
      have hlength : (((layout_list.drop layout_index).take item.count).map (·.h_uid)).length =
          item.count := by
        rw [List.length_map, List.length_take, List.length_drop]
        omega
      split
      next hle => rw [hnext, List.getElem?_append_right (by rw [hlength]; exact hle), hlength]
      next hlt =>
        rw [List.getElem?_append_left (by rw [hlength]; exact Nat.not_le.mp hlt),
          List.getElem?_map, List.getElem?_take_of_lt (Nat.not_le.mp hlt), List.getElem?_drop]
        rw [List.getElem?_eq_getElem (by omega)]
        rfl
    next => rw [hnext, List.nil_append]

end Pmi
