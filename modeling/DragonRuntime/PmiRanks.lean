/-
# The rank map of a job

While `get_nid_and_host_data` goes through the layouts, its maps describe the hosts of the ranks so
far (`Ranked`), with keys from `first` on.  That is 0 only when the first item of the group has
ranks: an item that has none sets `starting_rank` to 1.
-/
import DragonRuntime.PmiJobs

namespace Pmi

open InsertionDict
open Placement (ResourceLayout)

/-- The local ranks handed out on a host, in order. -/
def lranksOn (hosts : List ℤ) (lrank_list : List ℕ) (h_uid : ℤ) : List ℕ :=
  ((hosts.zip lrank_list).filter (·.1 = h_uid)).map (·.2)

section

variable {backend : Option PMIBackend} {layout_list : List ResourceLayout} {node_table : ℤ → ℕ}
  {first : ℕ} {hosts : List ℤ} {s : RankMaps}

/-- The maps describe the hosts of the ranks so far. -/
structure Ranked (backend : Option PMIBackend) (node_table : ℤ → ℕ) (first : ℕ) (hosts : List ℤ)
    (s : RankMaps) : Prop where
  length : s.lrank_list.length = hosts.length
  lranks : ∀ h, lranksOn hosts s.lrank_list h = List.range (hosts.count h)
  ppn : ∀ h, s.ppn_map.lookup h = if h ∈ hosts then some (hosts.count h) else none
  nodup : (keys s.ppn_map).Nodup
  nids : ∀ r, s.nid_map.lookup r =
    if first ≤ r then (hosts[r - first]?).bind (nodeId backend node_table (keys s.ppn_map)) else none

theorem Ranked.mem_keys (h : Ranked backend node_table first hosts s) {h_uid : ℤ} :
    h_uid ∈ keys s.ppn_map ↔ h_uid ∈ hosts := by
  rw [mem_keys_iff, h.ppn]
  by_cases hmem : h_uid ∈ hosts <;> simp [hmem]

theorem Ranked.congr {s' : RankMaps} (h : Ranked backend node_table first hosts s)
    (hnid : s'.nid_map = s.nid_map) (hppn : s'.ppn_map = s.ppn_map)
    (hlrank : s'.lrank_list = s.lrank_list) : Ranked backend node_table first hosts s' where
  length := hlrank ▸ h.length
  lranks := hlrank ▸ h.lranks
  ppn := hppn ▸ h.ppn
  nodup := hppn ▸ h.nodup
  nids := by
    rw [hnid, hppn]
    exact h.nids

theorem ranked_init : Ranked backend node_table first [] RankMaps.init where
  length := rfl
  lranks _ := rfl
  ppn _ := rfl
  nodup := List.nodup_nil
  nids r := by
    show none = _
    split <;> rfl

theorem addHost_eq (s : RankMaps) (layout : ResourceLayout) :
    (s.addHost backend node_table layout).nid_map = s.nid_map ∧
      (s.addHost backend node_table layout).starting_rank = s.starting_rank := by
  unfold RankMaps.addHost
  split <;> exact ⟨rfl, rfl⟩

/-- The hosts that have a rank keep their node. -/
theorem nodeId_set {h_uid h : ℤ} {lranks : ℕ} {ppn_map : List (ℤ × ℕ)} (hmem : h ∈ keys ppn_map) :
    nodeId backend node_table (keys (set h_uid lranks ppn_map)) h =
      nodeId backend node_table (keys ppn_map) h := by
  rw [keys_set]
  split
  · rfl
  · unfold nodeId
    split
    · rw [List.idxOf_append_of_mem hmem]
    · rfl
    · rfl

theorem placeRank_ranked (h : Ranked backend node_table first hosts s) {layout : ResourceLayout}
    (hlayout : layout_list[s.layout_index]? = some layout) {rank : ℕ}
    (hrank : rank + s.starting_rank = first + hosts.length) :
    ∃ s', s.placeRank backend layout_list node_table rank = .ok s' ∧
      Ranked backend node_table first (hosts ++ [layout.h_uid]) s' ∧
      s'.layout_index = s.layout_index + 1 ∧ s'.starting_rank = s.starting_rank ∧
      s'.running_rank = rank + s.starting_rank := by
  have hlrank : (s.ppn_map.lookup layout.h_uid).getD 0 = hosts.count layout.h_uid := by
    rw [h.ppn]
    split
    · rfl
    next hnew => exact (List.count_eq_zero.mpr hnew).symm
  unfold RankMaps.placeRank
  rw [hlayout]
  simp only
  rw [hlrank]
  -- the fields that `addHost` leaves as they are
  have hsame : (if layout.h_uid ∈ keys s.ppn_map then s
      else s.addHost backend node_table layout).starting_rank = s.starting_rank := by
    split
    · rfl
    · exact (addHost_eq s layout).2
  refine ⟨_, rfl, ?_, rfl, hsame, rfl⟩
  constructor
  case length => rw [List.length_append, List.length_append, h.length]; rfl
  case lranks =>
    intro h'
    unfold lranksOn
    rw [List.zip_append h.length.symm, List.filter_append, List.map_append, List.count_append]
    have hbefore := h.lranks h'
    unfold lranksOn at hbefore
    rw [hbefore]
    by_cases heq : layout.h_uid = h'
    · subst heq
      simp [List.range_succ]
    · simp [heq]
  case ppn =>
    intro h'
    show (set layout.h_uid (hosts.count layout.h_uid + 1) s.ppn_map).lookup h' = _
    rw [lookup_set, h.ppn]
    by_cases heq : h' = layout.h_uid
    · subst heq
      simp
    · simp [heq, List.count_eq_zero.mpr]
  case nodup => exact nodup_keys_set _ _ h.nodup
  case nids =>
    intro r
    dsimp only
    have hold := h.nids r
    have hother : ∀ i, i ≠ hosts.length → ((hosts ++ [layout.h_uid])[i]?).bind (nodeId backend
        node_table (keys (set layout.h_uid (hosts.count layout.h_uid + 1) s.ppn_map))) =
          (hosts[i]?).bind (nodeId backend node_table (keys s.ppn_map)) := by
      intro i hi
      by_cases hlt : i < hosts.length
      · rw [List.getElem?_append_left hlt, List.getElem?_eq_getElem hlt]
        exact nodeId_set (h.mem_keys.mpr (List.getElem_mem hlt))
      · rw [List.getElem?_eq_none (by rw [List.length_append, List.length_singleton]; omega),
          List.getElem?_eq_none (Nat.not_lt.mp hlt)]
        rfl
    by_cases hr : r = rank + s.starting_rank
    · -- the new rank
      have hnew : r - first = hosts.length := by omega
      rw [hnew, List.getElem?_concat_length, Option.bind_some, if_pos (by omega)]
      rw [hnew, List.getElem?_eq_none (Nat.le_refl _), Option.bind_none, ite_self] at hold
      split
      next nid hnid => rw [lookup_set, if_pos hr, hnid]
      next hnid => rw [hold, hnid]
    · refine Eq.trans (b := s.nid_map.lookup r) ?_ ?_
      · split
        · rw [lookup_set, if_neg hr]
        · rfl
      · rw [hold]
        split
        next hle => rw [hother _ (by omega)]
        next => rfl

theorem placeRanks_ranked (count : ℕ) : ∀ {hosts : List ℤ} {s : RankMaps} (rank : ℕ),
    Ranked backend node_table first hosts s → s.layout_index + count ≤ layout_list.length →
    rank + s.starting_rank = first + hosts.length →
    ∃ s', s.placeRanks backend layout_list node_table rank count = .ok s' ∧
      Ranked backend node_table first
        (hosts ++ ((layout_list.drop s.layout_index).take count).map (·.h_uid)) s' ∧
      s'.layout_index = s.layout_index + count ∧
      (s'.running_rank + 1 = first + hosts.length + count ∨
        count = 0 ∧ s'.running_rank = s.running_rank) := by
  induction count with
  | zero =>
    intro hosts s _ h _ _
    refine ⟨s, rfl, ?_, rfl, .inr ⟨rfl, rfl⟩⟩
    rw [List.take_zero, List.map_nil, List.append_nil]
    exact h
  | succ count ih =>
    intro hosts s rank h hlength hrank
    have hlt : s.layout_index < layout_list.length := by omega
    obtain ⟨s₁, hplace, hranked, hindex, hstarting, hrunning⟩ :=
      placeRank_ranked h (List.getElem?_eq_getElem hlt) hrank
    obtain ⟨s', hplaces, hranked', hindex', hrunning'⟩ := ih (rank + 1) hranked (by omega)
      (by rw [List.length_append, List.length_singleton]; omega)
    refine ⟨s', ?_, ?_, by omega, .inl ?_⟩
    · unfold RankMaps.placeRanks
      rw [hplace]
      exact hplaces
    · rw [List.append_assoc, hindex] at hranked'
      rw [List.drop_eq_getElem_cons hlt, List.take_succ_cons, List.map_cons]
      exact hranked'
    · rw [List.length_append, List.length_singleton] at hrunning'
      omega

/-- The maps between two items. -/
structure AtItem (backend : Option PMIBackend) (node_table : ℤ → ℕ) (first layout_index : ℕ)
    (hosts : List ℤ) (s : RankMaps) : Prop where
  ranked : Ranked backend node_table first hosts s
  starting : s.starting_rank = first + hosts.length
  running : s.running_rank + 1 = s.starting_rank
  index : s.layout_index = layout_index

/-- The hosts of the ranks of one item. -/
def itemHosts (item : Item) (layouts : List ResourceLayout) : List ℤ :=
  if item.isPmi then (layouts.take item.count).map (·.h_uid) else []

theorem placeItem_atItem {layout_index : ℕ} {item : Item}
    (h : AtItem backend node_table first layout_index hosts s)
    (hlength : layout_index + item.count ≤ layout_list.length) :
    ∃ s', s.placeItem backend layout_list node_table item = .ok s' ∧
      AtItem backend node_table first (layout_index + item.count)
        (hosts ++ itemHosts item (layout_list.drop layout_index)) s' := by
  obtain ⟨hranked, hstarting, hrunning, rfl⟩ := h
  unfold RankMaps.placeItem itemHosts
  split
  next hpmi =>
    obtain ⟨s', hplaces, hranked', hindex, hrunning'⟩ :=
      placeRanks_ranked item.count 0 hranked hlength (by omega)
    rw [hplaces]
    have hcount : (((layout_list.drop s.layout_index).take item.count).map (·.h_uid)).length =
        item.count := by
      rw [List.length_map, List.length_take, List.length_drop]
      omega
    refine ⟨_, rfl, hranked'.congr rfl rfl rfl, ?_, rfl, hindex⟩
    show s'.running_rank + 1 = _
    rw [List.length_append, hcount]
    omega
  next =>
    rw [List.append_nil]
    refine ⟨_, rfl, hranked.congr rfl rfl rfl, ?_, rfl, rfl⟩
    show s.running_rank + 1 = _
    omega

/-- The key of the first rank. -/
def firstKey : List Item → ℕ
  | [] => 0
  | item :: _ => if item.isPmi ∧ 0 < item.count then 0 else 1

theorem placeItem_first {item : Item} (items : List Item)
    (hlength : item.count ≤ layout_list.length) :
    ∃ s', RankMaps.init.placeItem backend layout_list node_table item = .ok s' ∧
      AtItem backend node_table (firstKey (item :: items)) item.count
        (itemHosts item layout_list) s' := by
  unfold RankMaps.placeItem itemHosts
  by_cases h : item.isPmi = true ∧ 0 < item.count
  · obtain ⟨hpmi, hpos⟩ := h
    have hfirst : firstKey (item :: items) = 0 := if_pos ⟨hpmi, hpos⟩
    have hinit : Ranked backend node_table 0 [] RankMaps.init := ranked_init
    have hroom : RankMaps.init.layout_index + item.count ≤ layout_list.length := by
      show 0 + item.count ≤ layout_list.length
      omega
    obtain ⟨s', hplaces, hranked', hindex, hrunning'⟩ :=
      placeRanks_ranked item.count 0 hinit hroom rfl
    rw [hfirst, hplaces, if_pos hpmi, if_pos hpmi]
    refine ⟨_, rfl, hranked'.congr rfl rfl rfl, ?_, rfl,
      hindex.trans (Nat.zero_add _)⟩
    show s'.running_rank + 1 = _
    rw [List.length_map, List.length_take]
    have hnil : ([] : List ℤ).length = 0 := rfl
    omega
  · -- without ranks, the item leaves the maps empty and the next rank is 1
    have hfirst : firstKey (item :: items) = 1 := if_neg h
    rw [hfirst]
    split
    next hpmi =>
      have hzero : item.count = 0 := by
        by_contra hpos
        exact h ⟨hpmi, Nat.pos_of_ne_zero hpos⟩
      rw [hzero]
      exact ⟨_, rfl, ranked_init.congr rfl rfl rfl,
        rfl, rfl, rfl⟩
    next =>
      exact ⟨_, rfl, ranked_init.congr rfl rfl rfl,
        rfl, rfl, Nat.zero_add _⟩

theorem placeItems_atItem {items : List Item} : ∀ {hosts : List ℤ} {s : RankMaps}
    {layout_index : ℕ}, AtItem backend node_table first layout_index hosts s →
    layout_index + processes items ≤ layout_list.length →
    ∃ s', s.placeItems backend layout_list node_table items = .ok s' ∧
      Ranked backend node_table first
        (hosts ++ rankHosts items (layout_list.drop layout_index)) s' := by
  induction items with
  | nil =>
    intro hosts s layout_index h _
    refine ⟨s, rfl, ?_⟩
    unfold rankHosts
    rw [List.append_nil]
    exact h.ranked
  | cons item items ih =>
    intro hosts s layout_index h hlength
    have hsum : processes (item :: items) = item.count + processes items := List.sum_cons
    have hitem : layout_index + item.count ≤ layout_list.length := by omega
    obtain ⟨s₁, hplace, hat⟩ := placeItem_atItem h hitem
    obtain ⟨s', hplaces, hranked⟩ := ih hat (by omega)
    refine ⟨s', ?_, ?_⟩
    · unfold RankMaps.placeItems
      rw [hplace]
      exact hplaces
    · rw [List.append_assoc, ← List.drop_drop] at hranked
      exact hranked

theorem placeItems_ranked {items : List Item} (hlength : processes items ≤ layout_list.length) :
    ∃ s', RankMaps.init.placeItems backend layout_list node_table items = .ok s' ∧
      Ranked backend node_table (firstKey items) (rankHosts items layout_list) s' := by
  cases items with
  | nil => exact ⟨_, rfl, ranked_init⟩
  | cons item items =>
    have hsum : processes (item :: items) = item.count + processes items := List.sum_cons
    have hitem : item.count ≤ layout_list.length := by omega
    obtain ⟨s₁, hplace, hat⟩ : ∃ s', RankMaps.init.placeItem backend layout_list node_table item =
      .ok s' ∧ AtItem backend node_table (firstKey (item :: items)) item.count
        (itemHosts item layout_list) s' := placeItem_first items hitem
    have hrest : item.count + processes items ≤ layout_list.length := by omega
    obtain ⟨s', hplaces, hranked⟩ := placeItems_atItem hat hrest
    refine ⟨s', ?_, hranked⟩
    unfold RankMaps.placeItems
    rw [hplace]
    exact hplaces

end

/-! ## The job -/

/-- No item for channels or pools comes before the first item with ranks, and no item at all comes
before the first rank. -/
structure RanksFirst (items : List Item) : Prop where
  processes : ∀ item ∈ items.takeWhile (!·.isPmi), item.template ≠ .other
  first : (∀ item ∈ items, item.isPmi = true → item.count = 0) ∨
    ∃ item rest, items = item :: rest ∧ item.isPmi = true ∧ 0 < item.count

theorem findBackend_ok_iff {items : List Item} :
    (∃ backend, findBackend items = .ok backend) ↔
      ∀ item ∈ items.takeWhile (!·.isPmi), item.template ≠ .other := by
  induction items with
  | nil => exact iff_of_true ⟨none, rfl⟩ fun item h => absurd h List.not_mem_nil
  | cons item items ih =>
    obtain ⟨count, template⟩ := item
    rw [List.takeWhile_cons]
    cases template with
    | other =>
      refine iff_of_false (fun ⟨backend, h⟩ => absurd h nofun) fun h => ?_
      exact h ⟨count, .other⟩ List.mem_cons_self rfl
    | process pmi =>
      cases pmi with
      | some backend => exact iff_of_true ⟨some backend, rfl⟩ fun item h => absurd h List.not_mem_nil
      | none =>
        show (∃ backend, findBackend items = .ok backend) ↔
          ∀ item ∈ (⟨count, .process none⟩ : Item) :: items.takeWhile (!·.isPmi),
            item.template ≠ .other
        rw [ih, List.forall_mem_cons]
        exact (and_iff_right nofun).symm

theorem findBackend_none {items : List Item} (h : findBackend items = .ok none) :
    get_nranks items = 0 := by
  induction items with
  | nil => rfl
  | cons item items ih =>
    obtain ⟨count, template⟩ := item
    cases template with
    | other => exact absurd h nofun
    | process pmi =>
      cases pmi with
      | some backend => exact absurd h nofun
      | none => exact (Nat.zero_add _).trans (ih h)

theorem get_nranks_eq_zero_iff {items : List Item} :
    get_nranks items = 0 ↔ ∀ item ∈ items, item.isPmi = true → item.count = 0 := by
  induction items with
  | nil => exact iff_of_true rfl fun item h => absurd h List.not_mem_nil
  | cons item items ih =>
    show (if item.isPmi then item.count else 0) + get_nranks items = 0 ↔ _
    rw [Nat.add_eq_zero_iff, ih, List.forall_mem_cons]
    refine and_congr_left fun _ => ?_
    split
    next hpmi => exact ⟨fun h _ => h, fun h => h hpmi⟩
    next hpmi => exact iff_of_true rfl fun h => absurd h hpmi

theorem allocateAll_lookup {dict : List (ℤ × List FirstFit.Range)} {pid_base_map : List (ℤ × ℤ)}
    {ppn_map : List (ℤ × ℕ)} {h_uid : ℤ}
    (h : h_uid ∈ keys ppn_map ∨ (pid_base_map.lookup h_uid).isSome) :
    ((allocateAll dict pid_base_map ppn_map).1.lookup h_uid).isSome := by
  induction ppn_map generalizing dict pid_base_map with
  | nil => exact h.resolve_left List.not_mem_nil
  | cons entry ppn_map ih =>
    obtain ⟨h_uid', lranks⟩ := entry
    unfold allocateAll
    refine ih ?_
    rw [lookup_set]
    by_cases heq : h_uid = h_uid'
    · rw [if_pos heq]
      exact .inr rfl
    · rw [if_neg heq]
      exact h.imp_left fun hmem => (List.mem_cons.mp hmem).resolve_left heq

/-- The job that is constructed. -/
structure Constructed (node_table : ℤ → ℕ) (items : List Item) (layout_list : List ResourceLayout)
    (job : PMIJobHelper) : Prop where
  start : job.index = 0
  items_eq : job.items = items
  layouts_eq : job.layout_list = layout_list
  nranks : job.nranks = get_nranks items
  backend : findBackend items = .ok job.backend
  ranked : ∃ maps, Ranked job.backend node_table (firstKey items) (rankHosts items layout_list) maps ∧
    maps.nid_map = job.nid_map ∧ maps.ppn_map = job.ppn_map ∧ maps.lrank_list = job.lrank_list
  pids : ∀ h ∈ keys job.ppn_map, (job.pid_base_map.lookup h).isSome

theorem construct_constructed (node_table : ℤ → ℕ) (s : PmiState) {items : List Item}
    {layout_list : List ResourceLayout} {backend : Option PMIBackend}
    (hlength : processes items ≤ layout_list.length) (hbackend : findBackend items = .ok backend) :
    ∃ job s', PMIJobHelper.construct node_table s items layout_list = (.ok job, s') ∧
      Constructed node_table items layout_list job := by
  obtain ⟨maps, hmaps, hranked⟩ : ∃ maps,
    RankMaps.init.placeItems backend layout_list node_table items = .ok maps ∧
      Ranked backend node_table (firstKey items) (rankHosts items layout_list) maps :=
    placeItems_ranked hlength
  unfold PMIJobHelper.construct
  rw [hbackend]
  simp only [hmaps]
  exact ⟨_, _, rfl, rfl, rfl, rfl, rfl, hbackend, ⟨maps, hranked, rfl, rfl, rfl⟩,
    fun h hmem => allocateAll_lookup (.inl hmem)⟩

/-! ## The rank map and the iterator -/

/-- The node that a rank is told. -/
def PMIProcessInfo.node (backend : Option PMIBackend) (info : PMIProcessInfo) : Option ℕ :=
  match backend with
  | some .CRAY => some info.nid
  | some .PMIX => some info.pmix_nid
  | none => none

/-- So many results of the iterator, or fewer if it stops. -/
def PMIJobHelper.nexts (node_table : ℤ → ℕ) :
    ℕ → PMIJobHelper → Except Raised (List PMIProcessInfo) × PMIJobHelper
  | 0, job => (.ok [], job)
  | n + 1, job =>
    match job.next node_table with
    | (.error e, job) => (.error e, job)
    | (.ok none, job) => (.ok [], job)
    | (.ok (some info), job) =>
      match job.nexts node_table n with
      | (.error e, job) => (.error e, job)
      | (.ok infos, job) => (.ok (info :: infos), job)

/-- What a rank is told agrees with `get_host_id_from_index` and with the rank map. -/
structure Agrees (node_table : ℤ → ℕ) (job : PMIJobHelper) (rank : ℕ) (info : PMIProcessInfo) :
    Prop where
  lrank : job.lrank_list[rank]? = some info.lrank
  host : ∃ h_uid, get_host_id_from_index job.layout_list job.items 0 rank = .ok (some h_uid) ∧
    job.ppn_map.lookup h_uid = some info.ppn ∧ info.nid = job.pmi_h_uid_list.idxOf h_uid ∧
    info.pmix_nid = node_table h_uid ∧ job.pid_base_map.lookup h_uid = some info.pid_base
  node : job.nid_map.lookup rank = info.node job.backend

structure RankMap (node_table : ℤ → ℕ) (items : List Item) (layout_list : List ResourceLayout)
    (job : PMIJobHelper) : Prop where
  keys : ∀ rank, rank ∈ keys job.nid_map ↔ rank < job.nranks
  /-- A rank has the node of the host where the layouts place it. -/
  nids : ∀ rank h_uid, (rankHosts items layout_list)[rank]? = some h_uid →
    ∃ nid, job.nid_map.lookup rank = some nid ∧
      nodeId job.backend node_table job.pmi_h_uid_list h_uid = some nid
  lranks : ∀ h_uid, lranksOn (rankHosts items layout_list) job.lrank_list h_uid =
    List.range ((job.ppn_map.lookup h_uid).getD 0)
  iterator : ∃ infos finished, job.nexts node_table job.nranks = (.ok infos, finished) ∧
    infos.length = job.nranks ∧ finished.next node_table = (.ok none, finished) ∧
    ∀ rank < job.nranks, ∃ info, infos[rank]? = some info ∧ Agrees node_table job rank info

section

variable {node_table : ℤ → ℕ} {items : List Item} {layout_list : List ResourceLayout}
  {job : PMIJobHelper}

theorem Constructed.mem_keys_nid_map (h : Constructed node_table items layout_list job)
    (hlength : processes items ≤ layout_list.length) (rank : ℕ) :
    rank ∈ keys job.nid_map ↔ firstKey items ≤ rank ∧ rank - firstKey items < job.nranks := by
  obtain ⟨maps, hranked, hnid, -, -⟩ := h.ranked
  rw [mem_keys_iff, ← hnid, hranked.nids, h.nranks, ← length_rankHosts hlength]
  by_cases hfirst : firstKey items ≤ rank
  · rw [if_pos hfirst, and_iff_right hfirst]
    by_cases hlt : rank - firstKey items < (rankHosts items layout_list).length
    · refine iff_of_true ?_ hlt
      rw [List.getElem?_eq_getElem hlt, Option.bind_some]
      -- a group with ranks has a backend
      unfold nodeId
      split
      · rfl
      · rfl
      next hnone =>
        have hbackend := h.backend
        rw [hnone] at hbackend
        rw [length_rankHosts hlength, findBackend_none hbackend] at hlt
        exact absurd hlt (Nat.not_lt_zero _)
    · refine iff_of_false ?_ hlt
      rw [List.getElem?_eq_none (Nat.not_lt.mp hlt)]
      exact Bool.false_ne_true
  · rw [if_neg hfirst]
    exact iff_of_false Bool.false_ne_true fun h => hfirst h.1

theorem Constructed.next_eq (h : Constructed node_table items layout_list job)
    (hlength : processes items ≤ layout_list.length) (hfirst : job.nranks = 0 ∨ firstKey items = 0)
    {rank : ℕ} (hrank : rank < job.nranks) :
    ∃ info, ({ job with index := rank } : PMIJobHelper).next node_table =
      (.ok (some info), { job with index := rank + 1 }) ∧ Agrees node_table job rank info := by
  obtain ⟨maps, hranked, hnid, hppn, hlrank⟩ := h.ranked
  have hhosts : rank < (rankHosts items layout_list).length := by
    rw [length_rankHosts hlength, ← h.nranks]
    exact hrank
  have hlranks : rank < job.lrank_list.length := by
    rw [← hlrank, hranked.length]
    exact hhosts
  have hhost : get_host_id_from_index job.layout_list job.items 0 rank =
      .ok (some (rankHosts items layout_list)[rank]) := by
    rw [h.items_eq, h.layouts_eq, get_host_id_from_index_eq (by omega), List.drop_zero,
      List.getElem?_eq_getElem hhosts]
  have hmem := List.getElem_mem hhosts
  have hppns := hranked.ppn (rankHosts items layout_list)[rank]
  rw [if_pos hmem, hppn] at hppns
  have hkey : (rankHosts items layout_list)[rank] ∈ keys job.ppn_map := by
    rw [← hppn]
    exact hranked.mem_keys.mpr hmem
  obtain ⟨pid_base, hpid⟩ := Option.isSome_iff_exists.mp (h.pids _ hkey)
  let info : PMIProcessInfo := {
    lrank := job.lrank_list[rank]
    ppn := (rankHosts items layout_list).count (rankHosts items layout_list)[rank]
    nid := job.pmi_h_uid_list.idxOf (rankHosts items layout_list)[rank]
    pmix_nid := node_table (rankHosts items layout_list)[rank]
    pid_base := pid_base }
  refine ⟨info, ?_, List.getElem?_eq_getElem hlranks, ⟨_, hhost, hppns, rfl, rfl, hpid⟩, ?_⟩
  · unfold PMIJobHelper.next
    simp only [if_pos hrank, List.getElem?_eq_getElem hlranks, hhost, hppns, hpid]
    rfl
  · have hnode := hranked.nids rank
    rw [hfirst.resolve_left (Nat.ne_of_gt ((Nat.zero_le _).trans_lt hrank)),
      if_pos (Nat.zero_le _), Nat.sub_zero, List.getElem?_eq_getElem hhosts, Option.bind_some, hnid,
      hppn] at hnode
    rw [hnode]
    cases job.backend with
    | none => rfl
    | some backend => cases backend <;> rfl

theorem Constructed.nexts_eq (h : Constructed node_table items layout_list job)
    (hlength : processes items ≤ layout_list.length)
    (hfirst : job.nranks = 0 ∨ firstKey items = 0) (n : ℕ) : ∀ rank, rank + n = job.nranks →
    ∃ infos, ({ job with index := rank } : PMIJobHelper).nexts node_table n =
      (.ok infos, { job with index := job.nranks }) ∧ infos.length = n ∧
      ∀ i < n, ∃ info, infos[i]? = some info ∧ Agrees node_table job (rank + i) info := by
  induction n with
  | zero =>
    rintro rank rfl
    exact ⟨[], rfl, rfl, fun i hi => absurd hi (Nat.not_lt_zero i)⟩
  | succ n ih =>
    intro rank hrank
    obtain ⟨info, hnext, hagrees⟩ := h.next_eq hlength hfirst (show rank < job.nranks by omega)
    obtain ⟨infos, hnexts, hcount, hall⟩ := ih (rank + 1) (by omega)
    refine ⟨info :: infos, ?_, by rw [List.length_cons, hcount], ?_⟩
    · unfold PMIJobHelper.nexts
      rw [hnext]
      simp only [hnexts]
    · intro i hi
      cases i with
      | zero => exact ⟨info, rfl, hagrees⟩
      | succ i =>
        obtain ⟨info', hget, hagrees'⟩ := hall i (Nat.lt_of_succ_lt_succ hi)
        refine ⟨info', hget, ?_⟩
        rw [Nat.add_comm i 1, ← Nat.add_assoc]
        exact hagrees'

theorem Constructed.rankMap (h : Constructed node_table items layout_list job)
    (hlength : processes items ≤ layout_list.length)
    (hfirst : job.nranks = 0 ∨ firstKey items = 0) : RankMap node_table items layout_list job := by
  obtain ⟨maps, hranked, hnid, hppn, hlrank⟩ := h.ranked
  have hkeys : ∀ rank, rank ∈ keys job.nid_map ↔ rank < job.nranks := by
    intro rank
    rw [h.mem_keys_nid_map hlength]
    rcases hfirst with hzero | hzero
    · omega
    · rw [hzero]
      omega
  constructor
  case keys => exact hkeys
  case nids =>
    intro rank h_uid hhost
    have hlt := (List.getElem?_eq_some_iff.mp hhost).1
    rw [length_rankHosts hlength, ← h.nranks] at hlt
    obtain ⟨nid, hlookup⟩ := Option.isSome_iff_exists.mp (mem_keys_iff.mp ((hkeys rank).mpr hlt))
    refine ⟨nid, hlookup, ?_⟩
    have hnode := hranked.nids rank
    rw [hfirst.resolve_left (Nat.ne_of_gt ((Nat.zero_le _).trans_lt hlt)), if_pos (Nat.zero_le _),
      Nat.sub_zero, hhost, Option.bind_some, hnid, hppn, hlookup] at hnode
    exact hnode.symm
  case lranks =>
    intro h_uid
    rw [← hlrank, hranked.lranks, ← hppn, hranked.ppn]
    split
    · rfl
    next hnew => rw [List.count_eq_zero.mpr hnew]; rfl
  case iterator =>
    obtain ⟨infos, hnexts, hcount, hall⟩ := h.nexts_eq hlength hfirst job.nranks 0 (Nat.zero_add _)
    have hindex : ({ job with index := 0 } : PMIJobHelper) = job := by rw [← h.start]
    rw [hindex] at hnexts
    refine ⟨infos, _, hnexts, hcount, ?_, ?_⟩
    · unfold PMIJobHelper.next
      rw [if_neg (Nat.lt_irrefl _)]
    · intro rank hrank
      obtain ⟨info, hget, hagrees⟩ := hall rank hrank
      rw [Nat.zero_add] at hagrees
      exact ⟨info, hget, hagrees⟩

end

/-- Something with ranks comes first, as far as `firstKey` is concerned. -/
theorem firstKey_eq_zero_iff {items : List Item} (h : get_nranks items ≠ 0) :
    firstKey items = 0 ↔ ∃ item rest, items = item :: rest ∧ item.isPmi = true ∧ 0 < item.count := by
  cases items with
  | nil => exact absurd rfl h
  | cons item items =>
    show (if item.isPmi = true ∧ 0 < item.count then 0 else 1) = 0 ↔ _
    constructor
    · intro hzero
      split at hzero
      next hpmi => exact ⟨item, items, rfl, hpmi⟩
      next => exact absurd hzero Nat.one_ne_zero
    · rintro ⟨item', rest, heq, hpmi⟩
      obtain ⟨rfl, -⟩ := List.cons.inj heq
      exact if_pos hpmi

/-- **When the rank map is right.** -/
theorem rankMap_iff (node_table : ℤ → ℕ) (s : PmiState) (items : List Item)
    (layout_list : List ResourceLayout) (hlength : layout_list.length = processes items) :
    (∃ job s', PMIJobHelper.construct node_table s items layout_list = (.ok job, s') ∧
      RankMap node_table items layout_list job) ↔ RanksFirst items := by
  constructor
  · rintro ⟨job, s', hconstruct, hmap⟩
    obtain ⟨backend, hbackend⟩ : ∃ backend, findBackend items = .ok backend := by
      unfold PMIJobHelper.construct at hconstruct
      split at hconstruct
      · exact absurd (Prod.mk.inj hconstruct).1 nofun
      next backend hbackend => exact ⟨backend, hbackend⟩
    obtain ⟨job', s'', hconstruct', hjob⟩ :=
      construct_constructed node_table s hlength.ge hbackend
    obtain ⟨rfl, rfl⟩ : job' = job ∧ s'' = s' := by
      have heq := hconstruct'.symm.trans hconstruct
      exact ⟨Except.ok.inj (Prod.mk.inj heq).1, (Prod.mk.inj heq).2⟩
    refine ⟨findBackend_ok_iff.mp ⟨backend, hbackend⟩, ?_⟩
    by_cases hranks : get_nranks items = 0
    · exact .inl (get_nranks_eq_zero_iff.mp hranks)
    · right
      rw [← firstKey_eq_zero_iff hranks]
      -- the rank 0 has a node
      have hzero := (hmap.keys 0).mpr (by rw [hjob.nranks]; exact Nat.pos_of_ne_zero hranks)
      exact Nat.le_zero.mp ((hjob.mem_keys_nid_map hlength.ge 0).mp hzero).1
  · rintro ⟨hprocesses, hfirst⟩
    obtain ⟨backend, hbackend⟩ := findBackend_ok_iff.mpr hprocesses
    obtain ⟨job, s', hconstruct, hjob⟩ :=
      construct_constructed node_table s hlength.ge hbackend
    refine ⟨job, s', hconstruct, hjob.rankMap hlength.ge ?_⟩
    rw [hjob.nranks]
    by_cases hranks : get_nranks items = 0
    · exact .inl hranks
    · right
      rw [firstKey_eq_zero_iff hranks]
      exact hfirst.resolve_left fun h => hranks (get_nranks_eq_zero_iff.mpr h)

def sampleLayout (h_uid : ℤ) : ResourceLayout where
  h_uid := h_uid
  host_name := ""
  node_specified := false
  numa_node := 0
  cpu_core := []
  gpu_core := []
  accelerator_env := ""

/-- Two ranks and a process without rank, on two hosts. -/
theorem rankMap_ranks_first :
    (∃ job s', PMIJobHelper.construct (fun _ => 0) PmiState.init
        [⟨2, .process (some .CRAY)⟩, ⟨1, .process none⟩]
        [sampleLayout 1, sampleLayout 2, sampleLayout 1] = (.ok job, s') ∧
      RankMap (fun _ => 0) [⟨2, .process (some .CRAY)⟩, ⟨1, .process none⟩]
        [sampleLayout 1, sampleLayout 2, sampleLayout 1] job) ↔
      RanksFirst [⟨2, .process (some .CRAY)⟩, ⟨1, .process none⟩] :=
  rankMap_iff _ _ _ _ rfl

/-- A rank after a process without rank. -/
theorem not_rankMap :
    ¬ ∀ (node_table : ℤ → ℕ) (s : PmiState) (items : List Item)
      (layout_list : List ResourceLayout), layout_list.length = processes items →
      ∃ job s', PMIJobHelper.construct node_table s items layout_list = (.ok job, s') ∧
        RankMap node_table items layout_list job := by
  intro h
  obtain ⟨job, s', hconstruct, hmap⟩ := h (fun _ => 0) PmiState.init
    [⟨1, .process none⟩, ⟨1, .process (some .CRAY)⟩] [sampleLayout 1, sampleLayout 1] rfl
  obtain ⟨hok, -⟩ := Prod.mk.inj hconstruct
  obtain rfl := Except.ok.inj hok
  exact absurd ((hmap.keys 0).mpr (by decide)) (by decide)

end Pmi
