/-
# The work chunks of a compiled batch (`ClientCompiler.compile` of `dragon/workflows/batch/batch.py`)

What the managers rely on in a compiled batch: each task is in one chunk, the one of the manager
that it is placed on, and for each of its dependencies there is one route to the manager that has
to be told or asked.

All of this holds whenever `compile` returns, but for one thing.  `hefty_partition` drops the
partitions that are empty at the tail only, and a task whose arguments come from another manager
may pass over an empty partition: then a chunk without tasks is sent to the manager of that one.
-/
import DragonRuntime.BatchPlacement

namespace Batch

variable {K V : Type}

/-- The tasks of a chunk. -/
def Work.taskCores (work : Work V) : List (TaskCore V) :=
  work.readyTaskCores ++ work.blockedTaskCores

/-- The chunks in the order in which they are put into the work queue. -/
def CompiledTask.chunks (compiled : CompiledTask K V) : List (Work V) :=
  compiled.subnodeWorkChunks ++ compiled.mnjWorkChunk.toList

/-- The routes along which the tasks of the batch notify a task. -/
def CompiledTask.routesTo (compiled : CompiledTask K V) (tuid : Tuid) :
    List DependencyNotificationRoute :=
  compiled.tasks.flatMap fun task =>
    task.core.downstreamRoutes.filter fun route => route.downstreamTuid = tuid

/-- A compiled batch with all that its tasks need. -/
structure CompiledTask.Complete (compiled : CompiledTask K V) (compiler compiler' : ClientCompiler K)
    (tasks : List (Task K V)) : Prop where
  tasks_eq : (compiled.tasks.map fun task => task.core.tuid) = tasks.map fun task => task.core.tuid
  /-- each task is in one chunk -/
  perm : (compiled.chunks.flatMap Work.taskCores).Perm (compiled.tasks.map Task.core)
  subnode : ∀ work ∈ compiled.subnodeWorkChunks,
    (∃ idx < compiler'.numManagers - 1, work.managerIdx = .subnode idx) ∧
    ∀ taskCore ∈ work.taskCores, isMultiNodeJob taskCore compiler'.physicalCoresPerNode = false ∧
      taskCore.managerIdx = some work.managerIdx
  scheduler : ∀ work ∈ compiled.mnjWorkChunk, work.managerIdx = .scheduler ∧
    ∀ taskCore ∈ work.taskCores, isMultiNodeJob taskCore compiler'.physicalCoresPerNode = true ∧
      taskCore.managerIdx = some .scheduler
  nonempty : ∀ work ∈ compiled.chunks, work.taskCores ≠ []
  /-- one chunk for a manager -/
  managers : (compiled.chunks.map Work.managerIdx).Nodup
  count : ∀ task ∈ compiled.tasks,
    (compiled.routesTo task.core.tuid).length + task.core.upstreamRoutes.length
      = task.core.numDepTot
  notified : ∀ task ∈ compiled.tasks, ∀ route ∈ task.core.downstreamRoutes,
    ∃ downstream ∈ compiled.tasks, downstream.core.tuid = route.downstreamTuid ∧
      downstream.core.managerIdx = some route.queue
  /-- a task of an earlier batch is asked for at the manager that it was placed on -/
  requested : ∀ task ∈ compiled.tasks, ∀ route ∈ task.core.upstreamRoutes,
    compiler.tuidToManagerQ route.upstreamTuid = some route.queue

/-! ## What compiling leaves of a task -/

section Cores

variable [DecidableEq K]

/-- The number of a task's dependencies is what it counts. -/
def Counted (taskCore : TaskCore V) : Prop := taskCore.numDepTot = taskCore.dependencies.length

theorem Task.new_counted (tuid : Tuid) (request : TaskRequest K V) :
    Counted (Task.new tuid request).core := rfl

omit [DecidableEq K] in
theorem foldl_dependsOn_counted (deps : List LogicalDependency) {task : Task K V}
    (h : Counted task.core) : Counted (deps.foldl Task.dependsOn task).core := by
  induction deps generalizing task with
  | nil => exact h
  | cons dep deps ih =>
    apply ih
    show task.core.numDepTot + 1 = (task.core.dependencies ++ [dep]).length
    rw [List.length_append, show task.core.numDepTot = _ from h]
    rfl

omit [DecidableEq K] in
theorem foldl_dependsOn_tuid (deps : List LogicalDependency) (task : Task K V) :
    (deps.foldl Task.dependsOn task).core.tuid = task.core.tuid := by
  induction deps generalizing task with
  | nil => rfl
  | cons dep deps ih => exact ih (task.dependsOn dep)

theorem compileTask_counted (depFrontier : AccessKey K → Option FrontierInfo) {task : Task K V}
    (h : Counted task.core) : Counted (compileTask depFrontier task).2.core ∧
      (compileTask depFrontier task).2.core.tuid = task.core.tuid := by
  have hfold : ∀ (entries : List (AccessKey K × AccessType))
      (state : (AccessKey K → Option FrontierInfo) × Task K V), Counted state.2.core →
      Counted (entries.foldl compileAccess state).2.core ∧
        (entries.foldl compileAccess state).2.core.tuid = state.2.core.tuid := by
    intro entries
    induction entries with
    | nil => exact fun state hstate => ⟨hstate, rfl⟩
    | cons entry entries ih =>
      intro state hstate
      obtain ⟨hcounted, htuid⟩ :=
        ih (compileAccess state entry) (foldl_dependsOn_counted _ hstate)
      exact ⟨hcounted, htuid.trans (foldl_dependsOn_tuid _ _)⟩
  exact hfold task.accesses (depFrontier, task) h

theorem compileTasks_counted (depFrontier : AccessKey K → Option FrontierInfo)
    {tasks : List (Task K V)} (h : ∀ task ∈ tasks, Counted task.core) :
    (∀ task ∈ (compileTasks depFrontier tasks).2, Counted task.core) ∧
      ((compileTasks depFrontier tasks).2.map fun task => task.core.tuid)
        = tasks.map fun task => task.core.tuid := by
  induction tasks generalizing depFrontier with
  | nil => exact ⟨fun _ h => absurd h List.not_mem_nil, rfl⟩
  | cons task tasks ih =>
    obtain ⟨hcounted, htuid⟩ := compileTask_counted depFrontier (h task List.mem_cons_self)
    obtain ⟨hrest, htuids⟩ := ih (compileTask depFrontier task).1
      fun task htask => h task (List.mem_cons_of_mem _ htask)
    refine ⟨?_, ?_⟩
    · intro task' htask'
      rcases List.mem_cons.1 htask' with rfl | htask'
      · exact hcounted
      · exact hrest task' htask'
    · rw [compileTasks, List.map_cons, List.map_cons, htuid, htuids]

/-- The task cores of a batch before they are placed. -/
def compiledCores (compiler : ClientCompiler K) (tasks : List (Task K V)) : List (TaskCore V) :=
  assignHeftWeights ((compileTasks compiler.depFrontier tasks).2.map Task.core)

theorem compiledCores_counted (compiler : ClientCompiler K) {tasks : List (Task K V)}
    (h : ∀ task ∈ tasks, Counted task.core) :
    (∀ taskCore ∈ compiledCores compiler tasks, Counted taskCore) ∧
      (compiledCores compiler tasks).map TaskCore.tuid
        = tasks.map fun task => task.core.tuid := by
  obtain ⟨hcounted, htuids⟩ := compileTasks_counted compiler.depFrontier h
  refine ⟨?_, ?_⟩
  · intro taskCore hcore
    -- weights leave the dependencies and their number alone
    have hmap := assignHeftWeights_map (fun core : TaskCore V => Counted core)
      (fun _ _ => rfl) (fun _ _ => rfl)
      ((compileTasks compiler.depFrontier tasks).2.map Task.core)
    have hmem : Counted taskCore ∈ (compiledCores compiler tasks).map Counted :=
      List.mem_map_of_mem hcore
    rw [compiledCores, hmap] at hmem
    obtain ⟨core, hin, heq⟩ := List.mem_map.1 hmem
    obtain ⟨task, htask, rfl⟩ := List.mem_map.1 hin
    exact heq ▸ hcounted task htask
  · rw [compiledCores, assignHeftWeights_map TaskCore.tuid (fun _ _ => rfl) (fun _ _ => rfl),
      List.map_map, ← htuids]
    rfl

end Cores

/-! ## Chunks -/

section Chunks

theorem Work.new_taskCores (taskSet : List (TaskCore V)) (clientId : ℕ)
    (compiledTuid : CompiledTuid) (managerIdx : ManagerIdx) :
    (Work.new taskSet clientId compiledTuid managerIdx).taskCores.Perm taskSet := by
  have h := List.filter_append_perm (fun taskCore : TaskCore V => decide (taskCore.numDepTot = 0))
    taskSet
  simpa [Work.taskCores, Work.new] using h

theorem Work.new_eq_nil_iff {taskSet : List (TaskCore V)} {clientId : ℕ}
    {compiledTuid : CompiledTuid} {managerIdx : ManagerIdx} :
    (Work.new taskSet clientId compiledTuid managerIdx).taskCores = [] ↔ taskSet = [] := by
  have hperm := Work.new_taskCores taskSet clientId compiledTuid managerIdx
  refine ⟨?_, ?_⟩
  · intro h
    rw [h] at hperm
    exact hperm.nil_eq.symm
  · rintro rfl
    exact hperm.eq_nil

/-- The chunks of partitions hold what is in the partitions. -/
theorem flatMap_new_taskCores (routed : TaskCore V → TaskCore V) (clientId : ℕ)
    (compiledTuid : CompiledTuid) (managerIdx : ℕ → ManagerIdx)
    (parts : List (List (TaskCore V))) (n : ℕ) :
    (((parts.zipIdx n).map fun entry => Work.new (entry.1.map routed) clientId compiledTuid
      (managerIdx entry.2)).flatMap Work.taskCores).Perm (parts.flatten.map routed) := by
  induction parts generalizing n with
  | nil => exact List.Perm.refl _
  | cons part parts ih =>
    rw [List.zipIdx_cons, List.map_cons, List.flatMap_cons, List.flatten_cons, List.map_append]
    exact (Work.new_taskCores _ _ _ _).append (ih (n + 1))

end Chunks

/-! ## Partitions that get no task -/

section Gaps

/-- The partition that each task for the subnode managers goes to: the one with the lowest
candidate key at its turn. -/
def placedPartitions (compiler : ClientCompiler K) (taskCores : List (TaskCore V))
    (subnodeOffset : ℕ) : List ℕ :=
  let cores := subnodeTaskCores compiler taskCores
  ((cores.insertionSort fun a b => taskHeftPriorityKey a ≤ taskHeftPriorityKey b).foldl
    (placeTask compiler ((multiNodeJobs compiler taskCores).map TaskCore.tuid) subnodeOffset)
    (Partitions.empty (min cores.length (compiler.numManagers - 1)))).placedPartitions.map Prod.snd

/-- No task passes over a partition that no other task goes to. -/
def NoGap (compiler : ClientCompiler K) (taskCores : List (TaskCore V)) (subnodeOffset : ℕ) :
    Prop :=
  ∀ j ∈ placedPartitions compiler taskCores subnodeOffset, ∀ i < j,
    i ∈ placedPartitions compiler taskCores subnodeOffset

/-- The partitions that are not empty are those that a task went to. -/
theorem mem_placed_placeTask (compiler : ClientCompiler K) (mnjTuids : List Tuid)
    (subnodeOffset : ℕ) {state : Partitions V} (hpos : 0 < state.partitions.length)
    (h : ∀ i, i ∈ state.placedPartitions.map Prod.snd ↔
      ∃ part, state.partitions[i]? = some part ∧ part ≠ []) (taskCore : TaskCore V) (i : ℕ) :
    i ∈ (placeTask compiler mnjTuids subnodeOffset state taskCore).placedPartitions.map Prod.snd ↔
      ∃ part, (placeTask compiler mnjTuids subnodeOffset state taskCore).partitions[i]? = some part ∧
        part ≠ [] := by
  have hbest := bestPartition_le (candidateKey compiler mnjTuids subnodeOffset state taskCore)
    (state.partitions.length - 1)
  rw [placeTask]
  generalize bestPartition (candidateKey compiler mnjTuids subnodeOffset state taskCore)
    (state.partitions.length - 1) = best at hbest ⊢
  show i ∈ best :: state.placedPartitions.map Prod.snd ↔ ∃ part,
    (state.partitions.modify best fun part => part ++ [taskCore])[i]? = some part ∧ part ≠ []
  rw [List.mem_cons, h i, List.getElem?_modify]
  by_cases hi : i = best
  · have hlt : best < state.partitions.length := by omega
    rw [hi]
    refine iff_of_true (Or.inl rfl) ⟨state.partitions[best] ++ [taskCore], ?_, ?_⟩
    · rw [List.getElem?_eq_getElem hlt]
      simp
    · exact List.append_ne_nil_of_right_ne_nil _ (List.cons_ne_nil _ _)
  · rw [or_iff_right hi]
    simp [Ne.symm hi]

theorem mem_placed_foldl (compiler : ClientCompiler K) (mnjTuids : List Tuid) (subnodeOffset : ℕ)
    (cores : List (TaskCore V)) {state : Partitions V}
    (hpos : cores ≠ [] → 0 < state.partitions.length)
    (h : ∀ i, i ∈ state.placedPartitions.map Prod.snd ↔
      ∃ part, state.partitions[i]? = some part ∧ part ≠ []) (i : ℕ) :
    i ∈ (cores.foldl (placeTask compiler mnjTuids subnodeOffset) state).placedPartitions.map Prod.snd ↔
      ∃ part, (cores.foldl (placeTask compiler mnjTuids subnodeOffset) state).partitions[i]?
        = some part ∧ part ≠ [] := by
  induction cores generalizing state with
  | nil => exact h i
  | cons core cores ih =>
    have hlength := hpos (List.cons_ne_nil _ _)
    apply ih
    · intro _
      rw [placeTask_length]
      exact hlength
    · exact mem_placed_placeTask compiler mnjTuids subnodeOffset hlength h core

theorem foldl_placeTask_length (compiler : ClientCompiler K) (mnjTuids : List Tuid)
    (subnodeOffset : ℕ) (cores : List (TaskCore V)) (state : Partitions V) :
    (cores.foldl (placeTask compiler mnjTuids subnodeOffset) state).partitions.length
      = state.partitions.length := by
  induction cores generalizing state with
  | nil => rfl
  | cons core cores ih => rw [List.foldl_cons, ih, placeTask_length]

/-- What is left when the empty lists at the tail are dropped. -/
theorem getElem?_rdropWhile {α : Type} {parts : List (List α)} {i : ℕ} {part : List α}
    (h : parts[i]? = some part) (hne : part ≠ []) :
    (parts.rdropWhile fun part => part.isEmpty)[i]? = some part := by
  induction parts using List.reverseRecOn with
  | nil => exact absurd h (by simp)
  | append_singleton parts last ih =>
    by_cases hlast : last.isEmpty
    · rw [List.rdropWhile_concat_pos _ _ _ hlast]
      apply ih
      rcases Nat.lt_or_ge i parts.length with hi | hi
      · rwa [List.getElem?_append_left hi] at h
      · rw [List.getElem?_append_right hi] at h
        exact absurd (List.isEmpty_iff.1 hlast)
          (List.mem_singleton.1 (List.mem_of_getElem? h) ▸ hne)
    · rw [List.rdropWhile_concat_neg _ _ _ hlast]
      exact h

/-- Where a partition is left, it is the one that was filled. -/
theorem getElem?_of_rdropWhile {α : Type} {parts : List (List α)} {i : ℕ}
    (hi : i < (parts.rdropWhile fun part => part.isEmpty).length) :
    parts[i]? = (parts.rdropWhile fun part => part.isEmpty)[i]? := by
  obtain ⟨tail, htail⟩ := List.rdropWhile_prefix (fun part : List α => part.isEmpty) parts
  conv_lhs => rw [← htail]
  exact List.getElem?_append_left hi

theorem partitions_nonempty_iff {compiler : ClientCompiler K} (hmanagers : 2 ≤ compiler.numManagers)
    (taskCores : List (TaskCore V)) (subnodeOffset : ℕ) :
    (∀ part ∈ heftyPartition compiler taskCores subnodeOffset, part ≠ []) ↔
      NoGap compiler taskCores subnodeOffset := by
  have hmem : ∀ i, i ∈ placedPartitions compiler taskCores subnodeOffset ↔ ∃ part,
      (((subnodeTaskCores compiler taskCores).insertionSort
          fun a b => taskHeftPriorityKey a ≤ taskHeftPriorityKey b).foldl
        (placeTask compiler ((multiNodeJobs compiler taskCores).map TaskCore.tuid) subnodeOffset)
        (Partitions.empty (min (subnodeTaskCores compiler taskCores).length
          (compiler.numManagers - 1)))).partitions[i]? = some part ∧ part ≠ [] := by
    intro i
    apply mem_placed_foldl
    · intro hne
      have hcores : subnodeTaskCores compiler taskCores ≠ [] := by
        intro hnil
        rw [hnil] at hne
        exact hne rfl
      have hlength := List.length_pos_iff.2 hcores
      simp only [Partitions.empty, List.length_replicate]
      omega
    · intro i
      simp only [Partitions.empty, List.map_nil, List.getElem?_replicate]
      refine iff_of_false List.not_mem_nil ?_
      rintro ⟨part, hpart, hne⟩
      split at hpart
      · exact hne (Option.some.inj hpart).symm
      · cases hpart
  rw [heftyPartition, NoGap]
  simp only [hmem]
  generalize (((subnodeTaskCores compiler taskCores).insertionSort
          fun a b => taskHeftPriorityKey a ≤ taskHeftPriorityKey b).foldl
        (placeTask compiler ((multiNodeJobs compiler taskCores).map TaskCore.tuid) subnodeOffset)
        (Partitions.empty (min (subnodeTaskCores compiler taskCores).length
          (compiler.numManagers - 1)))).partitions = parts
  generalize hleft : parts.rdropWhile (fun part => part.isEmpty) = left
  refine ⟨?_, ?_⟩
  · rintro h j ⟨part, hpart, hne⟩ i hij
    have hj := getElem?_rdropWhile hpart hne
    rw [hleft] at hj
    have hi : i < left.length := hij.trans (List.getElem?_eq_some_iff.1 hj).1
    have hget : parts[i]? = some left[i] := by
      rw [getElem?_of_rdropWhile (hleft ▸ hi), hleft]
      exact List.getElem?_eq_getElem hi
    exact ⟨left[i], hget, h _ (List.getElem_mem hi)⟩
  · intro h part hpart
    obtain ⟨i, hi, rfl⟩ := List.getElem_of_mem hpart
    -- the last partition that is left has a task, and so has each one before it
    have hlne : left ≠ [] := List.ne_nil_of_mem hpart
    have hlast : left.getLast hlne ≠ [] := by
      have hnot := List.rdropWhile_last_not (fun part : List (TaskCore V) => part.isEmpty) parts
        (hleft ▸ hlne)
      simp only [hleft] at hnot
      exact fun hnil => hnot (List.isEmpty_iff.2 hnil)
    have hget : ∀ k (hk : k < left.length), parts[k]? = some left[k] := by
      intro k hk
      rw [getElem?_of_rdropWhile (hleft ▸ hk), hleft]
      exact List.getElem?_eq_getElem hk
    rw [List.getLast_eq_getElem] at hlast
    have hpos : left.length - 1 < left.length := Nat.sub_lt (List.length_pos_iff.2 hlne) Nat.one_pos
    rcases Nat.lt_or_ge i (left.length - 1) with hlt | hge
    · obtain ⟨part, hsome, hne⟩ := h (left.length - 1) ⟨_, hget _ hpos, hlast⟩ i hlt
      rw [hget i hi] at hsome
      exact Option.some.inj hsome ▸ hne
    · have heq : i = left.length - 1 := by omega
      subst heq
      exact hlast

/-! ### Turns of the loop -/

/-- The tasks for the subnode managers in the order in which they are placed. -/
def orderedCores (compiler : ClientCompiler K) (taskCores : List (TaskCore V)) :
    List (TaskCore V) :=
  (subnodeTaskCores compiler taskCores).insertionSort
    fun a b => taskHeftPriorityKey a ≤ taskHeftPriorityKey b

def numPartitions (compiler : ClientCompiler K) (taskCores : List (TaskCore V)) : ℕ :=
  min (subnodeTaskCores compiler taskCores).length (compiler.numManagers - 1)

/-- The partitions before a turn of the loop. -/
def beforeTurn (compiler : ClientCompiler K) (taskCores : List (TaskCore V)) (subnodeOffset turn : ℕ) :
    Partitions V :=
  ((orderedCores compiler taskCores).take turn).foldl
    (placeTask compiler ((multiNodeJobs compiler taskCores).map TaskCore.tuid) subnodeOffset)
    (Partitions.empty (numPartitions compiler taskCores))

/-- The candidate keys of a task at a turn. -/
def turnKey (compiler : ClientCompiler K) (taskCores : List (TaskCore V)) (subnodeOffset turn : ℕ)
    (taskCore : TaskCore V) : ℕ → ℕ ×ₗ ℕ ×ₗ ℕ ×ₗ ℕ :=
  candidateKey compiler ((multiNodeJobs compiler taskCores).map TaskCore.tuid) subnodeOffset
    (beforeTurn compiler taskCores subnodeOffset turn) taskCore

/-- Partition `i` is empty at a turn, and one behind it has a lower key than all up to it. -/
def PassesOver (compiler : ClientCompiler K) (taskCores : List (TaskCore V))
    (subnodeOffset turn i : ℕ) : Prop :=
  (beforeTurn compiler taskCores subnodeOffset turn).partitions[i]? = some [] ∧
  ∃ taskCore, (orderedCores compiler taskCores)[turn]? = some taskCore ∧
    ∃ j, i < j ∧ j < numPartitions compiler taskCores ∧ ∀ p ≤ i,
      turnKey compiler taskCores subnodeOffset turn taskCore j
        < turnKey compiler taskCores subnodeOffset turn taskCore p

/-- Partition `i` has the lowest key at a turn. -/
def Prefers (compiler : ClientCompiler K) (taskCores : List (TaskCore V))
    (subnodeOffset turn i : ℕ) : Prop :=
  ∃ taskCore, (orderedCores compiler taskCores)[turn]? = some taskCore ∧
    i < numPartitions compiler taskCores ∧ ∀ p < numPartitions compiler taskCores, p ≠ i →
      turnKey compiler taskCores subnodeOffset turn taskCore i
        < turnKey compiler taskCores subnodeOffset turn taskCore p

section Turns

variable {compiler : ClientCompiler K} {taskCores : List (TaskCore V)} {subnodeOffset : ℕ}

theorem bestPartition_min {α : Type} [LinearOrder α] (key : ℕ → α) (n : ℕ) {p : ℕ} (hp : p ≤ n) :
    key (bestPartition key n) ≤ key p := by
  induction n with
  | zero => rw [Nat.le_zero.1 hp]; exact le_refl _
  | succ n ih =>
    rw [bestPartition]
    rcases Nat.lt_or_ge n p with hlt | hle
    · rw [show p = n + 1 by omega]
      split_ifs with hkey
      · exact le_refl _
      · exact not_lt.1 hkey
    · split_ifs with hkey
      · exact hkey.le.trans (ih hle)
      · exact ih hle

theorem candidateKey_injective (mnjTuids : List Tuid) (state : Partitions V)
    (taskCore : TaskCore V) :
    Function.Injective (candidateKey compiler mnjTuids subnodeOffset state taskCore) := by
  intro i j h
  exact congrArg (fun key => (ofLex (ofLex (ofLex key).2).2).2) h

theorem numPartitions_pos (hmanagers : 2 ≤ compiler.numManagers) {turn : ℕ}
    {taskCore : TaskCore V} (hturn : (orderedCores compiler taskCores)[turn]? = some taskCore) :
    0 < numPartitions compiler taskCores := by
  have hlt := (List.getElem?_eq_some_iff.1 hturn).1
  rw [orderedCores, List.length_insertionSort] at hlt
  unfold numPartitions
  omega

theorem beforeTurn_length (turn : ℕ) :
    (beforeTurn compiler taskCores subnodeOffset turn).partitions.length
      = numPartitions compiler taskCores := by
  rw [beforeTurn, foldl_placeTask_length]
  exact List.length_replicate ..

theorem beforeTurn_succ (turn : ℕ) {taskCore : TaskCore V}
    (hturn : (orderedCores compiler taskCores)[turn]? = some taskCore) :
    beforeTurn compiler taskCores subnodeOffset (turn + 1)
      = placeTask compiler ((multiNodeJobs compiler taskCores).map TaskCore.tuid) subnodeOffset
        (beforeTurn compiler taskCores subnodeOffset turn) taskCore := by
  rw [beforeTurn, List.take_add_one, hturn, Option.toList_some, List.foldl_append]
  rfl

/-- A task goes to the partition that it prefers. -/
theorem prefers_iff (hmanagers : 2 ≤ compiler.numManagers) {turn i : ℕ} {taskCore : TaskCore V}
    (hturn : (orderedCores compiler taskCores)[turn]? = some taskCore) :
    Prefers compiler taskCores subnodeOffset turn i ↔
      bestPartition (turnKey compiler taskCores subnodeOffset turn taskCore)
        (numPartitions compiler taskCores - 1) = i := by
  have hpos := numPartitions_pos hmanagers hturn
  have hbest := bestPartition_le (turnKey compiler taskCores subnodeOffset turn taskCore)
    (numPartitions compiler taskCores - 1)
  constructor
  · rintro ⟨core, hcore, hi, hlow⟩
    obtain rfl := Option.some.inj (hturn.symm.trans hcore)
    by_contra hne
    exact absurd (hlow _ (by omega) hne)
      (not_lt.2 (bestPartition_min _ _ (Nat.le_sub_one_of_lt hi)))
  · rintro rfl
    refine ⟨taskCore, hturn, by omega, fun p hp hne => ?_⟩
    refine lt_of_le_of_ne (bestPartition_min _ _ (Nat.le_sub_one_of_lt hp)) fun heq => hne ?_
    exact (candidateKey_injective _ _ _ heq).symm

/-- The partitions that got tasks before a turn are those that were preferred. -/
theorem mem_placed_iff (hmanagers : 2 ≤ compiler.numManagers) (turn i : ℕ) :
    i ∈ (beforeTurn compiler taskCores subnodeOffset turn).placedPartitions.map Prod.snd ↔
      ∃ before < turn, Prefers compiler taskCores subnodeOffset before i := by
  induction turn with
  | zero => exact iff_of_false List.not_mem_nil fun h => Nat.not_lt_zero _ h.choose_spec.1
  | succ turn ih =>
    cases hturn : (orderedCores compiler taskCores)[turn]? with
    | none =>
      have hsame : beforeTurn compiler taskCores subnodeOffset (turn + 1)
          = beforeTurn compiler taskCores subnodeOffset turn := by
        rw [beforeTurn, List.take_add_one, hturn, Option.toList_none, List.append_nil]
        rfl
      rw [hsame, ih]
      refine exists_congr fun before => and_congr_left fun hprefers => ?_
      obtain ⟨core, hcore, -⟩ := hprefers
      have hne : before ≠ turn := by
        rintro rfl
        cases hcore.symm.trans hturn
      omega
    | some taskCore =>
      have hbest : Prefers compiler taskCores subnodeOffset turn i ↔ _ := prefers_iff hmanagers hturn
      rw [beforeTurn_succ turn hturn, placeTask, List.map_cons, List.mem_cons, ih]
      rw [beforeTurn_length]
      constructor
      · rintro (rfl | ⟨before, hlt, hprefers⟩)
        · exact ⟨turn, Nat.lt_succ_self _, hbest.2 rfl⟩
        · exact ⟨before, by omega, hprefers⟩
      · rintro ⟨before, hlt, hprefers⟩
        rcases Nat.lt_succ_iff_lt_or_eq.1 hlt with hlt | rfl
        · exact Or.inr ⟨before, hlt, hprefers⟩
        · exact Or.inl (hbest.1 hprefers).symm

theorem mem_placed_iff_ne_nil (hmanagers : 2 ≤ compiler.numManagers) (turn i : ℕ) :
    i ∈ (beforeTurn compiler taskCores subnodeOffset turn).placedPartitions.map Prod.snd ↔
      ∃ part, (beforeTurn compiler taskCores subnodeOffset turn).partitions[i]? = some part ∧
        part ≠ [] := by
  apply mem_placed_foldl
  · intro hne
    obtain ⟨taskCore, hmem⟩ := List.exists_mem_of_ne_nil _ hne
    obtain ⟨n, hn⟩ := List.mem_iff_getElem?.1 (List.mem_of_mem_take hmem)
    exact (numPartitions_pos hmanagers hn).trans_eq List.length_replicate.symm
  · intro i
    simp only [Partitions.empty, List.map_nil, List.getElem?_replicate]
    refine iff_of_false List.not_mem_nil ?_
    rintro ⟨part, hpart, hne⟩
    split at hpart
    · exact hne (Option.some.inj hpart).symm
    · cases hpart

/-- No gap is left iff each partition that is passed over is preferred later. -/
theorem noGap_iff (hmanagers : 2 ≤ compiler.numManagers) :
    NoGap compiler taskCores subnodeOffset ↔ ∀ turn i,
      PassesOver compiler taskCores subnodeOffset turn i →
        ∃ later > turn, Prefers compiler taskCores subnodeOffset later i := by
  have hall : ∀ i, i ∈ placedPartitions compiler taskCores subnodeOffset ↔
      ∃ turn, Prefers compiler taskCores subnodeOffset turn i := by
    intro i
    have hlast : i ∈ (beforeTurn compiler taskCores subnodeOffset _).placedPartitions.map _ ↔ _ :=
      mem_placed_iff hmanagers (orderedCores compiler taskCores).length i
    rw [beforeTurn, List.take_length] at hlast
    refine hlast.trans ⟨fun ⟨turn, _, hprefers⟩ => ⟨turn, hprefers⟩, fun ⟨turn, hprefers⟩ => ?_⟩
    obtain ⟨core, hcore, -⟩ := id hprefers
    exact ⟨turn, (List.getElem?_eq_some_iff.1 hcore).1, hprefers⟩
  unfold NoGap
  simp only [hall]
  constructor
  · rintro h turn i ⟨hempty, taskCore, hturn, j, hij, hj, hlow⟩
    have hbest := bestPartition_min (turnKey compiler taskCores subnodeOffset turn taskCore)
      (numPartitions compiler taskCores - 1) (Nat.le_sub_one_of_lt hj)
    -- the task of this turn goes behind `i`
    have hbehind : i < bestPartition (turnKey compiler taskCores subnodeOffset turn taskCore)
        (numPartitions compiler taskCores - 1) := by
      by_contra hle
      exact absurd (hlow _ (Nat.not_lt.1 hle)) (not_lt.2 hbest)
    obtain ⟨later, hlater⟩ := h _ ⟨turn, (prefers_iff hmanagers hturn).2 rfl⟩ i hbehind
    refine ⟨later, ?_, hlater⟩
    by_contra hle
    rcases Nat.lt_or_eq_of_le (Nat.not_lt.1 hle) with hlt | rfl
    · obtain ⟨part, hpart, hne⟩ := (mem_placed_iff_ne_nil hmanagers turn i).1
        ((mem_placed_iff hmanagers turn i).2 ⟨later, hlt, hlater⟩)
      exact hne (Option.some.inj (hpart.symm.trans hempty))
    · rw [(prefers_iff hmanagers hturn).1 hlater] at hbehind
      exact absurd hbehind (Nat.lt_irrefl _)
  · rintro h j ⟨turn, taskCore, hturn, hj, hlow⟩ i hij
    by_cases hbefore : ∃ before < turn, Prefers compiler taskCores subnodeOffset before i
    · exact ⟨hbefore.choose, hbefore.choose_spec.2⟩
    · rw [← mem_placed_iff hmanagers, mem_placed_iff_ne_nil hmanagers] at hbefore
      have hi : i < (beforeTurn compiler taskCores subnodeOffset turn).partitions.length := by
        rw [beforeTurn_length]
        omega
      have hempty : (beforeTurn compiler taskCores subnodeOffset turn).partitions[i]? = some [] := by
        by_contra hne
        refine hbefore ⟨_, List.getElem?_eq_getElem hi, fun hnil => hne ?_⟩
        rw [List.getElem?_eq_getElem hi, hnil]
      obtain ⟨later, -, hlater⟩ := h turn i ⟨hempty, taskCore, hturn, j, hij, hj,
        fun p hp => hlow p (by omega) (by omega)⟩
      exact ⟨later, hlater⟩

/-- The arguments of the tasks for the subnode managers come from this batch, and from no multi-node
job. -/
def LocalArguments (compiler : ClientCompiler K) (taskCores : List (TaskCore V)) : Prop :=
  ∀ taskCore ∈ subnodeTaskCores compiler taskCores, ∀ upstream ∈ argParentTuids taskCore,
    upstream ∉ (multiNodeJobs compiler taskCores).map TaskCore.tuid ∧
      compiler.tuidToManagerQ upstream = none

/-- An empty partition has no load. -/
theorem beforeTurn_load (turn i : ℕ)
    (hempty : (beforeTurn compiler taskCores subnodeOffset turn).partitions[i]? = some []) :
    (beforeTurn compiler taskCores subnodeOffset turn).partitionLoads.getD i 0 = 0 := by
  have hfold : ∀ (cores : List (TaskCore V)) (state : Partitions V),
      (∀ i, state.partitions[i]? = some [] → state.partitionLoads.getD i 0 = 0) →
      ∀ i, (cores.foldl (placeTask compiler ((multiNodeJobs compiler taskCores).map TaskCore.tuid)
          subnodeOffset) state).partitions[i]? = some [] →
        (cores.foldl (placeTask compiler ((multiNodeJobs compiler taskCores).map TaskCore.tuid)
          subnodeOffset) state).partitionLoads.getD i 0 = 0 := by
    intro cores
    induction cores with
    | nil => exact fun state hstate => hstate
    | cons core cores ih =>
      intro state hstate
      refine ih _ fun i hi => ?_
      rw [placeTask] at hi ⊢
      generalize bestPartition (candidateKey compiler
        ((multiNodeJobs compiler taskCores).map TaskCore.tuid) subnodeOffset state core)
        (state.partitions.length - 1) = best at hi ⊢
      rw [List.getElem?_modify] at hi
      rw [List.getD_eq_getElem?_getD, List.getElem?_modify]
      by_cases hbest : best = i
      · simp only [if_pos hbest] at hi
        obtain ⟨part, -, hpart⟩ := Option.map_eq_some_iff.1 hi
        exact absurd hpart (List.append_ne_nil_of_right_ne_nil _ (List.cons_ne_nil _ _))
      · simp only [if_neg hbest] at hi ⊢
        rw [Option.map_eq_map, Option.map_id'] at hi
        rw [Option.map_eq_map, Option.map_id', ← List.getD_eq_getElem?_getD]
        exact hstate i hi
  refine hfold _ _ (fun i _ => ?_) i hempty
  simp only [Partitions.empty, List.getD_eq_getElem?_getD, List.getElem?_replicate]
  split <;> rfl

theorem subnodeManagerIdxForPartition_inj {numSubnodeManagers i j : ℕ} (hi : i < numSubnodeManagers)
    (hj : j < numSubnodeManagers) (h : subnodeManagerIdxForPartition i subnodeOffset
      numSubnodeManagers = subnodeManagerIdxForPartition j subnodeOffset numSubnodeManagers) :
    i = j := by
  have hsame : i % numSubnodeManagers = j % numSubnodeManagers :=
    Nat.ModEq.add_left_cancel' subnodeOffset h
  rwa [Nat.mod_eq_of_lt hi, Nat.mod_eq_of_lt hj] at hsame

/-- With arguments from this batch only, all empty partitions have the same penalty, and none is
passed over. -/
theorem not_passesOver (hmanagers : 2 ≤ compiler.numManagers)
    (hlocal : LocalArguments compiler taskCores) (turn i : ℕ) :
    ¬ PassesOver compiler taskCores subnodeOffset turn i := by
  induction turn using Nat.strong_induction_on generalizing i with
  | _ turn ih =>
  rintro ⟨hempty, taskCore, hturn, j, hij, hj, hlow⟩
  -- what is behind an empty partition is empty
  have hbehind : (beforeTurn compiler taskCores subnodeOffset turn).partitions[j]? = some [] := by
    have hlt : j < (beforeTurn compiler taskCores subnodeOffset turn).partitions.length := by
      rw [beforeTurn_length]
      exact hj
    by_contra hne
    obtain ⟨before, hbefore, core, hcore, -, hfirst⟩ := (mem_placed_iff hmanagers turn j).1
      ((mem_placed_iff_ne_nil hmanagers turn j).2 ⟨_, List.getElem?_eq_getElem hlt, fun hnil => hne
        (by rw [List.getElem?_eq_getElem hlt, hnil])⟩)
    refine ih before hbefore i ⟨?_, core, hcore, j, hij, hj,
      fun p hp => hfirst p (by omega) (by omega)⟩
    have hi : i < (beforeTurn compiler taskCores subnodeOffset before).partitions.length := by
      rw [beforeTurn_length]
      omega
    by_contra hnot
    obtain ⟨first, hlt', hprefers⟩ := (mem_placed_iff hmanagers before i).1
      ((mem_placed_iff_ne_nil hmanagers before i).2 ⟨_, List.getElem?_eq_getElem hi, fun hnil => hnot
        (by rw [List.getElem?_eq_getElem hi, hnil])⟩)
    obtain ⟨part, hpart, hfull⟩ := (mem_placed_iff_ne_nil hmanagers turn i).1
      ((mem_placed_iff hmanagers turn i).2 ⟨first, by omega, hprefers⟩)
    exact hfull (Option.some.inj (hpart.symm.trans hempty))
  have hcore : taskCore ∈ subnodeTaskCores compiler taskCores :=
    (List.perm_insertionSort _ _).mem_iff.1 (List.mem_of_getElem? hturn)
  have hbound : numPartitions compiler taskCores ≤ compiler.numManagers - 1 := Nat.min_le_right _ _
  have hpenalty : commPenalty compiler ((multiNodeJobs compiler taskCores).map TaskCore.tuid)
      subnodeOffset (beforeTurn compiler taskCores subnodeOffset turn) taskCore j
      = commPenalty compiler ((multiNodeJobs compiler taskCores).map TaskCore.tuid)
        subnodeOffset (beforeTurn compiler taskCores subnodeOffset turn) taskCore i := by
    refine List.countP_congr fun upstream hupstream => ?_
    obtain ⟨hnotmnj, hnone⟩ := hlocal taskCore hcore upstream hupstream
    unfold managerIdxForParent
    cases hfind : (beforeTurn compiler taskCores subnodeOffset turn).placedPartitions.find?
        fun entry => entry.1 = upstream with
    | none => simp only [hnotmnj, if_false, hnone]
    | some entry =>
      -- the parent is on the manager of a partition that is not empty
      have hplaced : entry.2 ∈ (beforeTurn compiler taskCores subnodeOffset
          turn).placedPartitions.map Prod.snd := List.mem_map_of_mem (List.mem_of_find?_eq_some hfind)
      obtain ⟨part, hpart, hne⟩ := (mem_placed_iff_ne_nil hmanagers turn entry.2).1 hplaced
      have hlt := (List.getElem?_eq_some_iff.1 hpart).1
      rw [beforeTurn_length] at hlt
      have hother : ∀ p < numPartitions compiler taskCores,
          (beforeTurn compiler taskCores subnodeOffset turn).partitions[p]? = some [] →
          subnodeManagerIdxForPartition entry.2 subnodeOffset (compiler.numManagers - 1)
            ≠ subnodeManagerIdxForPartition p subnodeOffset (compiler.numManagers - 1) := by
        intro p hp hpempty heq
        rw [subnodeManagerIdxForPartition_inj (by omega) (by omega) heq] at hpart
        exact hne (Option.some.inj (hpart.symm.trans hpempty))
      simp only [ManagerIdx.nodeIdx, ne_eq, hother j hj hbehind, hother i (by omega) hempty,
        not_false_eq_true]
  refine absurd (hlow i le_rfl) (not_lt.2 (le_of_lt ?_))
  unfold turnKey candidateKey
  simp only [hpenalty, beforeTurn_load turn i hempty, beforeTurn_load turn j hbehind]
  simp only [Prod.Lex.toLex_lt_toLex, lt_irrefl, true_and, false_or, hij]

end Turns

end Gaps

/-! ## Managers -/

section Placed

theorem placeAll_of_mem (tuidToManagerQ : Tuid → Option ManagerIdx)
    {placed : List (Tuid × ManagerIdx)} (hnodup : (placed.map Prod.fst).Nodup)
    {entry : Tuid × ManagerIdx} (h : entry ∈ placed) :
    placeAll tuidToManagerQ placed entry.1 = some entry.2 := by
  induction placed generalizing tuidToManagerQ with
  | nil => exact absurd h List.not_mem_nil
  | cons first rest ih =>
    rw [List.map_cons, List.nodup_cons] at hnodup
    rcases List.mem_cons.1 h with rfl | h
    · have hrest := placeAll_of_notMem (Function.update tuidToManagerQ entry.1 (some entry.2))
        hnodup.1
      exact hrest.trans (Function.update_self ..)
    · exact ih _ hnodup.2 h

theorem subnode_managers_nodup {numSubnodeManagers subnodeOffset n : ℕ} (hn : n ≤ numSubnodeManagers) :
    ((List.range' 0 n).map fun partIdx => ManagerIdx.subnode
      (subnodeManagerIdxForPartition partIdx subnodeOffset numSubnodeManagers)).Nodup := by
  refine List.Nodup.map_on ?_ List.nodup_range'
  intro i hi j hj heq
  rw [List.mem_range'_1] at hi hj
  have hmod : (subnodeOffset + i) % numSubnodeManagers = (subnodeOffset + j) % numSubnodeManagers :=
    ManagerIdx.subnode.inj heq
  have hsame : i % numSubnodeManagers = j % numSubnodeManagers :=
    Nat.ModEq.add_left_cancel' subnodeOffset hmod
  rwa [Nat.mod_eq_of_lt (by omega), Nat.mod_eq_of_lt (by omega)] at hsame

theorem heftyPartition_length (compiler : ClientCompiler K) (taskCores : List (TaskCore V))
    (subnodeOffset : ℕ) :
    (heftyPartition compiler taskCores subnodeOffset).length ≤ compiler.numManagers - 1 := by
  rw [heftyPartition]
  refine (List.rdropWhile_prefix _ _).length_le.trans ?_
  rw [foldl_placeTask_length]
  simp only [Partitions.empty, List.length_replicate]
  exact Nat.min_le_right _ _

end Placed

/-! ## Routes -/

section Routes

theorem flatMap_eq_of_unique {α β : Type} {l : List α} {f : α → List β} {t : α} (ht : t ∈ l)
    (hnodup : l.Nodup) (hf : ∀ c ∈ l, c ≠ t → f c = []) : l.flatMap f = f t := by
  induction l with
  | nil => exact absurd ht List.not_mem_nil
  | cons c l ih =>
    rw [List.nodup_cons] at hnodup
    rw [List.flatMap_cons]
    rcases List.mem_cons.1 ht with rfl | ht
    · have hnil : l.flatMap f = [] := by
        rw [List.flatMap_eq_nil_iff]
        intro c hc
        exact hf c (List.mem_cons_of_mem _ hc) fun heq => hnodup.1 (heq ▸ hc)
      rw [hnil, List.append_nil]
    · have hc : f c = [] := hf c List.mem_cons_self fun heq => hnodup.1 (heq ▸ ht)
      rw [hc, List.nil_append]
      exact ih ht hnodup.2 fun c hc => hf c (List.mem_cons_of_mem _ hc)

/-- What has one of some keys is counted key by key. -/
theorem length_flatMap_filter {α κ : Type} [DecidableEq κ] (l : List α) (f : α → κ) {keys : List κ}
    (hnodup : keys.Nodup) :
    (keys.flatMap fun key => l.filter fun x => f x = key).length
      = (l.filter fun x => f x ∈ keys).length := by
  induction keys with
  | nil =>
    simp
  | cons key keys ih =>
    rw [List.nodup_cons] at hnodup
    rw [List.flatMap_cons, List.length_append, ih hnodup.2]
    clear ih
    induction l with
    | nil => rfl
    | cons x l ih =>
      by_cases hx : f x = key
      · have hnot : f x ∉ keys := hx ▸ hnodup.1
        rw [List.filter_cons_of_pos (by simp [hx]), List.filter_cons_of_neg (by simp [hnot]),
          List.filter_cons_of_pos (by simp [hx]), List.length_cons, List.length_cons, ← ih]
        omega
      · by_cases hmem : f x ∈ keys
        · rw [List.filter_cons_of_neg (by simp [hx]), List.filter_cons_of_pos (by simp [hmem]),
            List.filter_cons_of_pos (by simp [hmem]), List.length_cons, List.length_cons, ← ih]
          omega
        · rw [List.filter_cons_of_neg (by simp [hx]), List.filter_cons_of_neg (by simp [hmem]),
            List.filter_cons_of_neg (by simp [hx, hmem]), ih]

/-- The dependencies of a task on the tasks of the batch are the ways in which these notify it. -/
theorem notificationRoutes_length (tuidToManagerQ : Tuid → Option ManagerIdx)
    {taskCores : List (TaskCore V)} (hnodup : (taskCores.map TaskCore.tuid).Nodup)
    {taskCore : TaskCore V} (hcore : taskCore ∈ taskCores) :
    (taskCores.flatMap fun upstream =>
        (notificationRoutes tuidToManagerQ taskCores upstream.tuid).filter
          fun route => route.downstreamTuid = taskCore.tuid).length
      = (taskCore.dependencies.filter
          fun dep => dep.upstreamTuid ∈ taskCores.map TaskCore.tuid).length := by
  have hroutes : ∀ upstream : Tuid, ((notificationRoutes tuidToManagerQ taskCores upstream).filter
      fun route => route.downstreamTuid = taskCore.tuid).length
        = (taskCore.dependencies.filter fun dep => dep.upstreamTuid = upstream).length := by
    intro upstream
    rw [notificationRoutes, List.filter_flatMap,
      flatMap_eq_of_unique hcore (List.Nodup.of_map _ hnodup)]
    · rw [List.filter_map, List.length_map]
      congr 1
      refine List.filter_eq_self.2 fun dep _ => ?_
      simp
    · intro other hother hne
      have htuid : other.tuid ≠ taskCore.tuid := fun heq =>
        hne (List.inj_on_of_nodup_map hnodup hother hcore heq)
      simp [List.filter_map, Function.comp_def, htuid]
  rw [← length_flatMap_filter _ LogicalDependency.upstreamTuid hnodup, List.length_flatMap,
    List.length_flatMap, List.map_map]
  congr 1
  apply List.map_congr_left
  intro upstream _
  exact hroutes upstream.tuid

end Routes

/-! ## The compiled batch -/

section Compiled

/-- What a `compile` that returns has made of the task cores. -/
structure Compiles (compiler compiler' : ClientCompiler K) (taskCores : List (TaskCore V))
    (clientId subnodeOffset : ℕ) (routed : TaskCore V → TaskCore V)
    (compiled : CompiledTask K V) : Prop where
  managers : 2 ≤ compiler.numManagers
  queues : compiler'.tuidToManagerQ = placeAll compiler.tuidToManagerQ (placements compiler
    subnodeOffset (heftyPartition compiler taskCores subnodeOffset)
    (multiNodeJobs compiler taskCores))
  found : missingUpstream compiler'.tuidToManagerQ taskCores = none
  routed_eq : routed = route compiler'.tuidToManagerQ compiled.tuid taskCores
  same : compiler'.numManagers = compiler.numManagers ∧
    compiler'.physicalCoresPerNode = compiler.physicalCoresPerNode
  tasks : compiled.tasks.map Task.core = taskCores.map routed
  subnode : compiled.subnodeWorkChunks =
    (heftyPartition compiler taskCores subnodeOffset).zipIdx.map fun entry =>
      Work.new (entry.1.map routed) clientId compiled.tuid
        (.subnode (subnodeManagerIdxForPartition entry.2 subnodeOffset (compiler.numManagers - 1)))
  mnj : compiled.mnjWorkChunk =
    if multiNodeJobs compiler taskCores = [] then none
    else some (Work.new ((multiNodeJobs compiler taskCores).map routed) clientId compiled.tuid
      .scheduler)

theorem compiles_of_ok [DecidableEq K] {compiler compiler' : ClientCompiler K}
    {tasks : List (Task K V)} {clientId subnodeOffset : ℕ} {compiled : CompiledTask K V}
    (hok : compile compiler tasks clientId subnodeOffset = .ok (compiler', compiled)) :
    ∃ routed, Compiles compiler compiler' (compiledCores compiler tasks) clientId subnodeOffset
      routed compiled := by
  have hlength : (assignHeftWeights ((compileTasks compiler.depFrontier tasks).2.map
      Task.core)).length = (compileTasks compiler.depFrontier tasks).2.length := by
    rw [assignHeftWeights_length, List.length_map]
  rw [compiledCores]
  rw [compile] at hok
  split at hok
  next => exact nomatch hok
  next =>
    generalize compileTasks compiler.depFrontier tasks = result at hok hlength ⊢
    obtain ⟨depFrontier, tasks'⟩ := result
    simp only [] at hok hlength ⊢
    generalize assignHeftWeights (tasks'.map Task.core) = cores at hok hlength ⊢
    split at hok
    next => exact nomatch hok
    next hmanagers =>
      split at hok
      next => exact nomatch hok
      next hmissing =>
        injection hok with hok
        injection hok with hcompiler hcompiled
        subst hcompiler
        subst hcompiled
        refine ⟨_, ⟨by omega, rfl, hmissing, rfl, ⟨rfl, rfl⟩, ?_, rfl, rfl⟩⟩
        -- the tasks get the cores one by one
        have hzip : ∀ f : TaskCore V → TaskCore V,
            (tasks'.zip cores).map (f ∘ Prod.snd) = cores.map f := by
          intro f
          rw [← List.map_map, List.map_snd_zip hlength.le]
        simp only [List.map_map]
        exact hzip (route (placeAll compiler.tuidToManagerQ (placements compiler subnodeOffset
          (heftyPartition compiler cores subnodeOffset) (multiNodeJobs compiler cores)))
          ⟨clientId, compiler.compiledTaskCtr⟩ cores)

variable {compiler compiler' : ClientCompiler K} {taskCores : List (TaskCore V)}
  {clientId subnodeOffset : ℕ} {routed : TaskCore V → TaskCore V} {compiled : CompiledTask K V}

namespace Compiles

theorem routed_tuid (h : Compiles compiler compiler' taskCores clientId subnodeOffset routed
    compiled) (taskCore : TaskCore V) : (routed taskCore).tuid = taskCore.tuid := by
  rw [h.routed_eq]
  rfl

theorem routed_isMultiNodeJob (h : Compiles compiler compiler' taskCores clientId subnodeOffset
    routed compiled) (taskCore : TaskCore V) (cores : ℕ) :
    isMultiNodeJob (routed taskCore) cores = isMultiNodeJob taskCore cores := by
  rw [h.routed_eq]
  rfl

theorem routed_managerIdx (h : Compiles compiler compiler' taskCores clientId subnodeOffset routed
    compiled) (taskCore : TaskCore V) :
    (routed taskCore).managerIdx = compiler'.tuidToManagerQ taskCore.tuid := by
  rw [h.routed_eq]
  rfl

theorem placed (h : Compiles compiler compiler' taskCores clientId subnodeOffset routed compiled)
    (hnodup : (taskCores.map TaskCore.tuid).Nodup) {tuid : Tuid} {managerIdx : ManagerIdx}
    (hentry : (tuid, managerIdx) ∈ placements compiler subnodeOffset
      (heftyPartition compiler taskCores subnodeOffset) (multiNodeJobs compiler taskCores)) :
    compiler'.tuidToManagerQ tuid = some managerIdx := by
  rw [h.queues]
  exact placeAll_of_mem _ ((placements_perm h.managers taskCores subnodeOffset).nodup_iff.2 hnodup)
    hentry

theorem chunks_perm (h : Compiles compiler compiler' taskCores clientId subnodeOffset routed
    compiled) : (compiled.chunks.flatMap Work.taskCores).Perm (compiled.tasks.map Task.core) := by
  rw [CompiledTask.chunks, List.flatMap_append, h.tasks, h.subnode]
  have hsubnode := (flatMap_new_taskCores routed clientId compiled.tuid (fun partIdx => .subnode
    (subnodeManagerIdxForPartition partIdx subnodeOffset (compiler.numManagers - 1)))
    (heftyPartition compiler taskCores subnodeOffset) 0).trans
    ((heftyPartition_perm h.managers taskCores subnodeOffset).map routed)
  have hmnj : (compiled.mnjWorkChunk.toList.flatMap Work.taskCores).Perm
      ((multiNodeJobs compiler taskCores).map routed) := by
    rw [h.mnj]
    split
    next hnil =>
      rw [hnil]
      exact List.Perm.refl _
    next =>
      rw [Option.toList_some, List.flatMap_cons, List.flatMap_nil, List.append_nil]
      exact Work.new_taskCores _ _ _ _
  refine (hsubnode.append hmnj).trans ?_
  rw [← List.map_append]
  apply List.Perm.map
  have hfilter := List.filter_append_perm
    (fun taskCore => isMultiNodeJob taskCore compiler.physicalCoresPerNode) taskCores
  refine List.perm_append_comm.trans ?_
  simpa [multiNodeJobs, subnodeTaskCores] using hfilter

theorem subnode_chunk (h : Compiles compiler compiler' taskCores clientId subnodeOffset routed
    compiled) (hnodup : (taskCores.map TaskCore.tuid).Nodup) {work : Work V}
    (hwork : work ∈ compiled.subnodeWorkChunks) :
    (∃ idx < compiler'.numManagers - 1, work.managerIdx = .subnode idx) ∧
    ∀ taskCore ∈ work.taskCores, isMultiNodeJob taskCore compiler'.physicalCoresPerNode = false ∧
      taskCore.managerIdx = some work.managerIdx := by
  rw [h.subnode] at hwork
  obtain ⟨⟨part, partIdx⟩, hpart, rfl⟩ := List.mem_map.1 hwork
  have hmanagers := h.managers
  refine ⟨⟨_, ?_, rfl⟩, ?_⟩
  · rw [h.same.1]
    exact Nat.mod_lt _ (by omega)
  · intro taskCore hcore
    obtain ⟨core, hin, rfl⟩ := List.mem_map.1 ((Work.new_taskCores _ _ _ _).mem_iff.1 hcore)
    have hflat : core ∈ (heftyPartition compiler taskCores subnodeOffset).flatten :=
      List.mem_flatten.2 ⟨part, List.fst_mem_of_mem_zipIdx hpart, hin⟩
    have hsub := (heftyPartition_perm h.managers taskCores subnodeOffset).mem_iff.1 hflat
    have hkind := of_decide_eq_true (List.mem_filter.1 hsub).2
    refine ⟨?_, ?_⟩
    · rw [h.routed_isMultiNodeJob, h.same.2]
      exact Bool.eq_false_iff.2 hkind
    · rw [h.routed_managerIdx]
      refine h.placed hnodup (List.mem_append_left _ ?_)
      exact List.mem_flatMap.2 ⟨_, hpart, List.mem_map_of_mem hin⟩

theorem scheduler_chunk (h : Compiles compiler compiler' taskCores clientId subnodeOffset routed
    compiled) (hnodup : (taskCores.map TaskCore.tuid).Nodup) {work : Work V}
    (hwork : work ∈ compiled.mnjWorkChunk) :
    work.managerIdx = .scheduler ∧ work.taskCores ≠ [] ∧
    ∀ taskCore ∈ work.taskCores, isMultiNodeJob taskCore compiler'.physicalCoresPerNode = true ∧
      taskCore.managerIdx = some .scheduler := by
  rw [h.mnj] at hwork
  split at hwork
  · exact absurd hwork (Option.not_mem_none _)
  · rename_i hne
    obtain rfl := Option.some.inj hwork
    refine ⟨rfl, ?_, ?_⟩
    · rw [Ne, Work.new_eq_nil_iff, List.map_eq_nil_iff]
      exact hne
    · intro taskCore hcore
      obtain ⟨core, hin, rfl⟩ := List.mem_map.1 ((Work.new_taskCores _ _ _ _).mem_iff.1 hcore)
      refine ⟨?_, ?_⟩
      · rw [h.routed_isMultiNodeJob, h.same.2]
        exact (List.mem_filter.1 hin).2
      · rw [h.routed_managerIdx]
        refine h.placed hnodup (List.mem_append_right _ ?_)
        exact List.mem_map_of_mem hin

theorem managers_nodup (h : Compiles compiler compiler' taskCores clientId subnodeOffset routed
    compiled) : (compiled.chunks.map Work.managerIdx).Nodup := by
  have hsubnode : compiled.subnodeWorkChunks.map Work.managerIdx =
      (List.range' 0 (heftyPartition compiler taskCores subnodeOffset).length).map
        fun partIdx => ManagerIdx.subnode (subnodeManagerIdxForPartition partIdx subnodeOffset
          (compiler.numManagers - 1)) := by
    rw [h.subnode, List.map_map, ← List.zipIdx_map_snd, List.map_map]
    rfl
  rw [CompiledTask.chunks, List.map_append, hsubnode]
  refine List.nodup_append.2 ⟨subnode_managers_nodup (heftyPartition_length _ _ _), ?_, ?_⟩
  · cases compiled.mnjWorkChunk with
    | none => exact List.nodup_nil
    | some work => exact List.nodup_singleton _
  · intro idx hidx idx' hidx'
    obtain ⟨partIdx, -, rfl⟩ := List.mem_map.1 hidx
    obtain ⟨work, hwork, rfl⟩ := List.mem_map.1 hidx'
    rw [h.mnj] at hwork
    split at hwork
    · exact absurd hwork List.not_mem_nil
    · rw [Option.toList_some, List.mem_singleton] at hwork
      rw [hwork]
      exact nofun

theorem routes_count (h : Compiles compiler compiler' taskCores clientId subnodeOffset routed
    compiled) (hnodup : (taskCores.map TaskCore.tuid).Nodup)
    (hcounted : ∀ taskCore ∈ taskCores, Counted taskCore) {task : Task K V}
    (htask : task ∈ compiled.tasks) :
    (compiled.routesTo task.core.tuid).length + task.core.upstreamRoutes.length
      = task.core.numDepTot := by
  have hmem : task.core ∈ taskCores.map routed := h.tasks ▸ List.mem_map_of_mem htask
  obtain ⟨taskCore, hcore, heq⟩ := List.mem_map.1 hmem
  have hroutes : compiled.routesTo task.core.tuid = taskCores.flatMap fun upstream =>
      (notificationRoutes compiler'.tuidToManagerQ taskCores upstream.tuid).filter
        fun route => route.downstreamTuid = taskCore.tuid := by
    have hmap : compiled.routesTo task.core.tuid = (compiled.tasks.map Task.core).flatMap
        fun core => core.downstreamRoutes.filter
          fun route => route.downstreamTuid = task.core.tuid := by
      rw [CompiledTask.routesTo, List.flatMap_map]
    rw [hmap, h.tasks, List.flatMap_map, ← heq, h.routed_tuid]
    simp only [h.routed_eq, route]
  rw [hroutes, notificationRoutes_length _ hnodup hcore, ← heq]
  have hupstream : (routed taskCore).upstreamRoutes.length = (taskCore.dependencies.filter
      fun dep => dep.upstreamTuid ∉ taskCores.map TaskCore.tuid).length := by
    simp only [h.routed_eq, route, requestRoutes, List.length_map]
  have hcount : (routed taskCore).numDepTot = taskCore.dependencies.length := by
    rw [h.routed_eq]
    exact hcounted taskCore hcore
  rw [hupstream, hcount]
  conv_rhs => rw [List.length_eq_length_filter_add
    (fun dep : LogicalDependency => decide (dep.upstreamTuid ∈ taskCores.map TaskCore.tuid))]
  simp only [decide_not]

/-- A notification goes to the manager of the task that waits for it. -/
theorem notified (h : Compiles compiler compiler' taskCores clientId subnodeOffset routed compiled)
    (hnodup : (taskCores.map TaskCore.tuid).Nodup) {task : Task K V} (htask : task ∈ compiled.tasks)
    {route : DependencyNotificationRoute} (hroute : route ∈ task.core.downstreamRoutes) :
    ∃ downstream ∈ compiled.tasks, downstream.core.tuid = route.downstreamTuid ∧
      downstream.core.managerIdx = some route.queue := by
  have hmem : task.core ∈ taskCores.map routed := h.tasks ▸ List.mem_map_of_mem htask
  obtain ⟨taskCore, -, heq⟩ := List.mem_map.1 hmem
  rw [← heq, h.routed_eq] at hroute
  obtain ⟨downstream, hdown, hin⟩ := List.mem_flatMap.1 hroute
  obtain ⟨dep, -, rfl⟩ := List.mem_map.1 hin
  have hrouted : routed downstream ∈ compiled.tasks.map Task.core :=
    h.tasks ▸ List.mem_map_of_mem hdown
  obtain ⟨task', htask', hcore'⟩ := List.mem_map.1 hrouted
  refine ⟨task', htask', ?_, ?_⟩
  · rw [hcore', h.routed_tuid]
  · have hplaced := (placements_perm h.managers taskCores subnodeOffset).mem_iff.2
      (List.mem_map_of_mem (f := TaskCore.tuid) hdown)
    obtain ⟨⟨tuid, idx⟩, hentry, htuid⟩ := List.mem_map.1 hplaced
    have hq := h.placed hnodup hentry
    rw [show tuid = downstream.tuid from htuid] at hq
    rw [hcore', h.routed_managerIdx, hq]
    rfl

/-- A request goes to the manager of the task that is asked for. -/
theorem requested (h : Compiles compiler compiler' taskCores clientId subnodeOffset routed compiled)
    {task : Task K V} (htask : task ∈ compiled.tasks)
    {route : DependencyRequestRoute} (hroute : route ∈ task.core.upstreamRoutes) :
    compiler.tuidToManagerQ route.upstreamTuid = some route.queue := by
  have hmem : task.core ∈ taskCores.map routed := h.tasks ▸ List.mem_map_of_mem htask
  obtain ⟨taskCore, hcore, heq⟩ := List.mem_map.1 hmem
  rw [← heq, h.routed_eq] at hroute
  obtain ⟨dep, hdep, rfl⟩ := List.mem_map.1 hroute
  obtain ⟨hin, hnot⟩ := List.mem_filter.1 hdep
  have hnot' := of_decide_eq_true hnot
  -- the task is not of this batch, and was found
  have hold : compiler'.tuidToManagerQ dep.upstreamTuid
      = compiler.tuidToManagerQ dep.upstreamTuid := by
    rw [h.queues]
    refine placeAll_of_notMem _ fun hmem => hnot' ?_
    exact (placements_perm h.managers taskCores subnodeOffset).mem_iff.1 hmem
  have hfound := h.found
  rw [missingUpstream, List.find?_eq_none] at hfound
  have hsome := hfound (dep.upstreamTuid, taskCore.tuid)
    (List.mem_flatMap.2 ⟨taskCore, hcore, List.mem_map_of_mem hin⟩)
  rw [Bool.not_eq_true, Option.isNone_eq_false_iff, Option.isSome_iff_exists] at hsome
  obtain ⟨queue, hqueue⟩ := hsome
  show compiler.tuidToManagerQ dep.upstreamTuid
    = some ((compiler'.tuidToManagerQ dep.upstreamTuid).getD .scheduler)
  rw [← hold, hqueue]
  rfl

end Compiles

/-- A client's tasks: a function, one that takes its result, and one that takes the result of that.
-/
def chainTask (seq : ℕ) : Task ℕ ℕ :=
  Task.new ⟨0, seq⟩ ⟨.function, if seq = 0 then [[]] else [[.task ⟨0, seq - 1⟩]], [], []⟩

/-- The compiler with two subnode managers that has placed the first task on the second one. -/
def chainCompiler : ClientCompiler ℕ :=
  match compile (⟨3, 4, 0, fun _ => none, fun _ => none⟩ : ClientCompiler ℕ) [chainTask 0] 0 1 with
  | .ok (compiler, _) => compiler
  | .error _ => ⟨3, 4, 0, fun _ => none, fun _ => none⟩

end Compiled

end Batch
