/-
# The client compiler (`ClientCompiler` of `dragon/workflows/batch/batch.py`)

The tasks of a client are compiled in batches.  Compiling a batch records the dependencies
that follow from the declared accesses, places each task on a manager, and builds the routes
along which completions are reported; what later batches need (the last accesses of each
key, and where each task was placed) stays in the compiler until a fence.

Conventions:

* the random offset of the partition is an argument of `compile`;
* the set of tasks of a partition is a list without repetition.
-/
import DragonRuntime.BatchTask

namespace Batch

/-! ## The compiler's state -/

/-- `FrontierInfo`: the last accesses of a key. -/
structure FrontierInfo where
  taskList : List Tuid
  accessType : AccessType
  writeBeforeRead : Option Tuid
  deriving DecidableEq, Repr

/-- `ClientCompiler`. -/
structure ClientCompiler (K : Type) where
  numManagers : ℕ
  physicalCoresPerNode : ℕ
  compiledTaskCtr : ℕ
  depFrontier : AccessKey K → Option FrontierInfo
  tuidToManagerQ : Tuid → Option ManagerIdx

/-- `ClientCompiler.reset`. -/
def ClientCompiler.reset {K : Type} (compiler : ClientCompiler K) : ClientCompiler K :=
  { compiler with depFrontier := fun _ => none, tuidToManagerQ := fun _ => none }

/-- The exceptions of `compile`. -/
inductive CompileError : Type where
  | emptyList
  | noSubnodeManager
  | upstreamNotFound (upstream downstream : Tuid)
  deriving DecidableEq, Repr

/-! ## Dependencies that follow from accesses -/

/-- A dependency of the compiler. -/
def dataAccessDep (upstream : Tuid) (isRaw : Bool) : LogicalDependency :=
  ⟨upstream, [], .dataAccess, isRaw⟩

/-- The dependencies that an access adds to its task, by the frontier of the key. -/
def frontierDeps (accessType : AccessType) : Option FrontierInfo → List LogicalDependency
  | none => []
  | some frontierInfo =>
    match frontierInfo.accessType, accessType with
    | .read, .read =>
      match frontierInfo.writeBeforeRead with
      | some writeBeforeRead => [dataAccessDep writeBeforeRead true]
      | none => []
    | .read, .write => frontierInfo.taskList.map fun prevRead => dataAccessDep prevRead false
    | .write, .read => (frontierInfo.taskList.take 1).map fun prev => dataAccessDep prev true
    | .write, .write => (frontierInfo.taskList.take 1).map fun prev => dataAccessDep prev false

/-- The frontier of the key after an access of task `taskObj`. -/
def frontierNext (taskObj : Tuid) (accessType : AccessType) : Option FrontierInfo → FrontierInfo
  | none =>
    match accessType with
    | .write => ⟨[taskObj], .write, some taskObj⟩
    | .read => ⟨[taskObj], .read, none⟩
  | some frontierInfo =>
    match frontierInfo.accessType, accessType with
    | .read, .read => { frontierInfo with taskList := frontierInfo.taskList ++ [taskObj] }
    | .write, .read => ⟨[taskObj], .read, frontierInfo.writeBeforeRead⟩
    | _, .write => ⟨[taskObj], .write, some taskObj⟩

/-- One turn of the loop of `compile` over the accesses of a task. -/
def compileAccess {K V : Type} [DecidableEq K]
    (state : (AccessKey K → Option FrontierInfo) × Task K V)
    (entry : AccessKey K × AccessType) : (AccessKey K → Option FrontierInfo) × Task K V :=
  (Function.update state.1 entry.1
      (some (frontierNext state.2.core.tuid entry.2 (state.1 entry.1))),
    (frontierDeps entry.2 (state.1 entry.1)).foldl Task.dependsOn state.2)

/-- The loop of `compile` over the accesses of a task. -/
def compileTask {K V : Type} [DecidableEq K] (depFrontier : AccessKey K → Option FrontierInfo)
    (task : Task K V) : (AccessKey K → Option FrontierInfo) × Task K V :=
  task.accesses.foldl compileAccess (depFrontier, task)

/-- The loop of `compile` over the tasks of a batch. -/
def compileTasks {K V : Type} [DecidableEq K] :
    (AccessKey K → Option FrontierInfo) → List (Task K V) →
      (AccessKey K → Option FrontierInfo) × List (Task K V)
  | depFrontier, [] => (depFrontier, [])
  | depFrontier, task :: tasks =>
    let compiled := compileTask depFrontier task
    let rest := compileTasks compiled.1 tasks
    (rest.1, compiled.2 :: rest.2)

/-! ## Weights -/

/-- `_task_compute_cost`. -/
def taskComputeCost {V : Type} (taskCore : TaskCore V) : ℕ :=
  match taskCore.kind with
  | .function => 1
  | .job numProcs isParallel _ => if isParallel then 100 * (if numProcs = 0 then 1 else numProcs) else 1

/-- `assign_heft_weights`, the weights: a task weighs its cost and the heaviest task of the
batch that depends on it. -/
def assignWeights {V : Type} : List (TaskCore V) → List (TaskCore V)
  | [] => []
  | taskCore :: rest =>
    let weighted := assignWeights rest
    let successorWeights := (weighted.filter fun successor =>
      successor.dependencies.any fun dep => dep.upstreamTuid = taskCore.tuid).map TaskCore.weight
    { taskCore with weight := taskComputeCost taskCore + successorWeights.foldr max 0 } :: weighted

/-- `assign_heft_weights`. -/
def assignHeftWeights {V : Type} (taskCores : List (TaskCore V)) : List (TaskCore V) :=
  (assignWeights taskCores).zipIdx.map fun (taskCore, orderIdx) =>
    { taskCore with heftTopoOrder := orderIdx }

/-- `_task_heft_priority_key`. -/
def taskHeftPriorityKey {V : Type} (taskCore : TaskCore V) : ℤ ×ₗ ℕ ×ₗ String :=
  toLex (-(taskCore.weight : ℤ), toLex (taskCore.heftTopoOrder, taskCore.tuid.text))

/-! ## Placement -/

/-- `_subnode_manager_idx_for_partition`. -/
def subnodeManagerIdxForPartition (partIdx subnodeOffset numSubnodeManagers : ℕ) : ℕ :=
  (subnodeOffset + partIdx) % numSubnodeManagers

/-- The node of a manager in the penalty: the scheduler counts as manager `0`. -/
def ManagerIdx.nodeIdx : ManagerIdx → ℕ
  | .scheduler => 0
  | .subnode idx => idx

/-- The partitions that `hefty_partition` fills. -/
structure Partitions (V : Type) where
  partitions : List (List (TaskCore V))
  partitionLoads : List ℕ
  placedPartitions : List (Tuid × ℕ)

section Placement

variable {K V : Type}

/-- `_manager_idx_for_parent`. -/
def managerIdxForParent (compiler : ClientCompiler K) (currentBatchMnjTuids : List Tuid)
    (subnodeOffset : ℕ) (state : Partitions V) (upstreamTuid : Tuid) : Option ManagerIdx :=
  match state.placedPartitions.find? fun entry => entry.1 = upstreamTuid with
  | some (_, placedPartition) =>
    some (.subnode (subnodeManagerIdxForPartition placedPartition subnodeOffset
      (compiler.numManagers - 1)))
  | none =>
    if upstreamTuid ∈ currentBatchMnjTuids then some .scheduler
    else compiler.tuidToManagerQ upstreamTuid

/-- The tasks whose results are arguments. -/
def argParentTuids (taskCore : TaskCore V) : List Tuid :=
  ((taskCore.dependencies.filter fun dep => dep.origin = .argument).map
    LogicalDependency.upstreamTuid).dedup

/-- The number of argument producers on other nodes. -/
def commPenalty (compiler : ClientCompiler K) (currentBatchMnjTuids : List Tuid)
    (subnodeOffset : ℕ) (state : Partitions V) (taskCore : TaskCore V) (partIdx : ℕ) : ℕ :=
  (argParentTuids taskCore).countP fun upstreamTuid =>
    match managerIdxForParent compiler currentBatchMnjTuids subnodeOffset state upstreamTuid with
    | none => false
    | some parent => parent.nodeIdx ≠
        subnodeManagerIdxForPartition partIdx subnodeOffset (compiler.numManagers - 1)

/-- `candidate_key`. -/
def candidateKey (compiler : ClientCompiler K) (currentBatchMnjTuids : List Tuid)
    (subnodeOffset : ℕ) (state : Partitions V) (taskCore : TaskCore V) (partIdx : ℕ) :
    ℕ ×ₗ ℕ ×ₗ ℕ ×ₗ ℕ :=
  let penalty := commPenalty compiler currentBatchMnjTuids subnodeOffset state taskCore partIdx
  let load := state.partitionLoads.getD partIdx 0
  toLex (load + taskComputeCost taskCore + penalty, toLex (penalty, toLex (load, partIdx)))

/-- The best of the partitions up to `n`, by their candidate keys. -/
def bestPartition {α : Type} [LinearOrder α] (key : ℕ → α) : ℕ → ℕ
  | 0 => 0
  | n + 1 =>
    let best := bestPartition key n
    if key (n + 1) < key best then n + 1 else best

/-- One turn of the loop of `hefty_partition`: the task joins the best partition. -/
def placeTask (compiler : ClientCompiler K) (currentBatchMnjTuids : List Tuid)
    (subnodeOffset : ℕ) (state : Partitions V) (taskCore : TaskCore V) : Partitions V :=
  let best := bestPartition
    (candidateKey compiler currentBatchMnjTuids subnodeOffset state taskCore)
    (state.partitions.length - 1)
  { partitions := state.partitions.modify best fun part => part ++ [taskCore]
    partitionLoads := state.partitionLoads.modify best fun load => load + taskComputeCost taskCore
    placedPartitions := (taskCore.tuid, best) :: state.placedPartitions }

/-- The tasks that stay with the scheduler. -/
def multiNodeJobs (compiler : ClientCompiler K) (taskCores : List (TaskCore V)) :
    List (TaskCore V) :=
  taskCores.filter fun taskCore => isMultiNodeJob taskCore compiler.physicalCoresPerNode

/-- The tasks for the subnode managers. -/
def subnodeTaskCores (compiler : ClientCompiler K) (taskCores : List (TaskCore V)) :
    List (TaskCore V) :=
  taskCores.filter fun taskCore => ¬ isMultiNodeJob taskCore compiler.physicalCoresPerNode

/-- The empty partitions: one for each subnode manager, and no more than there are tasks. -/
def Partitions.empty (numPartitions : ℕ) : Partitions V :=
  ⟨List.replicate numPartitions [], List.replicate numPartitions 0, []⟩

/-- `hefty_partition`: only the partitions at the tail are dropped when they are empty. -/
def heftyPartition (compiler : ClientCompiler K) (taskCores : List (TaskCore V))
    (subnodeOffset : ℕ) : List (List (TaskCore V)) :=
  let cores := subnodeTaskCores compiler taskCores
  let currentBatchMnjTuids := (multiNodeJobs compiler taskCores).map TaskCore.tuid
  let ordered := cores.insertionSort fun a b => taskHeftPriorityKey a ≤ taskHeftPriorityKey b
  let placed := ordered.foldl (placeTask compiler currentBatchMnjTuids subnodeOffset)
    (Partitions.empty (min cores.length (compiler.numManagers - 1)))
  placed.partitions.rdropWhile fun part => part.isEmpty

end Placement

/-! ## Routes and work chunks -/

section Compile

variable {K V : Type}

/-- The manager of each task of the batch, by the partition it is in. -/
def placements (compiler : ClientCompiler K) (subnodeOffset : ℕ)
    (subnodePartitions : List (List (TaskCore V))) (mnjPartition : List (TaskCore V)) :
    List (Tuid × ManagerIdx) :=
  (subnodePartitions.zipIdx.flatMap fun (taskSet, partIdx) =>
    taskSet.map fun taskCore => (taskCore.tuid, ManagerIdx.subnode
      (subnodeManagerIdxForPartition partIdx subnodeOffset (compiler.numManagers - 1)))) ++
  mnjPartition.map fun taskCore => (taskCore.tuid, ManagerIdx.scheduler)

/-- `tuid_to_manager_q` after the batch is placed. -/
def placeAll (tuidToManagerQ : Tuid → Option ManagerIdx) (placed : List (Tuid × ManagerIdx)) :
    Tuid → Option ManagerIdx :=
  placed.foldl (fun managerQ entry => Function.update managerQ entry.1 (some entry.2)) tuidToManagerQ

/-- The dependency whose upstream task has no manager, if there is one. -/
def missingUpstream (tuidToManagerQ : Tuid → Option ManagerIdx) (taskCores : List (TaskCore V)) :
    Option (Tuid × Tuid) :=
  (taskCores.flatMap fun taskCore => taskCore.dependencies.map fun dep =>
    (dep.upstreamTuid, taskCore.tuid)).find? fun edge => (tuidToManagerQ edge.1).isNone

/-- The routes of the tasks that depend on `upstream`. -/
def notificationRoutes (tuidToManagerQ : Tuid → Option ManagerIdx) (taskCores : List (TaskCore V))
    (upstream : Tuid) : List DependencyNotificationRoute :=
  taskCores.flatMap fun taskCore =>
    (taskCore.dependencies.filter fun dep => dep.upstreamTuid = upstream).map fun dep =>
      ⟨(tuidToManagerQ taskCore.tuid).getD .scheduler, taskCore.tuid, dep.argDepUpdates, dep.isRaw⟩

/-- The routes to the managers of upstream tasks from earlier batches. -/
def requestRoutes (tuidToManagerQ : Tuid → Option ManagerIdx) (batchTuids : List Tuid)
    (taskCore : TaskCore V) : List DependencyRequestRoute :=
  (taskCore.dependencies.filter fun dep => dep.upstreamTuid ∉ batchTuids).map fun dep =>
    ⟨(tuidToManagerQ dep.upstreamTuid).getD .scheduler, dep.upstreamTuid, dep.argDepUpdates,
      dep.isRaw⟩

/-- A task core of the batch with its manager and its routes. -/
def route (tuidToManagerQ : Tuid → Option ManagerIdx) (compiledTuid : CompiledTuid)
    (taskCores : List (TaskCore V)) (taskCore : TaskCore V) : TaskCore V :=
  { taskCore with
    compiledTuid := some compiledTuid
    managerIdx := tuidToManagerQ taskCore.tuid
    downstreamRoutes := notificationRoutes tuidToManagerQ taskCores taskCore.tuid
    upstreamRoutes := requestRoutes tuidToManagerQ (taskCores.map TaskCore.tuid) taskCore }

/-- A compiled task: its id, the tasks with what `compile` has set in them, and their work
chunks. -/
structure CompiledTask (K V : Type) where
  tuid : CompiledTuid
  tasks : List (Task K V)
  subnodeWorkChunks : List (Work V)
  mnjWorkChunk : Option (Work V)

variable [DecidableEq K]

/-- `ClientCompiler.compile`. -/
def compile (compiler : ClientCompiler K) (tasksToCompile : List (Task K V)) (clientId : ℕ)
    (subnodeOffset : ℕ) : Except CompileError (ClientCompiler K × CompiledTask K V) :=
  if tasksToCompile = [] then .error .emptyList
  else
    let compiledTuid : CompiledTuid := ⟨clientId, compiler.compiledTaskCtr⟩
    let (depFrontier, tasks) := compileTasks compiler.depFrontier tasksToCompile
    let taskCores := assignHeftWeights (tasks.map Task.core)
    if compiler.numManagers - 1 = 0 then .error .noSubnodeManager
    else
      let subnodePartitions := heftyPartition compiler taskCores subnodeOffset
      let mnjPartition := multiNodeJobs compiler taskCores
      let tuidToManagerQ := placeAll compiler.tuidToManagerQ
        (placements compiler subnodeOffset subnodePartitions mnjPartition)
      match missingUpstream tuidToManagerQ taskCores with
      | some (upstream, downstream) => .error (.upstreamNotFound upstream downstream)
      | none =>
        let routed := route tuidToManagerQ compiledTuid taskCores
        .ok
          ({ compiler with
              compiledTaskCtr := compiler.compiledTaskCtr + 1
              depFrontier := depFrontier
              tuidToManagerQ := tuidToManagerQ },
            { tuid := compiledTuid
              tasks := (tasks.zip taskCores).map fun (task, taskCore) =>
                { task with core := routed taskCore }
              subnodeWorkChunks := subnodePartitions.zipIdx.map fun (taskSet, partIdx) =>
                Work.new (taskSet.map routed) clientId compiledTuid
                  (.subnode (subnodeManagerIdxForPartition partIdx subnodeOffset
                    (compiler.numManagers - 1)))
              mnjWorkChunk :=
                if mnjPartition = [] then none
                else some (Work.new (mnjPartition.map routed) clientId compiledTuid .scheduler) })

end Compile

end Batch
