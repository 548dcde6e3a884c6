/-
# Tasks of a batch (`dragon/workflows/batch/batch.py`)

A client creates tasks, one after the other, and declares for each which keys of which
objects it reads and writes; an argument of a task may be an earlier task, whose result
takes its place before the task is launched.

Conventions:

* the id `f"{client_id}-{task_seq}"` of a task is the pair of its two numbers;
* a manager queue is known by the index of its manager;
* an object that tasks access is known by its identity, and tasks that refer to each other
  do so by their ids;
* the result of a task is kept under its id alone: the shard of the results dictionary that
  holds it is left out.
-/
import Mathlib

namespace Batch

/-! ## Names and enumerations -/

/-- The id of a task: its client, and its number among the tasks of that client. -/
structure Tuid where
  clientId : ℕ
  seq : ℕ
  deriving DecidableEq, Repr

def Tuid.text (tuid : Tuid) : String := toString tuid.clientId ++ "-" ++ toString tuid.seq

/-- The id `f"compiled-{client_id}-{ctr}"` of a compiled task. -/
structure CompiledTuid where
  clientId : ℕ
  ctr : ℕ
  deriving DecidableEq, Repr

/-- A manager: the scheduler has index `-1`, the subnode managers `0..n-1`. -/
inductive ManagerIdx : Type where
  | scheduler
  | subnode (idx : ℕ)
  deriving DecidableEq, Repr

/-- `AccessType`. -/
inductive AccessType : Type where
  | read
  | write
  deriving DecidableEq, Repr

/-- `DependencyOrigin`. -/
inductive DependencyOrigin : Type where
  | argument
  | dataAccess
  deriving DecidableEq, Repr

/-- `TaskCancellationReason`. -/
inductive TaskCancellationReason : Type where
  | none
  | userRequested
  | upstreamRawFailure
  deriving DecidableEq, Repr

/-- The hostnames, in the order of their names. -/
abbrev Hostname : Type := ℕ

/-! ## Dependencies and routes -/

/-- `ArgDepUpdate`: the position of an argument. -/
structure ArgDepUpdate where
  templateIdx : ℕ
  argIdx : ℕ
  deriving DecidableEq, Repr

/-- `LogicalDependency`: recorded with the downstream task. -/
structure LogicalDependency where
  upstreamTuid : Tuid
  argDepUpdates : List ArgDepUpdate
  origin : DependencyOrigin
  isRaw : Bool
  deriving DecidableEq, Repr

/-- `DependencyNotificationRoute`: where an upstream task reports its completion. -/
structure DependencyNotificationRoute where
  queue : ManagerIdx
  downstreamTuid : Tuid
  argDepUpdates : List ArgDepUpdate
  isRaw : Bool
  deriving DecidableEq, Repr

/-- `DependencyRequestRoute`: where the completion of an upstream task is asked for. -/
structure DependencyRequestRoute where
  queue : ManagerIdx
  upstreamTuid : Tuid
  argDepUpdates : List ArgDepUpdate
  isRaw : Bool
  deriving DecidableEq, Repr

/-! ## Task cores -/

/-- The placement policy of a process template: `HOST_NAME`, with the name if there is one,
or any other. -/
inductive TemplatePolicy : Type where
  | other
  | hostName (hostName : Option Hostname)
  deriving DecidableEq, Repr

/-- A `FunctionCore`, or a `JobCore` with its number of processes. -/
inductive TaskKind : Type where
  | function
  | job (numProcs : ℕ) (isParallel : Bool) (policies : List TemplatePolicy)
  deriving DecidableEq, Repr

/-- `TaskCore`: what is sent to the managers.  The arguments stand in one list for each
process template (one list for a function), with `none` in the place of a task. -/
structure TaskCore (V : Type) where
  tuid : Tuid
  clientId : ℕ
  kind : TaskKind
  argLists : List (List (Option V))
  managerIdx : Option ManagerIdx
  compiledTuid : Option CompiledTuid
  downstreamRoutes : List DependencyNotificationRoute
  upstreamRoutes : List DependencyRequestRoute
  dependencies : List LogicalDependency
  numDepSat : ℕ
  numDepTot : ℕ
  weight : ℕ
  heftTopoOrder : ℕ
  isCancelled : TaskCancellationReason
  cancelSourceTuid : Option Tuid
  cachedQueue : Option ℕ
  hostnameList : Option (List Hostname)
  deriving DecidableEq

/-- `_is_multi_node_job`. -/
def isMultiNodeJob {V : Type} (taskCore : TaskCore V) (physicalCoresPerNode : ℕ) : Bool :=
  match taskCore.kind with
  | .function => false
  | .job numProcs _ _ => physicalCoresPerNode < numProcs

/-- `Work`: the tasks of one manager in a compiled task. -/
structure Work (V : Type) where
  clientId : ℕ
  managerIdx : ManagerIdx
  readyTaskCores : List (TaskCore V)
  blockedTaskCores : List (TaskCore V)
  compiledTuid : CompiledTuid
  deriving DecidableEq

/-- `Work.__init__`: the tasks with no dependencies, and the others. -/
def Work.new {V : Type} (taskSet : List (TaskCore V)) (clientId : ℕ) (compiledTuid : CompiledTuid)
    (managerIdx : ManagerIdx) : Work V where
  clientId := clientId
  managerIdx := managerIdx
  readyTaskCores := taskSet.filter fun taskCore => taskCore.numDepTot = 0
  blockedTaskCores := taskSet.filter fun taskCore => ¬ taskCore.numDepTot = 0
  compiledTuid := compiledTuid

/-! ## Declared accesses

`accesses` is a Python dictionary: an assignment to a key that is there keeps its place. -/

/-- `(id(kvs), key)`. -/
abbrev AccessKey (K : Type) : Type := ℕ × K

/-- `DataAccess`. -/
structure DataAccess (K : Type) where
  accessType : AccessType
  kvs : ℕ
  keys : List K

/-- The assignment `d[key] = value`. -/
def dictAssign {κ α : Type} [DecidableEq κ] : List (κ × α) → κ → α → List (κ × α)
  | [], key, value => [(key, value)]
  | entry :: rest, key, value =>
    if entry.1 = key then (key, value) :: rest else entry :: dictAssign rest key value

/-- One turn of the loop of `_access`. -/
def accessStep {K : Type} [DecidableEq K] (accessType : AccessType)
    (accesses : List (AccessKey K × AccessType)) (accessKey : AccessKey K) :
    List (AccessKey K × AccessType) :=
  match accesses.find? fun entry => entry.1 = accessKey with
  | some (_, .write) => accesses
  | _ => dictAssign accesses accessKey accessType

/-- `Task._access`. -/
def access {K : Type} [DecidableEq K] (accesses : List (AccessKey K × AccessType))
    (dataAccess : DataAccess K) : List (AccessKey K × AccessType) :=
  (dataAccess.keys.map fun key => (dataAccess.kvs, key)).foldl
    (accessStep dataAccess.accessType) accesses

/-! ## Task arguments -/

/-- An argument of a task: a value, or a task whose result takes its place. -/
inductive TaskArg (V : Type) : Type where
  | value (v : V)
  | task (tuid : Tuid)
  deriving DecidableEq

/-- The argument that is sent to the manager. -/
def TaskArg.sanitize {V : Type} : TaskArg V → Option V
  | .value v => some v
  | .task _ => none

/-- The task arguments of the argument lists with their positions, in order. -/
def taskArgPositions {V : Type} (listOfArgLists : List (List (TaskArg V))) :
    List (Tuid × ArgDepUpdate) :=
  listOfArgLists.zipIdx.flatMap fun (args, templateIdx) =>
    args.zipIdx.filterMap fun (arg, idx) =>
      match arg with
      | .value _ => none
      | .task tuid => some (tuid, ⟨templateIdx, idx⟩)

/-- `_handle_arg_passing_deps`: one dependency for each task among the arguments, with all
its positions. -/
def handleArgPassingDeps {V : Type} (listOfArgLists : List (List (TaskArg V))) :
    List LogicalDependency :=
  let positions := taskArgPositions listOfArgLists
  (positions.map Prod.fst).reverse.dedup.reverse.map fun arg =>
    ⟨arg, (positions.filter fun position => position.1 = arg).map Prod.snd, .argument, true⟩

/-! ## Tasks -/

/-- `Task`, as far as the client compiler reads it. -/
structure Task (K V : Type) where
  core : TaskCore V
  accesses : List (AccessKey K × AccessType)

/-- What a client gives for a new task. -/
structure TaskRequest (K V : Type) where
  kind : TaskKind
  listOfArgLists : List (List (TaskArg V))
  reads : List (DataAccess K)
  writes : List (DataAccess K)

/-- `Function.__init__`, `Job.__init__`: the task with a new id. -/
def Task.new {K V : Type} [DecidableEq K] (tuid : Tuid) (request : TaskRequest K V) : Task K V where
  core :=
    { tuid := tuid
      clientId := tuid.clientId
      kind := request.kind
      argLists := request.listOfArgLists.map fun args => args.map TaskArg.sanitize
      managerIdx := none
      compiledTuid := none
      downstreamRoutes := []
      upstreamRoutes := []
      dependencies := handleArgPassingDeps request.listOfArgLists
      numDepSat := 0
      numDepTot := (handleArgPassingDeps request.listOfArgLists).length
      weight := 0
      heftTopoOrder := 0
      isCancelled := .none
      cancelSourceTuid := none
      cachedQueue := none
      hostnameList := none }
  accesses := (request.reads ++ request.writes).foldl access []

/-- `Task._depends_on`. -/
def Task.dependsOn {K V : Type} (task : Task K V) (dep : LogicalDependency) : Task K V :=
  { task with
    core :=
      { task.core with
        numDepTot := task.core.numDepTot + 1
        dependencies := task.core.dependencies ++ [dep] } }

end Batch
