/-
# Data hazards between tasks

Two tasks that access the same key of the same object, at least one of them to write, are
ordered by recorded dependencies, however the tasks are divided into batches.

The compiler keeps for each key only its last accesses, the *frontier*.  A frontier is
*ordered* when every earlier access of the key is in it, or behind the write that it
remembers; then the dependencies on the frontier alone reach all earlier conflicting
accesses (`FrontierOrdered.reaches`), and the next frontier is ordered again
(`FrontierOrdered.next`).
-/
import DragonRuntime.BatchPlacement

namespace Batch

open Relation

/-! ## Declared accesses -/

section Accesses

variable {κ α : Type} [DecidableEq κ]

variable {entries : List (κ × α)}

/-- An assignment to a key that is not there adds an entry at the end; the others keep
their places. -/
theorem dictAssign_of_notMem {key : κ} (value : α) (hkey : key ∉ entries.map Prod.fst) :
    dictAssign entries key value = entries ++ [(key, value)] := by
  induction entries with
  | nil => rfl
  | cons entry rest ih =>
    rw [List.map_cons, List.mem_cons, not_or] at hkey
    rw [dictAssign, if_neg (Ne.symm hkey.1), ih hkey.2]
    rfl

theorem dictAssign_keys {key : κ} (value : α) (hkey : key ∈ entries.map Prod.fst) :
    (dictAssign entries key value).map Prod.fst = entries.map Prod.fst := by
  induction entries with
  | nil => cases hkey
  | cons entry rest ih =>
    by_cases hentry : entry.1 = key
    · rw [dictAssign, if_pos hentry, List.map_cons, List.map_cons, hentry]
    · rw [List.map_cons, List.mem_cons] at hkey
      have hrest : key ∈ rest.map Prod.fst := hkey.resolve_left fun h => hentry h.symm
      rw [dictAssign, if_neg hentry, List.map_cons, List.map_cons, ih hrest]

theorem dictAssign_nodup (key : κ) (value : α) (hnodup : (entries.map Prod.fst).Nodup) :
    ((dictAssign entries key value).map Prod.fst).Nodup := by
  by_cases hkey : key ∈ entries.map Prod.fst
  · rw [dictAssign_keys value hkey]
    exact hnodup
  · rw [dictAssign_of_notMem value hkey, List.map_append]
    apply List.Nodup.append hnodup (List.nodup_singleton key)
    intro key' hmem hnew
    exact hkey (List.mem_singleton.mp hnew ▸ hmem)

theorem mem_dictAssign_self (entries : List (κ × α)) (key : κ) (value : α) :
    (key, value) ∈ dictAssign entries key value := by
  induction entries with
  | nil => exact List.mem_cons_self
  | cons entry rest ih =>
    by_cases hentry : entry.1 = key
    · rw [dictAssign, if_pos hentry]
      exact List.mem_cons_self
    · rw [dictAssign, if_neg hentry]
      exact List.mem_cons_of_mem _ ih

theorem mem_dictAssign_of_ne {key : κ} {entry : κ × α} (value : α) (hne : entry.1 ≠ key)
    (hmem : entry ∈ entries) : entry ∈ dictAssign entries key value := by
  induction entries with
  | nil => cases hmem
  | cons head rest ih =>
    rw [dictAssign]
    split_ifs with hhead
    · rcases List.mem_cons.mp hmem with rfl | hrest
      · exact absurd hhead hne
      · exact List.mem_cons_of_mem _ hrest
    · rcases List.mem_cons.mp hmem with rfl | hrest
      · exact List.mem_cons_self
      · exact List.mem_cons_of_mem _ (ih hrest)

variable {K : Type} [DecidableEq K] {accesses : List (AccessKey K × AccessType)}
  {accessType : AccessType} {key : AccessKey K}

theorem accessStep_nodup (accessType : AccessType) (key : AccessKey K)
    (hnodup : (accesses.map Prod.fst).Nodup) :
    ((accessStep accessType accesses key).map Prod.fst).Nodup := by
  unfold accessStep
  split
  · exact hnodup
  · exact dictAssign_nodup key accessType hnodup

/-- What a set of accesses must say of the declared ones: each declared key is there, and it
is there as a write when it is declared as one. -/
def Records (accesses : List (AccessKey K × AccessType)) (key : AccessKey K)
    (accessType : AccessType) : Prop :=
  (key, AccessType.write) ∈ accesses ∨ (accessType = .read ∧ (key, AccessType.read) ∈ accesses)

theorem accessStep_records_self (accessType : AccessType)
    (accesses : List (AccessKey K × AccessType)) (key : AccessKey K) :
    Records (accessStep accessType accesses key) key accessType := by
  unfold accessStep
  split
  next found hfind =>
    -- a key that is written stays written
    have hmem := List.mem_of_find?_eq_some hfind
    have hkey := List.find?_some hfind
    exact Or.inl (of_decide_eq_true hkey ▸ hmem)
  next =>
    have hmem := mem_dictAssign_self accesses key accessType
    cases accessType with
    | read => exact Or.inr ⟨rfl, hmem⟩
    | write => exact Or.inl hmem

theorem accessStep_records (newType : AccessType) (newKey : AccessKey K)
    (hnodup : (accesses.map Prod.fst).Nodup) (hrec : Records accesses key accessType) :
    Records (accessStep newType accesses newKey) key accessType := by
  by_cases hkey : key = newKey
  · subst hkey
    rcases hrec with hwrite | ⟨htype, hread⟩
    · left
      unfold accessStep
      split
      · exact hwrite
      next hfind =>
        -- the entry of the key is the one that is found
        exfalso
        obtain ⟨found, hfound⟩ : ∃ found,
            accesses.find? (fun entry => decide (entry.1 = key)) = some found :=
          Option.isSome_iff_exists.mp
            (List.find?_isSome.mpr ⟨_, hwrite, decide_eq_true rfl⟩)
        have hmem := List.mem_of_find?_eq_some hfound
        have hsame : found.1 = key := by simpa using List.find?_some hfound
        have hfst : found = (key, AccessType.write) :=
          List.inj_on_of_nodup_map hnodup hmem hwrite hsame
        exact hfind key (hfst ▸ hfound)
    · have hself := accessStep_records_self newType accesses key
      rcases hself with hwrite | ⟨-, hread'⟩
      · exact Or.inl hwrite
      · exact Or.inr ⟨htype, hread'⟩
  · have hkeep : ∀ entryType, (key, entryType) ∈ accesses →
        (key, entryType) ∈ accessStep newType accesses newKey := by
      intro entryType hmem
      unfold accessStep
      split
      · exact hmem
      · exact mem_dictAssign_of_ne newType hkey hmem
    exact hrec.imp (hkeep _) fun h => ⟨h.1, hkeep _ h.2⟩

/-- A data access of the task for a key. -/
def DataAccess.Declares (dataAccess : DataAccess K) (key : AccessKey K) : Prop :=
  dataAccess.kvs = key.1 ∧ key.2 ∈ dataAccess.keys

theorem foldl_accessStep_nodup (accessType : AccessType) (keys : List (AccessKey K))
    (hnodup : (accesses.map Prod.fst).Nodup) :
    ((keys.foldl (accessStep accessType) accesses).map Prod.fst).Nodup := by
  induction keys generalizing accesses with
  | nil => exact hnodup
  | cons key keys ih => exact ih (accessStep_nodup accessType key hnodup)

theorem foldl_accessStep_records (newType : AccessType) (keys : List (AccessKey K))
    (hnodup : (accesses.map Prod.fst).Nodup) (hrec : Records accesses key accessType) :
    Records (keys.foldl (accessStep newType) accesses) key accessType := by
  induction keys generalizing accesses with
  | nil => exact hrec
  | cons newKey keys ih =>
    exact ih (accessStep_nodup newType newKey hnodup)
      (accessStep_records newType newKey hnodup hrec)

theorem access_records_declared {dataAccess : DataAccess K} (hnodup : (accesses.map Prod.fst).Nodup)
    (hdecl : dataAccess.Declares key) :
    Records (access accesses dataAccess) key dataAccess.accessType := by
  have hkey : key ∈ dataAccess.keys.map fun key => (dataAccess.kvs, key) :=
    List.mem_map.mpr ⟨key.2, hdecl.2, by rw [hdecl.1]⟩
  obtain ⟨before, after, hsplit⟩ := List.append_of_mem hkey
  rw [access, hsplit, List.foldl_append, List.foldl_cons]
  have hbefore := foldl_accessStep_nodup dataAccess.accessType before hnodup
  exact foldl_accessStep_records dataAccess.accessType after
    (accessStep_nodup dataAccess.accessType key hbefore)
    (accessStep_records_self dataAccess.accessType _ key)

/-- The accesses of a task, in the order in which they are declared. -/
def TaskRequest.dataAccesses {V : Type} (request : TaskRequest K V) : List (DataAccess K) :=
  request.reads ++ request.writes

theorem foldl_access_nodup (dataAccesses : List (DataAccess K))
    (hnodup : (accesses.map Prod.fst).Nodup) :
    ((dataAccesses.foldl access accesses).map Prod.fst).Nodup := by
  induction dataAccesses generalizing accesses with
  | nil => exact hnodup
  | cons dataAccess rest ih =>
    exact ih (foldl_accessStep_nodup dataAccess.accessType _ hnodup)

theorem foldl_access_records (dataAccesses : List (DataAccess K))
    (hnodup : (accesses.map Prod.fst).Nodup) (hrec : Records accesses key accessType) :
    Records (dataAccesses.foldl access accesses) key accessType := by
  induction dataAccesses generalizing accesses with
  | nil => exact hrec
  | cons dataAccess rest ih =>
    exact ih (foldl_accessStep_nodup dataAccess.accessType _ hnodup)
      (foldl_accessStep_records dataAccess.accessType _ hnodup hrec)

theorem Task.new_accesses_nodup {V : Type} (tuid : Tuid) (request : TaskRequest K V) :
    ((Task.new tuid request).accesses.map Prod.fst).Nodup :=
  foldl_access_nodup (request.reads ++ request.writes) List.nodup_nil

theorem Task.new_records {V : Type} (tuid : Tuid) {request : TaskRequest K V}
    {dataAccess : DataAccess K} (hmem : dataAccess ∈ request.dataAccesses)
    (hdecl : dataAccess.Declares key) :
    Records (Task.new tuid request).accesses key dataAccess.accessType := by
  obtain ⟨before, after, hsplit⟩ := List.append_of_mem hmem
  have haccesses : (Task.new tuid request).accesses =
      after.foldl access (access (before.foldl access []) dataAccess) := by
    change (request.reads ++ request.writes).foldl access [] = _
    rw [show request.reads ++ request.writes = before ++ dataAccess :: after from hsplit,
      List.foldl_append, List.foldl_cons]
  have hbefore : ((before.foldl access []).map Prod.fst).Nodup :=
    foldl_access_nodup before List.nodup_nil
  rw [haccesses]
  exact foldl_access_records after (foldl_accessStep_nodup dataAccess.accessType _ hbefore)
    (access_records_declared hbefore hdecl)

end Accesses

/-! ## What compiling a task does -/

section Compiled

variable {K V : Type}

theorem foldl_dependsOn (deps : List LogicalDependency) (task : Task K V) :
    deps.foldl Task.dependsOn task =
      { task with
        core :=
          { task.core with
            numDepTot := task.core.numDepTot + deps.length
            dependencies := task.core.dependencies ++ deps } } := by
  induction deps generalizing task with
  | nil => simp
  | cons dep deps ih =>
    rw [List.foldl_cons, ih, Task.dependsOn]
    simp only [List.length_cons, List.append_assoc, List.singleton_append]
    rw [show task.core.numDepTot + 1 + deps.length = task.core.numDepTot + (deps.length + 1) by
      omega]

variable [DecidableEq K]

/-- The dependencies that the accesses of a task add to it. -/
def accessDeps (depFrontier : AccessKey K → Option FrontierInfo)
    (accesses : List (AccessKey K × AccessType)) : List LogicalDependency :=
  accesses.flatMap fun entry => frontierDeps entry.2 (depFrontier entry.1)

variable {accesses : List (AccessKey K × AccessType)} {key : AccessKey K}

theorem accessDeps_update_of_notMem (depFrontier : AccessKey K → Option FrontierInfo)
    (info : Option FrontierInfo) (hkey : key ∉ accesses.map Prod.fst) :
    accessDeps (Function.update depFrontier key info) accesses = accessDeps depFrontier accesses := by
  apply List.flatMap_congr
  intro entry hentry
  have hne : entry.1 ≠ key := fun h => hkey (h ▸ List.mem_map_of_mem hentry)
  rw [Function.update_of_ne hne]

/-- As the keys are distinct, each access meets the frontier before the task. -/
theorem foldl_compileAccess_task (hnodup : (accesses.map Prod.fst).Nodup)
    (depFrontier : AccessKey K → Option FrontierInfo) (task : Task K V) :
    (accesses.foldl compileAccess (depFrontier, task)).2 =
      (accessDeps depFrontier accesses).foldl Task.dependsOn task := by
  induction accesses generalizing depFrontier task with
  | nil => rfl
  | cons entry rest ih =>
    obtain ⟨hnew, hrest⟩ := List.nodup_cons.mp hnodup
    rw [List.foldl_cons, compileAccess, ih hrest, accessDeps_update_of_notMem _ _ hnew]
    simp only [accessDeps, List.flatMap_cons, List.foldl_append]

theorem foldl_compileAccess_of_notMem (hkey : key ∉ accesses.map Prod.fst)
    (depFrontier : AccessKey K → Option FrontierInfo) (task : Task K V) :
    (accesses.foldl compileAccess (depFrontier, task)).1 key = depFrontier key := by
  induction accesses generalizing depFrontier task with
  | nil => rfl
  | cons entry rest ih =>
    rw [List.map_cons, List.mem_cons, not_or] at hkey
    rw [List.foldl_cons, compileAccess, ih hkey.2]
    exact Function.update_of_ne hkey.1 _ _

theorem foldl_compileAccess_of_mem {accessType : AccessType}
    (hnodup : (accesses.map Prod.fst).Nodup) (hmem : (key, accessType) ∈ accesses)
    (depFrontier : AccessKey K → Option FrontierInfo) (task : Task K V) :
    (accesses.foldl compileAccess (depFrontier, task)).1 key =
      some (frontierNext task.core.tuid accessType (depFrontier key)) := by
  induction accesses generalizing depFrontier task with
  | nil => cases hmem
  | cons entry rest ih =>
    obtain ⟨hnew, hrest⟩ := List.nodup_cons.mp hnodup
    rw [List.foldl_cons, compileAccess]
    rcases List.mem_cons.mp hmem with rfl | hlater
    · rw [foldl_compileAccess_of_notMem hnew]
      exact Function.update_self _ _ _
    · have hne : key ≠ entry.1 := fun h => hnew (h ▸ List.mem_map_of_mem hlater)
      rw [ih hrest hlater, Function.update_of_ne hne, foldl_dependsOn]

theorem compileTask_task {task : Task K V} (hnodup : (task.accesses.map Prod.fst).Nodup)
    (depFrontier : AccessKey K → Option FrontierInfo) :
    (compileTask depFrontier task).2 =
      { task with
        core :=
          { task.core with
            numDepTot := task.core.numDepTot + (accessDeps depFrontier task.accesses).length
            dependencies := task.core.dependencies ++ accessDeps depFrontier task.accesses } } := by
  rw [compileTask, foldl_compileAccess_task hnodup, foldl_dependsOn]

end Compiled

/-! ## The frontier of a key -/

section Frontier

variable {K : Type}

/-- What is recorded of a task: its accesses and its dependencies. -/
structure TaskRecord (K : Type) where
  tuid : Tuid
  accesses : List (AccessKey K × AccessType)
  dependencies : List LogicalDependency

/-- The record of a task. -/
def Task.record {V : Type} (task : Task K V) : TaskRecord K :=
  ⟨task.core.tuid, task.accesses, task.core.dependencies⟩

/-- The task `downstream` has a recorded dependency on `upstream`. -/
def DependsOn (tasks : List (TaskRecord K)) (downstream upstream : Tuid) : Prop :=
  ∃ task ∈ tasks, task.tuid = downstream ∧
    ∃ dep ∈ task.dependencies, dep.upstreamTuid = upstream

variable {downstream upstream : Tuid} {info : Option FrontierInfo} {key : AccessKey K}
  {task : TaskRecord K} {tuids : List Tuid}

theorem DependsOn.append {tasks : List (TaskRecord K)} (h : DependsOn tasks downstream upstream)
    (more : List (TaskRecord K)) : DependsOn (tasks ++ more) downstream upstream := by
  obtain ⟨task, hmem, htask⟩ := h
  exact ⟨task, List.mem_append_left more hmem, htask⟩

theorem transGen_append {tasks : List (TaskRecord K)}
    (h : TransGen (DependsOn tasks) downstream upstream) (more : List (TaskRecord K)) :
    TransGen (DependsOn (tasks ++ more)) downstream upstream :=
  TransGen.mono (fun _ _ hdep => hdep.append more) _ _ h

theorem reflTransGen_append {tasks : List (TaskRecord K)}
    (h : ReflTransGen (DependsOn tasks) downstream upstream) (more : List (TaskRecord K)) :
    ReflTransGen (DependsOn (tasks ++ more)) downstream upstream :=
  ReflTransGen.mono (fun _ _ hdep => hdep.append more) _ _ h

/-- The write `w` comes after an access of task `u`, or is its own. -/
def Behind (tasks : List (TaskRecord K)) (w u : Tuid) : Prop := ReflTransGen (DependsOn tasks) w u

/-- The frontier accounts for every access of the key: the access is one of the reads of
the frontier, or it is behind the write that the frontier remembers, which all these reads
come after. -/
def FrontierOrdered (tasks : List (TaskRecord K)) (key : AccessKey K) : Option FrontierInfo → Prop
  | none => ∀ task ∈ tasks, ∀ accessType, (key, accessType) ∉ task.accesses
  | some info =>
    match info.accessType with
    | .write => ∃ w, info = ⟨[w], .write, some w⟩ ∧
        ∀ task ∈ tasks, ∀ accessType, (key, accessType) ∈ task.accesses →
          Behind tasks w task.tuid
    | .read => info.taskList ≠ [] ∧
        (∀ w, info.writeBeforeRead = some w → ∀ r ∈ info.taskList,
          TransGen (DependsOn tasks) r w) ∧
        ∀ task ∈ tasks, ∀ accessType, (key, accessType) ∈ task.accesses →
          (accessType = .read ∧ task.tuid ∈ info.taskList) ∨
          ∃ w, info.writeBeforeRead = some w ∧ Behind tasks w task.tuid

/-- Every task of the frontier is one of the tasks. -/
def FrontierKnown (tuids : List Tuid) (info : FrontierInfo) : Prop :=
  (∀ u ∈ info.taskList, u ∈ tuids) ∧ ∀ w, info.writeBeforeRead = some w → w ∈ tuids

/-- An access depends on every earlier conflicting access of its key. -/
theorem FrontierOrdered.reaches {tasks : List (TaskRecord K)}
    (hord : FrontierOrdered tasks key info) {accessType : AccessType}
    (hdeps : ∀ dep ∈ frontierDeps accessType info, dep ∈ task.dependencies) {earlier : TaskRecord K}
    (hearlier : earlier ∈ tasks) {earlierType : AccessType}
    (haccess : (key, earlierType) ∈ earlier.accesses)
    (hconflict : accessType = .write ∨ earlierType = .write) :
    TransGen (DependsOn (tasks ++ [task])) task.tuid earlier.tuid := by
  -- a dependency on the frontier, and the chain behind it
  have hedge : ∀ dep ∈ frontierDeps accessType info,
      DependsOn (tasks ++ [task]) task.tuid dep.upstreamTuid := fun dep hdep =>
    ⟨task, List.mem_append_right _ List.mem_cons_self, rfl, dep, hdeps dep hdep, rfl⟩
  have hchain : ∀ dep ∈ frontierDeps accessType info,
      ReflTransGen (DependsOn tasks) dep.upstreamTuid earlier.tuid →
      TransGen (DependsOn (tasks ++ [task])) task.tuid earlier.tuid := fun dep hdep h =>
    TransGen.head' (hedge dep hdep) (reflTransGen_append h [task])
  rcases info with _ | ⟨prevs, prevType, wbr⟩
  · exact absurd haccess (hord earlier hearlier earlierType)
  cases prevType with
  | write =>
    obtain ⟨w, hinfo, hbehind⟩ := hord
    obtain ⟨rfl, rfl⟩ : prevs = [w] ∧ wbr = some w := by
      simpa using hinfo
    have h := hbehind earlier hearlier earlierType haccess
    cases accessType with
    | read => exact hchain (dataAccessDep w true) List.mem_cons_self h
    | write => exact hchain (dataAccessDep w false) List.mem_cons_self h
  | read =>
    obtain ⟨hne, hreads, hcover⟩ := hord
    cases accessType with
    | read =>
      -- the earlier access is a write, so it is behind the remembered one
      have hwrite : earlierType = .write := hconflict.resolve_left (by decide)
      subst hwrite
      rcases hcover earlier hearlier _ haccess with ⟨h, -⟩ | ⟨w, hw, hbehind⟩
      · exact absurd h (by decide)
      · have hdep : dataAccessDep w true ∈
            frontierDeps AccessType.read (some ⟨prevs, .read, wbr⟩) := by
          rw [show wbr = some w from hw]
          exact List.mem_cons_self
        exact hchain _ hdep hbehind
    | write =>
      have hmem : ∀ r ∈ prevs, dataAccessDep r false ∈
          frontierDeps AccessType.write (some ⟨prevs, .read, wbr⟩) := fun r hr =>
        List.mem_map_of_mem hr
      rcases hcover earlier hearlier _ haccess with ⟨-, hread⟩ | ⟨w, hw, hbehind⟩
      · exact hchain _ (hmem _ hread) ReflTransGen.refl
      · obtain ⟨r, hr⟩ := List.exists_mem_of_ne_nil prevs hne
        exact hchain _ (hmem r hr) ((hreads w hw r hr).to_reflTransGen.trans hbehind)

/-- A task that does not access the key leaves its frontier ordered. -/
theorem FrontierOrdered.keep {tasks : List (TaskRecord K)} (hord : FrontierOrdered tasks key info)
    (hkey : key ∉ task.accesses.map Prod.fst) : FrontierOrdered (tasks ++ [task]) key info := by
  have hsplit : ∀ other ∈ tasks ++ [task], ∀ accessType, (key, accessType) ∈ other.accesses →
      other ∈ tasks := by
    intro other hother accessType haccess
    rcases List.mem_append.mp hother with h | h
    · exact h
    · rw [List.mem_singleton.mp h] at haccess
      exact absurd (List.mem_map_of_mem haccess) hkey
  rcases info with _ | ⟨prevs, prevType, wbr⟩
  · intro other hother accessType haccess
    exact hord other (hsplit other hother accessType haccess) accessType haccess
  cases prevType with
  | write =>
    obtain ⟨w, hinfo, hbehind⟩ := hord
    refine ⟨w, hinfo, fun other hother accessType haccess => ?_⟩
    exact reflTransGen_append
      (hbehind other (hsplit other hother accessType haccess) accessType haccess) [task]
  | read =>
    obtain ⟨hne, hreads, hcover⟩ := hord
    refine ⟨hne, fun w hw r hr => transGen_append (hreads w hw r hr) [task], ?_⟩
    intro other hother accessType haccess
    refine (hcover other (hsplit other hother accessType haccess) accessType haccess).imp_right ?_
    rintro ⟨w, hw, hbehind⟩
    exact ⟨w, hw, reflTransGen_append hbehind [task]⟩

theorem FrontierOrdered.next {tasks : List (TaskRecord K)} (hord : FrontierOrdered tasks key info)
    {accessType : AccessType} (hnodup : (task.accesses.map Prod.fst).Nodup)
    (hmem : (key, accessType) ∈ task.accesses)
    (hdeps : ∀ dep ∈ frontierDeps accessType info, dep ∈ task.dependencies) :
    FrontierOrdered (tasks ++ [task]) key (some (frontierNext task.tuid accessType info)) := by
  have hown : ∀ otherType, (key, otherType) ∈ task.accesses → otherType = accessType :=
    fun otherType h => congrArg Prod.snd (List.inj_on_of_nodup_map hnodup h hmem rfl)
  have hedge : ∀ dep ∈ frontierDeps accessType info,
      TransGen (DependsOn (tasks ++ [task])) task.tuid dep.upstreamTuid := fun dep hdep =>
    TransGen.single
      ⟨task, List.mem_append_right _ List.mem_cons_self, rfl, dep, hdeps dep hdep, rfl⟩
  cases accessType with
  | write =>
    -- a write is a frontier of its own, and every earlier access is behind it
    have hnext : frontierNext task.tuid .write info = ⟨[task.tuid], .write, some task.tuid⟩ := by
      rcases info with _ | ⟨prevs, _ | _, wbr⟩ <;> rfl
    rw [hnext]
    refine ⟨task.tuid, rfl, fun other hother otherType haccess => ?_⟩
    rcases List.mem_append.mp hother with h | h
    · exact (hord.reaches hdeps h haccess (Or.inl rfl)).to_reflTransGen
    · rw [List.mem_singleton.mp h]
      exact ReflTransGen.refl
  | read =>
    rcases info with _ | ⟨prevs, prevType, wbr⟩
    · refine ⟨List.cons_ne_nil _ _, fun w hw => ?_, ?_⟩
      · exact absurd hw (Option.some_ne_none w).symm
      intro other hother otherType haccess
      rcases List.mem_append.mp hother with h | h
      · exact absurd haccess (hord other h otherType)
      · rw [List.mem_singleton.mp h] at haccess ⊢
        exact Or.inl ⟨hown otherType haccess, List.mem_cons_self⟩
    cases prevType with
    | write =>
      obtain ⟨w, hinfo, hbehind⟩ := hord
      obtain ⟨rfl, rfl⟩ : prevs = [w] ∧ wbr = some w := by
        simpa using hinfo
      refine ⟨List.cons_ne_nil _ _, ?_, ?_⟩
      · intro w' hw' r hr
        obtain rfl : w = w' := Option.some.inj hw'
        rw [List.mem_singleton.mp hr]
        exact hedge (dataAccessDep w true) List.mem_cons_self
      · intro other hother otherType haccess
        rcases List.mem_append.mp hother with h | h
        · exact Or.inr ⟨w, rfl, reflTransGen_append (hbehind other h otherType haccess) [task]⟩
        · rw [List.mem_singleton.mp h] at haccess ⊢
          exact Or.inl ⟨hown otherType haccess, List.mem_cons_self⟩
    | read =>
      obtain ⟨hne, hreads, hcover⟩ := hord
      refine ⟨List.append_ne_nil_of_right_ne_nil _ (List.cons_ne_nil _ _), ?_, ?_⟩
      · intro w hw r hr
        rcases List.mem_append.mp hr with h | h
        · exact transGen_append (hreads w hw r h) [task]
        · rw [List.mem_singleton.mp h]
          apply hedge (dataAccessDep w true)
          rw [show wbr = some w from hw]
          exact List.mem_cons_self
      · intro other hother otherType haccess
        rcases List.mem_append.mp hother with h | h
        · rcases hcover other h otherType haccess with ⟨hread, hin⟩ | ⟨w, hw, hbehind⟩
          · exact Or.inl ⟨hread, List.mem_append_left _ hin⟩
          · exact Or.inr ⟨w, hw, reflTransGen_append hbehind [task]⟩
        · rw [List.mem_singleton.mp h] at haccess ⊢
          exact Or.inl ⟨hown otherType haccess, List.mem_append_right _ List.mem_cons_self⟩

/-- The dependencies of an access are on tasks of the frontier. -/
theorem FrontierKnown.deps {info : FrontierInfo} (hknown : FrontierKnown tuids info)
    (accessType : AccessType) :
    ∀ dep ∈ frontierDeps accessType (some info), dep.upstreamTuid ∈ tuids := by
  intro dep hdep
  obtain ⟨prevs, prevType, wbr⟩ := info
  have htake : ∀ isRaw, dep ∈ (prevs.take 1).map (fun prev => dataAccessDep prev isRaw) →
      dep.upstreamTuid ∈ tuids := by
    intro isRaw h
    obtain ⟨prev, hprev, rfl⟩ := List.mem_map.mp h
    exact hknown.1 prev (List.mem_of_mem_take hprev)
  cases prevType with
  | write =>
    cases accessType with
    | read => exact htake true hdep
    | write => exact htake false hdep
  | read =>
    cases accessType with
    | read =>
      cases wbr with
      | none => cases hdep
      | some w =>
        rw [List.mem_singleton.mp hdep]
        exact hknown.2 w rfl
    | write =>
      obtain ⟨prev, hprev, rfl⟩ := List.mem_map.mp hdep
      exact hknown.1 prev hprev

theorem FrontierKnown.append {info : FrontierInfo} (hknown : FrontierKnown tuids info)
    (more : List Tuid) : FrontierKnown (tuids ++ more) info :=
  ⟨fun u hu => List.mem_append_left more (hknown.1 u hu),
    fun w hw => List.mem_append_left more (hknown.2 w hw)⟩

theorem frontierKnown_next (hknown : ∀ prev, info = some prev → FrontierKnown tuids prev)
    (taskObj : Tuid) (accessType : AccessType) :
    FrontierKnown (tuids ++ [taskObj]) (frontierNext taskObj accessType info) := by
  have hself : taskObj ∈ tuids ++ [taskObj] := List.mem_append_right _ List.mem_cons_self
  have honly : ∀ u ∈ [taskObj], u ∈ tuids ++ [taskObj] := fun u hu =>
    List.mem_singleton.mp hu ▸ hself
  have hwrite : FrontierKnown (tuids ++ [taskObj]) ⟨[taskObj], .write, some taskObj⟩ :=
    ⟨honly, fun w hw => Option.some.inj hw ▸ hself⟩
  rcases info with _ | ⟨prevs, prevType, wbr⟩
  · cases accessType with
    | read => exact ⟨honly, fun w hw => by cases hw⟩
    | write => exact hwrite
  have hprev := (hknown _ rfl).append [taskObj]
  cases prevType with
  | read =>
    cases accessType with
    | read =>
      refine ⟨fun u hu => ?_, hprev.2⟩
      rcases List.mem_append.mp hu with h | h
      · exact hprev.1 u h
      · exact honly u h
    | write => exact hwrite
  | write =>
    cases accessType with
    | read => exact ⟨honly, hprev.2⟩
    | write => exact hwrite

end Frontier

/-! ## Tasks and batches -/

section Batches

variable {K V : Type}

/-- Two tasks that access the same key, one of them at least to write. -/
def Conflict (earlier later : TaskRecord K) : Prop :=
  ∃ key earlierType laterType, (key, earlierType) ∈ earlier.accesses ∧
    (key, laterType) ∈ later.accesses ∧
    (earlierType = AccessType.write ∨ laterType = AccessType.write)

/-- Declared accesses of which one is a write make a conflict. -/
theorem Records.conflict {earlier later : TaskRecord K} {key : AccessKey K}
    {earlierType laterType : AccessType} (hearlier : Records earlier.accesses key earlierType)
    (hlater : Records later.accesses key laterType)
    (hwrite : earlierType = .write ∨ laterType = .write) : Conflict earlier later := by
  rcases hearlier with hmem | ⟨hread, hmem⟩
  · rcases hlater with hmem' | ⟨-, hmem'⟩
    · exact ⟨key, .write, .write, hmem, hmem', Or.inl rfl⟩
    · exact ⟨key, .write, .read, hmem, hmem', Or.inl rfl⟩
  · rcases hlater with hmem' | ⟨hread', hmem'⟩
    · exact ⟨key, .read, .write, hmem, hmem', Or.inr rfl⟩
    · -- two reads
      rcases hwrite with rfl | rfl
      · exact absurd hread (by decide)
      · exact absurd hread' (by decide)

/-- The frontiers are ordered and known, conflicting tasks are ordered, and dependencies
go back. -/
structure FrontierInv (depFrontier : AccessKey K → Option FrontierInfo)
    (done : List (TaskRecord K)) : Prop where
  ordered : ∀ key, FrontierOrdered done key (depFrontier key)
  known : ∀ key info, depFrontier key = some info →
    FrontierKnown (done.map TaskRecord.tuid) info
  hazards : done.Pairwise fun earlier later =>
    Conflict earlier later → TransGen (DependsOn done) later.tuid earlier.tuid
  backward : ∀ (i : ℕ) (task : TaskRecord K), done[i]? = some task →
    ∀ dep ∈ task.dependencies, dep.upstreamTuid ∈ (done.take i).map TaskRecord.tuid

theorem frontierInv_nil : FrontierInv (fun _ : AccessKey K => none) [] where
  ordered _ task htask := by cases htask
  known key info h := by cases h
  hazards := List.Pairwise.nil
  backward i task h := by cases h

/-- The record of a task that is compiled against a frontier. -/
def compiledRecord (depFrontier : AccessKey K → Option FrontierInfo) (task : Task K V) :
    TaskRecord K :=
  ⟨task.core.tuid, task.accesses,
    task.core.dependencies ++ accessDeps depFrontier task.accesses⟩

/-- What is asked of a task before it is compiled after the tasks `tuids`: the keys of its
accesses are distinct, and its arguments are among these tasks. -/
def Compilable (tuids : List Tuid) (task : Task K V) : Prop :=
  (task.accesses.map Prod.fst).Nodup ∧
    ∀ dep ∈ task.core.dependencies, dep.upstreamTuid ∈ tuids

variable {depFrontier : AccessKey K → Option FrontierInfo} {done : List (TaskRecord K)}
  {task : Task K V} {compiler : ClientCompiler K}

theorem FrontierInv.deps_known (hinv : FrontierInv depFrontier done)
    (htask : Compilable (done.map TaskRecord.tuid) task) :
    ∀ dep ∈ (compiledRecord depFrontier task).dependencies,
      dep.upstreamTuid ∈ done.map TaskRecord.tuid := by
  intro dep hdep
  rcases List.mem_append.mp hdep with hdep | hdep
  · exact htask.2 dep hdep
  · obtain ⟨entry, -, hentry⟩ := List.mem_flatMap.mp hdep
    cases hinfo : depFrontier entry.1 with
    | none =>
      rw [hinfo] at hentry
      cases hentry
    | some info =>
      rw [hinfo] at hentry
      exact (hinv.known entry.1 info hinfo).deps entry.2 dep hentry

variable [DecidableEq K]

theorem compileTask_record (hnodup : (task.accesses.map Prod.fst).Nodup)
    (depFrontier : AccessKey K → Option FrontierInfo) :
    (compileTask depFrontier task).2.record = compiledRecord depFrontier task := by
  rw [compileTask_task hnodup]
  rfl

theorem FrontierInv.compileTask (hinv : FrontierInv depFrontier done)
    (htask : Compilable (done.map TaskRecord.tuid) task) :
    FrontierInv (compileTask depFrontier task).1 (done ++ [compiledRecord depFrontier task]) := by
  have hdeps : ∀ key accessType, (key, accessType) ∈ task.accesses →
      ∀ dep ∈ frontierDeps accessType (depFrontier key),
        dep ∈ (compiledRecord depFrontier task).dependencies :=
    fun key accessType hmem dep hdep =>
      List.mem_append_right _ (List.mem_flatMap.mpr ⟨_, hmem, hdep⟩)
  refine ⟨?ordered, ?known, ?hazards, ?backward⟩
  case ordered =>
    intro key
    by_cases hkey : key ∈ task.accesses.map Prod.fst
    · obtain ⟨⟨_, accessType⟩, hmem, rfl⟩ := List.mem_map.mp hkey
      rw [Batch.compileTask, foldl_compileAccess_of_mem htask.1 hmem]
      exact (hinv.ordered _).next htask.1 hmem (hdeps _ _ hmem)
    · rw [Batch.compileTask, foldl_compileAccess_of_notMem hkey]
      exact (hinv.ordered key).keep hkey
  case known =>
    intro key info hinfo
    rw [List.map_append, List.map_singleton]
    by_cases hkey : key ∈ task.accesses.map Prod.fst
    · obtain ⟨⟨_, accessType⟩, hmem, rfl⟩ := List.mem_map.mp hkey
      rw [Batch.compileTask, foldl_compileAccess_of_mem htask.1 hmem] at hinfo
      rw [← Option.some.inj hinfo]
      exact frontierKnown_next (hinv.known _) task.core.tuid accessType
    · rw [Batch.compileTask, foldl_compileAccess_of_notMem hkey] at hinfo
      exact (hinv.known key info hinfo).append _
  case hazards =>
    rw [List.pairwise_append]
    refine ⟨hinv.hazards.imp fun h hconflict => transGen_append (h hconflict) _,
      List.pairwise_singleton _ _, ?_⟩
    intro earlier hearlier later hlater hconflict
    rw [List.mem_singleton.mp hlater] at hconflict ⊢
    obtain ⟨key, earlierType, laterType, hearlierKey, hlaterKey, hwrite⟩ := hconflict
    exact (hinv.ordered key).reaches (hdeps key laterType hlaterKey) hearlier hearlierKey hwrite.symm
  case backward =>
    intro i other hother dep hdep
    rcases Nat.lt_trichotomy i done.length with hi | rfl | hi
    · rw [List.getElem?_append_left hi] at hother
      rw [List.take_append_of_le_length hi.le]
      exact hinv.backward i other hother dep hdep
    · rw [List.getElem?_append_right (le_refl _), Nat.sub_self] at hother
      rw [List.take_left]
      have hsame : other = compiledRecord depFrontier task := (Option.some.inj hother).symm
      exact hinv.deps_known htask dep (hsame ▸ hdep)
    · rw [List.getElem?_eq_none (by rw [List.length_append, List.length_singleton]; omega)] at hother
      cases hother

/-- The tasks of a list can be compiled one after the other. -/
def AllCompilable (tuids : List Tuid) : List (Task K V) → Prop
  | [] => True
  | task :: tasks => Compilable tuids task ∧ AllCompilable (tuids ++ [task.core.tuid]) tasks

/-- The records of the tasks of a batch. -/
def compiledRecords : (AccessKey K → Option FrontierInfo) → List (Task K V) → List (TaskRecord K)
  | _, [] => []
  | depFrontier, task :: tasks =>
    compiledRecord depFrontier task :: compiledRecords (compileTask depFrontier task).1 tasks

theorem compiledRecords_tuids (depFrontier : AccessKey K → Option FrontierInfo)
    (tasks : List (Task K V)) :
    (compiledRecords depFrontier tasks).map (fun task => (task.tuid, task.accesses)) =
      tasks.map fun task => (task.core.tuid, task.accesses) := by
  induction tasks generalizing depFrontier with
  | nil => rfl
  | cons task tasks ih =>
    rw [compiledRecords, List.map_cons, List.map_cons, ih]
    rfl

theorem FrontierInv.compileTasks (hinv : FrontierInv depFrontier done) {tasks : List (Task K V)}
    (htasks : AllCompilable (done.map TaskRecord.tuid) tasks) :
    FrontierInv (compileTasks depFrontier tasks).1 (done ++ compiledRecords depFrontier tasks) ∧
    (compileTasks depFrontier tasks).2.map Task.record = compiledRecords depFrontier tasks := by
  induction tasks generalizing depFrontier done with
  | nil => exact ⟨by rw [compiledRecords, List.append_nil]; exact hinv, rfl⟩
  | cons task tasks ih =>
    obtain ⟨htask, hrest⟩ := htasks
    have htuids : (done ++ [compiledRecord depFrontier task]).map TaskRecord.tuid =
        done.map TaskRecord.tuid ++ [task.core.tuid] := by
      rw [List.map_append]
      rfl
    obtain ⟨hinv', hrecords⟩ := ih (hinv.compileTask htask) (htuids ▸ hrest)
    rw [List.append_assoc] at hinv'
    refine ⟨hinv', ?_⟩
    rw [Batch.compileTasks, List.map_cons, hrecords, compileTask_record htask.1]
    rfl

omit [DecidableEq K] in
/-- Tasks keep their records when their cores get weights and routes. -/
theorem zip_record (routed : TaskCore V → TaskCore V)
    (hrouted : ∀ taskCore, (routed taskCore).tuid = taskCore.tuid ∧
      (routed taskCore).dependencies = taskCore.dependencies)
    (tasks : List (Task K V)) (taskCores : List (TaskCore V))
    (hsame : taskCores.map (fun core => (core.tuid, core.dependencies)) =
      tasks.map fun task => (task.core.tuid, task.core.dependencies)) :
    ((tasks.zip taskCores).map fun (task, taskCore) =>
      { task with core := routed taskCore }).map Task.record = tasks.map Task.record := by
  induction tasks generalizing taskCores with
  | nil => rfl
  | cons task tasks ih =>
    cases taskCores with
    | nil => cases hsame
    | cons taskCore taskCores =>
      rw [List.map_cons, List.map_cons, List.cons.injEq, Prod.mk.injEq] at hsame
      obtain ⟨⟨htuid, hdeps⟩, hrest⟩ := hsame
      rw [List.zip_cons_cons, List.map_cons, List.map_cons, List.map_cons, ih taskCores hrest]
      simp only [Task.record, hrouted, htuid, hdeps]

/-- What `compile` returns when every upstream task has a manager. -/
theorem compile_eq_ok (hmanagers : 2 ≤ compiler.numManagers) {tasks : List (Task K V)}
    (hne : tasks ≠ []) (clientId subnodeOffset : ℕ)
    (hdeps : ∀ task ∈ (compileTasks compiler.depFrontier tasks).2.map Task.record,
      ∀ dep ∈ task.dependencies,
        dep.upstreamTuid ∈ (compileTasks compiler.depFrontier tasks).2.map (fun task => task.core.tuid) ∨
          (compiler.tuidToManagerQ dep.upstreamTuid).isSome) :
    ∃ compiler' compiled, compile compiler tasks clientId subnodeOffset = .ok (compiler', compiled) ∧
      compiler'.numManagers = compiler.numManagers ∧
      compiler'.depFrontier = (compileTasks compiler.depFrontier tasks).1 ∧
      (∀ tuid, tuid ∈ (compileTasks compiler.depFrontier tasks).2.map (fun task => task.core.tuid) ∨
          (compiler.tuidToManagerQ tuid).isSome → (compiler'.tuidToManagerQ tuid).isSome) ∧
      compiled.tasks.map Task.record =
        (compileTasks compiler.depFrontier tasks).2.map Task.record := by
  rw [compile, if_neg hne]
  generalize compileTasks compiler.depFrontier tasks = result at hdeps ⊢
  obtain ⟨depFrontier, tasks'⟩ := result
  simp only [] at hdeps ⊢
  rw [if_neg (by omega : ¬ compiler.numManagers - 1 = 0)]
  -- weights do not change what the placement and the routes look at
  have hpairs : (assignHeftWeights (tasks'.map Task.core)).map
      (fun core => (core.tuid, core.dependencies)) =
      tasks'.map fun task => (task.core.tuid, task.core.dependencies) := by
    rw [assignHeftWeights_map (fun core : TaskCore V => (core.tuid, core.dependencies))
      (fun _ _ => rfl) (fun _ _ => rfl), List.map_map]
    rfl
  generalize assignHeftWeights (tasks'.map Task.core) = taskCores at hpairs ⊢
  have htuids : taskCores.map TaskCore.tuid = tasks'.map fun task => task.core.tuid := by
    have h := congrArg (List.map Prod.fst) hpairs
    simpa [List.map_map, Function.comp_def] using h
  have hcores : taskCores.map TaskCore.dependencies =
      tasks'.map fun task => task.core.dependencies := by
    have h := congrArg (List.map Prod.snd) hpairs
    simpa [List.map_map, Function.comp_def] using h
  have hplaced := placements_perm hmanagers taskCores subnodeOffset
  rw [htuids] at hplaced
  generalize hplace : placements compiler subnodeOffset
    (heftyPartition compiler taskCores subnodeOffset) (multiNodeJobs compiler taskCores) = placed
    at hplaced ⊢
  have hsome : ∀ tuid, tuid ∈ tasks'.map (fun task => task.core.tuid) ∨
      (compiler.tuidToManagerQ tuid).isSome →
      (placeAll compiler.tuidToManagerQ placed tuid).isSome := fun tuid h =>
    placeAll_isSome _ (h.imp_left fun hmem => hplaced.mem_iff.mpr hmem)
  have hmissing : missingUpstream (placeAll compiler.tuidToManagerQ placed) taskCores = none := by
    apply missingUpstream_eq_none
    intro taskCore hcore dep hdep
    have hmem : taskCore.dependencies ∈ tasks'.map fun task => task.core.dependencies :=
      hcores ▸ List.mem_map_of_mem hcore
    obtain ⟨task, htask, hsame⟩ := List.mem_map.mp hmem
    have hdep' : dep ∈ task.record.dependencies := by
      rw [← hsame] at hdep
      exact hdep
    exact hsome _ (hdeps task.record (List.mem_map_of_mem htask) dep hdep')
  rw [hmissing]
  refine ⟨_, _, rfl, rfl, rfl, hsome, ?_⟩
  exact zip_record (route (placeAll compiler.tuidToManagerQ placed)
    ⟨clientId, compiler.compiledTaskCtr⟩ taskCores) (fun _ => ⟨rfl, rfl⟩) tasks' taskCores hpairs

/-- The batches of a client, compiled one after the other without a reset; each batch comes
with the offset that is drawn for it. -/
def compileBatches (clientId : ℕ) : ClientCompiler K → List (List (Task K V) × ℕ) →
    Except CompileError (ClientCompiler K × List (CompiledTask K V))
  | compiler, [] => .ok (compiler, [])
  | compiler, (tasks, subnodeOffset) :: batches => do
      let (compiler, compiled) ← compile compiler tasks clientId subnodeOffset
      let (compiler, more) ← compileBatches clientId compiler batches
      .ok (compiler, compiled :: more)

/-- The invariant of the compiler between batches. -/
structure CompilerInv (compiler : ClientCompiler K) (done : List (TaskRecord K)) : Prop where
  frontier : FrontierInv compiler.depFrontier done
  managers : 2 ≤ compiler.numManagers
  placed : ∀ tuid ∈ done.map TaskRecord.tuid, (compiler.tuidToManagerQ tuid).isSome

omit [DecidableEq K] in
theorem allCompilable_append (tuids : List Tuid) (tasks more : List (Task K V)) :
    AllCompilable tuids (tasks ++ more) ↔
      AllCompilable tuids tasks ∧
        AllCompilable (tuids ++ tasks.map fun task => task.core.tuid) more := by
  induction tasks generalizing tuids with
  | nil => simp [AllCompilable]
  | cons task tasks ih =>
    rw [List.cons_append, AllCompilable, AllCompilable, ih, List.map_cons, List.append_assoc]
    exact and_assoc.symm

theorem compiledRecords_map_tuid (depFrontier : AccessKey K → Option FrontierInfo)
    (tasks : List (Task K V)) :
    (compiledRecords depFrontier tasks).map TaskRecord.tuid =
      tasks.map fun task => task.core.tuid := by
  have h := congrArg (List.map Prod.fst) (compiledRecords_tuids depFrontier tasks)
  simpa [List.map_map, Function.comp_def] using h

/-- One batch. -/
theorem CompilerInv.compile (hinv : CompilerInv compiler done) {tasks : List (Task K V)}
    (hne : tasks ≠ []) (htasks : AllCompilable (done.map TaskRecord.tuid) tasks)
    (clientId subnodeOffset : ℕ) :
    ∃ compiler' compiled, compile compiler tasks clientId subnodeOffset = .ok (compiler', compiled) ∧
      compiled.tasks.map Task.record = compiledRecords compiler.depFrontier tasks ∧
      CompilerInv compiler' (done ++ compiled.tasks.map Task.record) := by
  obtain ⟨hfrontier, hrecords⟩ := hinv.frontier.compileTasks htasks
  have htuids : (compileTasks compiler.depFrontier tasks).2.map (fun task => task.core.tuid) =
      tasks.map fun task => task.core.tuid := by
    rw [← compiledRecords_map_tuid compiler.depFrontier tasks, ← hrecords, List.map_map]
    rfl
  -- every upstream task is in the batch or was placed before
  have hdeps : ∀ task ∈ (compileTasks compiler.depFrontier tasks).2.map Task.record,
      ∀ dep ∈ task.dependencies,
        dep.upstreamTuid ∈ (compileTasks compiler.depFrontier tasks).2.map
          (fun task => task.core.tuid) ∨
        (compiler.tuidToManagerQ dep.upstreamTuid).isSome := by
    intro task htask dep hdep
    rw [hrecords] at htask
    obtain ⟨i, hi⟩ := List.mem_iff_getElem?.mp htask
    have hlt : i < (compiledRecords compiler.depFrontier tasks).length :=
      (List.getElem?_eq_some_iff.mp hi).1
    have hat : (done ++ compiledRecords compiler.depFrontier tasks)[done.length + i]? = some task := by
      rw [List.getElem?_append_right (Nat.le_add_right _ _), Nat.add_sub_cancel_left]
      exact hi
    have hback := hfrontier.backward _ task hat dep hdep
    have hmem := List.mem_of_mem_take (List.map_take .. ▸ hback)
    rw [List.map_append, List.mem_append, compiledRecords_map_tuid, ← htuids] at hmem
    exact hmem.symm.imp_right (hinv.placed _)
  obtain ⟨compiler', compiled, hok, hmanagers, hfr, hplaced, hcompiled⟩ :=
    compile_eq_ok hinv.managers hne clientId subnodeOffset hdeps
  rw [hrecords] at hcompiled
  refine ⟨compiler', compiled, hok, hcompiled, ?_⟩
  rw [hcompiled]
  refine ⟨hfr ▸ hfrontier, hmanagers ▸ hinv.managers, ?_⟩
  intro tuid htuid
  rw [List.map_append, List.mem_append, compiledRecords_map_tuid, ← htuids] at htuid
  exact hplaced tuid (htuid.symm.imp_right (hinv.placed tuid))

theorem CompilerInv.compileBatches (hinv : CompilerInv compiler done)
    {batches : List (List (Task K V) × ℕ)} (hne : ∀ batch ∈ batches, batch.1 ≠ [])
    (htasks : AllCompilable (done.map TaskRecord.tuid) (batches.flatMap Prod.fst)) (clientId : ℕ) :
    ∃ compiler' compiled, compileBatches clientId compiler batches = .ok (compiler', compiled) ∧
      (compiled.flatMap fun task => task.tasks.map Task.record).map
          (fun task => (task.tuid, task.accesses)) =
        (batches.flatMap Prod.fst).map (fun task => (task.core.tuid, task.accesses)) ∧
      CompilerInv compiler'
        (done ++ compiled.flatMap fun task => task.tasks.map Task.record) := by
  induction batches generalizing compiler done with
  | nil => exact ⟨compiler, [], rfl, rfl, by rw [List.flatMap_nil, List.append_nil]; exact hinv⟩
  | cons batch batches ih =>
    obtain ⟨tasks, subnodeOffset⟩ := batch
    rw [List.flatMap_cons, allCompilable_append] at htasks
    obtain ⟨compiler₁, compiled, hok, hrecords, hinv₁⟩ :=
      hinv.compile (hne _ List.mem_cons_self) htasks.1 clientId subnodeOffset
    have hdone : (done ++ compiled.tasks.map Task.record).map TaskRecord.tuid =
        done.map TaskRecord.tuid ++ tasks.map fun task => task.core.tuid := by
      rw [List.map_append, hrecords, compiledRecords_map_tuid]
    obtain ⟨compiler', more, hok', hmore, hinv'⟩ :=
      ih hinv₁ (fun batch hbatch => hne batch (List.mem_cons_of_mem _ hbatch))
        (hdone ▸ htasks.2)
    refine ⟨compiler', compiled :: more, ?_, ?_, ?_⟩
    · rw [Batch.compileBatches, hok]
      change (Batch.compileBatches clientId compiler₁ batches >>= fun result =>
        Except.ok (result.1, compiled :: result.2)) = _
      rw [hok']
      rfl
    · rw [List.flatMap_cons, List.map_append, hmore, hrecords, compiledRecords_tuids,
        List.flatMap_cons, List.map_append]
    · rw [List.flatMap_cons, ← List.append_assoc]
      exact hinv'

end Batches

/-! ## Submissions of a client -/

section Submissions

variable {K V : Type}

/-- The tasks that a client creates one after the other: an argument that is a task is a
task that was created before. -/
structure Submission (K V : Type) where
  clientId : ℕ
  /-- The client's task counter before the first of the tasks. -/
  first : ℕ
  requests : List (TaskRequest K V)
  args_earlier : ∀ (i : ℕ) (request : TaskRequest K V), requests[i]? = some request →
    ∀ args ∈ request.listOfArgLists, ∀ tuid, TaskArg.task tuid ∈ args →
      ∃ j < i, tuid = ⟨clientId, first + j⟩

/-- The id of the task number `i`. -/
def Submission.tuid (submission : Submission K V) (i : ℕ) : Tuid :=
  ⟨submission.clientId, submission.first + i⟩

theorem Submission.tuid_injective (submission : Submission K V) :
    Function.Injective submission.tuid := by
  intro i j h
  have hseq : submission.first + i = submission.first + j := congrArg Tuid.seq h
  omega

/-- The request number `i` declares an access of the key. -/
def TaskRequest.Accesses (request : TaskRequest K V) (key : AccessKey K)
    (accessType : AccessType) : Prop :=
  ∃ dataAccess ∈ request.dataAccesses, dataAccess.Declares key ∧
    dataAccess.accessType = accessType

variable [DecidableEq K]

/-- The tasks of a submission. -/
def Submission.tasks (submission : Submission K V) : List (Task K V) :=
  submission.requests.zipIdx.map fun (request, i) => Task.new (submission.tuid i) request

theorem Submission.tasks_getElem? (submission : Submission K V) (i : ℕ) :
    submission.tasks[i]? = (submission.requests[i]?).map (Task.new (submission.tuid i)) := by
  unfold Submission.tasks
  rw [List.getElem?_map, List.getElem?_zipIdx, Option.map_map, Nat.zero_add]
  rfl

omit [DecidableEq K] in
theorem mem_taskArgPositions {listOfArgLists : List (List (TaskArg V))} {tuid : Tuid}
    {position : ArgDepUpdate} (h : (tuid, position) ∈ taskArgPositions listOfArgLists) :
    ∃ args ∈ listOfArgLists, TaskArg.task tuid ∈ args := by
  obtain ⟨⟨args, templateIdx⟩, hargs, hin⟩ := List.mem_flatMap.mp h
  obtain ⟨⟨arg, idx⟩, harg, hsome⟩ := List.mem_filterMap.mp hin
  refine ⟨args, List.fst_mem_of_mem_zipIdx hargs, ?_⟩
  cases arg with
  | value => cases hsome
  | task other =>
    have hsame : other = tuid := congrArg Prod.fst (Option.some.inj hsome)
    exact hsame ▸ List.fst_mem_of_mem_zipIdx harg

omit [DecidableEq K] in
theorem mem_handleArgPassingDeps {listOfArgLists : List (List (TaskArg V))}
    {dep : LogicalDependency} (h : dep ∈ handleArgPassingDeps listOfArgLists) :
    ∃ args ∈ listOfArgLists, TaskArg.task dep.upstreamTuid ∈ args := by
  obtain ⟨arg, harg, rfl⟩ := List.mem_map.mp h
  rw [List.mem_reverse, List.mem_dedup, List.mem_reverse] at harg
  obtain ⟨⟨_, position⟩, hposition, rfl⟩ := List.mem_map.mp harg
  exact mem_taskArgPositions hposition

omit [DecidableEq K] in
theorem allCompilable_of_getElem? {tasks : List (Task K V)} {tuids : List Tuid}
    (h : ∀ (i : ℕ) (task : Task K V), tasks[i]? = some task →
      Compilable (tuids ++ (tasks.take i).map fun task => task.core.tuid) task) :
    AllCompilable tuids tasks := by
  induction tasks generalizing tuids with
  | nil => trivial
  | cons task tasks ih =>
    refine ⟨?_, ih fun i other hother => ?_⟩
    · have hfirst := h 0 task rfl
      rwa [List.take_zero, List.map_nil, List.append_nil] at hfirst
    · have hnext := h (i + 1) other hother
      rw [List.take_succ_cons, List.map_cons] at hnext
      rwa [List.append_assoc]

theorem Submission.allCompilable (submission : Submission K V) :
    AllCompilable [] submission.tasks := by
  apply allCompilable_of_getElem?
  intro i task htask
  rw [submission.tasks_getElem?] at htask
  obtain ⟨request, hrequest, rfl⟩ := Option.map_eq_some_iff.mp htask
  refine ⟨Task.new_accesses_nodup _ request, fun dep hdep => ?_⟩
  obtain ⟨args, hargs, harg⟩ := mem_handleArgPassingDeps hdep
  obtain ⟨j, hj, hupstream⟩ := submission.args_earlier i request hrequest args hargs _ harg
  have hlt : j < submission.requests.length := by
    have := (List.getElem?_eq_some_iff.mp hrequest).1
    omega
  rw [List.nil_append, hupstream, List.mem_map]
  refine ⟨Task.new (submission.tuid j) submission.requests[j], ?_, rfl⟩
  apply List.mem_iff_getElem?.mpr
  refine ⟨j, ?_⟩
  rw [List.getElem?_take_of_lt hj, submission.tasks_getElem?, List.getElem?_eq_getElem hlt]
  rfl

omit [DecidableEq K] in
/-- A chain of dependencies goes back to an earlier task. -/
theorem transGen_earlier {records : List (TaskRecord K)} {tuid : ℕ → Tuid}
    (hinj : Function.Injective tuid)
    (htuids : ∀ (i : ℕ) (task : TaskRecord K), records[i]? = some task → task.tuid = tuid i)
    (hback : ∀ (i : ℕ) (task : TaskRecord K), records[i]? = some task →
      ∀ dep ∈ task.dependencies, dep.upstreamTuid ∈ (records.take i).map TaskRecord.tuid)
    {j : ℕ} {upstream : Tuid} (h : TransGen (DependsOn records) (tuid j) upstream) :
    ∃ i < j, upstream = tuid i := by
  have hstep : ∀ (j : ℕ) (upstream : Tuid), DependsOn records (tuid j) upstream →
      ∃ i < j, upstream = tuid i := by
    rintro j upstream ⟨task, htask, hsame, dep, hdep, rfl⟩
    obtain ⟨j', hj'⟩ := List.mem_iff_getElem?.mp htask
    have hjj : j' = j := hinj ((htuids j' task hj').symm.trans hsame)
    subst hjj
    obtain ⟨other, hother, hupstream⟩ := List.mem_map.mp (hback j' task hj' dep hdep)
    obtain ⟨i, hi⟩ := List.mem_iff_getElem?.mp hother
    have hlt : i < j' := by
      have := (List.getElem?_eq_some_iff.mp hi).1
      rw [List.length_take] at this
      omega
    rw [List.getElem?_take_of_lt hlt] at hi
    exact ⟨i, hlt, hupstream.symm.trans (htuids i other hi)⟩
  induction h with
  | single h => exact hstep j _ h
  | tail _ h ih =>
    obtain ⟨i, hi, rfl⟩ := ih
    obtain ⟨i', hi', rfl⟩ := hstep i _ h
    exact ⟨i', hi'.trans hi, rfl⟩

/-- However the tasks of a client are divided into batches, compiling them succeeds, every
task depends, directly or through a chain, on each earlier task that accesses the same key
when one of the two writes it, and no chain of dependencies leads from a task to itself or
to a later task. -/
theorem compileBatches_orders_conflicts (submission : Submission K V)
    (compiler : ClientCompiler K) (hmanagers : 2 ≤ compiler.numManagers)
    (batches : List (List (Task K V) × ℕ)) (hne : ∀ batch ∈ batches, batch.1 ≠ [])
    (hbatches : batches.flatMap Prod.fst = submission.tasks) :
    ∃ compiler' compiled,
      compileBatches submission.clientId compiler.reset batches = .ok (compiler', compiled) ∧
      (∀ (i j : ℕ) (earlier later : TaskRequest K V), i < j →
        submission.requests[i]? = some earlier → submission.requests[j]? = some later →
        ∀ key earlierType laterType, earlier.Accesses key earlierType →
          later.Accesses key laterType →
          (earlierType = .write ∨ laterType = .write) →
          TransGen (DependsOn (compiled.flatMap fun task => task.tasks.map Task.record))
            (submission.tuid j) (submission.tuid i)) ∧
      ∀ (j : ℕ) (upstream : Tuid),
        TransGen (DependsOn (compiled.flatMap fun task => task.tasks.map Task.record))
          (submission.tuid j) upstream → ∃ i < j, upstream = submission.tuid i := by
  have hinit : CompilerInv compiler.reset ([] : List (TaskRecord K)) :=
    ⟨frontierInv_nil, hmanagers, fun tuid htuid => by cases htuid⟩
  obtain ⟨compiler', compiled, hok, hsame, hinv⟩ := hinit.compileBatches hne
    (hbatches.symm ▸ submission.allCompilable) submission.clientId
  rw [List.nil_append] at hinv
  refine ⟨compiler', compiled, hok, ?_⟩
  generalize (compiled.flatMap fun task => task.tasks.map Task.record) = records at hsame hinv ⊢
  -- the record number `i` is that of the task number `i`
  have hrecord : ∀ (i : ℕ) (request : TaskRequest K V), submission.requests[i]? = some request →
      ∃ task, records[i]? = some task ∧ task.tuid = submission.tuid i ∧
        task.accesses = (Task.new (submission.tuid i) request).accesses := by
    intro i request hrequest
    have h := congrArg (fun entries => entries[i]?) hsame
    simp only [List.getElem?_map] at h
    rw [hbatches, submission.tasks_getElem?, hrequest] at h
    obtain ⟨task, htask, hpair⟩ := Option.map_eq_some_iff.mp h
    exact ⟨task, htask, congrArg Prod.fst hpair, congrArg Prod.snd hpair⟩
  have htuids : ∀ (i : ℕ) (task : TaskRecord K), records[i]? = some task →
      task.tuid = submission.tuid i := by
    intro i task htask
    have h := congrArg (fun entries => entries[i]?) hsame
    simp only [List.getElem?_map] at h
    rw [hbatches, submission.tasks_getElem?, htask] at h
    obtain ⟨other, hother, hpair⟩ := Option.map_eq_some_iff.mp h.symm
    obtain ⟨request, -, rfl⟩ := Option.map_eq_some_iff.mp hother
    exact (congrArg Prod.fst hpair).symm
  constructor
  · intro i j earlier later hij hearlier hlater key earlierType laterType hdecl hdecl' hwrite
    obtain ⟨first, hfirst, hfirstTuid, hfirstAccesses⟩ := hrecord i earlier hearlier
    obtain ⟨second, hsecond, hsecondTuid, hsecondAccesses⟩ := hrecord j later hlater
    obtain ⟨access, hmem, hdeclares, rfl⟩ := hdecl
    obtain ⟨access', hmem', hdeclares', rfl⟩ := hdecl'
    have hrec := Task.new_records (submission.tuid i) hmem hdeclares
    have hrec' := Task.new_records (submission.tuid j) hmem' hdeclares'
    rw [← hfirstAccesses] at hrec
    rw [← hsecondAccesses] at hrec'
    rw [← hfirstTuid, ← hsecondTuid]
    obtain ⟨hi, rfl⟩ := List.getElem?_eq_some_iff.mp hfirst
    obtain ⟨hj, rfl⟩ := List.getElem?_eq_some_iff.mp hsecond
    exact List.pairwise_iff_getElem.mp hinv.frontier.hazards i j hi hj hij
      (hrec.conflict hrec' hwrite)
  · intro j upstream h
    exact transGen_earlier submission.tuid_injective htuids hinv.frontier.backward h

/-- A task that writes a key, one that reads it, and one that reads and writes it. -/
def exampleSubmission : Submission ℕ ℕ where
  clientId := 0
  first := 0
  requests :=
    [⟨.function, [[]], [], [⟨.write, 7, [1]⟩]⟩,
      ⟨.function, [[.task ⟨0, 0⟩]], [⟨.read, 7, [1]⟩], []⟩,
      ⟨.function, [[.value 5]], [⟨.read, 7, [1]⟩], [⟨.write, 7, [1]⟩]⟩]
  args_earlier := by
    intro i request hrequest args hargs tuid htuid
    match i, hrequest with
    | 0, hrequest => cases hrequest; simp at hargs; simp [hargs] at htuid
    | 1, hrequest => cases hrequest; simp at hargs; simp [hargs] at htuid; exact ⟨0, by decide, htuid⟩
    | 2, hrequest => cases hrequest; simp at hargs; simp [hargs] at htuid

/-- A compiler for two subnode managers. -/
def exampleCompiler : ClientCompiler ℕ :=
  ⟨3, 4, 0, fun _ => none, fun _ => none⟩

theorem compileBatches_orders_conflicts_example :
    ∃ compiler' compiled,
      compileBatches 0 exampleCompiler.reset
        [(exampleSubmission.tasks.take 1, 0), (exampleSubmission.tasks.drop 1, 1)] =
          .ok (compiler', compiled) ∧
      TransGen (DependsOn (compiled.flatMap fun task => task.tasks.map Task.record))
        ⟨0, 2⟩ ⟨0, 0⟩ := by
  obtain ⟨compiler', compiled, hok, hconflicts, -⟩ :=
    compileBatches_orders_conflicts exampleSubmission exampleCompiler (by decide)
      [(exampleSubmission.tasks.take 1, 0), (exampleSubmission.tasks.drop 1, 1)]
      (by
        intro batch hbatch
        rcases List.mem_cons.mp hbatch with rfl | hbatch
        · exact List.cons_ne_nil _ _
        · rw [List.mem_singleton.mp hbatch]
          exact List.cons_ne_nil _ _) rfl
  refine ⟨compiler', compiled, hok, ?_⟩
  exact hconflicts 0 2 _ _ (by decide) rfl rfl (7, 1) .write .write
    ⟨⟨.write, 7, [1]⟩, by simp [TaskRequest.dataAccesses], ⟨rfl, by simp⟩, rfl⟩
    ⟨⟨.write, 7, [1]⟩, by simp [TaskRequest.dataAccesses], ⟨rfl, by simp⟩, rfl⟩ (Or.inl rfl)

end Submissions

end Batch
