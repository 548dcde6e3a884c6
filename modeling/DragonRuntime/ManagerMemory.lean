/-
# The memory of the keys of a manager

The handlers of `Manager`, seen from the memory of the keys (`KeyMemory`): what each attempt
to perform an operation does to it, in the order in which the handler performs them, and
where the run of a manager compares memory that has been freed.  An attempt that raises
before its answer for another reason leaves the memory as it was.
-/
import DragonRuntime.ManagerSteps

namespace Manager

/-- `Manager.perform`.  A `wait_for` that has freed its key raises when it has found its checkpoint.
-/
def performMemory (m : Manager) (mem : KeyMemory) (fault : Fault) (op : DictOp) :
    Option KeyMemory :=
  match fault.raises, op with
  | some _, _ => some mem
  | none, .put _ _ chkptId _ _ _ _ true => (mem.put m.workingSet chkptId).map Prod.fst
  | none, op => dictMemory m.workingSet mem op.tag (op.call m.deferredIds)

/-- The loop of `Manager._process_deferred_ops`. -/
def processLoopMemory (pickler : XPickler) (fault : ℕ → Fault) (chkptId : ℕ) :
    List DictOp → List DictOp → Manager → KeyMemory → Option KeyMemory
  | [], _, _, mem => some mem
  | op :: ops, leftOvers, m, mem =>
    let m := { m with deferredOps := m.deferredOps.insert chkptId ops }
    (m.performMemory mem (fault op.tag) op).bind fun mem =>
      match m.perform pickler (fault op.tag) op with
      | (.done, m) => processLoopMemory pickler fault chkptId ops leftOvers m mem
      | (.waits op, m) => processLoopMemory pickler fault chkptId ops (leftOvers ++ [op]) m mem
      | (.raised, _) => some mem

/-- `Manager._process_deferred_ops`. -/
def processDeferredOpsMemory (pickler : XPickler) (fault : ℕ → Fault) (m : Manager)
    (mem : KeyMemory) (chkptId : ℕ) : Option KeyMemory :=
  match m.deferredOps.lookup chkptId with
  | none => some mem
  | some ops => processLoopMemory pickler fault chkptId ops [] m mem

/-- The first part of the handlers of puts. -/
def advanceAndProcessMemory (pickler : XPickler) (faults : Faults) (m : Manager) (mem : KeyMemory)
    (chkptId : ℕ) : Option KeyMemory :=
  (mem.put m.workingSet chkptId).bind fun (mem, _) =>
    match m.workingSet.put chkptId with
    | .ok (some _, ws) =>
      { m with workingSet := ws }.processDeferredOpsMemory pickler faults.before mem chkptId
    | _ => some mem

/-- The handler of a put. -/
def performPutMemory (pickler : XPickler) (faults : Faults) (m : Manager) (mem : KeyMemory)
    (op : DictOp) : Option KeyMemory :=
  if faults.arrival.raises.isSome then some mem
  else
    (m.advanceAndProcessMemory pickler faults mem op.chkptId).bind fun mem =>
      match m.advanceAndProcess pickler faults op.chkptId with
      | .ok (false, m) =>
        (m.performMemory mem faults.own op).bind fun mem =>
          match m.perform pickler faults.own op with
          | (.done, m) => m.processDeferredOpsMemory pickler faults.after mem op.chkptId
          | _ => some mem
      | _ => some mem

/-- One turn of the loop of `Manager._batch_put`. -/
def batchPutMemory (pickler : XPickler) (faults : Faults) (m : Manager) (mem : KeyMemory)
    (clientId chkptId : ℕ) (persist : Bool) (key : KeyBytes) (valList : ValList) :
    Option KeyMemory :=
  (m.advanceAndProcessMemory pickler faults mem chkptId).bind fun mem =>
    match m.advanceAndProcess pickler faults chkptId, faults.own.raises with
    | .ok (false, m), none =>
      (dictMemory m.workingSet mem m.received
          (.batchPut clientId chkptId (persist && m.workingSet.waitForKeys) key valList)).bind
        fun mem =>
          match batchPutOpPerform m.workingSet clientId chkptId
            (persist && m.workingSet.waitForKeys) key valList with
          | (.ok _, ws) =>
            { m with workingSet := ws }.processDeferredOpsMemory pickler faults.after mem chkptId
          | (.error _, _) => some mem
    | _, _ => some mem

/-- A reader, which changes no key. -/
def readMemory (mem : KeyMemory) (fault : Fault) (meets : Bool) : Option KeyMemory :=
  if fault.raises.isNone && meets then none else some mem

/-- The handler of a request. -/
def handleMemory (pickler : XPickler) (faults : Faults) (m : Manager) (mem : KeyMemory) (tag : ℕ) :
    Request → Option KeyMemory
  | .put clientId chkptId persist key valList waitFor =>
    m.performPutMemory pickler faults mem (.put tag clientId chkptId
      (persist && m.workingSet.waitForKeys) key valList waitFor false)
  | .bput clientId chkptId key valList =>
    m.performPutMemory pickler faults mem (.bput tag clientId chkptId key valList)
  | .batchPut clientId chkptId persist key valList =>
    m.batchPutMemory pickler faults mem clientId chkptId persist key valList
  | .get clientId chkptId key => m.performMemory mem faults.own (.get tag clientId chkptId key)
  | .fetchAdd clientId chkptId key fetchAddVal =>
    m.performMemory mem faults.own (.fetchAdd tag clientId chkptId key fetchAddVal)
  | .pop clientId chkptId key => m.performMemory mem faults.own (.pop tag clientId chkptId key)
  | .contains _ chkptId key =>
    readMemory mem faults.own (mem.lookupMeets m.workingSet m.deferredIds key
      (if m.workingSet.newestChkptId < chkptId then m.workingSet.newestChkptId else chkptId))
  | .length _ chkptId => readMemory mem faults.own (mem.keysMeets m.workingSet chkptId)
  | .keys _ chkptId => readMemory mem faults.own (mem.keysMeets m.workingSet chkptId)
  | .values _ chkptId => readMemory mem faults.own (mem.itemsMeets m.workingSet chkptId)
  | .items _ chkptId => readMemory mem faults.own (mem.itemsMeets m.workingSet chkptId)
  | .clear clientId chkptId => m.performMemory mem faults.own (.clear tag clientId chkptId)

/-- A manager and its memory after a request. -/
def memoryStep (pickler : XPickler) :
    Manager × KeyMemory → Request × Faults → Option (Manager × KeyMemory) :=
  Runs.shadowStep (Manager.step pickler) fun m mem request =>
    m.handleMemory pickler request.2 mem m.received request.1

/-- A manager and its memory after requests of which none compares freed memory. -/
def memoryRun (pickler : XPickler) (m : Manager) (mem : KeyMemory)
    (requests : List (Request × Faults)) : Option (Manager × KeyMemory) :=
  requests.foldlM (memoryStep pickler) (m, mem)

theorem eq_of_memoryRun {pickler : XPickler} {m : Manager} {mem : KeyMemory}
    {requests : List (Request × Faults)} {s : Manager × KeyMemory}
    (hrun : memoryRun pickler m mem requests = some s) :
    s.1 = requests.foldl (Manager.step pickler) m :=
  Runs.fst_of_shadow_run hrun

end Manager
