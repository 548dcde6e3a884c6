/-
# What a clear leaves behind (`ClearOp` in `dragon/data/ddict/manager.py`)

`Checkpoint.clear` empties one checkpoint: its map, its tombstones and its persist marks.  The
keys that the earlier checkpoints of the window list were covered by nothing but these
tombstones, so that at the cleared checkpoint exactly these keys are there afterwards
(`gone_clear_iff`).  From there on every later call is exact
(`manager_clear_empties_iff`).
-/
import DragonRuntime.ManagerMemory

open WorkingSet

/-- No key is listed at the checkpoint, and no get of it finds a value. -/
structure WorkingSet.Emptied (ws : WorkingSet) (chkptId : ℕ) : Prop where
  keys : ws.keys chkptId = .ok ∅
  get : ∀ deferredOps key valList,
    getOpPerform ws deferredOps chkptId key ≠ .ok (some (some valList))

/-- The call puts a value into checkpoint `c`. -/
def DictCall.putsAt (call : DictCall) (c : ℕ) : Bool :=
  match call with
  | .put _ chkptId _ _ _ waitFor => decide (chkptId = c) && !waitFor
  | .batchPut _ chkptId .. => decide (chkptId = c)
  | .fetchAdd _ chkptId .. => decide (chkptId = c)
  | _ => false

section Clears

variable {size : ℕ} {waitForKeys : Bool} {ws : WorkingSet} {key : KeyBytes} {c : ℕ}

/-- A call that puts nothing into `c` does not store any key there. -/
theorem DictCall.writes_of_putsAt {call : DictCall} (hputs : call.putsAt c = false)
    (key : KeyBytes) : call.writes key c = false := by
  cases call with
  | put =>
    simp only [DictCall.putsAt, Bool.and_eq_false_iff] at hputs
    rcases hputs with hid | hwait
    · simp [DictCall.writes, hid]
    · simp [DictCall.writes, hwait]
  | batchPut _ chkptId | fetchAdd _ chkptId =>
    have hid : decide (chkptId = c) = false := hputs
    simp [DictCall.writes, hid]
  | pop => rfl
  | clear => rfl
  | get => rfl
  | read => rfl
  | access => rfl
  | advance => rfl

/-- The readers find nothing at `c` iff every key is hidden there. -/
theorem WindowInv.emptied_iff (h : WindowInv size waitForKeys ws) (hold : ws.oldestChkptId ≤ c)
    (hnew : c < ws.nextId) : ws.Emptied c ↔ ∀ key, Hidden ws key c := by
  constructor
  · rintro ⟨hkeys, -⟩ key
    obtain ⟨keys, hrun, hmem⟩ := h.keys_hidden key hold hnew
    rw [hkeys] at hrun
    cases hrun
    exact hmem.mp (Finset.notMem_empty key)
  · intro hhidden
    constructor
    · obtain ⟨keys, hrun, -⟩ := h.keys_hidden [] hold hnew
      rw [hrun]
      refine congrArg _ (Finset.eq_empty_of_forall_notMem ?_)
      intro key
      obtain ⟨keys', hrun', hmem⟩ := h.keys_hidden key hold hnew
      rw [hrun] at hrun'
      cases hrun'
      exact hmem.mpr (hhidden key)
    · intro deferredOps key valList hget
      obtain ⟨habsent | ⟨-, hwaits⟩, -, -⟩ :=
        (h.reportsAbsent_iff deferredOps hold hnew).mpr (hhidden key)
      · rw [habsent] at hget
        cases hget
      · rw [hwaits] at hget
        cases hget

/-- The invariant of the run, for all keys at once. -/
theorem WorkingSetInv.forall_gone_iff (h : WorkingSetInv size waitForKeys ws)
    (hlt : c < ws.nextId) :
    (∀ key, Gone size waitForKeys ws key c) ↔ (ws.oldestChkptId ≤ c → ws.Emptied c) := by
  constructor
  · intro hgone hold
    exact (h.window.emptied_iff hold hlt).mpr fun key => (hgone key).hidden hold
  · intro hempty key
    exact ⟨h.window, h.persist, hlt, fun hold =>
      (h.window.emptied_iff hold hlt).mp (hempty hold) key⟩

/-- A clear that answers `SUCCESS` is the call of the working set. -/
theorem clear_success (pickler : XPickler) {fault : Fault} {tag clientId : ℕ}
    (hclear : (clearPerform fault ws tag clientId c).answers = [⟨tag, .success, .nothing⟩]) :
    (clearPerform fault ws tag clientId c).workingSet = dictStep pickler ws (.clear clientId c) := by
  change _ = (clearOpPerform ws clientId c).2
  unfold clearPerform at hclear ⊢
  generalize clearOpPerform ws clientId c = run, fault.raises = raises at hclear ⊢
  obtain ⟨e | performed, ws1⟩ := run
  · cases e <;> cases hclear
  · rcases raises with _ | raised
    · rcases performed with _ | _
      · cases hclear
      · rfl
    · cases hclear

/-- **The clear itself**: a key is away from the cleared checkpoint iff no earlier checkpoint
shows it. -/
theorem gone_clear_iff (h : WorkingSetInv size waitForKeys ws) (pickler : XPickler)
    (clientId : ℕ) (key : KeyBytes) (hold : ws.oldestChkptId ≤ c) (hnew : c < ws.nextId) :
    Gone size waitForKeys (dictStep pickler ws (.clear clientId c)) key c ↔ ¬ Shown ws key c := by
  have h' := h.dictStep pickler (.clear clientId c)
  obtain ⟨chkpt, hlookup⟩ := h.window.lookup_of_mem (i := c)
    (by have := h.window.oldest_eq; omega) hnew
  have haccess : ws.access c = .ok (some chkpt, ws) := by
    rw [h.window.access_eq_put, h.window.put_of_mem hlookup]
  obtain ⟨ws', hperform, hat⟩ := clearOp_empties haccess clientId
  have hstep : dictStep pickler ws (.clear clientId c) = ws' := by
    change (clearOpPerform ws clientId c).2 = ws'
    rw [hperform]
  rw [hstep] at h' ⊢
  have hwait : ws'.waitForKeys = ws.waitForKeys := by
    rw [h'.window.waitForKeys_eq, h.window.waitForKeys_eq]
  have hview : viewAt ws' key c = KeyView.empty := by
    rw [hat.viewAt_eq, if_pos rfl]
  have hbelow : Shown ws' key c ↔ Shown ws key c := by
    refine shown_congr hat.oldest_eq hwait ?_
    intro i hi
    rw [hat.viewAt_eq, if_neg (by omega)]
  -- an empty checkpoint neither lists the key nor hides it
  have hshown : Shown ws' key (c + 1) ↔ Shown ws key c := by
    rw [shown_succ (by rw [hat.oldest_eq]; exact hold), hview, hbelow]
    cases ws'.waitForKeys with
    | false => simp [KeyView.empty, KeyView.shows, KeyView.hides]
    | true => simp [KeyView.empty, KeyView.shows, KeyView.hides]
  rw [← hshown]
  constructor
  · intro hgone
    exact (hgone.hidden (by rw [hat.oldest_eq]; exact hold)).not_shown
  · intro hnot
    refine ⟨h'.window, h'.persist, by rw [hat.nextId_eq]; exact hnew, fun _ => ⟨?_, hnot⟩⟩
    rw [hview]
    rfl

/-- After a clear of a checkpoint of the window that answers `SUCCESS`: no reader finds a key there,
as long as the checkpoint is in the window, iff no earlier checkpoint of the window shows a key at
the clear, and no later call brings one back. -/
theorem clearPerform_empties_iff (h : WorkingSetInv size waitForKeys ws) (pickler : XPickler)
    {fault : Fault} {tag clientId : ℕ} (hmem : c ∈ ws.chkpts)
    (hclear : (clearPerform fault ws tag clientId c).answers = [⟨tag, .success, .nothing⟩])
    {cleared : WorkingSet} (hcleared : cleared = (clearPerform fault ws tag clientId c).workingSet)
    {later : List DictCall} (hlater : ∀ call ∈ later, call.putsAt c = false) :
    (∀ pre, pre <+: later → (pre.foldl (dictStep pickler) cleared).oldestChkptId ≤ c →
      (pre.foldl (dictStep pickler) cleared).Emptied c) ↔
    (∀ key, ¬ Shown ws key c) ∧
      Runs.Legal (dictStep pickler)
        (fun ws call => ∀ key, ws.oldestChkptId ≤ c → ¬ Uncovers ws key c call) cleared later := by
  obtain ⟨hfirst, hlt⟩ := (h.window.mem_iff c).mp hmem
  rw [← h.window.oldest_eq] at hfirst
  rw [clear_success pickler hclear] at hcleared
  have hgone := fun key => gone_clear_iff h pickler clientId key hfirst hlt
  rw [← hcleared] at hgone
  -- the invariants of the run, which need no condition
  have hinv : ∀ pre : List DictCall,
      WorkingSetInv size waitForKeys (pre.foldl (dictStep pickler) cleared) ∧
        c < (pre.foldl (dictStep pickler) cleared).nextId := by
    intro pre
    rw [hcleared]
    refine List.foldlRecOn pre (dictStep pickler)
      (motive := fun ws => WorkingSetInv size waitForKeys ws ∧ c < ws.nextId)
      ⟨h.dictStep pickler _, hlt.trans_le (h.window.nextId_le_dictStep pickler _)⟩ ?_
    rintro ws ⟨hws, hlt⟩ call -
    exact ⟨hws.dictStep pickler call, hlt.trans_le (hws.window.nextId_le_dictStep pickler call)⟩
  have hreport : (∀ pre, pre <+: later →
      (pre.foldl (dictStep pickler) cleared).oldestChkptId ≤ c →
      (pre.foldl (dictStep pickler) cleared).Emptied c) ↔
      ∀ pre, pre <+: later → ∀ key,
        Gone size waitForKeys (pre.foldl (dictStep pickler) cleared) key c := by
    apply forall₂_congr
    intro pre _
    obtain ⟨hws, hlt⟩ := hinv pre
    exact (hws.forall_gone_iff hlt).symm
  have hexact : (∀ key, Gone size waitForKeys cleared key c) →
      ((∀ pre, pre <+: later → ∀ key,
        Gone size waitForKeys (pre.foldl (dictStep pickler) cleared) key c) ↔
      Runs.Legal (dictStep pickler)
        (fun ws call => ∀ key, ws.oldestChkptId ≤ c → ¬ Uncovers ws key c call)
        cleared later) := by
    intro hstart
    refine Runs.forall_prefix_inv_iff_legal
      (I := fun ws => ∀ key, Gone size waitForKeys ws key c) ?_ hstart
    intro ws call hcall hgone
    apply forall_congr'
    intro key
    exact (hgone key).dictStep_iff pickler (DictCall.writes_of_putsAt (hlater call hcall) key)
  rw [hreport, ← forall_congr' hgone]
  constructor
  · intro hall
    have hstart := hall [] List.nil_prefix
    exact ⟨hstart, (hexact hstart).mp hall⟩
  · rintro ⟨hstart, hlegal⟩
    exact (hexact hstart).mpr hlegal

end Clears

/-! ## With the memory of the keys -/

/-- `WorkingSet.Emptied`, where no reader raises because it compares freed memory. -/
structure KeyMemory.Emptied (mem : KeyMemory) (ws : WorkingSet) (chkptId : ℕ) : Prop where
  keys : mem.keys ws chkptId = some (.ok ∅)
  get : ∀ deferredOps key, ∃ result, mem.getOp ws deferredOps key chkptId = some result ∧
    ∀ valList, result ≠ .ok (some (some valList))

theorem KeyMemory.emptied_iff {mem : KeyMemory} {ws : WorkingSet} {chkptId : ℕ} :
    mem.Emptied ws chkptId ↔ ws.Emptied chkptId ∧ mem.keysMeets ws chkptId = false ∧
      ∀ deferredOps key, mem.lookupMeets ws deferredOps key chkptId = false := by
  constructor
  · rintro ⟨hkeys, hget⟩
    obtain ⟨hquiet, hkeys⟩ := answer_eq_some.mp hkeys
    refine ⟨⟨hkeys, fun deferredOps key valList => ?_⟩, hquiet, fun deferredOps key => ?_⟩
    · obtain ⟨result, hresult, hnone⟩ := hget deferredOps key
      rw [(answer_eq_some.mp hresult).2]
      exact hnone valList
    · obtain ⟨result, hresult, -⟩ := hget deferredOps key
      exact (answer_eq_some.mp hresult).1
  · rintro ⟨⟨hkeys, hget⟩, hquiet, hlookup⟩
    exact ⟨answer_eq_some.mpr ⟨hquiet, hkeys⟩, fun deferredOps key =>
      ⟨_, answer_eq_some.mpr ⟨hlookup deferredOps key, rfl⟩, hget deferredOps key⟩⟩

/-- **When clear empties.**  After any requests and faults, let a clear of a checkpoint of the
window answer `SUCCESS`, let no later call put a value into this checkpoint, and let none of these
compare memory of a key that has been freed.  No reader finds a key there, as long as the checkpoint
is in the window, iff no earlier checkpoint of the window shows a key at the clear, no later call
brings one back, and no reader of the checkpoint meets freed memory. -/
theorem manager_clear_empties_iff (pickler : XPickler) (start workingSetSize : ℕ)
    (hsize : 1 ≤ workingSetSize) (waitForKeys waitForWriters : Bool)
    (requests : List (Request × Faults)) (m : Manager) (mem : KeyMemory)
    (hrun : Manager.memoryRun pickler
      (Manager.init start workingSetSize waitForKeys waitForWriters) KeyMemory.init requests
        = some (m, mem))
    (fault : Fault) (tag clientId chkptId : ℕ) (hmem : chkptId ∈ m.workingSet.chkpts)
    (hclear : (clearPerform fault m.workingSet tag clientId chkptId).answers
      = [⟨tag, .success, .nothing⟩])
    (cleared : WorkingSet × KeyMemory)
    (hcleared : memoryStep pickler (m.workingSet, mem) (tag, .clear clientId chkptId) = some cleared)
    (later : List (ℕ × DictCall)) (hlater : ∀ call ∈ later, call.2.putsAt chkptId = false)
    (hruns : (memoryRun pickler cleared.1 cleared.2 later).isSome) :
    (∀ pre, pre <+: later → ∀ s, memoryRun pickler cleared.1 cleared.2 pre = some s →
      s.1.oldestChkptId ≤ chkptId → s.2.Emptied s.1 chkptId) ↔
    (∀ key, ¬ Shown m.workingSet key chkptId) ∧
      Runs.Legal (dictStep pickler)
        (fun ws call => ∀ key, ws.oldestChkptId ≤ chkptId → ¬ Uncovers ws key chkptId call)
        cleared.1 (later.map Prod.snd) ∧
      ∀ pre, pre <+: later → ∀ s, memoryRun pickler cleared.1 cleared.2 pre = some s →
        s.1.oldestChkptId ≤ chkptId → s.2.keysMeets s.1 chkptId = false ∧
          ∀ deferredOps key, s.2.lookupMeets s.1 deferredOps key chkptId = false := by
  have hm : m = requests.foldl (Manager.step pickler)
      (Manager.init start workingSetSize waitForKeys waitForWriters) := Manager.eq_of_memoryRun hrun
  have h : WorkingSetInv workingSetSize waitForKeys m.workingSet := by
    rw [hm]
    exact (managerInv_run pickler start hsize waitForKeys waitForWriters requests).ws
  obtain ⟨mem1, -, rfl⟩ := Option.map_eq_some_iff.mp hcleared
  have hlater' : ∀ call ∈ later.map Prod.snd, call.putsAt chkptId = false := by
    intro call hcall
    obtain ⟨call', hcall', rfl⟩ := List.mem_map.mp hcall
    exact hlater call' hcall'
  have hbytes := clearPerform_empties_iff h pickler hmem hclear (clear_success pickler hclear).symm
    hlater'
  -- the states of the run with memory are those of the run without
  have hempties : (∀ pre, pre <+: later.map Prod.snd →
      (pre.foldl (dictStep pickler)
        (dictStep pickler m.workingSet (.clear clientId chkptId))).oldestChkptId ≤ chkptId →
      (pre.foldl (dictStep pickler)
        (dictStep pickler m.workingSet (.clear clientId chkptId))).Emptied chkptId) ↔
      ∀ pre, pre <+: later → ∀ s, memoryRun pickler
        (dictStep pickler m.workingSet (.clear clientId chkptId)) mem1 pre = some s →
        s.1.oldestChkptId ≤ chkptId → s.1.Emptied chkptId := by
    constructor
    · intro hall pre hpre s hs
      rw [ws_of_memoryRun hs]
      exact hall _ (hpre.map Prod.snd)
    · intro hall pre hpre
      obtain ⟨pre', hpre', rfl⟩ := List.prefix_map_iff.mp hpre
      obtain ⟨s, hs⟩ := exists_memoryRun_prefix hruns hpre'
      rw [← ws_of_memoryRun hs]
      exact hall pre' hpre' s hs
  rw [← and_assoc, ← hbytes, hempties]
  simp only [KeyMemory.emptied_iff]
  constructor
  · intro hall
    exact ⟨fun pre hpre s hs hold => (hall pre hpre s hs hold).1,
      fun pre hpre s hs hold => (hall pre hpre s hs hold).2⟩
  · rintro ⟨hempty, hlive⟩ pre hpre s hs hold
    exact ⟨hempty pre hpre s hs hold, hlive pre hpre s hs hold⟩

/-- A key put at checkpoint `1`, and the clear of this checkpoint. -/
theorem manager_clear_empties_own :
    ∃ m mem cleared, Manager.memoryRun XPickler.scalars (Manager.init 0 2 false false)
        KeyMemory.init [(.put 7 1 false [1] [[5]] false, Faults.none)] = some (m, mem) ∧
      memoryStep XPickler.scalars (m.workingSet, mem) (1, .clear 7 1) = some cleared ∧
      ((∀ pre, pre <+: [] → ∀ s, memoryRun XPickler.scalars cleared.1 cleared.2 pre = some s →
          s.1.oldestChkptId ≤ 1 → s.2.Emptied s.1 1) ↔
        (∀ key, ¬ Shown m.workingSet key 1) ∧
          Runs.Legal (dictStep XPickler.scalars)
            (fun ws call => ∀ key, ws.oldestChkptId ≤ 1 → ¬ Uncovers ws key 1 call) cleared.1 [] ∧
          ∀ pre, pre <+: [] → ∀ s, memoryRun XPickler.scalars cleared.1 cleared.2 pre = some s →
            s.1.oldestChkptId ≤ 1 → s.2.keysMeets s.1 1 = false ∧
              ∀ deferredOps key, s.2.lookupMeets s.1 deferredOps key 1 = false) := by
  refine ⟨_, _, _, rfl, rfl, ?_⟩
  exact manager_clear_empties_iff XPickler.scalars 0 2 (by decide) false false
    [(.put 7 1 false [1] [[5]] false, Faults.none)] _ _ rfl .none 1 7 1 (by decide +kernel) rfl _ rfl
    [] (fun _ hcall => absurd hcall List.not_mem_nil) rfl

/-- A key put at checkpoint `0` is there at checkpoint `1` after the clear of checkpoint `1`. -/
theorem not_clear_empties :
    ¬ ∀ (pickler : XPickler) (start workingSetSize : ℕ) (waitForKeys waitForWriters : Bool)
      (requests : List (Request × Faults)) (m : Manager) (mem : KeyMemory) (fault : Fault)
      (tag clientId chkptId : ℕ) (cleared : WorkingSet × KeyMemory), 1 ≤ workingSetSize →
      Manager.memoryRun pickler (Manager.init start workingSetSize waitForKeys waitForWriters)
        KeyMemory.init requests = some (m, mem) →
      chkptId ∈ m.workingSet.chkpts →
      (clearPerform fault m.workingSet tag clientId chkptId).answers
        = [⟨tag, .success, .nothing⟩] →
      memoryStep pickler (m.workingSet, mem) (tag, .clear clientId chkptId) = some cleared →
      cleared.2.Emptied cleared.1 chkptId := by
  intro h
  have hempty := h XPickler.scalars 0 2 false false [(.put 7 0 false [1] [[5]] false, Faults.none)]
    _ _ .none 1 7 1 _ (by decide) rfl (by decide +kernel) rfl rfl
  refine (KeyMemory.emptied_iff.mp hempty).1.get ∅ [1] [[5]] ?_
  rfl
