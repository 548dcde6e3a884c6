/-
# What a call leaves alone

While the window stays where it is, a call changes no key but the one that it names, in its
own checkpoint, and adds no writer but its own client (`WindowInv.dictStep_bounds`).  So
whatever does not depend on these outlasts the call: a lookup of another key
(`Footprint.Bounds.getView_eq`), and the refusal of `advance` to retire the oldest checkpoint
(`Footprint.Bounds.refuses`).
-/
import DragonRuntime.WorkingSetWriters

open WorkingSet

/-! ## Footprints -/

/-- What a call may change: the keys of checkpoints, the checkpoints whose writers it may
drop, and the writers that it may add to checkpoints. -/
structure Footprint where
  touches : KeyBytes → ℕ → Prop
  wipes : ℕ → Prop
  records : ℕ → ℕ → Prop

namespace Footprint

/-- Nothing. -/
def nothing : Footprint := ⟨fun _ _ => False, fun _ => False, fun _ _ => False⟩

/-- A key of checkpoint `c`, and the client as a writer of it. -/
def write (clientId c : ℕ) (key : KeyBytes) : Footprint where
  touches k i := i = c ∧ k = key
  wipes _ := False
  records client i := i = c ∧ client = clientId

/-- The client as a writer of the checkpoints before `c`. -/
def read (clientId c : ℕ) : Footprint where
  touches _ _ := False
  wipes _ := False
  records client i := i < c ∧ client = clientId

/-- What either footprint has. -/
def union (footprint footprint' : Footprint) : Footprint where
  touches key i := footprint.touches key i ∨ footprint'.touches key i
  wipes i := footprint.wipes i ∨ footprint'.wipes i
  records client i := footprint.records client i ∨ footprint'.records client i

/-- The working set has changed within the footprint only. -/
structure Bounds (footprint : Footprint) (ws ws' : WorkingSet) : Prop where
  nextId_eq : ws'.nextId = ws.nextId
  size_eq : ws'.workingSetSize = ws.workingSetSize
  waitForWriters_eq : ws'.waitForWriters = ws.waitForWriters
  view_eq : ∀ key i, ¬ footprint.touches key i → keyViewAt ws' key i = keyViewAt ws key i
  kept : ∀ client i, ¬ footprint.wipes i → client ∈ writersAt ws i → client ∈ writersAt ws' i
  added : ∀ client i, client ∈ writersAt ws' i →
    client ∈ writersAt ws i ∨ footprint.records client i

end Footprint

/-- The footprint of a call that does not advance. -/
def DictCall.footprint : DictCall → Footprint
  | .put clientId c _ key _ waitFor =>
    if waitFor then Footprint.nothing else Footprint.write clientId c key
  | .batchPut clientId c _ key _ => Footprint.write clientId c key
  | .get _ clientId c _ => Footprint.read clientId c
  | .fetchAdd clientId c key _ =>
    { Footprint.read clientId c with touches := fun k i => i = c ∧ k = key }
  | .pop _ clientId c key => Footprint.write clientId c key
  | .read clientId c => Footprint.read clientId c
  | .clear clientId c =>
    { Footprint.read clientId c with touches := fun _ i => i = c, wipes := fun i => i = c }
  | .access _ => Footprint.nothing
  | .advance => Footprint.nothing

/-- The window is not advanced to checkpoint `c`: it is there, or too old, or `advance`
refuses. -/
def WorkingSet.StaysFor (ws : WorkingSet) (c : ℕ) : Prop :=
  c < ws.nextId ∨ ws.advance = .ok (false, ws)

/-- The call does not advance the window. -/
def DictCall.Stays (ws : WorkingSet) : DictCall → Prop
  | .put _ c _ _ _ _ => ws.StaysFor c
  | .batchPut _ c _ _ _ => ws.StaysFor c
  | .fetchAdd _ c _ _ => ws.StaysFor c
  | .clear _ c => ws.StaysFor c
  | .access c => ws.StaysFor c
  | .advance => ws.advance = .ok (false, ws)
  | _ => True

/-- The call does nothing when the window stays where it is: its checkpoint is not there, or
it finds nothing. -/
def DictCall.inert (ws : WorkingSet) : DictCall → Bool
  | .put _ c _ _ _ _ => decide (c ∉ ws.chkpts)
  | .batchPut _ c _ _ _ => decide (c ∉ ws.chkpts)
  | .get deferredOps _ c key =>
    match ws.get deferredOps key c with
    | .ok (some _) => false
    | _ => true
  | .fetchAdd _ c _ _ => decide (c ∉ ws.chkpts)
  | .pop deferredOps _ c key => !popSucceeds ws deferredOps c key
  | .read _ c => decide (c ≤ ws.oldestChkptId)
  | .clear _ c => decide (c ∉ ws.chkpts)
  | .access _ => true
  | .advance => true

/-- The footprint of a call that does not advance, in a working set. -/
def DictCall.effect (ws : WorkingSet) (call : DictCall) : Footprint :=
  if call.inert ws then Footprint.nothing else call.footprint

section Bounds

variable {size : ℕ} {waitForKeys : Bool} {ws ws' ws1 : WorkingSet} {chkpt : Checkpoint}
  {footprint : Footprint} {pickler : XPickler} {c : ℕ} {key : KeyBytes}

theorem Footprint.Bounds.refl (footprint : Footprint) (ws : WorkingSet) :
    footprint.Bounds ws ws :=
  ⟨rfl, rfl, rfl, fun _ _ _ => rfl, fun _ _ _ hin => hin, fun _ _ hin => Or.inl hin⟩

theorem Footprint.Bounds.trans {footprint' : Footprint} (h : footprint.Bounds ws ws')
    (h' : footprint'.Bounds ws' ws1) : (footprint.union footprint').Bounds ws ws1 := by
  refine ⟨h'.nextId_eq.trans h.nextId_eq, h'.size_eq.trans h.size_eq,
    h'.waitForWriters_eq.trans h.waitForWriters_eq, ?_, ?_, ?_⟩
  · intro key i hout
    rw [Footprint.union, not_or] at hout
    exact (h'.view_eq key i hout.2).trans (h.view_eq key i hout.1)
  · intro client i hout hin
    rw [Footprint.union, not_or] at hout
    exact h'.kept client i hout.2 (h.kept client i hout.1 hin)
  · intro client i hin
    rcases h'.added client i hin with hin | hnew
    · rcases h.added client i hin with hin | hnew
      · exact Or.inl hin
      · exact Or.inr (Or.inl hnew)
    · exact Or.inr (Or.inr hnew)

/-- What is within a footprint is within a larger one. -/
theorem Footprint.Bounds.mono {footprint' : Footprint} (h : footprint.Bounds ws ws')
    (htouches : ∀ key i, footprint.touches key i → footprint'.touches key i)
    (hwipes : ∀ i, footprint.wipes i → footprint'.wipes i)
    (hrecords : ∀ client i, footprint.records client i → footprint'.records client i) :
    footprint'.Bounds ws ws' :=
  ⟨h.nextId_eq, h.size_eq, h.waitForWriters_eq,
    fun key i hout => h.view_eq key i fun hin => hout (htouches key i hin),
    fun client i hout hin => h.kept client i (fun hwipe => hout (hwipes i hwipe)) hin,
    fun client i hin => (h.added client i hin).imp_right (hrecords client i)⟩

theorem WindowInv.put_of_stays (h : WindowInv size waitForKeys ws) (hstays : ws.StaysFor c) :
    ws.put c = .error .checkpointSync ∨ ws.put c = .ok (ws.chkpts.lookup c, ws) := by
  rcases h.put_cases c with ⟨-, herr⟩ | ⟨-, ws1, hadv, hrun, hsame, -⟩
  · exact Or.inl herr
  · right
    rcases hstays with hlt | hrefuse
    · rw [hrun, hsame hlt]
    · rw [hrun, hadv.eq_of_refused hrefuse]

/-- What the sets of writers undergo is within the footprint. -/
def Marks.Fits (footprint : Footprint) : Marks → Prop
  | .none => True
  | .write clientId c => footprint.records clientId c
  | .move clientId c => ∀ i < c, footprint.records clientId i
  | .clear clientId c => footprint.wipes c ∧ ∀ i < c, footprint.records clientId i

theorem Marks.Fits.kept {marks : Marks} {writers : ℕ → Finset ℕ} {client i : ℕ}
    (hfits : marks.Fits footprint) (hout : ¬ footprint.wipes i) (hin : client ∈ writers i) :
    client ∈ marks.apply ws writers i := by
  cases marks with
  | none => exact hin
  | write _ c =>
    rw [Marks.apply]
    by_cases hi : i = c
    · subst hi
      rw [Function.update_self]
      exact Finset.mem_insert_of_mem hin
    · rw [Function.update_of_ne hi]
      exact hin
  | move => exact (mem_movedWriters i client).mpr (Or.inl hin)
  | clear _ c =>
    have hi : i ≠ c := by
      rintro rfl
      exact hout hfits.1
    refine (mem_movedWriters i client).mpr (Or.inl ?_)
    rw [Function.update_of_ne hi]
    exact hin

theorem Marks.Fits.added {marks : Marks} {writers : ℕ → Finset ℕ} {client i : ℕ}
    (hfits : marks.Fits footprint) (hin : client ∈ marks.apply ws writers i) :
    client ∈ writers i ∨ footprint.records client i := by
  cases marks with
  | none => exact Or.inl hin
  | write _ c =>
    rw [Marks.apply] at hin
    by_cases hi : i = c
    · subst hi
      rw [Function.update_self] at hin
      rcases Finset.mem_insert.mp hin with rfl | hin
      · exact Or.inr hfits
      · exact Or.inl hin
    · rw [Function.update_of_ne hi] at hin
      exact Or.inl hin
  | move =>
    rcases (mem_movedWriters i client).mp hin with hin | ⟨rfl, -, hlt, -⟩
    · exact Or.inl hin
    · exact Or.inr (hfits i (hlt.trans_le (min_le_left _ _)))
  | clear _ c =>
    rcases (mem_movedWriters i client).mp hin with hin | ⟨rfl, -, hlt, -⟩
    · left
      by_cases hi : i = c
      · rw [hi, Function.update_self] at hin
        exact absurd hin (Finset.notMem_empty _)
      · rwa [Function.update_of_ne hi] at hin
    · exact Or.inr (hfits.2 i (hlt.trans_le (min_le_left _ _)))

theorem SameKeys.bounds {marks : Marks} (hsame : SameKeys ws ws')
    (hwait : ws'.waitForWriters = ws.waitForWriters)
    (hwriters : writersAt ws' = marks.apply ws (writersAt ws)) (hfits : marks.Fits footprint) :
    footprint.Bounds ws ws' := by
  refine ⟨hsame.nextId_eq, hsame.size_eq, hwait, fun key i _ => hsame.view_eq key i, ?_, ?_⟩
  · intro client i hout hin
    rw [hwriters]
    exact hfits.kept hout hin
  · intro client i hin
    rw [hwriters] at hin
    exact hfits.added hin

theorem ChangesAt.bounds {marks : Marks} {view : KeyBytes → KeyView}
    (hlookup : ws.chkpts.lookup c = some chkpt) (hchanges : ChangesAt ws ws' c view)
    (hview : ∀ key, ¬ footprint.touches key c → view key = chkpt.keyView key)
    (hwait : ws'.waitForWriters = ws.waitForWriters)
    (hwriters : writersAt ws' = marks.apply ws (writersAt ws)) (hfits : marks.Fits footprint) :
    footprint.Bounds ws ws' := by
  refine ⟨hchanges.nextId_eq, hchanges.size_eq, hwait, ?_, ?_, ?_⟩
  · intro key i hout
    rw [hchanges.view_eq]
    by_cases hi : i = c
    · subst hi
      rw [if_pos rfl, keyViewAt_of_lookup hlookup, hview key hout]
    · rw [if_neg hi]
  · intro client i hout hin
    rw [hwriters]
    exact hfits.kept hout hin
  · intro client i hin
    rw [hwriters] at hin
    exact hfits.added hin

/-- All the keys of a checkpoint but one stay. -/
theorem Checkpoint.viewWith_of_untouched {view : KeyView}
    (htouches : ∀ k, k = key → footprint.touches k c) (k : KeyBytes)
    (hout : ¬ footprint.touches k c) : chkpt.viewWith key view k = chkpt.keyView k := by
  rw [Checkpoint.viewWith, if_neg]
  exact fun hk => hout (htouches k hk)

/-- **What a call leaves alone.** -/
theorem WindowInv.dictStep_bounds (h : WindowInv size waitForKeys ws) (pickler : XPickler)
    {call : DictCall} (hstays : call.Stays ws) :
    call.footprint.Bounds ws (dictStep pickler ws call) := by
  have hwait := h.waitForWriters_dictStep pickler call
  cases call with
  | put clientId c persist key valList waitFor =>
    rw [dictStep] at hwait ⊢
    rcases h.put_of_stays hstays with hrun | hrun
    · rw [putOpPerform, hrun]
      exact Footprint.Bounds.refl _ ws
    · cases hlookup : ws.chkpts.lookup c with
      | none =>
        rw [putOpPerform, hrun, hlookup]
        exact Footprint.Bounds.refl _ ws
      | some chkpt =>
        rw [hlookup] at hrun
        have hsound := h.sound c chkpt hlookup
        have hwriters := putOp_writers hrun hsound hlookup clientId persist key valList waitFor
        cases waitFor with
        | true =>
          exact (putOp_waitFor hrun hsound hlookup clientId persist key valList).bounds hwait
            hwriters trivial
        | false =>
          obtain ⟨ws2, hperform, hchanges⟩ :=
            putOp_stores hrun hsound clientId persist key valList
          rw [hperform] at hwriters hwait ⊢
          exact hchanges.bounds hlookup
            (Checkpoint.viewWith_of_untouched fun _ hk => ⟨rfl, hk⟩) hwait hwriters ⟨rfl, rfl⟩
  | batchPut clientId c persist key valList =>
    rw [dictStep] at hwait ⊢
    rcases h.put_of_stays hstays with hrun | hrun
    · rw [batchPutOpPerform, hrun]
      exact Footprint.Bounds.refl _ ws
    · cases hlookup : ws.chkpts.lookup c with
      | none =>
        rw [batchPutOpPerform, hrun, hlookup]
        exact Footprint.Bounds.refl _ ws
      | some chkpt =>
        rw [hlookup] at hrun
        have hsound := h.sound c chkpt hlookup
        have hwriters := batchPutOp_writers hrun hsound hlookup clientId persist key valList
        obtain ⟨ws2, hperform, hchanges⟩ :=
          batchPutOp_stores hrun hsound clientId persist key valList
        rw [hperform] at hwriters hwait ⊢
        exact hchanges.bounds hlookup
          (Checkpoint.viewWith_of_untouched fun _ hk => ⟨rfl, hk⟩) hwait hwriters ⟨rfl, rfl⟩
  | get _ clientId c =>
    rw [dictStep] at hwait ⊢
    split
    · exact (sameKeys_updateWriterCheckpoint ws clientId c).bounds
        (updateWriterCheckpoint_waitForWriters ws clientId c)
        (h.writersAt_updateWriterCheckpoint clientId c) fun _ hi => ⟨hi, rfl⟩
    · exact Footprint.Bounds.refl _ ws
  | fetchAdd clientId c key fetchAddVal =>
    rw [dictStep] at hwait ⊢
    rcases h.put_of_stays hstays with hrun | hrun
    · rw [fetchAddPerform, hrun]
      exact Footprint.Bounds.refl _ ws
    · cases hlookup : ws.chkpts.lookup c with
      | none =>
        rw [fetchAddPerform, hrun, hlookup]
        exact Footprint.Bounds.refl _ ws
      | some chkpt =>
        rw [hlookup] at hrun
        have hwriters := h.fetchAdd_writers pickler hrun hlookup clientId key fetchAddVal
        rcases fetchAdd_stores pickler hrun (h.sound c chkpt hlookup) clientId key
          fetchAddVal with ⟨hperform, -⟩ | ⟨result, ws2, stored, hperform, hchanges⟩
        · rw [hperform]
          exact Footprint.Bounds.refl _ ws
        · rw [hperform] at hwriters hwait ⊢
          rcases hwriters with ⟨-, hmoved⟩ | ⟨-, hsame⟩
          · exact hchanges.bounds hlookup
              (Checkpoint.viewWith_of_untouched fun _ hk => ⟨rfl, hk⟩) hwait hmoved
              fun _ hi => ⟨hi, rfl⟩
          · replace hsame : writersAt ws2 = Marks.none.apply ws (writersAt ws) := hsame
            exact hchanges.bounds hlookup
              (Checkpoint.viewWith_of_untouched fun _ hk => ⟨rfl, hk⟩) hwait hsame trivial
  | pop deferredOps clientId c key =>
    rw [dictStep] at hwait ⊢
    have hwriters := h.popOp_writers deferredOps clientId c key
    rcases h.popOp_cases deferredOps clientId c key with
      ⟨-, hperform⟩ | ⟨hsucceeds, chkpt, chkpt', hlookup, hperform, -, hview⟩
    · rw [hperform]
      exact Footprint.Bounds.refl _ ws
    · rw [hsucceeds, hperform, if_pos rfl] at hwriters
      rw [hperform] at hwait ⊢
      exact ((changesAt_setChkpt ws c chkpt').congr hview).bounds hlookup
        (Checkpoint.viewWith_of_untouched fun _ hk => ⟨rfl, hk⟩) hwait hwriters ⟨rfl, rfl⟩
  | read clientId c =>
    rw [dictStep]
    exact (sameKeys_updateWriterCheckpoint ws clientId c).bounds
      (updateWriterCheckpoint_waitForWriters ws clientId c)
      (h.writersAt_updateWriterCheckpoint clientId c) fun _ hi => ⟨hi, rfl⟩
  | clear clientId c =>
    rw [dictStep] at hwait ⊢
    rcases h.put_of_stays hstays with hrun | hrun
    · rw [clearOpPerform, h.access_eq_put, hrun]
      exact Footprint.Bounds.refl _ ws
    · cases hlookup : ws.chkpts.lookup c with
      | none =>
        rw [clearOpPerform, h.access_eq_put, hrun, hlookup]
        exact Footprint.Bounds.refl _ ws
      | some chkpt =>
        rw [hlookup, ← h.access_eq_put] at hrun
        have hwriters := h.clearOp_writers hrun hlookup clientId
        obtain ⟨ws2, hperform, hchanges⟩ := clearOp_empties hrun clientId
        rw [hperform] at hwriters hwait ⊢
        exact hchanges.bounds hlookup (fun _ hout => absurd rfl hout) hwait hwriters
          ⟨rfl, fun _ hi => ⟨hi, rfl⟩⟩
  | access =>
    rw [dictStep, h.access_eq_put]
    rcases h.put_of_stays hstays with hrun | hrun
    · rw [hrun]
      exact Footprint.Bounds.refl _ ws
    · rw [hrun]
      exact Footprint.Bounds.refl _ ws
  | advance =>
    rw [dictStep, show ws.advance = .ok (false, ws) from hstays]
    exact Footprint.Bounds.refl _ ws

/-- A call that is inert leaves the working set as it is. -/
theorem WindowInv.dictStep_inert (h : WindowInv size waitForKeys ws) (pickler : XPickler)
    {call : DictCall} (hstays : call.Stays ws) (hinert : call.inert ws = true) :
    dictStep pickler ws call = ws := by
  -- without its checkpoint, a put ends with an exception or waits
  have hput : ∀ {c}, ws.StaysFor c → decide (c ∉ ws.chkpts) = true →
      ws.put c = .error .checkpointSync ∨ ws.put c = .ok (none, ws) := by
    intro c hstays hout
    rcases h.put_of_stays hstays with hrun | hrun
    · exact Or.inl hrun
    · rw [AList.lookup_eq_none.mpr (of_decide_eq_true hout)] at hrun
      exact Or.inr hrun
  cases call with
  | put =>
    rcases hput hstays hinert with hrun | hrun <;> rw [dictStep, putOpPerform, hrun]
  | batchPut =>
    rcases hput hstays hinert with hrun | hrun <;> rw [dictStep, batchPutOpPerform, hrun]
  | get deferredOps _ c key =>
    rw [DictCall.inert] at hinert
    rw [dictStep, getOpPerform]
    rcases hget : ws.get deferredOps key c with e | (_ | chkpt)
    · rfl
    · rfl
    · rw [hget] at hinert
      cases hinert
  | fetchAdd =>
    rcases hput hstays hinert with hrun | hrun <;> rw [dictStep, fetchAddPerform, hrun]
  | pop deferredOps clientId c key =>
    rw [DictCall.inert, Bool.not_eq_true'] at hinert
    rcases h.popOp_cases deferredOps clientId c key with ⟨-, hperform⟩ | ⟨hsucceeds, -⟩
    · exact hperform
    · rw [hinert] at hsucceeds
      cases hsucceeds
  | read _ c =>
    have hle : c ≤ ws.oldestChkptId := of_decide_eq_true hinert
    rw [dictStep, WorkingSet.updateWriterCheckpoint,
      show min c ws.newestChkptId - ws.oldestChkptId = 0 by omega]
    rfl
  | clear =>
    rcases hput hstays hinert with hrun | hrun <;>
      rw [dictStep, clearOpPerform, h.access_eq_put, hrun]
  | access =>
    rw [dictStep, h.access_eq_put]
    rcases h.put_of_stays hstays with hrun | hrun <;> rw [hrun]
  | advance => rw [dictStep, show ws.advance = .ok (false, ws) from hstays]

/-- What a call does to a working set. -/
theorem WindowInv.dictStep_effect (h : WindowInv size waitForKeys ws) (pickler : XPickler)
    {call : DictCall} (hstays : call.Stays ws) :
    (call.effect ws).Bounds ws (dictStep pickler ws call) := by
  rw [DictCall.effect]
  by_cases hinert : call.inert ws = true
  · rw [if_pos hinert, h.dictStep_inert pickler hstays hinert]
    exact Footprint.Bounds.refl _ ws
  · rw [if_neg hinert]
    exact h.dictStep_bounds pickler hstays

end Bounds

/-! ## The refusal to advance -/

/-- The next checkpoint misses a key of the oldest one, which does not persist. -/
def MissingKey (ws : WorkingSet) (key : KeyBytes) : Prop :=
  (viewAt ws key ws.oldestChkptId).value.isSome ∧
    (viewAt ws key ws.oldestChkptId).persist = false ∧
    ¬ ((viewAt ws key (ws.oldestChkptId + 1)).value.isSome ∧
      (viewAt ws key (ws.oldestChkptId + 1)).persist = false)

/-- `advance` refuses for a key or for a writer outside the footprint. -/
def Footprint.LeavesRefusal (footprint : Footprint) (ws : WorkingSet) : Prop :=
  ws.waitForKeys = true ∧ (∃ key, MissingKey ws key ∧
      ¬ footprint.touches key ws.oldestChkptId ∧
      ¬ footprint.touches key (ws.oldestChkptId + 1)) ∨
    ws.waitForWriters = true ∧ ∃ client ∈ writersAt ws ws.oldestChkptId,
      client ∉ writersAt ws (ws.oldestChkptId + 1) ∧ ¬ footprint.wipes ws.oldestChkptId ∧
      ¬ footprint.records client (ws.oldestChkptId + 1)

section Refusal

variable {size : ℕ} {waitForKeys : Bool} {ws ws' : WorkingSet} {footprint : Footprint}

theorem Footprint.Bounds.oldest_eq (hbounds : footprint.Bounds ws ws') :
    ws'.oldestChkptId = ws.oldestChkptId := by
  rw [WorkingSet.oldestChkptId, WorkingSet.oldestChkptId, hbounds.nextId_eq, hbounds.size_eq]

theorem Footprint.Bounds.viewAt_eq (hbounds : footprint.Bounds ws ws') {key : KeyBytes} {i : ℕ}
    (hout : ¬ footprint.touches key i) : viewAt ws' key i = viewAt ws key i := by
  rw [viewAt, viewAt, hbounds.view_eq key i hout]

/-- With an empty footprint every refusal is left. -/
theorem WindowInv.leavesRefusal_nothing (h : WindowInv size waitForKeys ws)
    (hrefuse : ws.advance = .ok (false, ws)) : Footprint.nothing.LeavesRefusal ws := by
  rcases h.refuses_iff.mp hrefuse with ⟨hwait, key, hkey⟩ | ⟨hwait, hnot⟩
  · exact Or.inl ⟨h.waitForKeys_eq.trans hwait, key, hkey, id, id⟩
  · obtain ⟨client, hin, hout⟩ := Finset.not_subset.mp hnot
    exact Or.inr ⟨hwait, client, hin, hout, id, id⟩

/-- **The refusal outlasts a change** outside of its reason. -/
theorem Footprint.Bounds.refuses (hbounds : footprint.Bounds ws ws')
    (h : WindowInv size waitForKeys ws) (h' : WindowInv size waitForKeys ws')
    (hleaves : footprint.LeavesRefusal ws) : ws'.advance = .ok (false, ws') := by
  have hold := hbounds.oldest_eq
  apply h'.refuses_iff.mpr
  rcases hleaves with ⟨hwait, key, hmissing, hparent, hchild⟩ |
    ⟨hwait, client, hin, hout, hwipes, hrecords⟩
  · refine Or.inl ⟨h.waitForKeys_eq.symm.trans hwait, key, ?_⟩
    rw [hold, hbounds.viewAt_eq hparent, hbounds.viewAt_eq hchild]
    exact hmissing
  · refine Or.inr ⟨hbounds.waitForWriters_eq.trans hwait, ?_⟩
    rw [hold]
    intro hsub
    rcases hbounds.added client _ (hsub (hbounds.kept client _ hwipes hin)) with hmem | hmem
    · exact hout hmem
    · exact hrecords hmem

end Refusal

/-! ## Lookups -/

/-- What `WorkingSet.get` finds, seen from the key. -/
def WorkingSet.getView (ws : WorkingSet) (deferredOps : Finset ℕ) (key : KeyBytes) (c : ℕ) :
    Except DDictError (Option KeyView) :=
  (ws.get deferredOps key c).map fun found => found.map fun chkpt => chkpt.keyView key

section Lookups

variable {size : ℕ} {waitForKeys : Bool} {ws ws' : WorkingSet} {key : KeyBytes}
  {footprint : Footprint} {chkpt chkpt' : Checkpoint} {c : ℕ} {deferredOps : Finset ℕ}

theorem mem_map_of_keyView_eq (heq : chkpt'.keyView key = chkpt.keyView key) :
    key ∈ chkpt'.map ↔ key ∈ chkpt.map := by
  have hvalue := congrArg (fun view => view.value.isSome) heq
  simp only [Checkpoint.keyView] at hvalue
  rw [← AList.lookup_isSome, ← AList.lookup_isSome, hvalue]

theorem mem_deleted_of_keyView_eq (heq : chkpt'.keyView key = chkpt.keyView key) :
    key ∈ chkpt'.deleted ↔ key ∈ chkpt.deleted :=
  decide_eq_decide.mp (congrArg KeyView.deleted heq)

theorem mem_persist_of_keyView_eq (heq : chkpt'.keyView key = chkpt.keyView key) :
    key ∈ chkpt'.persist ↔ key ∈ chkpt.persist :=
  decide_eq_decide.mp (congrArg KeyView.persist heq)

/-- Two checkpoints in the same place with the same view of the key, or none in both. -/
theorem lookup_of_keyViewAt_eq {i : ℕ} (heq : keyViewAt ws' key i = keyViewAt ws key i) :
    ws.chkpts.lookup i = none ∧ ws'.chkpts.lookup i = none ∨
    ∃ chkpt chkpt', ws.chkpts.lookup i = some chkpt ∧ ws'.chkpts.lookup i = some chkpt' ∧
      chkpt'.keyView key = chkpt.keyView key := by
  rw [keyViewAt, keyViewAt] at heq
  cases hlookup : ws.chkpts.lookup i with
  | none =>
    rw [hlookup, Option.map_none, Option.map_eq_none_iff] at heq
    exact Or.inl ⟨rfl, heq⟩
  | some chkpt =>
    rw [hlookup, Option.map_some, Option.map_eq_some_iff] at heq
    obtain ⟨chkpt', hlookup', hview⟩ := heq
    exact Or.inr ⟨chkpt, chkpt', rfl, hlookup', hview⟩

theorem WindowInv.getLoop_view_eq (h : WindowInv size waitForKeys ws)
    (h' : WindowInv size waitForKeys ws') (c : ℕ) {ids : List ℕ}
    (hviews : ∀ i ∈ ids, keyViewAt ws' key i = keyViewAt ws key i) :
    (ws'.getLoop key c ids).map (Option.map (Option.map fun chkpt => chkpt.keyView key))
      = (ws.getLoop key c ids).map (Option.map (Option.map fun chkpt => chkpt.keyView key)) := by
  induction ids with
  | nil => rfl
  | cons i ids ih =>
    rw [WorkingSet.getLoop, WorkingSet.getLoop]
    rcases lookup_of_keyViewAt_eq (hviews i List.mem_cons_self) with
      ⟨hnone, hnone'⟩ | ⟨chkpt, chkpt', hlookup, hlookup', hview⟩
    · rw [hnone, hnone']
    · rw [hlookup, hlookup', h.waitForKeys_eq, h'.waitForKeys_eq]
      have hid := (h.sound i chkpt hlookup).id_eq
      have hid' := (h'.sound i chkpt' hlookup').id_eq
      simp only [mem_map_of_keyView_eq hview, mem_persist_of_keyView_eq hview,
        mem_deleted_of_keyView_eq hview, hid, hid']
      split
      · split
        · rfl
        · simp only [Except.map, Option.map_some, hview]
      · split
        · simp only [Except.map, Option.map_some, hview]
        · exact ih fun j hj => hviews j (List.mem_cons_of_mem _ hj)

theorem WindowInv.getDefault_view_eq (h : WindowInv size waitForKeys ws)
    (h' : WindowInv size waitForKeys ws') (hnext : ws'.nextId = ws.nextId)
    (hview : keyViewAt ws' key ws.oldestChkptId = keyViewAt ws key ws.oldestChkptId)
    (hview' : keyViewAt ws' key c = keyViewAt ws key c) :
    (ws'.getDefault key c).map (Option.map fun chkpt => chkpt.keyView key)
      = (ws.getDefault key c).map (Option.map fun chkpt => chkpt.keyView key) := by
  rw [WorkingSet.getDefault, WorkingSet.getDefault, h.waitForKeys_eq, h'.waitForKeys_eq,
    show ws'.oldestChkptId = ws.oldestChkptId by rw [h.oldest_eq, h'.oldest_eq, hnext]]
  rcases lookup_of_keyViewAt_eq hview with
    ⟨hnone, hnone'⟩ | ⟨oldest, oldest', holdest, holdest', hview⟩
  · rw [hnone, hnone']
  · rw [holdest, holdest']
    rcases lookup_of_keyViewAt_eq hview' with
      ⟨hnone, hnone'⟩ | ⟨chkpt, chkpt', hlookup, hlookup', hview'⟩
    · rw [hnone, hnone']
      simp only [Except.map, Option.map_some, hview]
    · rw [hlookup, hlookup']
      simp only [mem_map_of_keyView_eq hview]
      split
      · rfl
      · simp only [Except.map, Option.map_some, hview']

theorem WindowInv.getWaits_eq (h : WindowInv size waitForKeys ws)
    (h' : WindowInv size waitForKeys ws') (hnext : ws'.nextId = ws.nextId)
    (hview : keyViewAt ws' key ws.oldestChkptId = keyViewAt ws key ws.oldestChkptId) :
    ws'.getWaits deferredOps key c = ws.getWaits deferredOps key c := by
  rw [WorkingSet.getWaits, WorkingSet.getWaits, h.newest_eq, h'.newest_eq, h.waitForKeys_eq,
    h'.waitForKeys_eq, hnext, show ws'.oldestChkptId = ws.oldestChkptId by
      rw [h.oldest_eq, h'.oldest_eq, hnext]]
  rcases lookup_of_keyViewAt_eq hview with
    ⟨hnone, hnone'⟩ | ⟨chkpt, chkpt', hlookup, hlookup', hview⟩
  · rw [hnone, hnone']
  · rw [hlookup, hlookup']
    simp only [mem_persist_of_keyView_eq hview]

/-- **`WorkingSet.get`** depends on the key in the checkpoints up to the id only. -/
theorem WindowInv.getView_eq (h : WindowInv size waitForKeys ws)
    (h' : WindowInv size waitForKeys ws') (hnext : ws'.nextId = ws.nextId)
    (hviews : ∀ i ≤ c, keyViewAt ws' key i = keyViewAt ws key i) (deferredOps : Finset ℕ) :
    ws'.getView deferredOps key c = ws.getView deferredOps key c := by
  have hold : ws'.oldestChkptId = ws.oldestChkptId := by
    rw [h.oldest_eq, h'.oldest_eq, hnext]
  have hnewest : ws'.newestChkptId = ws.newestChkptId := by
    rw [h.newest_eq, h'.newest_eq, hnext]
  rw [WorkingSet.getView, WorkingSet.getView, WorkingSet.get, WorkingSet.get, hold, hnewest]
  by_cases hretired : c < ws.oldestChkptId
  · rw [if_pos hretired, if_pos hretired]
  · rw [if_neg hretired, if_neg hretired,
      h.getWaits_eq h' hnext (hviews _ (not_lt.mp hretired))]
    cases ws.getWaits deferredOps key c with
    | error e => rfl
    | ok waits =>
      cases waits with
      | true => rfl
      | false =>
        have hids : ∀ i ∈ (List.range' ws.oldestChkptId
            (min c ws.newestChkptId + 1 - ws.oldestChkptId)).reverse,
            keyViewAt ws' key i = keyViewAt ws key i := by
          intro i hi
          rw [List.mem_reverse, List.mem_range'_1] at hi
          exact hviews i (by omega)
        have hloop := h.getLoop_view_eq h' c hids
        have hdefault := h.getDefault_view_eq h' hnext (hviews _ (not_lt.mp hretired))
          (hviews c le_rfl)
        simp only
        generalize ws.getLoop key c _ = run at hloop ⊢
        generalize ws'.getLoop key c _ = run' at hloop ⊢
        -- the two loops end alike: with an exception, at the end, or with a checkpoint
        rcases run with e | (_ | found)
        · rcases run' with e' | found'
          · cases hloop
            rfl
          · cases hloop
        · rcases run' with e' | (_ | found')
          · cases hloop
          · exact hdefault
          · cases hloop
        · rcases run' with e' | (_ | found')
          · cases hloop
          · cases hloop
          · simp only [Except.map, Option.map_some, Except.ok.injEq, Option.some.injEq] at hloop
            simp only [Except.map, hloop]

theorem Footprint.Bounds.getView_eq (hbounds : footprint.Bounds ws ws')
    (h : WindowInv size waitForKeys ws) (h' : WindowInv size waitForKeys ws')
    (hout : ∀ i ≤ c, ¬ footprint.touches key i) (deferredOps : Finset ℕ) :
    ws'.getView deferredOps key c = ws.getView deferredOps key c :=
  h.getView_eq h' hbounds.nextId_eq (fun i hi => hbounds.view_eq key i (hout i hi)) deferredOps

theorem getView_eq_none (hget : ws.get deferredOps key c = .ok none) :
    ws.getView deferredOps key c = .ok none := by
  rw [WorkingSet.getView, hget]
  rfl

theorem get_of_getView_none (hview : ws.getView deferredOps key c = .ok none) :
    ws.get deferredOps key c = .ok none := by
  rw [WorkingSet.getView] at hview
  rcases hget : ws.get deferredOps key c with e | (_ | chkpt)
  · rw [hget] at hview
    cases hview
  · rfl
  · rw [hget] at hview
    cases hview

theorem get_of_getView_some {view : KeyView} (hview : ws.getView deferredOps key c = .ok (some view)) :
    ∃ chkpt, ws.get deferredOps key c = .ok (some chkpt) ∧ chkpt.keyView key = view := by
  rw [WorkingSet.getView] at hview
  rcases hget : ws.get deferredOps key c with e | (_ | chkpt)
  · rw [hget] at hview
    cases hview
  · rw [hget] at hview
    cases hview
  · rw [hget] at hview
    cases hview
    exact ⟨chkpt, rfl, rfl⟩

end Lookups
