/-
# No stale values with `wait_for_keys`

With `wait_for_keys`, a key that is put without `persist` is meant for its own checkpoint
only.  To say which write a value comes from, a run carries for each key of each
checkpoint the write that stored its value (`Origin`), and retirement hands it over
together with the value.

Whether a key persists is kept for each key and not for each write: a put without
`persist` of a key that persists already does not take the mark away.  Without such puts
(`MarksMatch`) no get returns a value of an older put without `persist`.
-/
import DragonRuntime.WorkingSetPop

open WorkingSet

/-! ## Where the values come from -/

/-- What stored a value. -/
inductive Write : Type where
  /-- A put or batch put at a checkpoint. -/
  | put (chkptId : ℕ) (persist : Bool) (valList : ValList)
  /-- A `fetch_add` at a checkpoint. -/
  | fetchAdd (chkptId : ℕ)
  deriving DecidableEq

/-- The write of the value that a checkpoint has for a key. -/
abbrev Origin : Type := KeyBytes → ℕ → Option Write

/-- The value was put without `persist` at a checkpoint before `c`. -/
def Write.staleAt (write : Write) (c : ℕ) : Bool :=
  match write with
  | .put chkptId persist _ => !persist && decide (chkptId < c)
  | .fetchAdd _ => false

/-- A retirement hands the values of the parent that the child says nothing about over to
the child. -/
def originAdvance (ws : WorkingSet) (origin : Origin) : Origin := fun key i =>
  if i = ws.oldestChkptId + 1 ∧ (viewAt ws key i).value.isNone ∧
      (viewAt ws key i).deleted = false then
    origin key ws.oldestChkptId
  else origin key i

/-- The first `n` advances. -/
def traceAdvances : ℕ → WorkingSet → Origin → WorkingSet × Origin
  | 0, ws, origin => (ws, origin)
  | n + 1, ws, origin =>
    match ws.advance with
    | .ok (true, ws1) => traceAdvances n ws1 (originAdvance ws origin)
    | _ => (ws, origin)

/-- The checkpoint, the mark, the key and the value of a put or a batch put. -/
def DictCall.stored? : DictCall → Option (ℕ × Bool × KeyBytes × ValList)
  | .put _ chkptId persist key valList false => some (chkptId, persist, key, valList)
  | .batchPut _ chkptId persist key valList => some (chkptId, persist, key, valList)
  | _ => none

/-- The write of the call itself, from `ws1` to `ws'`. -/
def originStore (call : DictCall) (ws1 ws' : WorkingSet) (origin : Origin) : Origin :=
  fun key i =>
    match call.stored? with
    | some (chkptId, persist, k, valList) =>
      if k = key ∧ chkptId = i ∧ chkptId ∈ ws'.chkpts then some (.put chkptId persist valList)
      else origin key i
    | none =>
      match call with
      | .fetchAdd _ chkptId k _ =>
        if k = key ∧ chkptId = i ∧ (viewAt ws' key i).value ≠ (viewAt ws1 key i).value then
          some (.fetchAdd chkptId)
        else origin key i
      | _ => origin key i

/-- A call, with the writes of the values. -/
def tracedStep (pickler : XPickler) (s : WorkingSet × Origin) (call : DictCall) :
    WorkingSet × Origin :=
  let ws' := dictStep pickler s.1 call
  let t := traceAdvances (ws'.nextId - s.1.nextId) s.1 s.2
  (ws', originStore call t.1 ws' t.2)

/-- A put without `persist` finds no mark of persistence on its key. -/
def MarksMatch (ws : WorkingSet) (call : DictCall) : Prop :=
  ∀ chkptId key valList, call.stored? = some (chkptId, false, key, valList) →
    ∀ chkpt ws1, ws.put chkptId = .ok (some chkpt, ws1) → key ∉ chkpt.persist

/-! ## The invariant -/

/-- The write of every value is known; a value that was put has not changed, and one that
was put without `persist` is in the checkpoint of the put and does not persist. -/
def OriginInv (ws : WorkingSet) (origin : Origin) : Prop :=
  ∀ key i valList, (viewAt ws key i).value = some valList → ∃ write, origin key i = some write ∧
    ∀ chkptId persist stored, write = .put chkptId persist stored → stored = valList ∧
      (persist = false → chkptId = i ∧ (viewAt ws key i).persist = false)

section Fresh

variable {size : ℕ} {ws ws' : WorkingSet} {origin : Origin} {key : KeyBytes}

theorem OriginInv.advanced {parent child : Checkpoint} (ho : OriginInv ws origin)
    (h : WindowInv size true ws) (hadv : Advanced ws ws' parent child) :
    OriginInv ws' (originAdvance ws origin) := by
  have h' := h.advanced hadv
  have holdest : ws'.oldestChkptId = ws.oldestChkptId + 1 := by
    have hle := h.size_le
    rw [h.oldest_eq, h'.oldest_eq, hadv.nextId_eq]
    omega
  intro key i valList hvalue
  unfold originAdvance
  by_cases hi : i ≤ ws.oldestChkptId
  · rw [h'.viewAt_outside key (Or.inl (by omega))] at hvalue
    cases hvalue
  · rw [hadv.viewAt_eq h key (by omega)] at hvalue ⊢
    by_cases hchild : i = ws.oldestChkptId + 1
    · subst hchild
      rw [if_pos rfl] at hvalue ⊢
      rcases KeyView.inherit_cases true (viewAt ws key ws.oldestChkptId)
        (viewAt ws key (ws.oldestChkptId + 1)) with heq | ⟨hnone, hdeleted, hparent, heq⟩
      · -- a value of the child itself
        rw [heq] at hvalue ⊢
        rw [if_neg]
        · exact ho key _ valList hvalue
        · rintro ⟨-, hnone, -⟩
          have hvalue' : (viewAt ws key (ws.oldestChkptId + 1)).value = some valList := hvalue
          rw [hvalue'] at hnone
          cases hnone
      · -- a value that retires with its checkpoint persists there
        rw [heq] at hvalue
        have hvalue' : (viewAt ws key ws.oldestChkptId).value = some valList := hvalue
        rw [if_pos ⟨rfl, by rw [← Option.not_isSome, hnone]; rfl, hdeleted⟩]
        obtain ⟨write, hwrite, hput⟩ := ho key _ valList hvalue'
        refine ⟨write, hwrite, ?_⟩
        intro chkptId persist stored hstored
        obtain ⟨hsame, hfresh⟩ := hput chkptId persist stored hstored
        refine ⟨hsame, ?_⟩
        intro hpersist
        have hchild := hadv.persistent_view h hparent (hfresh hpersist).2
        rw [hnone] at hchild
        cases hchild
    · rw [if_neg hchild] at hvalue ⊢
      rw [if_neg fun hcopied => hchild hcopied.1]
      exact ho key i valList hvalue

variable {ws1 : WorkingSet} {c : ℕ} {call : DictCall} {chkpt : Checkpoint}

/-- The advances of a call, with the writes of the values. -/
theorem OriginInv.advances (ho : OriginInv ws origin) (h : WindowInv size true ws)
    (hadv : Advances ws ws1) :
    ∃ origin1, traceAdvances (ws1.nextId - ws.nextId) ws origin = (ws1, origin1) ∧
      OriginInv ws1 origin1 := by
  induction hadv generalizing origin with
  | refl ws =>
    rw [Nat.sub_self]
    exact ⟨origin, rfl, ho⟩
  | @step ws ws2 ws3 hrun hrest ih =>
    rcases h.advance_cases with hrefuse | ⟨ws4, parent, child, hrun', hadv⟩
    · rw [hrefuse] at hrun
      cases hrun
    · rw [hrun'] at hrun
      cases hrun
      have h2 := h.advanced hadv
      obtain ⟨origin1, htrace, ho1⟩ := ih (ho.advanced h hadv) h2
      refine ⟨origin1, ?_, ho1⟩
      have hle : ws2.nextId ≤ ws3.nextId := (hrest.invariant
        (I := fun ws => ws2.nextId ≤ ws.nextId) h2 le_rfl (by
          intro ws ws' parent child _ hadv hle
          rw [hadv.nextId_eq]
          omega)).2
      have hnext := hadv.nextId_eq
      rw [show ws3.nextId - ws.nextId = ws3.nextId - ws2.nextId + 1 by omega, traceAdvances,
        hrun']
      exact htrace

/-- What a call can do to the value of a key: nothing, or take it away, or a put or a
`fetch_add` of the key. -/
theorem originStore_cases {view : KeyBytes → KeyView} (hlookup : ws1.chkpts.lookup c = some chkpt)
    (hchanges : call.Changes c chkpt view) (hat : ChangesAt ws1 ws' c view) (origin : Origin)
    (key : KeyBytes) (i : ℕ) :
    (originStore call ws1 ws' origin key i = origin key i ∧
      ((viewAt ws' key i).value = none ∨
        (viewAt ws' key i).value = (viewAt ws1 key i).value ∧
          ((viewAt ws1 key i).value.isSome →
            (viewAt ws' key i).persist = (viewAt ws1 key i).persist))) ∨
    (∃ persist valList, call.stored? = some (i, persist, key, valList) ∧ i = c ∧
      originStore call ws1 ws' origin key i = some (.put i persist valList) ∧
      viewAt ws' key i = ⟨some valList, false, persist || (viewAt ws1 key i).persist⟩) ∨
    originStore call ws1 ws' origin key i = some (.fetchAdd i) := by
  have hin : c ∈ ws'.chkpts := by
    have hview := hat.view_eq [] c
    rw [if_pos rfl] at hview
    unfold keyViewAt at hview
    rw [← AList.lookup_isSome, ← Option.isSome_map, hview]
    rfl
  have hview := viewAt_of_lookup hlookup
  by_cases hi : i = c
  · subst hi
    have hnew : viewAt ws' key i = view key := by
      rw [hat.viewAt_eq, if_pos rfl]
    -- a key that the call does not name
    have hother : ∀ {k : KeyBytes} {new : KeyView}, view = chkpt.viewWith k new → k ≠ key →
        viewAt ws' key i = viewAt ws1 key i := by
      rintro k new rfl hk
      rw [hnew, hview]
      exact if_neg (Ne.symm hk)
    have hsame : ∀ {k : KeyBytes} {new : KeyView}, view = chkpt.viewWith k new → k = key →
        viewAt ws' key i = new := by
      rintro k new rfl rfl
      rw [hnew]
      exact if_pos rfl
    cases call with
    | put _ _ persist k valList =>
      obtain ⟨rfl, rfl, hputs⟩ := hchanges
      by_cases hk : k = key
      · refine Or.inr (Or.inl ⟨persist, valList, ?_, rfl, if_pos ⟨hk, rfl, hin⟩, ?_⟩)
        · rw [← hk]
          rfl
        · rw [hsame hputs hk, hview, hk]
      · refine Or.inl ⟨if_neg fun hwrite => hk hwrite.1, Or.inr ?_⟩
        rw [hother hputs hk]
        exact ⟨rfl, fun _ => rfl⟩
    | batchPut _ _ persist k valList =>
      obtain ⟨rfl, hputs⟩ := hchanges
      by_cases hk : k = key
      · refine Or.inr (Or.inl ⟨persist, valList, ?_, rfl, if_pos ⟨hk, rfl, hin⟩, ?_⟩)
        · rw [← hk]
          rfl
        · rw [hsame hputs hk, hview, hk]
      · refine Or.inl ⟨if_neg fun hwrite => hk hwrite.1, Or.inr ?_⟩
        rw [hother hputs hk]
        exact ⟨rfl, fun _ => rfl⟩
    | fetchAdd _ chkptId k =>
      obtain ⟨rfl, valList, hputs⟩ := hchanges
      by_cases hk : k = key
      · by_cases hvalue : (viewAt ws' key chkptId).value = (viewAt ws1 key chkptId).value
        · refine Or.inl ⟨if_neg fun hwrite => hwrite.2.2 hvalue, Or.inr ⟨hvalue, ?_⟩⟩
          intro hsome
          rw [hsame hputs hk, ← hk, hview]
          rw [hview, ← hk] at hsome
          rw [← Option.not_isSome, hsome]
          simp
        · exact Or.inr (Or.inr (if_pos ⟨hk, rfl, hvalue⟩))
      · refine Or.inl ⟨if_neg fun hwrite => hk hwrite.1, Or.inr ?_⟩
        rw [hother hputs hk]
        exact ⟨rfl, fun _ => rfl⟩
    | pop _ _ _ k =>
      obtain ⟨rfl, hputs⟩ := hchanges
      refine Or.inl ⟨rfl, ?_⟩
      by_cases hk : k = key
      · left
        rw [hsame hputs hk]
        unfold Checkpoint.popView
        split
        · rfl
        · rfl
      · rw [hother hputs hk]
        exact Or.inr ⟨rfl, fun _ => rfl⟩
    | clear =>
      obtain ⟨rfl, rfl⟩ := hchanges
      refine Or.inl ⟨rfl, Or.inl ?_⟩
      rw [hnew]
      rfl
    | get => cases hchanges
    | read => cases hchanges
    | access => cases hchanges
    | advance => cases hchanges
  · have hkept : viewAt ws' key i = viewAt ws1 key i := by
      rw [hat.viewAt_eq, if_neg hi]
    have hid := hchanges.chkptId?_eq
    refine Or.inl ⟨?_, Or.inr ?_⟩
    · cases call with
      | put =>
        obtain ⟨rfl, rfl, -⟩ := hchanges
        exact if_neg fun hwrite => hi hwrite.2.1.symm
      | batchPut | fetchAdd =>
        obtain ⟨rfl, -⟩ := hchanges
        exact if_neg fun hwrite => hi hwrite.2.1.symm
      | _ => rfl
    · rw [hkept]
      exact ⟨rfl, fun _ => rfl⟩

/-- A call that changes no key stores nothing. -/
theorem originStore_idle (hidle : call.Idle ws1) (hsame : SameKeys ws1 ws') (origin : Origin)
    (key : KeyBytes) (i : ℕ) : originStore call ws1 ws' origin key i = origin key i := by
  have hmem : ∀ c, c ∈ ws'.chkpts → ws1.chkpts.lookup c ≠ none := by
    intro c hc hnone
    have hin : (keyViewAt ws' key c).isSome := by
      unfold keyViewAt
      rw [Option.isSome_map, AList.lookup_isSome]
      exact hc
    rw [hsame.view_eq] at hin
    unfold keyViewAt at hin
    rw [hnone] at hin
    cases hin
  cases call with
  | put _ chkptId _ _ _ waitFor =>
    cases waitFor with
    | true => rfl
    | false => exact if_neg fun hwrite => hmem chkptId hwrite.2.2 (hidle rfl)
  | batchPut _ chkptId =>
    exact if_neg fun hwrite => hmem chkptId hwrite.2.2 hidle
  | fetchAdd =>
    refine if_neg ?_
    rintro ⟨-, -, hchanged⟩
    rw [hsame.viewAt_eq] at hchanged
    exact hchanged rfl
  | _ => rfl

/-- **Step lemma.** -/
theorem OriginInv.step (ho : OriginInv ws origin) (h : WindowInv size true ws) (pickler : XPickler)
    (hmatch : MarksMatch ws call) :
    OriginInv (tracedStep pickler (ws, origin) call).1
      (tracedStep pickler (ws, origin) call).2 := by
  obtain ⟨ws1, hadv, -, hstep⟩ := h.dictStep_cases pickler call
  obtain ⟨origin1, htrace, ho1⟩ := ho.advances h hadv
  unfold tracedStep
  simp only
  rcases hstep with ⟨hidle, hsame⟩ | ⟨c, chkpt, view, hput, hlookup, hchanges, hat⟩
  · rw [hsame.nextId_eq, htrace]
    intro key i valList hvalue
    rw [hsame.viewAt_eq] at hvalue ⊢
    rw [originStore_idle hidle hsame]
    exact ho1 key i valList hvalue
  · rw [hat.nextId_eq, htrace]
    intro key i valList hvalue
    rcases originStore_cases hlookup hchanges hat origin1 key i with
      ⟨hkept, hnone | ⟨hsame, hpersist⟩⟩ | ⟨persist, stored, hstored, rfl, hwrite, hview⟩ | hwrite
    · rw [hnone] at hvalue
      cases hvalue
    · -- the value stays, with its mark
      rw [hsame] at hvalue
      obtain ⟨write, hwrite, hput⟩ := ho1 key i valList hvalue
      refine ⟨write, hkept.trans hwrite, ?_⟩
      rw [hpersist (by rw [hvalue]; rfl)]
      exact hput
    · -- a put: without `persist` it finds no mark, and sets none
      rw [hview] at hvalue ⊢
      cases hvalue
      refine ⟨_, hwrite, ?_⟩
      rintro chkptId persist' stored' ⟨⟩
      refine ⟨rfl, ?_⟩
      rintro rfl
      refine ⟨rfl, ?_⟩
      rw [viewAt_of_lookup hlookup]
      exact decide_eq_false (hmatch i key _ hstored chkpt ws1 hput)
    · exact ⟨_, hwrite, nofun⟩

/-! ## What `get` returns -/

theorem getLoop_fresh {ids : List ℕ} (hwait : ws.waitForKeys = true)
    (hrun : ws.getLoop key c ids = .ok (some (some chkpt))) (hkey : key ∈ chkpt.map)
    (hpersist : key ∉ chkpt.persist) : c ≤ chkpt.id := by
  induction ids with
  | nil => cases hrun
  | cons i ids ih =>
    rw [WorkingSet.getLoop] at hrun
    split at hrun
    · cases hrun
    · split at hrun
      · split at hrun
        · cases hrun
        · rename_i hshown
          cases hrun
          by_contra hlt
          exact hshown ⟨hwait, hpersist, not_le.mp hlt⟩
      · rename_i hnot
        split at hrun
        · cases hrun
          exact absurd hkey hnot
        · exact ih hrun

/-- With `wait_for_keys`, `get` finds a key without the mark only in the checkpoint it asks
for. -/
theorem WindowInv.get_fresh (h : WindowInv size true ws) {deferredOps : Finset ℕ}
    (hrun : ws.get deferredOps key c = .ok (some chkpt)) (hkey : key ∈ chkpt.map)
    (hpersist : key ∉ chkpt.persist) : c ≤ chkpt.id := by
  obtain ⟨hold, -⟩ := get_lookup hrun
  have hpos := h.size_pos
  have hle := h.size_le
  have holdest := h.oldest_eq
  have hids : ∀ i ∈ stackIds ws c, i ∈ ws.chkpts := by
    intro i hi
    obtain ⟨h1, -, h3⟩ := (h.mem_stackIds hold).mp hi
    exact (h.mem_iff i).mpr ⟨by omega, h3⟩
  have hloop := getLoop_spec key c hids
  unfold stackIds at hloop
  unfold WorkingSet.get at hrun
  rw [if_neg (not_lt.mpr hold)] at hrun
  split at hrun
  · cases hrun
  · cases hrun
  · simp only at hrun
    rcases hloop with ⟨hnone, hsaid⟩ | ⟨hwaits, -⟩ | ⟨i, found, hfound, hlookup, -⟩
    · -- not found: the default does not have the key
      rw [hnone] at hrun
      have hout : ∀ i, ws.oldestChkptId ≤ i → i ≤ c → ws.chkpts.lookup i = some chkpt →
          key ∉ chkpt.map := by
        intro i h1 h2 hlookup
        have hin := (h.mem_iff i).mp (AList.lookup_isSome.mp (by rw [hlookup]; rfl))
        have hstack := (h.mem_stackIds hold).mpr ⟨h1, h2, hin.2⟩
        unfold stackIds at hstack
        exact AList.lookup_eq_none.mp (lookup_of_said_none (hsaid i hstack) hlookup)
      rcases getDefault_lookup hrun with hlookup | hlookup
      · exact absurd hkey (hout _ le_rfl hold hlookup)
      · exact absurd hkey (hout c hold le_rfl hlookup)
    · rw [hwaits] at hrun
      cases hrun
    · rw [hfound] at hrun
      cases hrun
      exact getLoop_fresh h.waitForKeys_eq hfound hkey hpersist

/-- **Run lemma.** -/
theorem OriginInv.run (pickler : XPickler) {calls : List DictCall} (ho : OriginInv ws origin)
    (h : WindowInv size true ws) (hcalls : Runs.Legal (dictStep pickler) MarksMatch ws calls) :
    WindowInv size true (calls.foldl (tracedStep pickler) (ws, origin)).1 ∧
      OriginInv (calls.foldl (tracedStep pickler) (ws, origin)).1
        (calls.foldl (tracedStep pickler) (ws, origin)).2 := by
  induction calls generalizing ws origin with
  | nil => exact ⟨h, ho⟩
  | cons call calls ih =>
    exact ih (ho.step h pickler hcalls.1) (h.dictCall pickler call) hcalls.2

end Fresh

/-- **Freshness.**  With `wait_for_keys`, in every run in which no put without `persist`
finds a mark of persistence on its key: a value that a get at checkpoint `c` answers was not
put without `persist` at an earlier checkpoint. -/
theorem workingSet_get_fresh (pickler : XPickler) (start workingSetSize : ℕ)
    (hsize : 1 ≤ workingSetSize) (waitForWriters : Bool) (calls : List DictCall)
    (hcalls : Runs.Legal (dictStep pickler) MarksMatch
      (WorkingSet.init start workingSetSize true waitForWriters) calls)
    (s : WorkingSet × Origin) (hs : s = calls.foldl (tracedStep pickler)
      (WorkingSet.init start workingSetSize true waitForWriters, fun _ _ => none))
    (deferredOps : Finset ℕ) (c : ℕ) (key : KeyBytes) (valList : ValList)
    (hget : getOpPerform s.1 deferredOps c key = .ok (some (some valList))) :
    ∃ chkpt write, s.1.get deferredOps key c = .ok (some chkpt) ∧
      s.2 key chkpt.id = some write ∧ write.staleAt c = false ∧
      ∀ chkptId persist stored, write = .put chkptId persist stored → stored = valList := by
  have hrun : WindowInv workingSetSize true s.1 ∧ OriginInv s.1 s.2 := by
    rw [hs]
    refine OriginInv.run pickler ?_ (windowInv_init start hsize true waitForWriters) hcalls
    intro key i valList hvalue
    rw [viewAt_init] at hvalue
    cases hvalue
  obtain ⟨h, ho⟩ := hrun
  unfold getOpPerform at hget
  rcases hfound : s.1.get deferredOps key c with e | (_ | chkpt)
  · rw [hfound] at hget
    cases hget
  · rw [hfound] at hget
    cases hget
  · rw [hfound] at hget
    obtain ⟨-, i, -, hlookup⟩ := get_lookup hfound
    have hsound := h.sound i chkpt hlookup
    have hid := hsound.id_eq
    subst hid
    simp only [hsound.containsKey_eq] at hget
    by_cases hkey : key ∈ chkpt.map
    · rw [decide_eq_true hkey] at hget
      have hvalue : chkpt.map.lookup key = some valList := by
        simpa using hget
      obtain ⟨write, hwrite, hput⟩ := ho key chkpt.id valList
        (by rw [viewAt_of_lookup hlookup]; exact hvalue)
      refine ⟨chkpt, write, rfl, hwrite, ?_, ?_⟩
      · cases write with
        | fetchAdd => rfl
        | put chkptId persist stored =>
          unfold Write.staleAt
          cases persist with
          | true => rfl
          | false =>
            obtain ⟨rfl, hmark⟩ := (hput chkptId false stored rfl).2 rfl
            rw [viewAt_of_lookup hlookup] at hmark
            have hle := h.get_fresh hfound hkey (of_decide_eq_false hmark)
            simpa using hle
      · intro chkptId persist stored hstored
        exact (hput chkptId persist stored hstored).1
    · rw [decide_eq_false hkey] at hget
      cases hget

/-- A value that persists is answered at the next checkpoint, another one is not. -/
theorem workingSet_get_fresh_example :
    let s := [DictCall.put 7 0 true [1] [[5]] false, .put 7 0 false [2] [[6]] false].foldl
      (tracedStep XPickler.scalars) (WorkingSet.init 0 2 true false, fun _ _ => none)
    getOpPerform s.1 ∅ 1 [1] = .ok (some (some [[5]])) ∧
      getOpPerform s.1 ∅ 1 [2] = .ok none ∧
      ∃ chkpt write, s.1.get ∅ [1] 1 = .ok (some chkpt) ∧ s.2 [1] chkpt.id = some write ∧
        write.staleAt 1 = false := by
  intro s
  have hget : getOpPerform s.1 ∅ 1 [1] = .ok (some (some [[5]])) := by
    rfl
  refine ⟨hget, rfl, ?_⟩
  have hlegal : Runs.Legal (dictStep XPickler.scalars) MarksMatch
      (WorkingSet.init 0 2 true false)
      [.put 7 0 true [1] [[5]] false, .put 7 0 false [2] [[6]] false] := by
    refine ⟨nofun, ?_, trivial⟩
    rintro chkptId key valList ⟨⟩ chkpt ws1 hput
    have hchkpt := congrArg (fun r => (r.toOption.bind Prod.fst).map Checkpoint.persist) hput
    have hpersist : some chkpt.persist = some {[1]} := hchkpt.symm
    rw [Option.some.inj hpersist]
    decide
  obtain ⟨chkpt, write, hchkpt, hwrite, hfresh, -⟩ := workingSet_get_fresh XPickler.scalars 0 2
    (by decide) false [.put 7 0 true [1] [[5]] false, .put 7 0 false [2] [[6]] false]
    hlegal s rfl ∅ 1 [1] [[5]] hget
  exact ⟨chkpt, write, hchkpt, hwrite, hfresh⟩

/-- The key is put with `persist` and then without it, both at checkpoint `0`: a get at
checkpoint `1` answers the value of the second put. -/
theorem workingSet_get_stale :
    let s := [DictCall.put 7 0 true [1] [[5]] false, .put 7 0 false [1] [[6]] false].foldl
      (tracedStep XPickler.scalars) (WorkingSet.init 0 2 true false, fun _ _ => none)
    getOpPerform s.1 ∅ 1 [1] = .ok (some (some [[6]])) ∧
      s.1.get ∅ [1] 1 = .ok (s.1.chkpts.lookup 0) ∧
      s.2 [1] 0 = some (.put 0 false [[6]]) ∧ (Write.put 0 false [[6]]).staleAt 1 = true := by
  intro s
  exact ⟨rfl, rfl, by decide +kernel, rfl⟩
