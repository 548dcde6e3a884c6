/-
# One answer for each request

Counted together, the answers that a manager has sent and the operations that it has
deferred are its *account*.  An attempt to perform an operation moves the operation from
the deferred ones to the answers, or leaves it where it is; so the account of a manager is
the requests that it has received, one by one, as long as no handler answers twice, forgets
to answer, or raises while other operations wait.
-/
import DragonRuntime.ManagerMemory

open WorkingSet Buckets Runs

/-! ## The account of a manager -/

/-- The manager has answered the request. -/
def Manager.Answered (m : Manager) (tag : ℕ) : Prop := ∃ answer ∈ m.answers, answer.ref = tag

/-- The operation of the request is deferred. -/
def Manager.Deferred (m : Manager) (tag : ℕ) : Prop :=
  ∃ c ops, m.deferredOps.lookup c = some ops ∧ ∃ op ∈ ops, op.tag = tag

/-- No request has two answers, an operation that was answered is not deferred, and every
request was answered or is deferred. -/
structure OneAnswer (m : Manager) : Prop where
  at_most_one : ∀ tag, (m.answers.map Answer.ref).count tag ≤ 1
  not_left : ∀ tag, m.Answered tag → ¬ m.Deferred tag
  not_lost : ∀ tag, tag < m.received → m.Answered tag ∨ m.Deferred tag

/-- The tags of the answers and of the operations that are deferred. -/
def Manager.account (m : Manager) : Multiset ℕ :=
  (m.answers.map Answer.ref : List ℕ) + (elems m.deferredOps).map DictOp.tag

section Account

variable {m : Manager} {tag : ℕ}

theorem Manager.answered_iff : m.Answered tag ↔ tag ∈ m.answers.map Answer.ref := by
  unfold Manager.Answered
  rw [List.mem_map]

theorem Manager.deferred_iff : m.Deferred tag ↔ tag ∈ (elems m.deferredOps).map DictOp.tag := by
  unfold Manager.Deferred
  rw [Multiset.mem_map]
  constructor
  · rintro ⟨c, ops, hlookup, op, hop, htag⟩
    exact ⟨op, mem_elems.mpr ⟨c, ops, hlookup, hop⟩, htag⟩
  · rintro ⟨op, hop, htag⟩
    obtain ⟨c, ops, hlookup, hmem⟩ := mem_elems.mp hop
    exact ⟨c, ops, hlookup, op, hmem, htag⟩

/-- A manager whose account is the requests that it has received. -/
theorem oneAnswer_of_account (h : m.account = Multiset.range m.received) : OneAnswer m := by
  have hnodup : m.account.Nodup := by
    rw [h]
    exact Multiset.nodup_range m.received
  unfold Manager.account at h hnodup
  obtain ⟨hanswers, -, hdisjoint⟩ := Multiset.nodup_add.mp hnodup
  constructor
  · intro tag
    exact List.nodup_iff_count_le_one.mp (Multiset.coe_nodup.mp hanswers) tag
  · intro tag hanswered hdeferred
    rw [Manager.answered_iff] at hanswered
    rw [Manager.deferred_iff] at hdeferred
    exact Multiset.disjoint_left.mp hdisjoint (Multiset.mem_coe.mpr hanswered) hdeferred
  · intro tag htag
    have hmem : tag ∈ Multiset.range m.received := Multiset.mem_range.mpr htag
    rw [← h, Multiset.mem_add, Multiset.mem_coe] at hmem
    rw [Manager.answered_iff, Manager.deferred_iff]
    exact hmem

theorem Manager.account_send (m : Manager) (answers : List Answer) :
    (m.send answers).account = m.account + (answers.map Answer.ref : List ℕ) := by
  unfold Manager.account Manager.send
  rw [List.map_append, ← Multiset.coe_add]
  exact add_right_comm _ _ _

theorem Manager.account_insert (m : Manager) (c : ℕ) (ops : List DictOp) :
    { m with deferredOps := m.deferredOps.insert c ops }.account
        + ((bucket m.deferredOps c).map DictOp.tag : List ℕ)
      = m.account + (ops.map DictOp.tag : List ℕ) := by
  unfold Manager.account
  simp only
  rw [elems_insert, elems_erase m.deferredOps c, Multiset.map_add, Multiset.map_add,
    Multiset.map_coe, Multiset.map_coe]
  abel

theorem Manager.account_defer (m : Manager) (op : DictOp) :
    (m.defer op).account = m.account + {op.tag} := by
  have h := m.account_insert op.chkptId (bucket m.deferredOps op.chkptId ++ [op])
  rw [List.map_append, ← Multiset.coe_add, ← add_assoc, add_right_comm] at h
  exact add_right_cancel h

end Account

/-! ## One attempt -/

/-- The value that a `fetch_add` starts from. -/
def Checkpoint.fetchAddValue (pickler : XPickler) (chkpt : Checkpoint) (key : KeyBytes) :
    Option pickler.Obj :=
  if key ∈ chkpt.map then pickler.loads (valueToBytes ((chkpt.map.lookup key).getD []))
  else some pickler.zero

/-- The value can be added to, and the sum can be pickled. -/
def XPickler.Adds (pickler : XPickler) (value : pickler.Obj) (fetchAddVal : ℤ) : Prop :=
  ∃ sum, pickler.add value fetchAddVal = some sum ∧ (pickler.dumps sum).isSome

/-- The attempt sends nothing and leaves the operation to wait, or sends one answer and
ends. -/
def Outcome.Ends (outcome : Outcome) (op : DictOp) : Prop :=
  outcome.answers = [] ∧ (∃ op', outcome.result = .waits op') ∨
    (∃ answer, outcome.answers = [answer] ∧ answer.ref = op.tag) ∧
      (outcome.result = .done ∨ outcome.result = .raised)

/-- Moreover it does not raise. -/
def Outcome.Settles (outcome : Outcome) (op : DictOp) : Prop :=
  outcome.Ends op ∧ outcome.result ≠ .raised

/-- What an operation other than a put needs so that its first attempt has one answer or
waits: a pop and a clear must not be for a retired checkpoint, and a `fetch_add` must not fail
after its answer. -/
def DictOp.Answerable (pickler : XPickler) (fault : Fault) (ws : WorkingSet) : DictOp → Prop
  | .fetchAdd _ _ c key fetchAddVal =>
    fault ≠ .late ∧ ∀ chkpt ws1, ws.put c = .ok (some chkpt, ws1) →
      ∀ value, chkpt.fetchAddValue pickler key = some value → pickler.Adds value fetchAddVal
  | .get .. => True
  | .pop _ _ c _ => ws.oldestChkptId ≤ c
  | .clear _ _ c => ws.oldestChkptId ≤ c
  | .put .. => False
  | .bput .. => False

/-- What an operation of a checkpoint that is not retired needs so that an attempt does not
raise: it meets no fault that its `perform` passes on, a `wait_for` has not freed its key and
its value, and a `fetch_add` finds a value that it can add to. -/
def DictOp.Quiet (pickler : XPickler) (fault : Fault) (ws : WorkingSet) : DictOp → Prop
  | .put _ _ _ _ _ _ _ freed => fault ≠ .unexpected ∧ freed = false
  | .bput .. => True
  | .fetchAdd _ _ c key fetchAddVal =>
    fault = .none ∧ ∀ chkpt ws1, ws.put c = .ok (some chkpt, ws1) →
      ∃ value, chkpt.fetchAddValue pickler key = some value ∧ pickler.Adds value fetchAddVal
  | .get .. => fault.raises = none
  | .pop .. => fault.raises = none
  | .clear .. => fault.raises = none

section Attempt

variable {size : ℕ} {waitForKeys : Bool} {ws ws1 : WorkingSet} {pickler : XPickler}
  {deferredOps : Finset ℕ} {fault : Fault} {c : ℕ} {key : KeyBytes}

theorem Outcome.ends_answer {outcome : Outcome} {op : DictOp} {answer : Answer}
    (hanswers : outcome.answers = [answer]) (href : answer.ref = op.tag)
    (hresult : outcome.result = .done ∨ outcome.result = .raised) : outcome.Ends op :=
  Or.inr ⟨⟨answer, hanswers, href⟩, hresult⟩

theorem valueAnswer_ref (tag : ℕ) (value : Option ValList) : (valueAnswer tag value).ref = tag := by
  cases value <;> rfl

/-- `put` finds its checkpoint or not, but it does not raise for an id that is not retired. -/
theorem WindowInv.put_ok (h : WindowInv size waitForKeys ws) (hold : ws.oldestChkptId ≤ c) :
    ∃ ws1, ws.put c = .ok (ws1.chkpts.lookup c, ws1) ∧ WindowInv size waitForKeys ws1 := by
  rcases h.put_cases c with ⟨hlt, -⟩ | ⟨-, ws1, hadv, hrun, -⟩
  · omega
  · exact ⟨ws1, hrun, h.advances hadv⟩

theorem WindowInv.getOp_ok (h : WindowInv size waitForKeys ws) (deferredOps : Finset ℕ)
    (key : KeyBytes) (hold : ws.oldestChkptId ≤ c) :
    ∃ value, getOpPerform ws deferredOps c key = .ok value := by
  unfold getOpPerform
  rcases h.get_spec deferredOps key hold with ⟨hget, -⟩ | ⟨hget, -⟩ | ⟨i, chkpt, hget, hlookup, -⟩
  · rw [hget]
    exact ⟨none, rfl⟩
  · rw [hget]
    exact ⟨none, rfl⟩
  · rw [hget]
    simp only [(h.sound i chkpt hlookup).containsKey_eq]
    by_cases hkey : key ∈ chkpt.map
    · rw [decide_eq_true hkey]
      exact ⟨_, rfl⟩
    · rw [decide_eq_false hkey]
      exact ⟨_, rfl⟩

theorem WindowInv.popOp_ok (h : WindowInv size waitForKeys ws) (deferredOps : Finset ℕ)
    (clientId : ℕ) (key : KeyBytes) (hold : ws.oldestChkptId ≤ c) :
    ∃ performed ws1, popOpPerform ws deferredOps clientId c key = (.ok performed, ws1) := by
  have hpos := h.size_pos
  have hle := h.size_le
  have holdest := h.oldest_eq
  have hnewest := h.newest_eq
  unfold popOpPerform
  rcases h.get_spec deferredOps key hold with ⟨hget, -⟩ | ⟨hget, -⟩ | ⟨i, chkpt, hget, hlookup, -⟩
  · rw [hget]
    exact ⟨false, ws, rfl⟩
  · rw [hget]
    exact ⟨false, ws, rfl⟩
  · rw [hget]
    simp only [(h.sound i chkpt hlookup).containsKey_eq]
    by_cases hkey : key ∈ chkpt.map
    · rw [decide_eq_true hkey]
      simp only
      by_cases hnew : ws.newestChkptId < c
      · rw [if_pos hnew]
        exact ⟨false, ws, rfl⟩
      · rw [if_neg hnew, h.access_eq_put]
        -- the checkpoint is in the window, so that `access` returns it
        obtain ⟨current, hcurrent⟩ := h.lookup_of_mem (i := c) (by omega) (by omega)
        obtain ⟨ws1, -, hsame, ⟨hrun, -, -⟩ | hrun⟩ := h.put_found c
        · rcases h.put_cases c with ⟨hlt, -⟩ | ⟨-, ws2, -, hrun', -⟩
          · omega
          · rw [hrun'] at hrun
            cases hrun
        · rw [hrun, hsame (by omega), hcurrent]
          simp only
          split
          · exact ⟨true, _, rfl⟩
          · exact ⟨true, _, rfl⟩
    · rw [decide_eq_false hkey]
      exact ⟨true, ws, rfl⟩

theorem WindowInv.clearOp_ok (h : WindowInv size waitForKeys ws) (clientId : ℕ)
    (hold : ws.oldestChkptId ≤ c) :
    ∃ performed ws1, clearOpPerform ws clientId c = (.ok performed, ws1) := by
  obtain ⟨ws1, hrun, -⟩ := h.put_ok hold
  unfold clearOpPerform
  rw [h.access_eq_put, hrun]
  cases ws1.chkpts.lookup c with
  | none => exact ⟨false, ws1, rfl⟩
  | some chkpt => exact ⟨true, _, rfl⟩

/-- A put that has not freed its memory raises only what its fault raises. -/
theorem WindowInv.putTry_ok (h : WindowInv size waitForKeys ws) (fault : Fault) (clientId : ℕ)
    (persist : Bool) (key : KeyBytes) (valList : ValList) (waitFor : Bool)
    (hold : ws.oldestChkptId ≤ c) :
    (∃ raised, fault.raises = some raised ∧
      putTry fault ws clientId c persist key valList waitFor false = (.error raised, ws)) ∨
    fault.raises = none ∧ ∃ performed ws1,
      putTry fault ws clientId c persist key valList waitFor false = (.ok performed, ws1) := by
  obtain ⟨ws1, hrun, hinv⟩ := h.put_ok hold
  unfold putTry
  rw [hrun]
  cases fault.raises with
  | some raised => exact Or.inl ⟨raised, rfl, rfl⟩
  | none =>
    right
    refine ⟨rfl, ?_⟩
    cases hlookup : ws1.chkpts.lookup c with
    | none => exact ⟨_, _, rfl⟩
    | some chkpt =>
      rw [hlookup] at hrun
      obtain ⟨chkpt', hfree⟩ :=
        (hinv.sound c chkpt hlookup).exists_containsKeyAndFree key
      have hperform : ∃ performed ws2,
          putOpPerform ws clientId c persist key valList waitFor = (.ok performed, ws2) := by
        unfold putOpPerform
        simp only [hrun, hfree]
        split
        · exact ⟨_, _, rfl⟩
        · exact ⟨_, _, rfl⟩
      obtain ⟨performed, ws2, hperform⟩ := hperform
      simp only [hperform, Bool.false_eq_true, if_false]
      exact ⟨_, _, rfl⟩

/-- How a `fetch_add` of a checkpoint that is not retired ends. -/
theorem WindowInv.fetchAdd_cases (h : WindowInv size waitForKeys ws) (pickler : XPickler)
    (clientId : ℕ) (key : KeyBytes) (fetchAddVal : ℤ) (hold : ws.oldestChkptId ≤ c) :
    ∃ ws1, (fetchAddPerform pickler ws clientId c key fetchAddVal = (.deferred, ws1) ∨
      ∃ chkpt ws2, ws.put c = .ok (some chkpt, ws2) ∧
        (chkpt.fetchAddValue pickler key = none ∧
            fetchAddPerform pickler ws clientId c key fetchAddVal = (.failed, ws1) ∨
          ∃ value valList, chkpt.fetchAddValue pickler key = some value ∧
            (pickler.Adds value fetchAddVal →
              fetchAddPerform pickler ws clientId c key fetchAddVal
                = (.answered valList, ws1)))) := by
  obtain ⟨ws1, hrun, hinv⟩ := h.put_ok hold
  unfold fetchAddPerform
  rw [hrun]
  cases hlookup : ws1.chkpts.lookup c with
  | none => exact ⟨ws1, Or.inl rfl⟩
  | some chkpt =>
    have hsound := hinv.sound c chkpt hlookup
    have hvalue : (if decide (key ∈ chkpt.map) = true then
        pickler.loads (valueToBytes ((chkpt.map.lookup key).getD [])) else some pickler.zero)
        = chkpt.fetchAddValue pickler key := by
      unfold Checkpoint.fetchAddValue
      simp only [decide_eq_true_eq]
    simp only [hsound.containsKey_eq, hvalue]
    cases hstart : chkpt.fetchAddValue pickler key with
    | none => exact ⟨ws1, Or.inr ⟨chkpt, ws1, rfl, Or.inl ⟨hstart, rfl⟩⟩⟩
    | some value =>
      by_cases hadds : pickler.Adds value fetchAddVal
      · obtain ⟨sum, hadd, hdumps⟩ := hadds
        obtain ⟨bytes, hbytes⟩ := Option.isSome_iff_exists.mp hdumps
        simp only [hadd, hbytes]
        exact ⟨_, Or.inr ⟨chkpt, ws1, rfl, Or.inr ⟨value, _, hstart, fun _ => rfl⟩⟩⟩
      · exact ⟨ws1, Or.inr ⟨chkpt, ws1, rfl,
          Or.inr ⟨value, [], hstart, fun h' => absurd h' hadds⟩⟩⟩

/-- The first attempt of a get, a `fetch_add`, a pop or a clear. -/
theorem DictOp.Answerable.ends {op : DictOp} (h : WorkingSetInv size waitForKeys ws)
    (hop : op.Answerable pickler fault ws) (deferredOps : Finset ℕ) :
    (op.perform pickler deferredOps fault ws).Ends op := by
  cases op with
  | put => exact hop.elim
  | bput => exact hop.elim
  | get tag clientId c key =>
    change (getPerform deferredOps fault ws tag clientId c key).Ends _
    unfold getPerform
    rcases getOpPerform ws deferredOps c key with e | (_ | value)
    · exact Outcome.ends_answer rfl rfl (Or.inr rfl)
    · cases fault.raises with
      | none => exact Or.inl ⟨rfl, _, rfl⟩
      | some raised => exact Outcome.ends_answer rfl rfl (Or.inr rfl)
    · cases fault.raises with
      | none => exact Outcome.ends_answer rfl (valueAnswer_ref tag value) (Or.inl rfl)
      | some raised => exact Outcome.ends_answer rfl rfl (Or.inr rfl)
  | fetchAdd tag clientId c key fetchAddVal =>
    obtain ⟨hlate, hadds⟩ := hop
    change (fetchAddOpPerform pickler fault ws tag clientId c key fetchAddVal).Ends _
    unfold fetchAddOpPerform
    by_cases hold : ws.oldestChkptId ≤ c
    · obtain ⟨ws1, hrun | ⟨chkpt, ws2, hput, ⟨-, hrun⟩ | ⟨value, valList, hvalue, hrun⟩⟩⟩ :=
        h.window.fetchAdd_cases pickler clientId key fetchAddVal hold
      · rw [hrun]
        cases fault.raises with
        | none => exact Or.inl ⟨rfl, _, rfl⟩
        | some raised => exact Outcome.ends_answer rfl rfl (Or.inr rfl)
      · rw [hrun]
        cases fault.raises with
        | none => exact Outcome.ends_answer rfl rfl (Or.inr rfl)
        | some raised => exact Outcome.ends_answer rfl rfl (Or.inr rfl)
      · rw [hrun (hadds chkpt ws2 hput value hvalue)]
        cases fault.raises with
        | none =>
          simp only [if_neg hlate]
          exact Outcome.ends_answer rfl (valueAnswer_ref tag _) (Or.inl rfl)
        | some raised => exact Outcome.ends_answer rfl rfl (Or.inr rfl)
    · have hrun : fetchAddPerform pickler ws clientId c key fetchAddVal = (.retired, ws) := by
        unfold fetchAddPerform
        rcases h.window.put_cases c with ⟨-, hput⟩ | ⟨hold', -⟩
        · rw [hput]
        · exact absurd hold' hold
      rw [hrun]
      exact Outcome.ends_answer rfl rfl (Or.inr rfl)
  | pop tag clientId c key =>
    obtain ⟨performed, ws1, hrun⟩ := h.window.popOp_ok deferredOps clientId key hop
    change (popPerform deferredOps fault ws tag clientId c key).Ends _
    unfold popPerform
    rw [hrun]
    cases fault.raises with
    | some raised => exact Outcome.ends_answer rfl rfl (Or.inr rfl)
    | none =>
      cases performed with
      | false => exact Or.inl ⟨rfl, _, rfl⟩
      | true =>
        simp only
        split
        · exact Outcome.ends_answer rfl (valueAnswer_ref tag _) (Or.inl rfl)
        · exact Outcome.ends_answer rfl rfl (Or.inl rfl)
  | clear tag clientId c =>
    obtain ⟨performed, ws1, hrun⟩ := h.window.clearOp_ok clientId hop
    change (clearPerform fault ws tag clientId c).Ends _
    unfold clearPerform
    rw [hrun]
    cases fault.raises with
    | some raised => exact Outcome.ends_answer rfl rfl (Or.inr rfl)
    | none =>
      cases performed with
      | false => exact Or.inl ⟨rfl, _, rfl⟩
      | true => exact Outcome.ends_answer rfl rfl (Or.inl rfl)

theorem Outcome.settles_done {outcome : Outcome} {op : DictOp} {answer : Answer}
    (hanswers : outcome.answers = [answer]) (href : answer.ref = op.tag)
    (hresult : outcome.result = .done) : outcome.Settles op :=
  ⟨Outcome.ends_answer hanswers href (Or.inl hresult), by rw [hresult]; nofun⟩

theorem Outcome.settles_waits {outcome : Outcome} {op op' : DictOp}
    (hanswers : outcome.answers = []) (hresult : outcome.result = .waits op') :
    outcome.Settles op :=
  ⟨Or.inl ⟨hanswers, op', hresult⟩, by rw [hresult]; nofun⟩

/-- **Every attempt** of an operation that is not retired. -/
theorem DictOp.Quiet.settles {op : DictOp} (h : WorkingSetInv size waitForKeys ws)
    (hop : op.Quiet pickler fault ws) (hold : ws.oldestChkptId ≤ op.chkptId)
    (deferredOps : Finset ℕ) :
    (op.perform pickler deferredOps fault ws).Settles op := by
  cases op with
  | put tag clientId c persist key valList waitFor freed =>
    replace hold : ws.oldestChkptId ≤ c := hold
    obtain ⟨hfault, hfreed⟩ := hop
    subst hfreed
    change (putPerform fault ws tag clientId c persist key valList waitFor false).Settles _
    unfold putPerform
    rcases h.window.putTry_ok fault clientId persist key valList waitFor hold with
      ⟨raised, hraises, hrun⟩ | ⟨-, ⟨performed, freed⟩, ws1, hrun⟩
    · rw [hrun]
      cases fault with
      | none => cases hraises
      | full =>
        cases hraises
        exact Outcome.settles_done rfl rfl rfl
      | unexpected => exact absurd rfl hfault
      | late => cases hraises
    · rw [hrun]
      cases performed with
      | false => exact Outcome.settles_waits rfl rfl
      | true => exact Outcome.settles_done rfl rfl rfl
  | bput tag clientId c key valList =>
    replace hold : ws.oldestChkptId ≤ c := hold
    change (bputPerform fault ws tag clientId c key valList).Settles _
    unfold bputPerform
    rcases h.window.putTry_ok fault clientId false key valList false hold with
      ⟨raised, hraises, hrun⟩ | ⟨-, ⟨performed, freed⟩, ws1, hrun⟩
    · rw [hrun]
      cases fault with
      | none => cases hraises
      | full | unexpected =>
        cases hraises
        exact Outcome.settles_done rfl rfl rfl
      | late => cases hraises
    · rw [hrun]
      cases performed with
      | false => exact Outcome.settles_waits rfl rfl
      | true => exact Outcome.settles_done rfl rfl rfl
  | get tag clientId c key =>
    replace hold : ws.oldestChkptId ≤ c := hold
    obtain ⟨value, hrun⟩ := h.window.getOp_ok deferredOps key hold
    change (getPerform deferredOps fault ws tag clientId c key).Settles _
    unfold getPerform
    rw [hrun, show fault.raises = none from hop]
    cases value with
    | none => exact Outcome.settles_waits rfl rfl
    | some value => exact Outcome.settles_done rfl (valueAnswer_ref tag value) rfl
  | fetchAdd tag clientId c key fetchAddVal =>
    replace hold : ws.oldestChkptId ≤ c := hold
    obtain ⟨rfl, hadds⟩ := hop
    change (fetchAddOpPerform pickler .none ws tag clientId c key fetchAddVal).Settles _
    unfold fetchAddOpPerform
    obtain ⟨ws1, hrun | ⟨chkpt, ws2, hput, hrest⟩⟩ :=
      h.window.fetchAdd_cases pickler clientId key fetchAddVal hold
    · rw [hrun]
      exact Outcome.settles_waits rfl rfl
    · obtain ⟨value, hvalue, hadd⟩ := hadds chkpt ws2 hput
      rcases hrest with ⟨hnone, -⟩ | ⟨value', valList, hvalue', hrun⟩
      · rw [hvalue] at hnone
        cases hnone
      · rw [hvalue] at hvalue'
        cases hvalue'
        rw [hrun hadd]
        exact Outcome.settles_done rfl (valueAnswer_ref tag _) rfl
  | pop tag clientId c key =>
    replace hold : ws.oldestChkptId ≤ c := hold
    obtain ⟨performed, ws1, hrun⟩ := h.window.popOp_ok deferredOps clientId key hold
    change (popPerform deferredOps fault ws tag clientId c key).Settles _
    unfold popPerform
    rw [hrun, show fault.raises = none from hop]
    cases performed with
    | false => exact Outcome.settles_waits rfl rfl
    | true =>
      simp only
      split
      · exact Outcome.settles_done rfl (valueAnswer_ref tag _) rfl
      · exact Outcome.settles_done rfl rfl rfl
  | clear tag clientId c =>
    replace hold : ws.oldestChkptId ≤ c := hold
    obtain ⟨performed, ws1, hrun⟩ := h.window.clearOp_ok clientId hold
    change (clearPerform fault ws tag clientId c).Settles _
    unfold clearPerform
    rw [hrun, show fault.raises = none from hop]
    cases performed with
    | false => exact Outcome.settles_waits rfl rfl
    | true => exact Outcome.settles_done rfl rfl rfl

end Attempt

/-! ## The operations that are deferred -/

/-- Every operation that the loop over the deferred operations performs meets `Quiet` in the
state that it is performed in. -/
def Manager.PassLegal (pickler : XPickler) (fault : ℕ → Fault) (chkptId : ℕ) :
    List DictOp → Manager → Prop
  | [], _ => True
  | op :: ops, m =>
    op.Quiet pickler (fault op.tag) m.workingSet ∧
      PassLegal pickler fault chkptId ops (Manager.perform pickler
        { m with deferredOps := m.deferredOps.insert chkptId ops } (fault op.tag) op).2

section Passes

variable {size : ℕ} {waitForKeys : Bool} {m m' : Manager} {pickler : XPickler} {c n : ℕ}

theorem Manager.account_perform (pickler : XPickler) (m : Manager) (fault : Fault) (op : DictOp) :
    (m.perform pickler fault op).2.account = m.account +
      ((op.perform pickler m.deferredIds fault m.workingSet).answers.map Answer.ref : List ℕ) :=
  m.account_send _

/-- An attempt that ends with one answer moves the tag of its operation to the answers. -/
theorem Manager.account_of_ends {fault : Fault} {op : DictOp} {result : PerformResult}
    (hends : (op.perform pickler m.deferredIds fault m.workingSet).Ends op)
    (hrun : m.perform pickler fault op = (result, m')) :
    (∃ op', result = .waits op' ∧ op'.tag = op.tag ∧ op'.chkptId = op.chkptId ∧
        m'.account = m.account) ∨
      (result = .done ∨ result = .raised) ∧ m'.account = m.account + {op.tag} := by
  have haccount := m.account_perform pickler fault op
  have hresult : (op.perform pickler m.deferredIds fault m.workingSet).result = result :=
    congrArg Prod.fst hrun
  rw [hrun] at haccount
  rcases hends with ⟨hanswers, op', hwaits⟩ | ⟨⟨answer, hanswers, href⟩, hend⟩
  · rw [hanswers] at haccount
    obtain ⟨htag, hid⟩ := DictOp.waits_same hwaits
    refine Or.inl ⟨op', hresult.symm.trans hwaits, htag, hid, ?_⟩
    rw [haccount, List.map_nil, Multiset.coe_nil, add_zero]
  · rw [hanswers] at haccount
    rw [hresult] at hend
    refine Or.inr ⟨hend, ?_⟩
    rw [haccount, List.map_singleton, href, Multiset.coe_singleton]

/-- Taking an operation out of its bucket. -/
theorem Manager.account_take {op : DictOp} {ops : List DictOp}
    (hbucket : bucket m.deferredOps c = op :: ops) :
    { m with deferredOps := m.deferredOps.insert c ops }.account + {op.tag} = m.account := by
  have h := m.account_insert c ops
  rw [hbucket, List.map_cons, ← Multiset.cons_coe, ← Multiset.singleton_add, ← add_assoc] at h
  exact add_right_cancel h

/-- The end of the loop: what is left over goes back into the table. -/
theorem Manager.account_leave (hbucket : bucket m.deferredOps c = []) (leftOvers : List DictOp) :
    (if leftOvers.isEmpty then { m with deferredOps := m.deferredOps.erase c }
      else { m with deferredOps := m.deferredOps.insert c leftOvers }).account
      = m.account + (leftOvers.map DictOp.tag : List ℕ) := by
  have herase := elems_erase m.deferredOps c
  rw [hbucket, Multiset.coe_nil, add_zero] at herase
  cases leftOvers with
  | nil =>
    simp only [List.isEmpty_nil, if_true, List.map_nil, Multiset.coe_nil, add_zero]
    unfold Manager.account
    rw [herase]
  | cons op ops =>
    have h := m.account_insert c (op :: ops)
    rw [hbucket, List.map_nil, Multiset.coe_nil, add_zero] at h
    exact h

/-- **The loop over the deferred operations** loses none of them and answers none twice. -/
theorem ManagerInv.processLoop_account {fault : ℕ → Fault} {ops : List DictOp}
    (leftOvers : List DictOp) (h : ManagerInv size waitForKeys n m)
    (hold : m.workingSet.oldestChkptId ≤ c) (hbucket : bucket m.deferredOps c = ops)
    (hlegal : Manager.PassLegal pickler fault c ops m) :
    ∃ m', Manager.processLoop pickler fault c ops leftOvers m = (false, m') ∧
      m'.account = m.account + (leftOvers.map DictOp.tag : List ℕ) ∧
      m'.received = m.received ∧ m'.workingSet.oldestChkptId ≤ c := by
  induction ops generalizing leftOvers m with
  | nil =>
    have haccount := Manager.account_leave hbucket leftOvers
    unfold Manager.processLoop
    split
    · rename_i hempty
      rw [if_pos hempty] at haccount
      exact ⟨_, rfl, haccount, rfl, hold⟩
    · rename_i hempty
      rw [if_neg hempty] at haccount
      exact ⟨_, rfl, haccount, rfl, hold⟩
  | cons op ops ih =>
    obtain ⟨hquiet, hrest⟩ := hlegal
    have hid := (h.filed c op (by rw [hbucket]; exact List.mem_cons_self)).1
    have htake := Manager.account_take hbucket
    have hfiled : ∀ op' ∈ ops, op'.chkptId = c ∧ op'.tag < n := fun op' hop' =>
      h.filed c op' (by rw [hbucket]; exact List.mem_cons_of_mem _ hop')
    have htaken : ManagerInv size waitForKeys n
        { m with deferredOps := m.deferredOps.insert c ops } := ⟨h.ws, h.filed.insert hfiled⟩
    have hsettles := hquiet.settles h.ws (by rw [hid]; exact hold)
      { m with deferredOps := m.deferredOps.insert c ops }.deferredIds
    rcases hrun : Manager.perform pickler
      { m with deferredOps := m.deferredOps.insert c ops } (fault op.tag) op with ⟨result, m1⟩
    have hinv1 := htaken.perform pickler (fault op.tag) op
    have hold1 : m1.workingSet.oldestChkptId ≤ c := by
      have hle := htaken.oldest_perform (hid.symm ▸ hold) hrun
      rwa [hid] at hle
    have hbucket1 : bucket m1.deferredOps c = ops := by
      rw [← bucket_insert m.deferredOps c ops]
      exact congrArg (fun run => bucket run.2.deferredOps c) hrun.symm
    have hreceived : m1.received = m.received :=
      congrArg (fun run => run.2.received) hrun.symm
    rw [hrun] at hinv1 hrest
    -- the operation waits, and is left over, or it was answered
    unfold Manager.processLoop
    rw [hrun]
    rcases Manager.account_of_ends hsettles.1 hrun with
      ⟨op', rfl, htag, -, haccount⟩ | ⟨hend, haccount⟩
    · obtain ⟨m2, hrun2, haccount2, hreceived2, hold2⟩ :=
        ih (leftOvers ++ [op']) hinv1 hold1 hbucket1 hrest
      refine ⟨m2, hrun2, ?_, hreceived2.trans hreceived, hold2⟩
      rw [haccount2, haccount, ← htake, List.map_append, List.map_singleton, htag,
        ← Multiset.coe_add, Multiset.coe_singleton]
      abel
    · have hdone : result = .done := by
        refine hend.resolve_right ?_
        rintro rfl
        exact hsettles.2 (congrArg Prod.fst hrun)
      subst hdone
      obtain ⟨m2, hrun2, haccount2, hreceived2, hold2⟩ :=
        ih leftOvers hinv1 hold1 hbucket1 hrest
      refine ⟨m2, hrun2, ?_, hreceived2.trans hreceived, hold2⟩
      rw [haccount2, haccount, htake]

theorem ManagerInv.processDeferredOps_account {fault : ℕ → Fault}
    (h : ManagerInv size waitForKeys n m) (hold : m.workingSet.oldestChkptId ≤ c)
    (hlegal : Manager.PassLegal pickler fault c (bucket m.deferredOps c) m) :
    ∃ m', m.processDeferredOps pickler fault c = (false, m') ∧ m'.account = m.account ∧
      m'.received = m.received ∧ m'.workingSet.oldestChkptId ≤ c := by
  unfold Manager.processDeferredOps
  cases hlookup : m.deferredOps.lookup c with
  | none => exact ⟨m, rfl, rfl, rfl, hold⟩
  | some ops =>
    have hbucket := bucket_of_lookup hlookup
    rw [hbucket] at hlegal
    obtain ⟨m', hrun, haccount, hrest⟩ :=
      h.processLoop_account [] hold hbucket hlegal
    refine ⟨m', hrun, ?_, hrest⟩
    rw [haccount, List.map_nil, Multiset.coe_nil, add_zero]

end Passes

/-! ## Items -/

/-- A key that an older checkpoint lists is deleted in a newer one, both not after `c`. -/
def WorkingSet.TombstoneHit (ws : WorkingSet) (c : ℕ) : Prop :=
  ∃ key i j, ws.oldestChkptId ≤ i ∧ i < j ∧ j ≤ min c ws.newestChkptId ∧
    (viewAt ws key i).shows ws.waitForKeys = true ∧ (viewAt ws key j).deleted = true

section Items

variable {size : ℕ} {waitForKeys : Bool} {ws ws' : WorkingSet} {c : ℕ} {key : KeyBytes}

theorem mem_addItems (chkpt : Checkpoint) (keys : List KeyBytes) (items : Dict KeyBytes ValList) :
    key ∈ chkpt.addItems keys items ↔ key ∈ items ∨ key ∈ keys ∧ key ∈ chkpt.map := by
  unfold Checkpoint.addItems
  induction keys generalizing items with
  | nil => simp
  | cons k keys ih =>
    rw [List.foldl_cons, ih]
    cases hlookup : chkpt.map.lookup k with
    | none =>
      have hk : k ∉ chkpt.map := AList.lookup_eq_none.mp hlookup
      simp only [List.mem_cons]
      constructor
      · rintro (hitems | ⟨hkeys, hmap⟩)
        · exact Or.inl hitems
        · exact Or.inr ⟨Or.inr hkeys, hmap⟩
      · rintro (hitems | ⟨rfl | hkeys, hmap⟩)
        · exact Or.inl hitems
        · exact absurd hmap hk
        · exact Or.inr ⟨hkeys, hmap⟩
    | some valList =>
      have hk : k ∈ chkpt.map := AList.lookup_isSome.mp (by rw [hlookup]; rfl)
      simp only [AList.mem_insert, List.mem_cons]
      constructor
      · rintro ((rfl | hitems) | ⟨hkeys, hmap⟩)
        · exact Or.inr ⟨Or.inl rfl, hk⟩
        · exact Or.inl hitems
        · exact Or.inr ⟨Or.inr hkeys, hmap⟩
      · rintro (hitems | ⟨rfl | hkeys, hmap⟩)
        · exact Or.inl (Or.inr hitems)
        · exact Or.inl (Or.inl rfl)
        · exact Or.inr ⟨hkeys, hmap⟩

theorem mem_addItems_layer (hp : PersistInv ws) {i : ℕ} {chkpt : Checkpoint}
    (hlookup : ws.chkpts.lookup i = some chkpt) (items : Dict KeyBytes ValList) :
    (key ∈ chkpt.addItems (if ws.waitForKeys then chkpt.map.keys.filter fun k => k ∈ chkpt.persist
        else chkpt.map.keys) items) ↔
      key ∈ items ∨ (viewAt ws key i).shows ws.waitForKeys = true := by
  have hpersist := hp key i
  rw [viewAt_of_lookup hlookup] at hpersist ⊢
  rw [mem_addItems, shows_keyView]
  cases ws.waitForKeys with
  | false => simp [mem_mapKeys, AList.mem_keys]
  | true =>
    have hmap : key ∈ chkpt.persist → key ∈ chkpt.map := by
      intro hkey
      refine AList.lookup_isSome.mp (hpersist ?_)
      exact decide_eq_true hkey
    simp only [if_true, List.mem_filter, decide_eq_true_eq]
    constructor
    · rintro (hitems | ⟨⟨-, hkey⟩, -⟩)
      · exact Or.inl hitems
      · exact Or.inr hkey
    · rintro (hitems | hkey)
      · exact Or.inl hitems
      · exact Or.inr ⟨⟨AList.mem_keys.mp (hmap hkey), hkey⟩, hmap hkey⟩

/-- The loop of `_items` ends, if no key that it has met is deleted later. -/
theorem itemsLoop_ok (hp : PersistInv ws) (n : ℕ) (items : Dict KeyBytes ValList)
    (first : ℕ) (hids : ∀ i, first ≤ i → i < first + n → i ∈ ws.chkpts)
    (hitems : ∀ key ∈ items, ∀ j, first ≤ j → j < first + n → (viewAt ws key j).deleted = false)
    (hshown : ∀ key i j, first ≤ i → i < j → j < first + n →
      (viewAt ws key i).shows ws.waitForKeys = true → (viewAt ws key j).deleted = false) :
    ∃ items', ws.itemsLoop (List.range' first n) items = .ok items' := by
  induction n generalizing first items with
  | zero => exact ⟨items, rfl⟩
  | succ n ih =>
    obtain ⟨chkpt, hlookup⟩ := Option.isSome_iff_exists.mp
      (AList.lookup_isSome.mpr (hids first le_rfl (by omega)))
    have hsubset : ws.waitForKeys = true → chkpt.persist ⊆ chkpt.mapKeys := by
      intro _ key hkey
      have hpersist := hp key first
      rw [viewAt_of_lookup hlookup] at hpersist
      exact mem_mapKeys.mpr (AList.lookup_isSome.mp (hpersist (decide_eq_true hkey)))
    have hnone : ¬ (items.keys.any fun key => decide (key ∈ chkpt.deleted)) = true := by
      rw [List.any_eq_true]
      rintro ⟨key, hkey, hdeleted⟩
      have h := hitems key (AList.mem_keys.mpr hkey) first le_rfl (by omega)
      rw [viewAt_of_lookup hlookup] at h
      exact Bool.false_ne_true (h.symm.trans hdeleted)
    obtain ⟨items', hrun⟩ := ih (chkpt.addItems (if ws.waitForKeys then
        chkpt.map.keys.filter fun k => k ∈ chkpt.persist else chkpt.map.keys) items) (first + 1)
      (fun i h1 h2 => hids i (by omega) (by omega))
      (by
        intro key hkey j h1 h2
        rcases (mem_addItems_layer hp hlookup items).mp hkey with hold | hshows
        · exact hitems key hold j (by omega) (by omega)
        · exact hshown key first j le_rfl (by omega) (by omega) hshows)
      (fun key i j h1 h2 h3 hshows => hshown key i j (by omega) h2 (by omega) hshows)
    refine ⟨items', ?_⟩
    rw [List.range'_succ, WorkingSet.itemsLoop, hlookup]
    simp only
    rw [if_neg hnone]
    cases hwait : ws.waitForKeys with
    | false =>
      rw [hwait] at hrun
      simpa using hrun
    | true =>
      rw [hwait] at hrun
      simpa [hsubset hwait] using hrun

theorem WorkingSetInv.items_ok (h : WorkingSetInv size waitForKeys ws)
    (hold : ws.oldestChkptId ≤ c) (hhit : ¬ ws.TombstoneHit c) :
    ∃ items, ws.items c = .ok items := by
  have hpos := h.window.size_pos
  have hle := h.window.size_le
  have holdest := h.window.oldest_eq
  have hnewest := h.window.newest_eq
  obtain ⟨items, hrun⟩ := itemsLoop_ok h.persist (min c ws.newestChkptId + 1 - ws.oldestChkptId)
    ∅ ws.oldestChkptId
    (fun i h1 h2 => (h.window.mem_iff i).mpr ⟨by omega, by omega⟩)
    (fun key hkey => absurd hkey (AList.notMem_empty key))
    (by
      intro key i j h1 h2 h3 hshows
      by_contra hdeleted
      exact hhit ⟨key, i, j, h1, h2, by omega, hshows, by simpa using hdeleted⟩)
  unfold WorkingSet.items
  rw [if_neg (not_lt.mpr hold)]
  simp only [hrun]
  split
  · exact ⟨_, rfl⟩
  · exact ⟨_, rfl⟩

theorem itemsLoop_ne_checkpointSync (ids : List ℕ) (items : Dict KeyBytes ValList) :
    ws.itemsLoop ids items ≠ .error .checkpointSync := by
  induction ids generalizing items with
  | nil => nofun
  | cons i ids ih =>
    rw [WorkingSet.itemsLoop]
    split
    · nofun
    · split
      · nofun
      · split
        · split
          · exact ih _
          · nofun
        · exact ih _

theorem items_ne_checkpointSync (hold : ws.oldestChkptId ≤ c) :
    ws.items c ≠ .error .checkpointSync := by
  unfold WorkingSet.items
  rw [if_neg (not_lt.mpr hold)]
  intro hrun
  simp only at hrun
  split at hrun
  · rename_i e hloop
    cases hrun
    exact itemsLoop_ne_checkpointSync _ _ hloop
  · split at hrun <;> cases hrun

/-- `keys` raises only for a retired checkpoint. -/
theorem WindowInv.keys_ok (h : WindowInv size waitForKeys ws) (hold : ws.oldestChkptId ≤ c) :
    ∃ keys, ws.keys c = .ok keys := by
  have hpos := h.size_pos
  have hle := h.size_le
  have holdest := h.oldest_eq
  have hnewest := h.newest_eq
  obtain ⟨keys, hrun, -⟩ := keysLoop_listed [] ws.oldestChkptId
    (min c ws.newestChkptId + 1 - ws.oldestChkptId) ∅
    (fun i h1 h2 => (h.mem_iff i).mpr ⟨by omega, by omega⟩)
  unfold WorkingSet.keys
  rw [if_neg (not_lt.mpr hold)]
  simp only [hrun]
  split
  · exact ⟨_, rfl⟩
  · exact ⟨_, rfl⟩

theorem SameKeys.tombstoneHit_iff (hsame : SameKeys ws ws') (h : WindowInv size waitForKeys ws)
    (h' : WindowInv size waitForKeys ws') : ws'.TombstoneHit c ↔ ws.TombstoneHit c := by
  unfold WorkingSet.TombstoneHit
  rw [hsame.oldest_eq, h.newest_eq, h'.newest_eq, hsame.nextId_eq, h.waitForKeys_eq,
    h'.waitForKeys_eq]
  simp only [hsame.viewAt_eq]

end Items

/-! ## Requests -/

/-- The operations that are performed before a put of the checkpoint id meet `Quiet`. -/
def Manager.BeforeLegal (pickler : XPickler) (faults : Faults) (m : Manager) (chkptId : ℕ) :
    Prop :=
  ∀ chkpt ws, m.workingSet.put chkptId = .ok (some chkpt, ws) →
    Manager.PassLegal pickler faults.before chkptId (bucket m.deferredOps chkptId)
      { m with workingSet := ws }

/-- So do the put itself and the operations that are performed after it. -/
def Manager.PutLegal (pickler : XPickler) (faults : Faults) (m : Manager) (op : DictOp) : Prop :=
  faults.arrival.raises = none →
    m.BeforeLegal pickler faults op.chkptId ∧
    ∀ m1, m.advanceAndProcess pickler faults op.chkptId = .ok (false, m1) →
      op.Quiet pickler faults.own m1.workingSet ∧
      ∀ m2, m1.perform pickler faults.own op = (.done, m2) →
        Manager.PassLegal pickler faults.after op.chkptId (bucket m2.deferredOps op.chkptId) m2

/-- The same for a turn of a batch put. -/
def Manager.BatchPutLegal (pickler : XPickler) (faults : Faults) (m : Manager)
    (clientId chkptId : ℕ) (persist : Bool) (key : KeyBytes) (valList : ValList) : Prop :=
  m.BeforeLegal pickler faults chkptId ∧
    ∀ m1, m.advanceAndProcess pickler faults chkptId = .ok (false, m1) →
      ∀ ws, batchPutOpPerform m1.workingSet clientId chkptId
          (persist && m1.workingSet.waitForKeys) key valList = (.ok (), ws) →
        Manager.PassLegal pickler faults.after chkptId (bucket m1.deferredOps chkptId)
          { m1 with workingSet := ws }

/-- **The requests that are answered once**: every operation that a put performs does not
raise, a pop, a clear, a `keys`, a `values` and an `items` are not for a retired checkpoint, a
`keys` and an `items` meet no fault, an `items` meets no tombstone, a `fetch_add` does not
fail after its answer, and a `bput` is received without an exception. -/
def Manager.AnswerLegal (pickler : XPickler) (m : Manager) (request : Request × Faults) : Prop :=
  match request.1 with
  | .put clientId c persist key valList waitFor =>
    m.PutLegal pickler request.2 (.put m.received clientId c
      (persist && m.workingSet.waitForKeys) key valList waitFor false)
  | .bput clientId c key valList =>
    request.2.arrival ≠ .unexpected ∧
      m.PutLegal pickler request.2 (.bput m.received clientId c key valList)
  | .batchPut clientId c persist key valList =>
    m.BatchPutLegal pickler request.2 clientId c persist key valList
  | .get .. => True
  | .fetchAdd clientId c key fetchAddVal =>
    (DictOp.fetchAdd m.received clientId c key fetchAddVal).Answerable pickler request.2.own
      m.workingSet
  | .pop _ c _ => m.workingSet.oldestChkptId ≤ c
  | .clear _ c => m.workingSet.oldestChkptId ≤ c
  | .contains .. => True
  | .length .. => True
  | .keys _ c => m.workingSet.oldestChkptId ≤ c ∧ request.2.own.raises = none
  | .values _ c => m.workingSet.oldestChkptId ≤ c
  | .items _ c =>
    m.workingSet.oldestChkptId ≤ c ∧ request.2.own.raises = none ∧ ¬ m.workingSet.TombstoneHit c

section Requests

variable {size : ℕ} {waitForKeys : Bool} {m m' : Manager} {pickler : XPickler} {c n : ℕ}
  {faults : Faults} {tag : ℕ}

/-- The first part of a put moves no request. -/
theorem ManagerInv.advanceAndProcess_account (h : ManagerInv size waitForKeys n m)
    (hlegal : m.BeforeLegal pickler faults c) :
    (∃ e, m.advanceAndProcess pickler faults c = .error e) ∨
    ∃ m1, m.advanceAndProcess pickler faults c = .ok (false, m1) ∧ m1.account = m.account ∧
      m1.received = m.received ∧ m1.workingSet.oldestChkptId ≤ c := by
  unfold Manager.advanceAndProcess
  cases hput : m.workingSet.put c with
  | error e => exact Or.inl ⟨e, rfl⟩
  | ok found =>
    obtain ⟨found, ws⟩ := found
    right
    have h1 := h.put hput
    have hold : ws.oldestChkptId ≤ c := by
      refine h.ws.window.oldest_le_of_nextId_le h1.ws.window ?_ (h.ws.window.nextId_put_le hput)
      rcases h.ws.window.put_cases c with ⟨-, herr⟩ | ⟨hle, -⟩
      · rw [hput] at herr
        cases herr
      · exact hle
    cases found with
    | none => exact ⟨_, rfl, rfl, rfl, hold⟩
    | some chkpt =>
      obtain ⟨m', hrun, haccount, hreceived, hold'⟩ :=
        h1.processDeferredOps_account hold (hlegal chkpt ws hput)
      exact ⟨m', by simp only [hrun], haccount, hreceived, hold'⟩

theorem Manager.account_answer (m : Manager) {answer : Answer} (href : answer.ref = tag) :
    (m.send [answer]).account = m.account + {tag} := by
  rw [Manager.account_send, List.map_singleton, href, Multiset.coe_singleton]

/-- **A put** is answered once or deferred. -/
theorem ManagerInv.performPut_account (h : ManagerInv size waitForKeys n m) {op : DictOp}
    (htag : op.tag = tag) {onRaise : List Answer}
    (harrival : faults.arrival = .unexpected → ∃ answer, onRaise = [answer] ∧ answer.ref = tag)
    (hlegal : m.PutLegal pickler faults op) :
    (m.performPut pickler faults tag onRaise op).account = m.account + {tag} := by
  unfold Manager.performPut
  cases harr : faults.arrival
  case full => exact m.account_answer rfl
  case unexpected =>
    obtain ⟨answer, rfl, href⟩ := harrival harr
    exact m.account_answer href
  case none | late =>
    obtain ⟨hbefore, hrest⟩ := hlegal (by rw [harr]; rfl)
    dsimp only
    rcases h.advanceAndProcess_account hbefore with ⟨e, hrun⟩ | ⟨m1, hrun, haccount, -, hold⟩
    · rw [hrun]
      exact m.account_answer rfl
    · obtain ⟨hquiet, hafter⟩ := hrest m1 hrun
      have h1 := h.advanceAndProcess hrun
      have hsettles := hquiet.settles h1.ws hold m1.deferredIds
      rcases hperform : m1.perform pickler faults.own op with ⟨result, m2⟩
      have h2 := h1.perform pickler faults.own op
      rw [hperform] at h2
      rw [hrun]
      simp only [hperform]
      rcases Manager.account_of_ends hsettles.1 hperform with
        ⟨op', rfl, htag', -, haccount2⟩ | ⟨hend, haccount2⟩
      · simp only
        rw [Manager.account_defer, htag', htag, haccount2, haccount]
      · have hdone : result = .done := by
          refine hend.resolve_right ?_
          rintro rfl
          exact hsettles.2 (congrArg Prod.fst hperform)
        subst hdone
        simp only
        have hold2 := h1.oldest_perform hold hperform
        obtain ⟨m3, hpass, haccount3, -, -⟩ :=
          h2.processDeferredOps_account hold2 (hafter m2 hperform)
        rw [hpass]
        simp only
        rw [haccount3, haccount2, haccount, htag]

/-- **A get, a `fetch_add`, a pop or a clear** is answered once or deferred. -/
theorem ManagerInv.performOrDefer_account (h : ManagerInv size waitForKeys n m) {fault : Fault}
    {op : DictOp} (hop : op.Answerable pickler fault m.workingSet) :
    (m.performOrDefer pickler fault op).account = m.account + {op.tag} := by
  rcases hrun : m.perform pickler fault op with ⟨result, m'⟩
  unfold Manager.performOrDefer
  rw [hrun]
  rcases Manager.account_of_ends (hop.ends h.ws m.deferredIds) hrun with
    ⟨op', rfl, htag, -, haccount⟩ | ⟨rfl | rfl, haccount⟩
  · simp only
    rw [Manager.account_defer, htag, haccount]
  · exact haccount
  · exact haccount

/-- A turn of a batch put moves no request. -/
theorem ManagerInv.batchPut_account (h : ManagerInv size waitForKeys n m) {clientId : ℕ}
    {persist : Bool} {key : KeyBytes} {valList : ValList}
    (hlegal : m.BatchPutLegal pickler faults clientId c persist key valList) :
    (m.batchPut pickler faults clientId c persist key valList).account = m.account := by
  obtain ⟨hbefore, hafter⟩ := hlegal
  unfold Manager.batchPut
  rcases h.advanceAndProcess_account hbefore with ⟨e, hrun⟩ | ⟨m1, hrun, haccount, -, hold⟩
  · rw [hrun]
  · have h1 := h.advanceAndProcess hrun
    have hcall : (DictCall.batchPut clientId c (persist && m1.workingSet.waitForKeys) key
        valList).chkptId? = some c := rfl
    have hstep := h1.ws.dictStep pickler
      (.batchPut clientId c (persist && m1.workingSet.waitForKeys) key valList)
    have hle := h1.ws.window.nextId_dictStep_le pickler hcall
    unfold dictStep at hstep hle
    rw [hrun]
    simp only at hstep hle ⊢
    split
    · exact haccount
    · exact haccount
    · rename_i ws _ hperform
      rw [hperform] at hstep hle
      have hstored : ManagerInv size waitForKeys n { m1 with workingSet := ws } := ⟨hstep, h1.filed⟩
      obtain ⟨m3, hpass, haccount3, -, -⟩ := hstored.processDeferredOps_account
        (h1.ws.window.oldest_le_of_nextId_le hstep.window hold hle) (hafter m1 hrun ws hperform)
      rw [hpass, haccount3]
      exact haccount

/-- The handler of a request other than a batch put adds its tag to the account. -/
theorem ManagerInv.handle_account (h : ManagerInv size waitForKeys n m) {request : Request}
    (hlegal : m.AnswerLegal pickler (request, faults)) (hkind : ∀ clientId c persist key valList,
      request ≠ .batchPut clientId c persist key valList) :
    (m.handle pickler faults m.received request).account = m.account + {m.received} := by
  cases request with
  | put =>
    refine h.performPut_account ?_ (fun _ => ⟨_, rfl, rfl⟩) hlegal
    rfl
  | bput =>
    refine h.performPut_account ?_ (fun harrival => absurd harrival hlegal.1) hlegal.2
    rfl
  | batchPut clientId c persist key valList => exact absurd rfl (hkind clientId c persist key valList)
  | get => exact h.performOrDefer_account hlegal
  | fetchAdd => exact h.performOrDefer_account hlegal
  | pop => exact h.performOrDefer_account hlegal
  | clear => exact h.performOrDefer_account hlegal
  | contains =>
    unfold Manager.handle Manager.contains
    simp only
    split <;> exact Manager.account_answer _ rfl
  | length =>
    unfold Manager.handle Manager.getLength
    simp only
    split <;> exact Manager.account_answer _ rfl
  | keys clientId c =>
    obtain ⟨hold, hfault⟩ := hlegal
    have hread := h.updateWriter clientId c
    have hsame := sameKeys_updateWriterCheckpoint m.workingSet clientId c
    obtain ⟨keys, hrun⟩ := hread.ws.window.keys_ok (hsame.oldest_eq.trans_le hold)
    unfold Manager.handle Manager.keys keysOpPerform
    simp only [hrun, show faults.own.raises = none from hfault]
    exact Manager.account_answer _ rfl
  | values clientId c =>
    have hold : m.workingSet.oldestChkptId ≤ c := hlegal
    have hsame := sameKeys_updateWriterCheckpoint m.workingSet clientId c
    have hitems := items_ne_checkpointSync (hsame.oldest_eq.trans_le hold)
    unfold Manager.handle Manager.values
    simp only
    split
    · rename_i _ hrun
      exact absurd hrun hitems
    · exact Manager.account_answer _ rfl
    · exact Manager.account_answer _ rfl
    · exact Manager.account_answer _ rfl
  | items clientId c =>
    obtain ⟨hold, hfault, hhit⟩ := hlegal
    have hread := h.updateWriter clientId c
    have hsame := sameKeys_updateWriterCheckpoint m.workingSet clientId c
    have hhit' := mt (hsame.tombstoneHit_iff h.ws.window hread.ws.window).mp hhit
    obtain ⟨items, hrun⟩ := hread.ws.items_ok (hsame.oldest_eq.trans_le hold) hhit'
    unfold Manager.handle Manager.items
    simp only [hrun, show faults.own.raises = none from hfault]
    exact Manager.account_answer _ rfl

/-- **Step lemma.**  A request that is answered once adds its tag to the account. -/
theorem ManagerInv.step_account (h : ManagerInv size waitForKeys m.received m)
    (haccount : m.account = Multiset.range m.received) {request : Request × Faults}
    (hlegal : m.AnswerLegal pickler request) :
    (m.step pickler request).account = Multiset.range (m.step pickler request).received := by
  have hframe := m.sameFrame_handle pickler request.2 m.received request.1
  rcases m.step_eq pickler request with ⟨heq, clientId, c, persist, key, valList, hkind⟩ | ⟨heq, hkind⟩
  · rw [heq, hframe.received_eq, ← haccount]
    obtain ⟨request, faults⟩ := request
    cases hkind
    exact h.batchPut_account hlegal
  · have hhandle := h.handle_account hlegal hkind
    rw [heq]
    change (m.handle pickler request.2 m.received request.1).account
      = Multiset.range (m.received + 1)
    rw [hhandle, haccount, Multiset.range_succ, ← Multiset.singleton_add, add_comm]

/-- A put for an id for which nothing is deferred needs only itself to be quiet. -/
theorem Manager.putLegal_of_lookup_none {op : DictOp}
    (hnone : m.deferredOps.lookup op.chkptId = none)
    (hquiet : ∀ ws, op.Quiet pickler faults.own ws) : m.PutLegal pickler faults op := by
  have hempty : bucket m.deferredOps op.chkptId = [] := by
    unfold bucket
    rw [hnone]
    rfl
  intro _
  constructor
  · intro chkpt ws _
    rw [hempty]
    trivial
  · intro m1 hrun
    refine ⟨hquiet _, ?_⟩
    intro m2 hperform
    have htable : m2.deferredOps = m.deferredOps := by
      rw [show m2.deferredOps = m1.deferredOps from
        congrArg (fun run => run.2.deferredOps) hperform.symm]
      unfold Manager.advanceAndProcess Manager.processDeferredOps at hrun
      split at hrun
      · cases hrun
      · cases hrun
        rfl
      · simp only [hnone] at hrun
        cases hrun
        rfl
    rw [htable, hempty]
    trivial

end Requests

/-- **Exactly one answer.**  In every run of a manager whose requests are answered once
(`AnswerLegal`) and compare no memory of a key that has been freed, whatever the settings and the
size of the window: no request has two answers, no operation that was answered is deferred, and
every request has been answered or is deferred. -/
theorem manager_one_answer (pickler : XPickler) (start size : ℕ) (hsize : 0 < size)
    (waitForKeys waitForWriters : Bool) (requests : List (Request × Faults))
    (hlegal : Legal (Manager.step pickler) (Manager.AnswerLegal pickler)
      (Manager.init start size waitForKeys waitForWriters) requests)
    (m : Manager) (mem : KeyMemory)
    (hrun : Manager.memoryRun pickler (Manager.init start size waitForKeys waitForWriters)
      KeyMemory.init requests = some (m, mem)) : OneAnswer m := by
  rw [show m = _ from Manager.eq_of_memoryRun hrun]
  apply oneAnswer_of_account
  refine (Legal.invariant (I := fun m => ManagerInv size waitForKeys m.received m ∧
    m.account = Multiset.range m.received) ?_ hlegal
      ⟨managerInv_init start hsize waitForKeys waitForWriters, rfl⟩).2
  rintro m request ⟨h, haccount⟩ hrequest
  exact ⟨h.step pickler request, h.step_account haccount hrequest⟩

/-- A put, a get that waits for another key, a get that finds the key, and a pop. -/
theorem manager_one_answer_example :
    ∃ m mem, Manager.memoryRun XPickler.scalars (Manager.init 0 1 true false) KeyMemory.init
      [(.put 0 0 false [1] [[7]] false, Faults.none), (.get 1 0 [2], Faults.none),
        (.get 1 0 [1], Faults.none), (.pop 1 0 [1], Faults.none)] = some (m, mem) ∧
      OneAnswer m := by
  refine ⟨_, _, rfl, ?_⟩
  refine manager_one_answer XPickler.scalars 0 1 (by decide) true false
    [(.put 0 0 false [1] [[7]] false, Faults.none), (.get 1 0 [2], Faults.none),
      (.get 1 0 [1], Faults.none), (.pop 1 0 [1], Faults.none)] ?_ _ _ rfl
  refine ⟨?_, trivial, trivial, ?_, trivial⟩
  · exact Manager.putLegal_of_lookup_none rfl fun ws => ⟨nofun, rfl⟩
  · change WorkingSet.oldestChkptId _ ≤ 0
    decide

/-- A pop for a checkpoint that has been retired is never answered. -/
theorem manager_pop_retired_unanswered :
    ¬ OneAnswer (([(.put 0 1 false [1] [[7]] false, Faults.none),
      (.pop 1 0 [1], Faults.none)] : List (Request × Faults)).foldl
        (Manager.step XPickler.scalars) (Manager.init 0 1 false false)) := by
  intro h
  rcases h.not_lost 1 (by decide) with hanswered | hdeferred
  · rw [Manager.answered_iff] at hanswered
    revert hanswered
    decide
  · rw [Manager.deferred_iff] at hdeferred
    revert hdeferred
    decide
