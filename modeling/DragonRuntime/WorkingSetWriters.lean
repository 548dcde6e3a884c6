/-
# Waiting for the writers

With `wait_for_writers`, `advance` retires the oldest checkpoint when each of its writers
is a writer of the next checkpoint too.  A run carries for each checkpoint the clients that
have written to it and have not performed an operation at a later id since (`Pending`).

The sets of writers do not follow the clients everywhere: `update_writer_checkpoint` stops
one checkpoint before the id of the operation, a put or a pop records its client in its own
checkpoint only, `fetch_add` records nothing there, and `clear` drops the set.  A run whose
operations stay clear of these places (`Orderly`) retires a checkpoint iff no client is
pending.
-/
import DragonRuntime.WorkingSetPop

open WorkingSet

/-! ## The sets of writers -/

/-- The writers of the checkpoint with id `i`; nobody outside the window. -/
def writersAt (ws : WorkingSet) (i : ℕ) : Finset ℕ :=
  ((ws.chkpts.lookup i).map Checkpoint.writers).getD ∅

/-- What an operation of a client does to the sets of writers. -/
inductive Marks : Type where
  | none
  /-- `writers.add` in the checkpoint of the operation. -/
  | write (clientId chkptId : ℕ)
  /-- `update_writer_checkpoint`. -/
  | move (clientId chkptId : ℕ)
  /-- `writers.clear` in the checkpoint, and then `update_writer_checkpoint`. -/
  | clear (clientId chkptId : ℕ)

/-- `update_writer_checkpoint` on the sets of writers, over the checkpoints from `first` on
and before `last`. -/
def movedWriters (writers : ℕ → Finset ℕ) (first last clientId : ℕ) : ℕ → Finset ℕ :=
  if ∃ j < last, first ≤ j ∧ clientId ∈ writers j then
    fun i => if first ≤ i ∧ i < last then insert clientId (writers i) else writers i
  else writers

/-- The sets of writers after an operation. -/
def Marks.apply (ws : WorkingSet) (writers : ℕ → Finset ℕ) : Marks → ℕ → Finset ℕ
  | .none => writers
  | .write clientId chkptId => Function.update writers chkptId (insert clientId (writers chkptId))
  | .move clientId chkptId =>
    movedWriters writers ws.oldestChkptId (min chkptId ws.newestChkptId) clientId
  | .clear clientId chkptId =>
    movedWriters (Function.update writers chkptId ∅) ws.oldestChkptId
      (min chkptId ws.newestChkptId) clientId

section Writers

variable {size : ℕ} {waitForKeys : Bool} {ws ws' ws1 : WorkingSet} {chkpt : Checkpoint}
  {key : KeyBytes} {c : ℕ}

theorem writersAt_of_lookup (hlookup : ws.chkpts.lookup c = some chkpt) :
    writersAt ws c = chkpt.writers := by
  unfold writersAt
  rw [hlookup]
  rfl

theorem writersAt_setChkpt (ws : WorkingSet) (c : ℕ) (chkpt : Checkpoint) :
    writersAt (ws.setChkpt c chkpt) = Function.update (writersAt ws) c chkpt.writers := by
  funext i
  unfold writersAt WorkingSet.setChkpt
  by_cases hi : i = c
  · subst hi
    rw [AList.lookup_insert, Function.update_self]
    rfl
  · rw [AList.lookup_insert_ne hi, Function.update_of_ne hi]

theorem writersAt_setChkpt_same {chkpt' : Checkpoint} (hlookup : ws.chkpts.lookup c = some chkpt)
    (hsame : chkpt'.writers = chkpt.writers) : writersAt (ws.setChkpt c chkpt') = writersAt ws := by
  rw [writersAt_setChkpt, hsame, ← writersAt_of_lookup hlookup, Function.update_eq_self]

theorem writersAt_setChkpt_insert {chkpt' : Checkpoint} {clientId : ℕ}
    (hlookup : ws.chkpts.lookup c = some chkpt)
    (hinsert : chkpt'.writers = insert clientId chkpt.writers) :
    writersAt (ws.setChkpt c chkpt') = (Marks.write clientId c).apply ws (writersAt ws) := by
  rw [writersAt_setChkpt, hinsert, ← writersAt_of_lookup hlookup]
  rfl

theorem WindowInv.writersAt_outside (h : WindowInv size waitForKeys ws) {i : ℕ}
    (hi : i < ws.oldestChkptId ∨ ws.nextId ≤ i) : writersAt ws i = ∅ := by
  have holdest := h.oldest_eq
  have hout : ws.chkpts.lookup i = none := by
    rw [AList.lookup_eq_none, h.mem_iff]
    omega
  unfold writersAt
  rw [hout]
  rfl

/-- Adding a client to the writers of some checkpoints of the window. -/
theorem writersAt_foldl_insert (clientId : ℕ) {ids : List ℕ} (hids : ∀ i ∈ ids, i ∈ ws.chkpts)
    (i : ℕ) :
    writersAt (ids.foldl (fun ws i =>
      match ws.chkpts.lookup i with
      | some chkpt => ws.setChkpt i { chkpt with writers := insert clientId chkpt.writers }
      | none => ws) ws) i
      = if i ∈ ids then insert clientId (writersAt ws i) else writersAt ws i := by
  induction ids generalizing ws with
  | nil => rfl
  | cons j ids ih =>
    obtain ⟨chkpt, hlookup⟩ := Option.isSome_iff_exists.mp
      (AList.lookup_isSome.mpr (hids j List.mem_cons_self))
    rw [List.foldl_cons, hlookup]
    simp only
    rw [ih]
    · rw [writersAt_setChkpt]
      by_cases hij : i = j
      · subst hij
        rw [Function.update_self, ← writersAt_of_lookup hlookup, if_pos List.mem_cons_self,
          Finset.insert_idem, ite_self]
      · rw [Function.update_of_ne hij]
        simp only [List.mem_cons, hij, false_or]
    · intro k hk
      exact (AList.mem_insert _).mpr (Or.inr (hids k (List.mem_cons_of_mem _ hk)))

/-- **`update_writer_checkpoint`** on the sets of writers. -/
theorem WindowInv.writersAt_updateWriterCheckpoint (h : WindowInv size waitForKeys ws)
    (clientId chkptId : ℕ) :
    writersAt (ws.updateWriterCheckpoint clientId chkptId)
      = (Marks.move clientId chkptId).apply ws (writersAt ws) := by
  have hpos := h.size_pos
  have hle := h.size_le
  have holdest := h.oldest_eq
  have hnewest := h.newest_eq
  have hmem : ∀ i, i ∈ List.range' ws.oldestChkptId
      (min chkptId ws.newestChkptId - ws.oldestChkptId) ↔
        ws.oldestChkptId ≤ i ∧ i < min chkptId ws.newestChkptId := by
    intro i
    rw [List.mem_range'_1]
    omega
  have hids : ∀ i ∈ List.range' ws.oldestChkptId
      (min chkptId ws.newestChkptId - ws.oldestChkptId), i ∈ ws.chkpts := by
    intro i hi
    rw [hmem] at hi
    exact (h.mem_iff i).mpr ⟨by omega, by omega⟩
  have hwrote : ((List.range' ws.oldestChkptId
      (min chkptId ws.newestChkptId - ws.oldestChkptId)).any fun i =>
        match ws.chkpts.lookup i with
        | some chkpt => decide (clientId ∈ chkpt.writers)
        | none => false) = true ↔
      ∃ j < min chkptId ws.newestChkptId, ws.oldestChkptId ≤ j ∧ clientId ∈ writersAt ws j := by
    rw [List.any_eq_true]
    constructor
    · rintro ⟨j, hj, hin⟩
      have hrange := (hmem j).mp hj
      obtain ⟨chkpt, hlookup⟩ := Option.isSome_iff_exists.mp
        (AList.lookup_isSome.mpr (hids j hj))
      rw [hlookup] at hin
      exact ⟨j, hrange.2, hrange.1, by rw [writersAt_of_lookup hlookup]; simpa using hin⟩
    · rintro ⟨j, h2, h1, hin⟩
      have hj := (hmem j).mpr ⟨h1, h2⟩
      obtain ⟨chkpt, hlookup⟩ := Option.isSome_iff_exists.mp
        (AList.lookup_isSome.mpr (hids j hj))
      refine ⟨j, hj, ?_⟩
      rw [hlookup]
      rw [writersAt_of_lookup hlookup] at hin
      simpa using hin
  unfold WorkingSet.updateWriterCheckpoint Marks.apply movedWriters
  simp only
  split
  · rename_i hfound
    rw [if_pos (hwrote.mp hfound)]
    funext i
    refine (writersAt_foldl_insert clientId hids i).trans ?_
    simp only [hmem]
  · rename_i hfound
    rw [if_neg fun hex => hfound (hwrote.mpr hex)]

theorem writers_inherit (parent child : Checkpoint) :
    (Checkpoint.inherit waitForKeys parent child).writers = child.writers := by
  have hfold : ∀ (keys : List KeyBytes) (child : Checkpoint),
      (keys.foldl (Checkpoint.copyKey waitForKeys parent) child).writers = child.writers := by
    intro keys
    induction keys with
    | nil => exact fun child => rfl
    | cons key keys ih =>
      intro child
      rw [List.foldl_cons, ih]
      rcases Checkpoint.copyKey_cases waitForKeys parent child key with
        ⟨heq, -⟩ | ⟨valList, -, -, -, heq⟩
      · rw [heq]
      · rw [heq]
  exact hfold _ child

theorem Advanced.writersAt_eq {parent child : Checkpoint} (h : WindowInv size waitForKeys ws)
    (hadv : Advanced ws ws' parent child) {i : ℕ} (hi : ws.oldestChkptId < i) :
    writersAt ws' i = writersAt ws i := by
  have hinsert : ∀ j, writersAt ws j = (((ws.chkpts.insert ws.nextId
      (Checkpoint.init ws.nextId)).lookup j).map Checkpoint.writers).getD ∅ := by
    intro j
    by_cases hj : j = ws.nextId
    · rw [h.writersAt_outside (Or.inr (by omega)), hj, AList.lookup_insert]
      rfl
    · rw [AList.lookup_insert_ne hj]
      rfl
  by_cases hchild : i = ws.oldestChkptId + 1
  · subst hchild
    rw [writersAt_of_lookup hadv.lookup_child, writers_inherit, hinsert, hadv.child_eq]
    rfl
  · rw [hinsert]
    unfold writersAt
    rw [hadv.lookup_other i (by omega) hchild]

/-! ## What the calls do to the writers -/

theorem putOp_writers (hput : ws.put c = .ok (some chkpt, ws1)) (hsound : chkpt.Sound c)
    (hlookup : ws1.chkpts.lookup c = some chkpt) (clientId : ℕ) (persist : Bool) (key : KeyBytes)
    (valList : ValList) (waitFor : Bool) :
    writersAt (putOpPerform ws clientId c persist key valList waitFor).2
      = (if waitFor then Marks.none else Marks.write clientId c).apply ws1 (writersAt ws1) := by
  obtain ⟨chkpt', hrun⟩ := hsound.exists_containsKeyAndFree key
  obtain ⟨-, -, -, hwriters⟩ := containsKeyAndFree_frame hrun
  unfold putOpPerform
  rw [hput]
  simp only [hrun]
  cases waitFor with
  | true => exact writersAt_setChkpt_same hlookup hwriters
  | false =>
    simp only [Bool.false_eq_true, if_false]
    refine writersAt_setChkpt_insert hlookup ?_
    rw [← hwriters]
    rfl

theorem batchPutOp_writers (hput : ws.put c = .ok (some chkpt, ws1)) (hsound : chkpt.Sound c)
    (hlookup : ws1.chkpts.lookup c = some chkpt) (clientId : ℕ) (persist : Bool) (key : KeyBytes)
    (valList : ValList) :
    writersAt (batchPutOpPerform ws clientId c persist key valList).2
      = (Marks.write clientId c).apply ws1 (writersAt ws1) := by
  obtain ⟨chkpt', hrun⟩ := hsound.exists_containsKeyAndFree key
  obtain ⟨-, -, -, hwriters⟩ := containsKeyAndFree_frame hrun
  unfold batchPutOpPerform
  rw [hput]
  simp only [hrun]
  refine writersAt_setChkpt_insert hlookup ?_
  rw [← hwriters]
  rfl

theorem WindowInv.clearOp_writers (h1 : WindowInv size waitForKeys ws1)
    (haccess : ws.access c = .ok (some chkpt, ws1)) (hlookup : ws1.chkpts.lookup c = some chkpt)
    (clientId : ℕ) :
    writersAt (clearOpPerform ws clientId c).2
      = (Marks.clear clientId c).apply ws1 (writersAt ws1) := by
  unfold clearOpPerform
  rw [haccess]
  simp only
  have hinv : WindowInv size waitForKeys (ws1.setChkpt c chkpt.clear) :=
    h1.setChkpt (AList.lookup_isSome.mp (by rw [hlookup]; rfl)) (h1.sound c chkpt hlookup).clear
  rw [hinv.writersAt_updateWriterCheckpoint, writersAt_setChkpt]
  unfold Marks.apply
  have hold : (ws1.setChkpt c chkpt.clear).oldestChkptId = ws1.oldestChkptId := rfl
  rw [hinv.newest_eq, h1.newest_eq, hold]
  rfl

theorem writersAt_setValue (ws : WorkingSet) (c : ℕ) (key : KeyBytes) (valList : ValList) :
    writersAt (ws.setValue c key valList) = writersAt ws := by
  unfold WorkingSet.setValue
  cases hlookup : ws.chkpts.lookup c with
  | none => rfl
  | some chkpt => exact writersAt_setChkpt_same hlookup rfl

/-- A `fetch_add` is answered. -/
def FetchAddResult.isAnswer : FetchAddResult → Bool
  | .answered _ => true
  | .answeredThenFailed _ => true
  | _ => false

theorem WindowInv.fetchAdd_writers (h1 : WindowInv size waitForKeys ws1) (pickler : XPickler)
    (hput : ws.put c = .ok (some chkpt, ws1)) (hlookup : ws1.chkpts.lookup c = some chkpt)
    (clientId : ℕ) (key : KeyBytes) (fetchAddVal : ℤ) :
    (fetchAddPerform pickler ws clientId c key fetchAddVal).1.isAnswer = true ∧
      writersAt (fetchAddPerform pickler ws clientId c key fetchAddVal).2
        = (Marks.move clientId c).apply ws1 (writersAt ws1) ∨
    (fetchAddPerform pickler ws clientId c key fetchAddVal).1.isAnswer = false ∧
      writersAt (fetchAddPerform pickler ws clientId c key fetchAddVal).2 = writersAt ws1 := by
  have hsound := h1.sound c chkpt hlookup
  have hinv : WindowInv size waitForKeys (ws1.setChkpt c (chkpt.fetchAddStart pickler key)) :=
    h1.setChkpt (AList.lookup_isSome.mp (by rw [hlookup]; rfl)) (hsound.fetchAddStart pickler key)
  have hwriters : (chkpt.fetchAddStart pickler key).writers = chkpt.writers := by
    unfold Checkpoint.fetchAddStart
    split
    · rfl
    · rfl
  have hmove : writersAt ((ws1.setChkpt c (chkpt.fetchAddStart pickler key)).updateWriterCheckpoint
      clientId c) = (Marks.move clientId c).apply ws1 (writersAt ws1) := by
    rw [hinv.writersAt_updateWriterCheckpoint, writersAt_setChkpt_same hlookup hwriters]
    unfold Marks.apply
    have hold : (ws1.setChkpt c (chkpt.fetchAddStart pickler key)).oldestChkptId
        = ws1.oldestChkptId := rfl
    rw [hinv.newest_eq, h1.newest_eq, hold]
    rfl
  unfold fetchAddPerform
  rw [hput]
  simp only [hsound.containsKey_eq]
  split
  · exact Or.inr ⟨rfl, rfl⟩
  · split
    · exact Or.inl ⟨rfl, hmove⟩
    · split
      · exact Or.inl ⟨rfl, (writersAt_setValue _ _ _ _).trans hmove⟩
      · exact Or.inl ⟨rfl, (writersAt_setValue _ _ _ _).trans hmove⟩

theorem WindowInv.popOp_writers (h : WindowInv size waitForKeys ws) (deferredOps : Finset ℕ)
    (clientId c : ℕ) (key : KeyBytes) :
    writersAt (popOpPerform ws deferredOps clientId c key).2
      = (if popSucceeds ws deferredOps c key then Marks.write clientId c
          else Marks.none).apply ws (writersAt ws) := by
  rcases h.popOp_cases deferredOps clientId c key with
    ⟨hfails, hperform⟩ | ⟨hsucceeds, chkpt, chkpt', hlookup, hperform, hwriters, -⟩
  · rw [hfails, hperform]
    rfl
  · rw [hsucceeds, hperform]
    exact writersAt_setChkpt_insert hlookup hwriters

end Writers

/-! ## Clients that are pending -/

/-- An operation that a client has performed: at which checkpoint, and whether it wrote. -/
structure Performed where
  clientId : ℕ
  chkptId : ℕ
  writes : Bool

/-- The operation that a call performs, if it does; a `wait_for` is none. -/
def DictCall.performed (pickler : XPickler) (ws : WorkingSet) : DictCall → Option Performed
  | .put clientId chkptId _ _ _ waitFor =>
    match ws.put chkptId with
    | .ok (some _, _) => if waitFor then none else some ⟨clientId, chkptId, true⟩
    | _ => none
  | .batchPut clientId chkptId _ _ _ =>
    match ws.put chkptId with
    | .ok (some _, _) => some ⟨clientId, chkptId, true⟩
    | _ => none
  | .get deferredOps clientId chkptId key =>
    match getOpPerform ws deferredOps chkptId key with
    | .ok (some _) => some ⟨clientId, chkptId, false⟩
    | _ => none
  | .fetchAdd clientId chkptId key fetchAddVal =>
    if (fetchAddPerform pickler ws clientId chkptId key fetchAddVal).1.isAnswer then
      some ⟨clientId, chkptId, true⟩
    else none
  | .pop deferredOps clientId chkptId key =>
    match (popOpPerform ws deferredOps clientId chkptId key).1 with
    | .ok true => some ⟨clientId, chkptId, popSucceeds ws deferredOps chkptId key⟩
    | _ => none
  | .read clientId chkptId =>
    if ws.oldestChkptId ≤ chkptId then some ⟨clientId, chkptId, false⟩ else none
  | .clear clientId chkptId =>
    match ws.access chkptId with
    | .ok (some _, _) => some ⟨clientId, chkptId, false⟩
    | _ => none
  | .access _ => none
  | .advance => none

/-- For each checkpoint, the clients that have written to it and have not performed an
operation at a later id since. -/
abbrev Pending : Type := ℕ → Finset ℕ

def Pending.after (pending : Pending) : Option Performed → Pending
  | none => pending
  | some op => fun i =>
    if i < op.chkptId then (pending i).erase op.clientId
    else if i = op.chkptId ∧ op.writes then insert op.clientId (pending i)
    else pending i

/-- A call, with the clients that are pending. -/
def pendingStep (pickler : XPickler) (s : WorkingSet × Pending) (call : DictCall) :
    WorkingSet × Pending :=
  (dictStep pickler s.1 call, s.2.after (call.performed pickler s.1))

/-- The sets of writers, from the checkpoint `first` on, tell who is pending. -/
def Tracks (first : ℕ) (writers : ℕ → Finset ℕ) (pending : Pending) : Prop :=
  ∀ client i, first ≤ i →
    (client ∈ writers i ∧ client ∉ writers (i + 1) ↔ client ∈ pending i)

section Tracks

variable {first c client : ℕ} {writers : ℕ → Finset ℕ} {pending : Pending}

/-- The operation does not touch the other clients. -/
theorem Pending.mem_after_of_ne {other : ℕ} (hne : other ≠ client) (writes : Bool) (i : ℕ) :
    other ∈ pending.after (some ⟨client, c, writes⟩) i ↔ other ∈ pending i := by
  unfold Pending.after
  simp only
  split
  · rw [Finset.mem_erase]
    exact and_iff_right hne
  · split
    · rw [Finset.mem_insert]
      exact or_iff_right hne
    · exact Iff.rfl

theorem Pending.mem_after_self (writes : Bool) (i : ℕ) :
    client ∈ pending.after (some ⟨client, c, writes⟩) i ↔
      c ≤ i ∧ (client ∈ pending i ∨ i = c ∧ writes = true) := by
  unfold Pending.after
  simp only
  split
  · rename_i hlt
    rw [Finset.mem_erase]
    refine iff_of_false (fun hin => hin.1 rfl) ?_
    omega
  · rename_i hlt
    split
    · rename_i hwrites
      rw [Finset.mem_insert]
      exact iff_of_true (Or.inl rfl) ⟨not_lt.mp hlt, Or.inr hwrites⟩
    · rename_i hwrites
      constructor
      · exact fun hin => ⟨not_lt.mp hlt, Or.inl hin⟩
      · exact fun hin => hin.2.resolve_right hwrites

/-- An operation that leaves the other clients alone. -/
theorem Tracks.of_client {writers' : ℕ → Finset ℕ} {writes : Bool} (h : Tracks first writers pending)
    (hother : ∀ other i, other ≠ client → (other ∈ writers' i ↔ other ∈ writers i))
    (hclient : ∀ i, first ≤ i → (client ∈ writers' i ∧ client ∉ writers' (i + 1) ↔
      c ≤ i ∧ (client ∈ pending i ∨ i = c ∧ writes = true))) :
    Tracks first writers' (pending.after (some ⟨client, c, writes⟩)) := by
  intro other i hi
  by_cases hne : other = client
  · subst hne
    rw [Pending.mem_after_self]
    exact hclient i hi
  · rw [Pending.mem_after_of_ne hne, hother other i hne, hother other (i + 1) hne]
    exact h other i hi

/-- A client that writes to `c`, after the checkpoint before or from the start. -/
theorem Tracks.write (h : Tracks first writers pending)
    (hbefore : ∀ i, first ≤ i → i + 1 < c → client ∈ writers i → client ∈ writers (i + 1))
    (hafter : client ∉ writers (c + 1)) :
    Tracks first (Function.update writers c (insert client (writers c)))
      (pending.after (some ⟨client, c, true⟩)) := by
  refine h.of_client ?_ ?_
  · intro other i hne
    by_cases hi : i = c
    · subst hi
      rw [Function.update_self, Finset.mem_insert]
      exact or_iff_right hne
    · rw [Function.update_of_ne hi]
  · intro i hi
    rcases lt_trichotomy i c with hlt | rfl | hgt
    · refine iff_of_false ?_ (by omega)
      rintro ⟨hin, hout⟩
      rw [Function.update_of_ne hlt.ne] at hin
      by_cases hnext : i + 1 = c
      · rw [hnext, Function.update_self] at hout
        exact hout (Finset.mem_insert_self _ _)
      · rw [Function.update_of_ne hnext] at hout
        exact hout (hbefore i hi (by omega) hin)
    · refine iff_of_true ⟨?_, ?_⟩ ⟨le_rfl, Or.inr ⟨rfl, rfl⟩⟩
      · rw [Function.update_self]
        exact Finset.mem_insert_self _ _
      · rw [Function.update_of_ne (Nat.succ_ne_self i)]
        exact hafter
    · rw [Function.update_of_ne hgt.ne', Function.update_of_ne (by omega), h client i hi]
      constructor
      · exact fun hin => ⟨hgt.le, Or.inl hin⟩
      · rintro ⟨-, hin | ⟨heq, -⟩⟩
        · exact hin
        · omega

/-- A client that looks at `c` and is recorded nowhere. -/
theorem Tracks.look (h : Tracks first writers pending)
    (hdone : ∀ i, first ≤ i → i < c → client ∈ writers i → client ∈ writers (i + 1)) :
    Tracks first writers (pending.after (some ⟨client, c, false⟩)) := by
  refine h.of_client (fun _ _ _ => Iff.rfl) ?_
  intro i hi
  by_cases hlt : i < c
  · refine iff_of_false ?_ (by omega)
    rintro ⟨hin, hout⟩
    exact hout (hdone i hi hlt hin)
  · rw [h client i hi]
    constructor
    · exact fun hin => ⟨not_lt.mp hlt, Or.inl hin⟩
    · rintro ⟨-, hin | ⟨-, hfalse⟩⟩
      · exact hin
      · cases hfalse

theorem mem_movedWriters {last : ℕ} (i other : ℕ) :
    other ∈ movedWriters writers first last client i ↔
      other ∈ writers i ∨ other = client ∧ first ≤ i ∧ i < last ∧
        ∃ j < last, first ≤ j ∧ client ∈ writers j := by
  unfold movedWriters
  split
  · rename_i hex
    simp only
    split
    · rename_i hi
      rw [Finset.mem_insert, or_comm]
      simp only [hi, hex, and_true]
    · rename_i hi
      constructor
      · exact Or.inl
      · rintro (hin | ⟨-, h1, h2, -⟩)
        · exact hin
        · exact absurd ⟨h1, h2⟩ hi
  · rename_i hex
    constructor
    · exact Or.inl
    · rintro (hin | ⟨-, -, -, hex'⟩)
      · exact hin
      · exact absurd hex' hex

/-- A client that moves on to `c`, where it is a writer, or that was no writer before. -/
theorem Tracks.move {last : ℕ} (h : Tracks first writers pending) (hle : last ≤ c)
    (hlast : client ∈ writers c → last = c)
    (hread : (∀ j, first ≤ j → j < c → client ∉ writers j) ∨ client ∈ writers c) :
    Tracks first (movedWriters writers first last client)
      (pending.after (some ⟨client, c, false⟩)) := by
  refine h.of_client ?_ ?_
  · intro other i hne
    rw [mem_movedWriters]
    refine or_iff_left ?_
    rintro ⟨heq, -⟩
    exact hne heq
  · intro i hi
    by_cases hlt : i < c
    · refine iff_of_false ?_ (by omega)
      rintro ⟨hin, hout⟩
      rw [mem_movedWriters] at hin hout
      rw [not_or] at hout
      rcases hread with hnone | hthere
      · rcases hin with hin | ⟨-, -, -, j, hj, hfirst, hin⟩
        · exact hnone i hi hlt hin
        · exact hnone j hfirst (by omega) hin
      · have hend := hlast hthere
        subst hend
        by_cases hnext : i + 1 = last
        · rw [hnext] at hout
          exact hout.1 hthere
        · refine hout.2 ⟨rfl, by omega, by omega, ?_⟩
          rcases hin with hin | ⟨-, -, -, hex⟩
          · exact ⟨i, hlt, hi, hin⟩
          · exact hex
    · have hkept : ∀ k, c ≤ k →
          (client ∈ movedWriters writers first last client k ↔ client ∈ writers k) := by
        intro k hk
        rw [mem_movedWriters]
        refine or_iff_left ?_
        rintro ⟨-, -, hklast, -⟩
        omega
      rw [hkept i (not_lt.mp hlt), hkept (i + 1) (by omega), h client i hi]
      constructor
      · exact fun hin => ⟨not_lt.mp hlt, Or.inl hin⟩
      · rintro ⟨-, hin | ⟨-, hfalse⟩⟩
        · exact hin
        · cases hfalse

/-- A write of a client that is pending already. -/
theorem Tracks.after_write_eq (h : Tracks first writers pending) (hc : first ≤ c)
    (hthere : client ∈ writers c) (hafter : client ∉ writers (c + 1)) :
    pending.after (some ⟨client, c, true⟩) = pending.after (some ⟨client, c, false⟩) := by
  have hpending := (h client c hc).mp ⟨hthere, hafter⟩
  funext i
  unfold Pending.after
  simp only
  split
  · rfl
  · split
    · rename_i hwrites
      rw [hwrites.1, Finset.insert_eq_of_mem hpending, if_neg nofun]
    · rw [if_neg nofun]

/-- A clear of a checkpoint whose writers are not needed. -/
theorem Tracks.clear {last : ℕ} (h : Tracks first writers pending) (hle : last ≤ c)
    (hdone : ∀ other ∈ writers c, other ∈ writers (c + 1))
    (hbefore : ∀ i other, first ≤ i → i + 1 = c → other ∈ writers i → other ∉ writers c)
    (hread : ∀ j, first ≤ j → j < c → client ∉ writers j) :
    Tracks first (movedWriters (Function.update writers c ∅) first last client)
      (pending.after (some ⟨client, c, false⟩)) := by
  have hcleared : Tracks first (Function.update writers c ∅) pending := by
    intro other i hi
    rw [← h other i hi]
    by_cases hic : i = c
    · subst hic
      rw [Function.update_self]
      refine iff_of_false (fun hin => Finset.notMem_empty other hin.1) ?_
      rintro ⟨hin, hout⟩
      exact hout (hdone other hin)
    · rw [Function.update_of_ne hic]
      by_cases hnext : i + 1 = c
      · rw [hnext, Function.update_self]
        constructor
        · exact fun hin => ⟨hin.1, hbefore i other hi hnext hin.1⟩
        · exact fun hin => ⟨hin.1, Finset.notMem_empty other⟩
      · rw [Function.update_of_ne hnext]
  refine hcleared.move hle ?_ (Or.inl ?_)
  · rw [Function.update_self]
    exact fun hin => absurd hin (Finset.notMem_empty client)
  · intro j hfirst hj
    rw [Function.update_of_ne hj.ne]
    exact hread j hfirst hj

end Tracks

/-! ## Orderly calls -/

/-- A write at `c`: the client is not left behind at a checkpoint before the one before `c`,
and is not a writer of the checkpoint after `c`. -/
def OrderlyWrite (ws : WorkingSet) (clientId c : ℕ) : Prop :=
  (∀ i, ws.oldestChkptId ≤ i → i + 1 < c → clientId ∈ writersAt ws i →
    clientId ∈ writersAt ws (i + 1)) ∧ clientId ∉ writersAt ws (c + 1)

/-- An operation at `c` that does not write: the client is a writer of `c`, or of no
checkpoint before it. -/
def OrderlyRead (ws : WorkingSet) (clientId c : ℕ) : Prop :=
  (∀ i, ws.oldestChkptId ≤ i → i < c → clientId ∉ writersAt ws i) ∨ clientId ∈ writersAt ws c

/-- The sets of writers follow the operation of the call, if it is performed. -/
def Orderly (pickler : XPickler) (ws : WorkingSet) : DictCall → Prop
  | .put clientId chkptId _ _ _ waitFor => waitFor = false → ∀ chkpt ws1,
      ws.put chkptId = .ok (some chkpt, ws1) → OrderlyWrite ws1 clientId chkptId
  | .batchPut clientId chkptId _ _ _ => ∀ chkpt ws1,
      ws.put chkptId = .ok (some chkpt, ws1) → OrderlyWrite ws1 clientId chkptId
  | .get deferredOps clientId chkptId key => ∀ answer,
      getOpPerform ws deferredOps chkptId key = .ok (some answer) → OrderlyRead ws clientId chkptId
  | .fetchAdd clientId chkptId key fetchAddVal => ∀ chkpt ws1,
      ws.put chkptId = .ok (some chkpt, ws1) →
      (fetchAddPerform pickler ws clientId chkptId key fetchAddVal).1.isAnswer = true →
      clientId ∈ writersAt ws1 chkptId ∧ clientId ∉ writersAt ws1 (chkptId + 1)
  | .pop deferredOps clientId chkptId key =>
    (popSucceeds ws deferredOps chkptId key = true → OrderlyWrite ws clientId chkptId) ∧
    (popSucceeds ws deferredOps chkptId key = false →
      (popOpPerform ws deferredOps clientId chkptId key).1 = .ok true →
      ∀ i, ws.oldestChkptId ≤ i → i < chkptId → clientId ∈ writersAt ws i →
        clientId ∈ writersAt ws (i + 1))
  | .read clientId chkptId => OrderlyRead ws clientId chkptId
  | .clear clientId chkptId => ∀ chkpt ws1, ws.put chkptId = .ok (some chkpt, ws1) →
      (∀ other ∈ writersAt ws1 chkptId, other ∈ writersAt ws1 (chkptId + 1)) ∧
      (∀ i other, ws1.oldestChkptId ≤ i → i + 1 = chkptId → other ∈ writersAt ws1 i →
        other ∉ writersAt ws1 chkptId) ∧
      ∀ i, ws1.oldestChkptId ≤ i → i < chkptId → clientId ∉ writersAt ws1 i
  | .access _ => True
  | .advance => True

/-- The sets of writers of the working set tell who is pending. -/
def TracksPending (ws : WorkingSet) (pending : Pending) : Prop :=
  Tracks ws.oldestChkptId (writersAt ws) pending

section Runs

variable {size : ℕ} {waitForKeys : Bool} {ws ws' ws1 : WorkingSet} {pending : Pending}

theorem TracksPending.advances (h : WindowInv size waitForKeys ws) (hadv : Advances ws ws')
    (ht : TracksPending ws pending) : TracksPending ws' pending := by
  refine (hadv.invariant (I := fun ws => TracksPending ws pending) h ht ?_).2
  intro ws ws1 parent child h hadv ht client i hi
  have h1 := h.advanced hadv
  have holdest := h.oldest_eq
  have holdest1 := h1.oldest_eq
  have hnext := hadv.nextId_eq
  have hle := h.size_le
  rw [hadv.writersAt_eq h (by omega), hadv.writersAt_eq h (by omega)]
  exact ht client i (by omega)

/-- A call that leaves the window and the writers as they are after its advances. -/
theorem TracksPending.congr (hnext : ws'.nextId = ws.nextId)
    (hsize : ws'.workingSetSize = ws.workingSetSize) (hwriters : writersAt ws' = writersAt ws)
    (ht : TracksPending ws pending) : TracksPending ws' pending := by
  unfold TracksPending WorkingSet.oldestChkptId at *
  rw [hnext, hsize, hwriters]
  exact ht

/-- `update_writer_checkpoint` of a client that reads at `c`. -/
theorem TracksPending.read (ht : TracksPending ws pending) (h : WindowInv size waitForKeys ws)
    {clientId c : ℕ} (horderly : OrderlyRead ws clientId c) :
    TracksPending (ws.updateWriterCheckpoint clientId c)
      (pending.after (some ⟨clientId, c, false⟩)) := by
  have hsame := sameKeys_updateWriterCheckpoint ws clientId c
  unfold TracksPending
  rw [hsame.oldest_eq, h.writersAt_updateWriterCheckpoint]
  refine Tracks.move ht (min_le_left _ _) ?_ horderly
  intro hin
  have hpos := h.size_pos
  have hnewest := h.newest_eq
  refine min_eq_left ?_
  by_contra hnew
  rw [h.writersAt_outside (Or.inr (by omega))] at hin
  exact Finset.notMem_empty _ hin

/-- **Step lemma.**  An orderly call keeps the writers in step with the pending clients. -/
theorem TracksPending.step (ht : TracksPending ws pending) (h : WindowInv size waitForKeys ws)
    (pickler : XPickler) {call : DictCall} (horderly : Orderly pickler ws call) :
    TracksPending (dictStep pickler ws call) (pending.after (call.performed pickler ws)) := by
  cases call with
  | put clientId c persist key valList waitFor =>
    obtain ⟨ws1, hadv, -, hput⟩ := h.put_found c
    have ht1 := ht.advances h hadv
    unfold dictStep DictCall.performed
    rcases hput with ⟨hrun, rfl, -⟩ | hrun
    · unfold putOpPerform
      simp only [hrun]
      exact ht1
    · cases hlookup : ws1.chkpts.lookup c with
      | none =>
        rw [hlookup] at hrun
        unfold putOpPerform
        simp only [hrun]
        exact ht1
      | some chkpt =>
        rw [hlookup] at hrun
        have hsound := (h.advances hadv).sound c chkpt hlookup
        have hwriters := putOp_writers hrun hsound hlookup clientId persist key valList waitFor
        cases waitFor with
        | true =>
          have hsame := putOp_waitFor hrun hsound hlookup clientId persist key valList
          simp only [hrun]
          exact TracksPending.congr hsame.nextId_eq hsame.size_eq hwriters ht1
        | false =>
          obtain ⟨ws2, hperform, hchanges⟩ :=
            putOp_stores hrun hsound clientId persist key valList
          rw [hperform] at hwriters
          simp only [hrun, hperform]
          unfold TracksPending
          rw [hchanges.oldest_eq, hwriters]
          obtain ⟨hbefore, hafter⟩ := horderly rfl chkpt ws1 hrun
          exact Tracks.write ht1 hbefore hafter
  | batchPut clientId c persist key valList =>
    obtain ⟨ws1, hadv, -, hput⟩ := h.put_found c
    have ht1 := ht.advances h hadv
    unfold dictStep DictCall.performed
    rcases hput with ⟨hrun, rfl, -⟩ | hrun
    · unfold batchPutOpPerform
      simp only [hrun]
      exact ht1
    · cases hlookup : ws1.chkpts.lookup c with
      | none =>
        rw [hlookup] at hrun
        unfold batchPutOpPerform
        simp only [hrun]
        exact ht1
      | some chkpt =>
        rw [hlookup] at hrun
        have hsound := (h.advances hadv).sound c chkpt hlookup
        have hwriters := batchPutOp_writers hrun hsound hlookup clientId persist key valList
        obtain ⟨ws2, hperform, hchanges⟩ :=
          batchPutOp_stores hrun hsound clientId persist key valList
        rw [hperform] at hwriters
        simp only [hrun, hperform]
        unfold TracksPending
        rw [hchanges.oldest_eq, hwriters]
        obtain ⟨hbefore, hafter⟩ := horderly chkpt ws1 hrun
        exact Tracks.write ht1 hbefore hafter
  | get deferredOps _ c key =>
    unfold dictStep DictCall.performed
    rcases hget : getOpPerform ws deferredOps c key with e | (_ | answer)
    · simp only [hget]
      exact ht
    · simp only [hget]
      exact ht
    · simp only [hget]
      exact ht.read h (horderly answer hget)
  | fetchAdd clientId c key fetchAddVal =>
    obtain ⟨ws1, hadv, -, hput⟩ := h.put_found c
    have ht1 := ht.advances h hadv
    have h1 := h.advances hadv
    unfold dictStep DictCall.performed
    rcases hput with ⟨hrun, rfl, -⟩ | hrun
    · unfold fetchAddPerform
      simp only [hrun]
      exact ht1
    · cases hlookup : ws1.chkpts.lookup c with
      | none =>
        rw [hlookup] at hrun
        unfold fetchAddPerform
        simp only [hrun]
        exact ht1
      | some chkpt =>
        rw [hlookup] at hrun
        have hsound := h1.sound c chkpt hlookup
        have hold : (fetchAddPerform pickler ws clientId c key fetchAddVal).2.nextId
            = ws1.nextId ∧ (fetchAddPerform pickler ws clientId c key
              fetchAddVal).2.workingSetSize = ws1.workingSetSize := by
          rcases fetchAdd_stores pickler hrun hsound clientId key fetchAddVal with
            ⟨hperform, -⟩ | ⟨result, ws2, stored, hperform, hchanges⟩
          · rw [hperform]
            exact ⟨rfl, rfl⟩
          · rw [hperform]
            exact ⟨hchanges.nextId_eq, hchanges.size_eq⟩
        have holdest : (fetchAddPerform pickler ws clientId c key fetchAddVal).2.oldestChkptId
            = ws1.oldestChkptId := by
          unfold WorkingSet.oldestChkptId
          rw [hold.1, hold.2]
        rcases h1.fetchAdd_writers pickler hrun hlookup clientId key fetchAddVal with
          ⟨hanswer, hwriters⟩ | ⟨hanswer, hwriters⟩
        · obtain ⟨hthere, hafter⟩ := horderly chkpt ws1 hrun hanswer
          have hmem := (h1.mem_iff c).mp (AList.lookup_isSome.mp (by rw [hlookup]; rfl))
          have hc : ws1.oldestChkptId ≤ c := by
            rw [h1.oldest_eq]
            exact hmem.1
          simp only [hanswer, if_true]
          unfold TracksPending
          rw [holdest, hwriters, Tracks.after_write_eq ht1 hc hthere hafter]
          have hpos := h1.size_pos
          refine Tracks.move ht1 (min_le_left _ _) (fun _ => min_eq_left ?_) (Or.inr hthere)
          rw [h1.newest_eq]
          omega
        · simp only [hanswer, Bool.false_eq_true, if_false]
          exact TracksPending.congr hold.1 hold.2 hwriters ht1
  | pop deferredOps clientId c key =>
    have hwriters := h.popOp_writers deferredOps clientId c key
    obtain ⟨hwrite, hlook⟩ := horderly
    unfold dictStep DictCall.performed
    simp only
    rcases h.popOp_cases deferredOps clientId c key with
      ⟨hfails, hperform⟩ | ⟨hsucceeds, chkpt, chkpt', hlookup, hperform, -, -⟩
    · rw [hperform, hfails]
      rcases hanswer : (popOpPerform ws deferredOps clientId c key).1 with e | (_ | _)
      · exact ht
      · exact ht
      · exact Tracks.look ht (hlook hfails hanswer)
    · rw [hsucceeds, hperform] at hwriters
      rw [hsucceeds, hperform]
      unfold TracksPending
      have holdest : (ws.setChkpt c chkpt').oldestChkptId = ws.oldestChkptId := rfl
      rw [holdest, hwriters]
      exact Tracks.write ht (hwrite hsucceeds).1 (hwrite hsucceeds).2
  | read clientId c =>
    unfold dictStep DictCall.performed
    simp only
    split
    · exact ht.read h horderly
    · rename_i hold
      have hsame := sameKeys_updateWriterCheckpoint ws clientId c
      refine TracksPending.congr hsame.nextId_eq hsame.size_eq ?_ ht
      rw [h.writersAt_updateWriterCheckpoint]
      unfold Marks.apply movedWriters
      refine if_neg ?_
      rintro ⟨j, hj, hfirst, -⟩
      omega
  | clear clientId c =>
    obtain ⟨ws1, hadv, -, hput⟩ := h.put_found c
    have ht1 := ht.advances h hadv
    have h1 := h.advances hadv
    rw [← h.access_eq_put] at hput
    unfold dictStep DictCall.performed
    rcases hput with ⟨hrun, rfl, -⟩ | hrun
    · unfold clearOpPerform
      simp only [hrun]
      exact ht1
    · cases hlookup : ws1.chkpts.lookup c with
      | none =>
        rw [hlookup] at hrun
        unfold clearOpPerform
        simp only [hrun]
        exact ht1
      | some chkpt =>
        rw [hlookup] at hrun
        have hwriters := h1.clearOp_writers hrun hlookup clientId
        obtain ⟨ws2, hperform, hchanges⟩ := clearOp_empties hrun clientId
        rw [hperform] at hwriters
        have hrun' := hrun
        rw [h.access_eq_put] at hrun'
        obtain ⟨hdone, hbefore, hread⟩ := horderly chkpt ws1 hrun'
        simp only [hrun, hperform]
        unfold TracksPending
        rw [hchanges.oldest_eq, hwriters]
        exact Tracks.clear ht1 (min_le_left _ _) hdone hbefore hread
  | access c =>
    obtain ⟨ws1, hadv, -, hput⟩ := h.put_found c
    have ht1 := ht.advances h hadv
    rw [← h.access_eq_put] at hput
    unfold dictStep DictCall.performed
    rcases hput with ⟨hrun, rfl, -⟩ | hrun
    · simp only [hrun]
      exact ht1
    · simp only [hrun]
      exact ht1
  | advance =>
    unfold dictStep DictCall.performed
    rcases h.advance_cases with hrun | ⟨ws1, parent, child, hrun, -⟩
    · simp only [hrun]
      exact ht
    · simp only [hrun]
      exact ht.advances h (Advances.step hrun (Advances.refl ws1))

end Runs

/-! ## The settings of a working set -/

section Settings

variable {ws ws' : WorkingSet}

theorem advance_waitForWriters {advanced : Bool} (hrun : ws.advance = .ok (advanced, ws')) :
    ws'.waitForWriters = ws.waitForWriters := by
  unfold WorkingSet.advance at hrun
  simp only at hrun
  split at hrun
  · split at hrun
    · split at hrun
      · cases hrun
        rfl
      · cases hrun
        rfl
    · cases hrun
  · cases hrun
    rfl

theorem Advances.waitForWriters_eq (hadv : Advances ws ws') :
    ws'.waitForWriters = ws.waitForWriters := by
  induction hadv with
  | refl ws => rfl
  | step hrun hrest ih => exact ih.trans (advance_waitForWriters hrun)

theorem updateWriterCheckpoint_waitForWriters (ws : WorkingSet) (clientId chkptId : ℕ) :
    (ws.updateWriterCheckpoint clientId chkptId).waitForWriters = ws.waitForWriters := by
  have hfold : ∀ (ids : List ℕ) (ws : WorkingSet), (ids.foldl (fun ws i =>
        match ws.chkpts.lookup i with
        | some chkpt => ws.setChkpt i { chkpt with writers := insert clientId chkpt.writers }
        | none => ws) ws).waitForWriters = ws.waitForWriters := by
    intro ids
    induction ids with
    | nil => exact fun ws => rfl
    | cons i ids ih =>
      intro ws
      rw [List.foldl_cons, ih]
      split
      · rfl
      · rfl
  unfold WorkingSet.updateWriterCheckpoint
  simp only
  split
  · exact hfold _ ws
  · rfl

theorem setValue_waitForWriters (ws : WorkingSet) (chkptId : ℕ) (key : KeyBytes)
    (valList : ValList) :
    (ws.setValue chkptId key valList).waitForWriters = ws.waitForWriters := by
  unfold WorkingSet.setValue
  split
  · rfl
  · rfl

variable {size : ℕ} {waitForKeys : Bool}

theorem WindowInv.waitForWriters_dictStep (h : WindowInv size waitForKeys ws) (pickler : XPickler)
    (call : DictCall) : (dictStep pickler ws call).waitForWriters = ws.waitForWriters := by
  have hfound : ∀ {c found ws1}, ws.put c = .ok (found, ws1) →
      ws1.waitForWriters = ws.waitForWriters := by
    intro c found ws1 hrun
    rcases h.put_cases c with ⟨-, herr⟩ | ⟨-, ws2, hadv, hrun', -⟩
    · rw [herr] at hrun
      cases hrun
    · rw [hrun', Except.ok.injEq, Prod.mk.injEq] at hrun
      rw [← hrun.2]
      exact hadv.waitForWriters_eq
  cases call with
  | put clientId c persist key valList waitFor =>
    unfold dictStep putOpPerform
    simp only
    split
    · rfl
    · exact hfound ‹_›
    · rename_i chkpt ws1 hrun
      have hsame := hfound hrun
      split
      · exact hsame
      · split
        · exact hsame
        · exact hsame
  | batchPut clientId c persist key valList =>
    unfold dictStep batchPutOpPerform
    simp only
    split
    · rfl
    · exact hfound ‹_›
    · rename_i chkpt ws1 hrun
      have hsame := hfound hrun
      split
      · exact hsame
      · exact hsame
  | get _ clientId c =>
    unfold dictStep
    simp only
    split
    · exact updateWriterCheckpoint_waitForWriters ws clientId c
    · rfl
  | fetchAdd clientId c key fetchAddVal =>
    unfold dictStep fetchAddPerform
    simp only
    split
    · rfl
    · exact hfound ‹_›
    · rename_i found ws1 hrun
      have hstart : ∀ chkpt, ((ws1.setChkpt c chkpt).updateWriterCheckpoint clientId
          c).waitForWriters = ws.waitForWriters := by
        intro chkpt
        have hsame := hfound hrun
        rw [updateWriterCheckpoint_waitForWriters]
        exact hsame
      split
      · exact hfound hrun
      · split
        · exact hfound hrun
        · split
          · exact hstart _
          · split
            · exact (setValue_waitForWriters _ _ _ _).trans (hstart _)
            · exact (setValue_waitForWriters _ _ _ _).trans (hstart _)
  | pop deferredOps clientId c key =>
    unfold dictStep
    simp only
    rcases h.popOp_cases deferredOps clientId c key with
      ⟨-, hperform⟩ | ⟨-, chkpt, chkpt', -, hperform, -, -⟩
    · rw [hperform]
    · rw [hperform]
      rfl
  | read clientId c => exact updateWriterCheckpoint_waitForWriters ws clientId c
  | clear clientId c =>
    unfold dictStep clearOpPerform
    simp only [h.access_eq_put]
    split
    · rfl
    · exact hfound ‹_›
    · rename_i chkpt ws1 hrun
      have hsame := hfound hrun
      exact (updateWriterCheckpoint_waitForWriters _ clientId c).trans hsame
  | access =>
    unfold dictStep
    simp only [h.access_eq_put]
    split
    · rfl
    · exact hfound ‹_›
  | advance =>
    unfold dictStep
    simp only
    split
    · rfl
    · exact advance_waitForWriters ‹_›

end Settings

/-! ## When a checkpoint retires -/

/-- With `wait_for_keys`: a key of the oldest checkpoint that does not persist is missing in
the next one. -/
def MissingKeys (ws : WorkingSet) : Prop :=
  ∃ key, (viewAt ws key ws.oldestChkptId).value.isSome ∧
    (viewAt ws key ws.oldestChkptId).persist = false ∧
    ¬ ((viewAt ws key (ws.oldestChkptId + 1)).value.isSome ∧
      (viewAt ws key (ws.oldestChkptId + 1)).persist = false)

section Retire

variable {size : ℕ} {waitForKeys : Bool} {ws : WorkingSet} {pending : Pending}

/-- **`WorkingSet.advance`** refuses while the next checkpoint misses a key or a writer. -/
theorem WindowInv.refuses_iff (h : WindowInv size waitForKeys ws) :
    ws.advance = .ok (false, ws) ↔
      waitForKeys = true ∧ MissingKeys ws ∨
        ws.waitForWriters = true ∧
          ¬ writersAt ws ws.oldestChkptId ⊆ writersAt ws (ws.oldestChkptId + 1) := by
  have hpos := h.size_pos
  have hle := h.size_le
  have hold := h.oldest_eq
  obtain ⟨parent, hparent⟩ := h.lookup_of_mem (i := ws.oldestChkptId) (by omega) (by omega)
  have hparent' : (ws.chkpts.insert ws.nextId (Checkpoint.init ws.nextId)).lookup
      (ws.nextId - ws.workingSetSize) = some parent := by
    show (ws.chkpts.insert ws.nextId _).lookup ws.oldestChkptId = some parent
    rw [AList.lookup_insert_ne (by omega)]
    exact hparent
  obtain ⟨child, hchild⟩ := h.exists_heir
  have hchild' : (ws.chkpts.insert ws.nextId (Checkpoint.init ws.nextId)).lookup
      (ws.nextId - ws.workingSetSize + 1) = some child := hchild
  have hwriters' : writersAt ws (ws.oldestChkptId + 1) = child.writers := by
    by_cases hone : ws.oldestChkptId + 1 = ws.nextId
    · rw [h.writersAt_outside (Or.inr (by omega))]
      rw [hone, AList.lookup_insert] at hchild
      cases hchild
      rfl
    · rw [AList.lookup_insert_ne hone] at hchild
      exact writersAt_of_lookup hchild
  have hview : ∀ key, viewAt ws key (ws.oldestChkptId + 1) = child.keyView key := by
    intro key
    rw [h.viewAt_insert, hchild]
    rfl
  have hkeys : MissingKeys ws ↔ ((parent.mapKeys \ parent.persist) \
      ((child.mapKeys \ child.persist) \ parent.persist)).card ≠ 0 := by
    unfold MissingKeys
    rw [Finset.card_ne_zero]
    refine exists_congr ?_
    intro key
    rw [viewAt_of_lookup hparent, hview]
    unfold Checkpoint.keyView
    simp only [Finset.mem_sdiff, mem_mapKeys, AList.lookup_isSome, decide_eq_false_iff_not]
    tauto
  have hsets : writersAt ws ws.oldestChkptId ⊆ writersAt ws (ws.oldestChkptId + 1) ↔
      (parent.writers \ child.writers).card = 0 := by
    rw [writersAt_of_lookup hparent, hwriters', Finset.card_eq_zero, Finset.sdiff_eq_empty_iff_subset]
  have hwait : ws.mustWait parent child = true ↔
      waitForKeys = true ∧ MissingKeys ws ∨
        ws.waitForWriters = true ∧
          ¬ writersAt ws ws.oldestChkptId ⊆ writersAt ws (ws.oldestChkptId + 1) := by
    unfold WorkingSet.mustWait
    simp only
    rw [h.waitForKeys_eq, Bool.or_eq_true, Bool.and_eq_true, Bool.and_eq_true,
      decide_eq_true_eq, decide_eq_true_eq, hkeys, hsets]
  unfold WorkingSet.advance
  simp only [h.length_eq, if_true, hparent', hchild']
  rw [← hwait]
  by_cases hmust : ws.mustWait parent child = true
  · rw [if_pos hmust]
    exact iff_of_true rfl hmust
  · rw [if_neg hmust]
    exact iff_of_false nofun hmust

/-- `WorkingSet.advance` with `wait_for_writers`. -/
theorem WindowInv.advance_iff (h : WindowInv size waitForKeys ws)
    (hwriters : ws.waitForWriters = true) :
    (∃ ws', ws.advance = .ok (true, ws')) ↔
      ¬ (waitForKeys = true ∧ MissingKeys ws) ∧
        writersAt ws ws.oldestChkptId ⊆ writersAt ws (ws.oldestChkptId + 1) := by
  have hadvances : (∃ ws', ws.advance = .ok (true, ws')) ↔ ¬ ws.advance = .ok (false, ws) := by
    rcases h.advance_cases with hrun | ⟨ws', -, -, hrun, -⟩
    · rw [hrun]
      exact iff_of_false (fun hex => by cases hex.choose_spec) (fun hnot => hnot rfl)
    · rw [hrun]
      exact iff_of_true ⟨ws', rfl⟩ nofun
  rw [hadvances, h.refuses_iff, hwriters, not_or]
  simp only [true_and, not_not]

/-- A checkpoint is done when no client is pending in it. -/
theorem TracksPending.subset_iff (ht : TracksPending ws pending) :
    writersAt ws ws.oldestChkptId ⊆ writersAt ws (ws.oldestChkptId + 1) ↔
      pending ws.oldestChkptId = ∅ := by
  constructor
  · intro hsub
    refine Finset.eq_empty_of_forall_notMem ?_
    intro client hin
    obtain ⟨hwrote, hnot⟩ := (ht client _ le_rfl).mpr hin
    exact hnot (hsub hwrote)
  · intro hempty client hwrote
    by_contra hnot
    have hin := (ht client _ le_rfl).mp ⟨hwrote, hnot⟩
    rw [hempty] at hin
    exact Finset.notMem_empty client hin

theorem tracksPending_init (start size : ℕ) (waitForKeys waitForWriters : Bool) :
    TracksPending (WorkingSet.init start size waitForKeys waitForWriters) fun _ => ∅ := by
  intro client i _
  have hempty : writersAt (WorkingSet.init start size waitForKeys waitForWriters) i = ∅ := by
    unfold writersAt
    rw [lookup_init]
    split
    · rfl
    · rfl
  rw [hempty]
  simp

/-- **Run lemma.** -/
theorem TracksPending.run (pickler : XPickler) {calls : List DictCall}
    (ht : TracksPending ws pending) (h : WindowInv size waitForKeys ws)
    (hwriters : ws.waitForWriters = true)
    (hcalls : Runs.Legal (dictStep pickler) (Orderly pickler) ws calls) :
    WindowInv size waitForKeys (calls.foldl (pendingStep pickler) (ws, pending)).1 ∧
      (calls.foldl (pendingStep pickler) (ws, pending)).1.waitForWriters = true ∧
      TracksPending (calls.foldl (pendingStep pickler) (ws, pending)).1
        (calls.foldl (pendingStep pickler) (ws, pending)).2 := by
  induction calls generalizing ws pending with
  | nil => exact ⟨h, hwriters, ht⟩
  | cons call calls ih =>
    refine ih (ht.step h pickler hcalls.1) (h.dictCall pickler call) ?_ hcalls.2
    rw [h.waitForWriters_dictStep]
    exact hwriters

end Retire

theorem ws_of_pendingRun (pickler : XPickler) (calls : List DictCall) (s : WorkingSet × Pending) :
    (calls.foldl (pendingStep pickler) s).1 = calls.foldl (dictStep pickler) s.1 := by
  induction calls generalizing s with
  | nil => rfl
  | cons call calls ih => exact ih (pendingStep pickler s call)

/-- **Waiting for the writers.**  With `wait_for_writers`, after any orderly calls that compare no
freed memory, where `advance` compares none either: it retires the oldest checkpoint iff every
client that has written to it has since performed an operation at a later id (and, with
`wait_for_keys`, no key is missing). -/
theorem workingSet_wait_for_writers (pickler : XPickler) (start workingSetSize : ℕ)
    (hsize : 1 ≤ workingSetSize) (waitForKeys : Bool) (calls : List (ℕ × DictCall))
    (hcalls : Runs.Legal (dictStep pickler) (Orderly pickler)
      (WorkingSet.init start workingSetSize waitForKeys true) (calls.map Prod.snd))
    (ws : WorkingSet) (mem : KeyMemory)
    (hrun : memoryRun pickler (WorkingSet.init start workingSetSize waitForKeys true)
      KeyMemory.init calls = some (ws, mem))
    (pending : Pending) (hpending : pending = ((calls.map Prod.snd).foldl (pendingStep pickler)
      (WorkingSet.init start workingSetSize waitForKeys true, fun _ => ∅)).2)
    (hadvance : (mem.advance ws).isSome) :
    (∃ ws' mem', ws.advance = .ok (true, ws') ∧ mem.advance ws = some mem') ↔
      ¬ (waitForKeys = true ∧ MissingKeys ws) ∧ pending ws.oldestChkptId = ∅ := by
  have htracks := TracksPending.run pickler
    (tracksPending_init start workingSetSize waitForKeys true)
    (windowInv_init start hsize waitForKeys true) rfl hcalls
  rw [ws_of_pendingRun, ← ws_of_memoryRun hrun, ← hpending] at htracks
  obtain ⟨h, hwriters, ht⟩ := htracks
  rw [← ht.subset_iff, ← h.advance_iff hwriters]
  obtain ⟨mem', hmem⟩ := Option.isSome_iff_exists.mp hadvance
  exact ⟨fun ⟨ws', _, hretires, _⟩ => ⟨ws', hretires⟩,
    fun ⟨ws', hretires⟩ => ⟨ws', mem', hretires, hmem⟩⟩

/-- A client writes to checkpoint `0` and then to checkpoint `1`. -/
theorem workingSet_wait_for_writers_example :
    ∃ ws mem, memoryRun XPickler.scalars (WorkingSet.init 0 2 false true) KeyMemory.init
        [(0, .put 7 0 false [1] [[5]] false), (1, .put 7 1 false [1] [[6]] false)]
          = some (ws, mem) ∧
      ∃ ws' mem', ws.advance = .ok (true, ws') ∧ mem.advance ws = some mem' := by
  refine ⟨_, _, rfl, ?_⟩
  have hlegal : Runs.Legal (dictStep XPickler.scalars) (Orderly XPickler.scalars)
      (WorkingSet.init 0 2 false true)
      [.put 7 0 false [1] [[5]] false, .put 7 1 false [1] [[6]] false] := by
    refine ⟨?_, ?_, trivial⟩
    · rintro - chkpt ws1 hput
      have hws : some (WorkingSet.init 0 2 false true) = some ws1 :=
        congrArg (fun r => r.toOption.map Prod.snd) hput
      cases hws
      exact ⟨fun i _ hi => absurd hi (by omega), by decide +kernel⟩
    · rintro - chkpt ws1 hput
      have hws : some (dictStep XPickler.scalars (WorkingSet.init 0 2 false true)
          (.put 7 0 false [1] [[5]] false)) = some ws1 :=
        congrArg (fun r => r.toOption.map Prod.snd) hput
      cases hws
      exact ⟨fun i _ hi => absurd hi (by omega), by decide +kernel⟩
  have hiff := workingSet_wait_for_writers XPickler.scalars 0 2 (by decide) false
    [(0, .put 7 0 false [1] [[5]] false), (1, .put 7 1 false [1] [[6]] false)] hlegal _ _ rfl _ rfl rfl
  exact hiff.mpr ⟨fun hkeys => absurd hkeys.1 Bool.false_ne_true, by decide +kernel⟩

/-- A client writes to checkpoint `0` and then reads at checkpoint `1`: nobody is pending in
checkpoint `0`, and `advance` refuses. -/
theorem workingSet_writer_moved_on_blocks :
    ∃ ws mem, memoryRun XPickler.scalars (WorkingSet.init 0 2 false true) KeyMemory.init
        [(0, .put 7 0 false [1] [[5]] false), (1, .read 7 1)] = some (ws, mem) ∧
      ws.oldestChkptId = 0 ∧
      ([DictCall.put 7 0 false [1] [[5]] false, .read 7 1].foldl (pendingStep XPickler.scalars)
        (WorkingSet.init 0 2 false true, fun _ => ∅)).2 0 = ∅ ∧
      ws.advance = .ok (false, ws) ∧ mem.advance ws = some mem :=
  ⟨_, _, rfl, by decide +kernel, by decide +kernel, rfl, rfl⟩
