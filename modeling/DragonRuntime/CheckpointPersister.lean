/-
# Persisted checkpoints (`PosixCheckpointPersister` of `src/dragon/data/ddict/ddict.py`)

The persister of a manager keeps a sorted list of the checkpoints that it has written, their
number, and the position of a restore.  A dump first removes the oldest checkpoints until there is
room for one more, then writes its own; a load may remove the checkpoints that are later than the
one it has read.

Conventions:

* a checkpoint file is the id in its name, and the directory is the set of these ids; the files of
  the directory are written by this persister only;
* one call meets one failure at most: the removal of a file fails, the file cannot be opened, or it
  fails after it was opened, while it is written or read;
* the calls are made one after the other, as the lock of the dump has it.
-/
import DragonRuntime.Runs

/-- What fails in a call. -/
inductive PersistFault : Type where
  | none
  /-- `os.remove` of the file of a checkpoint -/
  | remove (id : ℕ)
  | opening
  /-- writing or reading, after the file was opened -/
  | content
  deriving DecidableEq

/-- A call of the persister. -/
inductive PersistCall : Type where
  | dump (id : ℕ) (force : Bool) (fault : PersistFault)
  | load (cleanup : Bool) (fault : PersistFault)
  | advance
  | position (id : ℕ)
  deriving DecidableEq

structure PosixPersister where
  persistFreq : ℕ
  persistCount : ℤ
  numPersists : ℤ
  availablePersistedCheckpoints : List ℕ
  currentChkptId : ℕ
  /-- the checkpoint files in the persist path -/
  files : Finset ℕ
  deriving DecidableEq

namespace PosixPersister

/-- `__init__`, in a directory with these files. -/
def init (persistFreq : ℕ) (persistCount : ℤ) (files : Finset ℕ) : PosixPersister where
  persistFreq := persistFreq
  persistCount := persistCount
  numPersists := (files.sort (· ≤ ·)).length
  availablePersistedCheckpoints := files.sort (· ≤ ·)
  currentChkptId := 0
  files := files

/-- The list, the number and the directory, and whether the code that works on them got through. -/
structure Bookkeeping where
  available : List ℕ
  num : ℤ
  files : Finset ℕ
  ok : Bool
  deriving DecidableEq

/-- `os.remove` raises if it fails or if there is no such file. -/
def CannotRemove (fault : PersistFault) (files : Finset ℕ) (id : ℕ) : Prop :=
  fault = .remove id ∨ id ∉ files

instance (fault : PersistFault) (files : Finset ℕ) (id : ℕ) :
    Decidable (CannotRemove fault files id) :=
  inferInstanceAs (Decidable (_ ∨ _))

/-- The loop of `dump` that removes the oldest checkpoints. -/
def evict (persistCount : ℤ) (fault : PersistFault) : List ℕ → ℤ → Finset ℕ → Bookkeeping
  | [], num, files => ⟨[], num, files, decide (num < persistCount)⟩
  | oldest :: rest, num, files =>
    if num < persistCount then ⟨oldest :: rest, num, files, true⟩
    else if CannotRemove fault files oldest then ⟨oldest :: rest, num, files, false⟩
    else evict persistCount fault rest (num - 1) (files.erase oldest)

/-- The loop of `_cleanup_later_chkpts`, over the list from its end. -/
def cleanupLater (currentChkptId : ℕ) (fault : PersistFault) (num : ℤ) :
    List ℕ → Finset ℕ → Bookkeeping
  | [], files => ⟨[], num, files, true⟩
  | last :: rest, files =>
    if currentChkptId < last then
      if CannotRemove fault files last then ⟨rest.reverse, num, files, false⟩
      else cleanupLater currentChkptId fault num rest (files.erase last)
    else ⟨(last :: rest).reverse, num, files, true⟩

variable (s : PosixPersister)

/-- Whether `dump` returns at once. -/
def Skips (id : ℕ) (force : Bool) : Prop :=
  force = false ∧ (s.persistFreq = 0 ∨ s.persistCount = 0 ∨ id % s.persistFreq ≠ 0)

instance (id : ℕ) (force : Bool) : Decidable (s.Skips id force) :=
  inferInstanceAs (Decidable (_ ∧ _))

/-- Before a checkpoint is written. -/
def makeRoom (fault : PersistFault) : Bookkeeping :=
  if s.persistCount ≠ -1 then
    evict s.persistCount fault s.availablePersistedCheckpoints s.numPersists s.files
  else ⟨s.availablePersistedCheckpoints, s.numPersists, s.files, true⟩

/-- The rest of `dump`: the id is added to the list, and taken out again if the file cannot be
written. -/
def write (id : ℕ) (fault : PersistFault) (b : Bookkeeping) : Bookkeeping :=
  let newIdAdded := decide (id ∉ b.available)
  let available :=
    if newIdAdded then (b.available ++ [id]).insertionSort (· ≤ ·) else b.available
  let restored :=
    if newIdAdded then (available.erase id).insertionSort (· ≤ ·) else available
  match fault with
  | .opening => ⟨restored, b.num, b.files, false⟩
  | .content => ⟨restored, b.num, insert id b.files, false⟩
  | _ => ⟨available, if newIdAdded then b.num + 1 else b.num, insert id b.files, true⟩

def keep (b : Bookkeeping) : PosixPersister :=
  { s with
    availablePersistedCheckpoints := b.available
    numPersists := b.num
    files := b.files }

/-- A call, and whether it returns without an exception. -/
def call : PersistCall → PosixPersister × Bool
  | .dump id force fault =>
    if s.Skips id force then (s, true)
    else
      let room := s.makeRoom fault
      if room.ok then (s.keep (write id fault room), (write id fault room).ok)
      else (s.keep room, false)
  | .load cleanup fault =>
    if s.currentChkptId ∉ s.files ∨ fault = .opening ∨ fault = .content then (s, false)
    else if cleanup then
      let b := cleanupLater s.currentChkptId fault s.numPersists
        s.availablePersistedCheckpoints.reverse s.files
      (s.keep b, b.ok)
    else (s, true)
  | .advance =>
    if s.currentChkptId + s.persistFreq ∈ s.availablePersistedCheckpoints then
      ({ s with currentChkptId := s.currentChkptId + s.persistFreq }, true)
    else (s, false)
  | .position id =>
    if id ∈ s.availablePersistedCheckpoints then ({ s with currentChkptId := id }, true)
    else (s, false)

def step (c : PersistCall) : PosixPersister := (s.call c).1

/-! ## The bookkeeping -/

/-- The list is strictly increasing, it has the files of the directory, and it is counted. -/
structure Bookkeeping.Consistent (b : Bookkeeping) : Prop where
  increasing : b.available.Pairwise (· < ·)
  files_eq : b.available.toFinset = b.files
  num_eq : b.num = b.available.length

def Consistent : Prop :=
  Bookkeeping.Consistent ⟨s.availablePersistedCheckpoints, s.numPersists, s.files, true⟩

variable {s} {b : Bookkeeping}

theorem Bookkeeping.Consistent.keep (h : b.Consistent) (s : PosixPersister) :
    (s.keep b).Consistent :=
  ⟨h.increasing, h.files_eq, h.num_eq⟩

theorem consistent_init (persistFreq : ℕ) (persistCount : ℤ) (files : Finset ℕ) :
    (init persistFreq persistCount files).Consistent where
  increasing := (Finset.sortedLT_sort files).pairwise
  files_eq := Finset.sort_toFinset files (· ≤ ·)
  num_eq := rfl

theorem Bookkeeping.Consistent.nodup (h : b.Consistent) : b.available.Nodup :=
  h.increasing.imp fun hlt => Nat.ne_of_lt hlt

variable {id : ℕ} {files : Finset ℕ} {num persistCount : ℤ} {ok : Bool} {available : List ℕ}
  {fault : PersistFault}

theorem Bookkeeping.Consistent.mem_files (h : b.Consistent) : id ∈ b.files ↔ id ∈ b.available := by
  rw [← h.files_eq, List.mem_toFinset]

theorem Bookkeeping.Consistent.card_files (h : b.Consistent) : (b.files.card : ℤ) = b.num := by
  rw [h.num_eq, ← h.files_eq, List.toFinset_card_of_nodup h.nodup]

/-- The removal of the oldest one. -/
theorem Bookkeeping.Consistent.tail {oldest : ℕ} {rest : List ℕ}
    (h : Bookkeeping.Consistent ⟨oldest :: rest, num, files, ok⟩) (ok' : Bool) :
    Bookkeeping.Consistent ⟨rest, num - 1, files.erase oldest, ok'⟩ where
  increasing := h.increasing.of_cons
  files_eq := by
    have hnotMem : oldest ∉ rest.toFinset := by
      rw [List.mem_toFinset]
      exact (List.nodup_cons.mp h.nodup).1
    have hfiles := h.files_eq
    simp only [List.toFinset_cons] at hfiles
    rw [← hfiles, Finset.erase_insert hnotMem]
  num_eq := by
    have hnum := h.num_eq
    simp only [List.length_cons, Nat.cast_add, Nat.cast_one] at hnum ⊢
    omega

/-- The removal of the oldest checkpoints keeps the books, whether it gets through or not. -/
theorem evict_consistent (h : Bookkeeping.Consistent ⟨available, num, files, ok⟩) :
    (evict persistCount fault available num files).Consistent := by
  induction available generalizing num files with
  | nil => exact ⟨h.increasing, h.files_eq, h.num_eq⟩
  | cons oldest rest ih =>
    rw [evict]
    split_ifs with hroom hremove
    · exact ⟨h.increasing, h.files_eq, h.num_eq⟩
    · exact ⟨h.increasing, h.files_eq, h.num_eq⟩
    · exact ih (h.tail ok)

/-- When it gets through there is room, and the checkpoints that are left are the latest ones. -/
theorem evict_of_ok (hcount : 0 < persistCount)
    (h : Bookkeeping.Consistent ⟨available, num, files, ok⟩)
    (hok : (evict persistCount fault available num files).ok = true) :
    (evict persistCount fault available num files).num < persistCount ∧
      (evict persistCount fault available num files).available =
        available.drop (available.length + 1 - persistCount.toNat) := by
  induction available generalizing num files with
  | nil =>
    have hnum := h.num_eq
    simp only [List.length_nil] at hnum
    refine ⟨?_, ?_⟩
    · show num < persistCount
      omega
    · rw [List.drop_nil]
      rfl
  | cons oldest rest ih =>
    have hnum := h.num_eq
    simp only [List.length_cons, Nat.cast_add, Nat.cast_one] at hnum
    rw [evict] at hok ⊢
    split_ifs at hok ⊢ with hroom hremove
    · refine ⟨hroom, ?_⟩
      rw [List.length_cons, show rest.length + 1 + 1 - persistCount.toNat = 0 by omega]
      rfl
    · obtain ⟨hlt, hdrop⟩ := ih (h.tail ok) hok
      refine ⟨hlt, hdrop.trans ?_⟩
      rw [List.length_cons, show rest.length + 1 + 1 - persistCount.toNat =
        rest.length + 1 - persistCount.toNat + 1 by omega, List.drop_succ_cons]

/-- With a positive count it gets through, unless a file cannot be removed. -/
theorem evict_ok (hcount : 0 < persistCount) (hfault : ∀ id, fault ≠ .remove id)
    (h : Bookkeeping.Consistent ⟨available, num, files, ok⟩) :
    (evict persistCount fault available num files).ok = true := by
  induction available generalizing num files with
  | nil =>
    have hnum := h.num_eq
    simp only [List.length_nil] at hnum
    rw [evict, decide_eq_true_iff]
    omega
  | cons oldest rest ih =>
    rw [evict]
    have hremove : ¬ CannotRemove fault files oldest := by
      rintro (hremove | hremove)
      · exact hfault oldest hremove
      · exact hremove (h.mem_files.mpr List.mem_cons_self)
    split_ifs with hroom
    · rfl
    · exact ih (h.tail ok)

/-! ## Writing a checkpoint -/

theorem pairwise_insertionSort {l : List ℕ} (h : l.Nodup) :
    (l.insertionSort (· ≤ ·)).Pairwise (· < ·) := by
  have hsorted := List.pairwise_insertionSort (· ≤ ·) l
  have hnodup := (List.perm_insertionSort (· ≤ ·) l).nodup_iff.mpr h
  exact (hsorted.and hnodup).imp fun hab => lt_of_le_of_ne hab.1 hab.2

theorem Bookkeeping.Consistent.of_perm (h : b.Consistent) {l : List ℕ} (hl : l.Perm b.available)
    (ok : Bool) : Bookkeeping.Consistent ⟨l.insertionSort (· ≤ ·), b.num, b.files, ok⟩ where
  increasing := pairwise_insertionSort (hl.nodup_iff.mpr h.nodup)
  files_eq := by
    rw [← h.files_eq]
    exact List.toFinset_eq_of_perm _ _ ((List.perm_insertionSort _ l).trans hl)
  num_eq := by
    rw [h.num_eq, List.length_insertionSort, hl.length_eq]

/-- The list with a new id. -/
theorem Bookkeeping.Consistent.add (h : b.Consistent) (hid : id ∉ b.available) (ok : Bool) :
    Bookkeeping.Consistent ⟨(b.available ++ [id]).insertionSort (· ≤ ·), b.num + 1,
      insert id b.files, ok⟩ where
  increasing := by
    refine pairwise_insertionSort (List.nodup_append.mpr ⟨h.nodup, List.nodup_singleton id, ?_⟩)
    rintro a ha c hc rfl
    rw [List.mem_singleton] at hc
    exact hid (hc ▸ ha)
  files_eq := by
    rw [List.toFinset_eq_of_perm _ _ (List.perm_insertionSort _ _), List.toFinset_append,
      h.files_eq]
    ext a
    simp only [Finset.mem_union, List.mem_toFinset, List.mem_singleton, Finset.mem_insert]
    tauto
  num_eq := by
    rw [h.num_eq, List.length_insertionSort, List.length_append]
    rfl

/-- Taking the new id out again gives the list before. -/
theorem erase_insertionSort_perm (hid : id ∉ available) :
    (((available ++ [id]).insertionSort (· ≤ ·)).erase id).Perm available := by
  have hperm := (List.perm_insertionSort (· ≤ ·) (available ++ [id])).erase id
  rw [List.erase_append_right _ hid, List.erase_cons_head, List.append_nil] at hperm
  exact hperm

/-- The books are kept, unless the file of a new checkpoint breaks off. -/
theorem write_consistent (h : b.Consistent) (hfault : fault = .content → id ∈ b.available) :
    (write id fault b).Consistent := by
  by_cases hid : id ∈ b.available
  · -- the file of the checkpoint is there already
    have hinsert : insert id b.files = b.files := Finset.insert_eq_of_mem (h.mem_files.mpr hid)
    cases fault <;> simp only [write, hid, not_true, decide_false, Bool.false_eq_true, if_false,
      hinsert] <;> exact ⟨h.increasing, h.files_eq, h.num_eq⟩
  · cases fault with
    | content => exact absurd (hfault rfl) hid
    | opening =>
      simp only [write, hid, not_false_eq_true, decide_true, if_true]
      exact h.of_perm (erase_insertionSort_perm hid) false
    | none | remove =>
      simp only [write, hid, not_false_eq_true, decide_true, if_true]
      exact h.add hid true

theorem write_num_le (id : ℕ) (fault : PersistFault) (b : Bookkeeping) :
    (write id fault b).num ≤ b.num + 1 := by
  cases fault <;> simp only [write] <;> (try split_ifs) <;> omega

theorem mem_write (id : ℕ) (b : Bookkeeping) (hok : (write id fault b).ok = true) :
    id ∈ (write id fault b).available := by
  have hmem : id ∈ (if decide (id ∉ b.available) then
      (b.available ++ [id]).insertionSort (· ≤ ·) else b.available) := by
    by_cases hid : id ∈ b.available
    · simp [hid]
    · simp [hid, List.mem_insertionSort]
  cases fault with
  | opening => cases hok
  | content => cases hok
  | none => exact hmem
  | remove => exact hmem

/-! ## A call -/

variable (s) in
/-- The checkpoints that are left when there is room for one more. -/
def latest : List ℕ :=
  if s.persistCount = -1 then s.availablePersistedCheckpoints
  else s.availablePersistedCheckpoints.drop
    (s.availablePersistedCheckpoints.length + 1 - s.persistCount.toNat)

theorem makeRoom_consistent (h : s.Consistent) (fault : PersistFault) :
    (s.makeRoom fault).Consistent := by
  rw [makeRoom]
  split_ifs
  · exact evict_consistent h
  · exact h

theorem makeRoom_available (h : s.Consistent) (hcount : s.persistCount = -1 ∨ 0 < s.persistCount)
    (hok : (s.makeRoom fault).ok = true) : (s.makeRoom fault).available = s.latest := by
  by_cases hall : s.persistCount = -1
  · simp only [makeRoom, latest, ne_eq, hall, not_true, if_false, if_true]
  · simp only [makeRoom, latest, ne_eq, hall, not_false_eq_true, if_true, if_false] at hok ⊢
    exact (evict_of_ok (by omega) h hok).2

theorem makeRoom_num_lt (h : s.Consistent) (hcount : 0 < s.persistCount)
    (hok : (s.makeRoom fault).ok = true) : (s.makeRoom fault).num < s.persistCount := by
  have hbounded : s.persistCount ≠ -1 := by omega
  simp only [makeRoom, hbounded, ne_eq, not_false_eq_true, if_true] at hok ⊢
  exact (evict_of_ok hcount h hok).1

theorem makeRoom_ok (h : s.Consistent) (hcount : s.persistCount = -1 ∨ 0 < s.persistCount)
    (hfault : ∀ id, fault ≠ .remove id) : (s.makeRoom fault).ok = true := by
  rw [makeRoom]
  split_ifs
  · exact evict_ok (by omega) hfault h
  · rfl

/-- With nothing later than the position, the clean-up removes nothing. -/
theorem cleanupLater_of_le {currentChkptId : ℕ} (h : ∀ id ∈ available, id ≤ currentChkptId) :
    cleanupLater currentChkptId fault num available.reverse files =
      ⟨available, num, files, true⟩ := by
  cases hrev : available.reverse with
  | nil =>
    rw [List.reverse_eq_nil_iff] at hrev
    rw [hrev, cleanupLater]
  | cons last rest =>
    have hmem : last ∈ available := by
      rw [← List.mem_reverse, hrev]
      exact List.mem_cons_self
    rw [cleanupLater, if_neg (by have := h last hmem; omega), ← hrev, List.reverse_reverse]

variable (s) in
/-- A dump that is forced, or whose id is a multiple of a frequency, with some checkpoint to be
kept. -/
def Due (id : ℕ) (force : Bool) : Prop :=
  force = true ∨ s.persistFreq ≠ 0 ∧ s.persistCount ≠ 0 ∧ s.persistFreq ∣ id

instance (s : PosixPersister) (id : ℕ) (force : Bool) : Decidable (s.Due id force) :=
  inferInstanceAs (Decidable (_ ∨ _))

theorem not_skips_iff {force : Bool} : ¬ s.Skips id force ↔ s.Due id force := by
  rw [Skips, Due, Nat.dvd_iff_mod_eq_zero]
  cases force <;> simp only [true_and, Bool.true_eq_false, false_and, not_false_eq_true, true_or,
    not_or, not_not, Bool.false_eq_true, false_or, ne_eq]

/-- What a call promises, with the state that it leaves and whether it has returned. -/
def Promise (s : PosixPersister) (c : PersistCall) (s' : PosixPersister) (ok : Bool) : Prop :=
  (ok = true → s'.Consistent) ∧
    match c with
    | .dump id force fault =>
      (ok = true → 0 < s.persistCount → (s'.files.card : ℤ) ≤ s.persistCount) ∧
        (s.Due id force → fault = .none →
          ok = true ∧ id ∈ s'.availablePersistedCheckpoints)
    | _ => True

/-- The calls that are kept away from the defects. -/
def Careful (s : PosixPersister) : PersistCall → Prop
  | .dump id force fault =>
    -- nothing is forced where no checkpoint is to be kept
    (force = true → s.persistCount ≠ 0) ∧
      -- a new checkpoint does not break off
      (s.Due id force → fault = .content → id ∈ s.latest) ∧
      -- no dump is skipped while there are more files than are to be kept
      (¬ s.Due id force → 0 < s.persistCount →
        (s.availablePersistedCheckpoints.length : ℤ) ≤ s.persistCount)
  | .load cleanup fault =>
    -- there is nothing to clean up
    cleanup = true → s.currentChkptId ∈ s.files → fault ≠ .opening → fault ≠ .content →
      ∀ id ∈ s.availablePersistedCheckpoints, id ≤ s.currentChkptId
  | .advance => True
  | .position _ => True

instance (s : PosixPersister) : (c : PersistCall) → Decidable (s.Careful c)
  | .dump _ _ _ => inferInstanceAs (Decidable (_ ∧ _ ∧ _))
  | .load _ _ => inferInstanceAs (Decidable (_ → _))
  | .advance => isTrue trivial
  | .position _ => isTrue trivial

theorem step_persistCount (s : PosixPersister) (c : PersistCall) :
    (s.step c).persistCount = s.persistCount := by
  cases c <;> simp only [step, call, keep] <;> split_ifs <;> rfl

theorem dump_of_due (h : s.Consistent) (hcount : -1 ≤ s.persistCount) {force : Bool}
    (hdue : s.Due id force) (hcareful : s.Careful (.dump id force fault)) :
    (s.step (.dump id force fault)).Consistent ∧
      s.Promise (.dump id force fault) (s.call (.dump id force fault)).1
        (s.call (.dump id force fault)).2 := by
  obtain ⟨hforce, hcontent, -⟩ := hcareful
  have hsome : s.persistCount = -1 ∨ 0 < s.persistCount := by
    have hne : s.persistCount ≠ 0 := by
      rcases hdue with hdue | ⟨-, hdue, -⟩
      · exact hforce hdue
      · exact hdue
    omega
  have hroom := makeRoom_consistent h fault
  simp only [step, call, if_neg (not_skips_iff.mpr hdue), Promise]
  by_cases hok : (s.makeRoom fault).ok = true
  · have hwrite : (write id fault (s.makeRoom fault)).Consistent := by
      refine write_consistent hroom fun hfault => ?_
      rw [makeRoom_available h hsome hok]
      exact hcontent hdue hfault
    rw [if_pos hok]
    refine ⟨hwrite.keep s, fun _ => hwrite.keep s, fun _ hpos => ?_, fun _ hnone => ?_⟩
    · have hnum := write_num_le id fault (s.makeRoom fault)
      have hlt := makeRoom_num_lt h hpos hok
      have hcard := hwrite.card_files
      simp only [keep]
      omega
    · have hwritten : (write id fault (s.makeRoom fault)).ok = true := by rw [hnone]; rfl
      exact ⟨hwritten, mem_write id _ hwritten⟩
  · rw [if_neg hok]
    refine ⟨hroom.keep s, ?_, ?_, ?_⟩
    · intro hreturned
      cases hreturned
    · intro hreturned
      cases hreturned
    · intro _ hnone
      refine absurd (makeRoom_ok h hsome fun other hremove => ?_) hok
      rw [hnone] at hremove
      cases hremove

/-- **Step lemma.**  A careful call keeps the books and its promise. -/
theorem step_of_careful (h : s.Consistent) (hcount : -1 ≤ s.persistCount) {c : PersistCall}
    (hcareful : s.Careful c) :
    (s.step c).Consistent ∧ s.Promise c (s.call c).1 (s.call c).2 := by
  cases c with
  | dump id force =>
    by_cases hdue : s.Due id force
    · exact dump_of_due h hcount hdue hcareful
    · simp only [step, call, if_pos (not_not.mp (not_skips_iff.not.mpr hdue)), Promise]
      refine ⟨h, fun _ => h, fun _ hpos => ?_, fun hdue' => absurd hdue' hdue⟩
      have hfits := hcareful.2.2 hdue hpos
      have hcard := Bookkeeping.Consistent.card_files h
      have hnum := Bookkeeping.Consistent.num_eq h
      simp only at hcard hnum
      omega
  | load _ fault =>
    simp only [step, call, Promise, and_true]
    split_ifs with hfails hcleanup
    · exact ⟨h, fun _ => h⟩
    · obtain ⟨hcurrent, hopening, hcontent⟩ : s.currentChkptId ∈ s.files ∧ fault ≠ .opening ∧
          fault ≠ .content := by simpa only [not_or, not_not] using hfails
      have hlater := hcareful hcleanup hcurrent hopening hcontent
      rw [cleanupLater_of_le hlater]
      exact ⟨h, fun _ => h⟩
    · exact ⟨h, fun _ => h⟩
  | advance | position =>
    simp only [step, call, Promise, and_true]
    split_ifs <;> exact ⟨h, fun _ => h⟩

end PosixPersister
