/-
# The lock of a blocking malloc (`src/lib/heap_manager.c`)

`dragon_heap_malloc_blocking` calls `_dragon_heap_malloc`, which takes the lock of the heap and does
not give it back, and waits on a BCast, which gives it back as soon as the caller is registered.
What the call does with the lock is its trace.

Conventions:

* the heap that each attempt finds is an argument, with what the lock answers, and so are the time
  that remains and the outcome of each wait;
* a wait releases the lock once, whatever it returns;
* `none` stands for a call that has not returned: a loop of `_powerof2` that runs forever, or more
  rounds than the waits that are given.
-/
import DragonRuntime.HeapFrees
import DragonRuntime.LockTraces

/-- The lock of the heap. -/
inductive HeapLock : Type where
  | dlock
  deriving DecidableEq

/-- What an attempt finds. -/
structure HeapAttempt where
  heap : DragonDynHeap
  lock : Except DragonError Unit

/-- A round of the loop: the test of the clock, the wait, and what the next attempt finds. -/
structure HeapRound where
  remaining : Except DragonError Unit
  wait : Except DragonError Unit
  next : HeapAttempt

/-- `_dragon_heap_malloc` with `lock` and without `unlock`, and what it does with the lock. -/
def lockingHeapMalloc (a : HeapAttempt) (size : ℕ) (offsetNull : Bool) :
    Option (Except DragonError ℕ × List (LockEvent HeapLock)) :=
  if offsetNull then some (.error .dynheapInvalidPointer, [])
  else if a.heap.segmentSize = 0 then some (.error .objectDestroyed, [])
  else if a.heap.biggestBlock < size then some (.error .dynheapRequestedSizeTooLarge, [])
  else
    (powerof2 size a.heap.segmentSize).map fun index =>
      if a.heap.numBlockSizes < index then (.error .dynheapRequestedSizeTooLarge, [])
      else
        match a.lock with
        | .error e => (.error e, [])
        | .ok () =>
          match (a.heap.split index).1 with
          | .error .bitsetIterationComplete =>
            (.error .dynheapRequestedSizeNotAvailable, [.acquire .dlock])
          | .error e => (.error e, [.acquire .dlock])
          | .ok freeBlock =>
            (.ok (freeBlock * (a.heap.segmentSize * ipow 2 index)), [.acquire .dlock])

/-- The loop of `dragon_heap_malloc_blocking` and what comes after it. -/
def retryHeapMalloc (size : ℕ) (offsetNull : Bool) : List HeapRound → Except DragonError ℕ →
    Option (Except DragonError ℕ × List (LockEvent HeapLock))
  | [], allocErr =>
    if allocErr = .error .dynheapRequestedSizeNotAvailable then none
    else if allocErr = .error .objectDestroyed then some (allocErr, [])
    else some (allocErr, [.release .dlock])
  | round :: rounds, allocErr =>
    if allocErr = .error .dynheapRequestedSizeNotAvailable then
      match round.remaining, round.wait with
      | .error e, _ => some (.error e, [.release .dlock])
      -- the wait has released the lock
      | .ok (), .error e => some (.error e, [.release .dlock])
      | .ok (), .ok () =>
        (lockingHeapMalloc round.next size offsetNull).bind fun r =>
          (retryHeapMalloc size offsetNull rounds r.1).map fun r' =>
            (r'.1, .release .dlock :: r.2 ++ r'.2)
    else if allocErr = .error .objectDestroyed then some (allocErr, [])
    else some (allocErr, [.release .dlock])

/-- `dragon_heap_malloc_blocking`; `zero` for a timeout of zero. -/
def dragonHeapMallocBlocking (first : HeapAttempt) (size : ℕ) (offsetNull zero : Bool)
    (rounds : List HeapRound) : Option (Except DragonError ℕ × List (LockEvent HeapLock)) :=
  (lockingHeapMalloc first size offsetNull).bind fun r =>
    if zero then some (r.1, r.2 ++ [.release .dlock])
    else
      (powerof2 size first.heap.segmentSize).bind fun _ =>
        (retryHeapMalloc size offsetNull rounds r.1).map fun r' => (r'.1, r.2 ++ r'.2)

/-! ## The attempts of a call -/

section Attempts

variable (size : ℕ) (offsetNull : Bool)

/-- The attempt comes to the lock. -/
def HeapAttempt.ComesToLock (a : HeapAttempt) : Prop :=
  offsetNull = false ∧ a.heap.segmentSize ≠ 0 ∧ size ≤ a.heap.biggestBlock ∧
    ∃ index ≤ a.heap.numBlockSizes, powerof2 size a.heap.segmentSize = some index

def HeapAttempt.GetsLock (a : HeapAttempt) : Prop :=
  a.ComesToLock size offsetNull ∧ a.lock = .ok ()

/-- The heap, or the lock of it, was destroyed. -/
def HeapAttempt.FindsDestroyed (a : HeapAttempt) : Prop :=
  offsetNull = false ∧ a.heap.segmentSize = 0 ∨
    a.ComesToLock size offsetNull ∧ a.lock = .error .objectDestroyed

/-- The attempt finds no block of the size that it wants. -/
def HeapAttempt.FindsNoBlock (a : HeapAttempt) : Prop :=
  ∃ trace, lockingHeapMalloc a size offsetNull =
    some (.error .dynheapRequestedSizeNotAvailable, trace)

instance (a : HeapAttempt) : Decidable (a.FindsNoBlock size offsetNull) :=
  decidable_of_iff ((lockingHeapMalloc a size offsetNull).map Prod.fst =
      some (.error .dynheapRequestedSizeNotAvailable)) <| by
    unfold HeapAttempt.FindsNoBlock
    cases lockingHeapMalloc a size offsetNull with
    | none => simp
    | some r => simp [Prod.ext_iff]

/-- The attempts that a call with a timeout makes: another one after each wait that succeeds. -/
def heapAttempts : HeapAttempt → List HeapRound → List HeapAttempt
  | a, [] => [a]
  | a, round :: rounds =>
    if a.FindsNoBlock size offsetNull ∧ round.remaining = .ok () ∧ round.wait = .ok () then
      a :: heapAttempts round.next rounds
    else [a]

end Attempts

section Locks

variable {a : HeapAttempt} {size : ℕ} {offsetNull : Bool}

/-- What the bitsets report is not that the heap was destroyed. -/
theorem splitSearch_ne_objectDestroyed (heap : DragonDynHeap) (levels splitIdx : ℕ) :
    (heap.splitSearch levels splitIdx).2 ≠ .error .objectDestroyed := by
  have hfirst : ∀ set, dragonBitsetFirst set ≠ .error .objectDestroyed := by
    intro set
    unfold dragonBitsetFirst dragonBitsetGet
    simp only
    split_ifs <;> simp
    split_ifs <;> simp
  induction levels generalizing splitIdx with
  | zero => exact hfirst _
  | succ levels ih =>
    unfold DragonDynHeap.splitSearch
    split
    · exact ih (splitIdx + 1)
    · exact hfirst _

theorem split_ne_objectDestroyed (heap : DragonDynHeap) (index : ℕ) :
    (heap.split index).1 ≠ .error .objectDestroyed := by
  have hset : ∀ set i, dragonBitsetSet set i ≠ .error .objectDestroyed := by
    intro set i
    unfold dragonBitsetSet
    split_ifs <;> simp
  have hreset : ∀ set i, dragonBitsetReset set i ≠ .error .objectDestroyed := by
    intro set i
    unfold dragonBitsetReset dragonBitsetZeroesToRight
    simp only
    split_ifs <;> simp
  have hloop : ∀ steps heap splitIdx blockIdx,
      (DragonDynHeap.splitLoop steps heap splitIdx blockIdx).1 ≠ .error .objectDestroyed := by
    intro steps
    induction steps with
    | zero =>
      intro heap splitIdx blockIdx heq
      cases heq
    | succ steps ih =>
      intro heap splitIdx blockIdx
      unfold DragonDynHeap.splitLoop
      simp only
      split
      · rename_i e he
        intro heq
        have hdestroyed : e = .objectDestroyed := Except.error.inj heq
        exact hset _ _ (he.trans (congrArg Except.error hdestroyed))
      · exact ih _ _ _
  unfold DragonDynHeap.split
  split
  · rename_i e he
    intro heq
    exact splitSearch_ne_objectDestroyed heap _ _ ((congrArg Prod.snd he).trans heq)
  · split
    · rename_i e he
      intro heq
      have hdestroyed : e = .objectDestroyed := Except.error.inj heq
      exact hreset _ _ (he.trans (congrArg Except.error hdestroyed))
    · exact hloop _ _ _ _

variable {r : Except DragonError ℕ × List (LockEvent HeapLock)}

/-- **What an attempt does with the lock.** -/
theorem lockingHeapMalloc_cases (h : lockingHeapMalloc a size offsetNull = some r) :
    (a.GetsLock size offsetNull ∧ r.2 = [.acquire .dlock] ∧ r.1 ≠ .error .objectDestroyed) ∨
      (¬ a.GetsLock size offsetNull ∧ r.2 = [] ∧
        (r.1 = .error .objectDestroyed ↔ a.FindsDestroyed size offsetNull)) := by
  unfold lockingHeapMalloc at h
  split_ifs at h with hnull hseg hbig
  · obtain rfl := Option.some.inj h
    refine .inr ⟨fun hget => ?_, rfl, iff_of_false (by simp) ?_⟩
    · exact absurd (hget.1.1.symm.trans hnull) (by simp)
    · rintro (⟨hnot, -⟩ | ⟨⟨hnot, -⟩, -⟩)
      · exact absurd (hnot.symm.trans hnull) (by simp)
      · exact absurd (hnot.symm.trans hnull) (by simp)
  · obtain rfl := Option.some.inj h
    refine .inr ⟨fun hget => hget.1.2.1 hseg, rfl, iff_of_true rfl ?_⟩
    exact .inl ⟨Bool.eq_false_of_not_eq_true hnull, hseg⟩
  · obtain rfl := Option.some.inj h
    have hnot : ¬ a.ComesToLock size offsetNull := fun hcome =>
      absurd hcome.2.2.1 (Nat.not_le.mpr hbig)
    refine .inr ⟨fun hget => hnot hget.1, rfl, iff_of_false (by simp) ?_⟩
    rintro (⟨-, hzero⟩ | ⟨hcome, -⟩)
    · exact hseg hzero
    · exact hnot hcome
  · obtain ⟨index, hindex, hr⟩ := Option.map_eq_some_iff.mp h
    by_cases hlarge : a.heap.numBlockSizes < index
    · rw [if_pos hlarge] at hr
      have hnot : ¬ a.ComesToLock size offsetNull := by
        rintro ⟨-, -, -, index', hle, hindex'⟩
        obtain rfl := Option.some.inj (hindex.symm.trans hindex')
        omega
      subst hr
      refine .inr ⟨fun hget => hnot hget.1, rfl, iff_of_false (by simp) ?_⟩
      rintro (⟨-, hzero⟩ | ⟨hcome, -⟩)
      · exact hseg hzero
      · exact hnot hcome
    · rw [if_neg hlarge] at hr
      have hcome : a.ComesToLock size offsetNull :=
        ⟨Bool.eq_false_of_not_eq_true hnull, hseg, Nat.not_lt.mp hbig, index, Nat.not_lt.mp hlarge,
          hindex⟩
      cases hlock : a.lock with
      | error e =>
        simp only [hlock] at hr
        subst hr
        refine .inr ⟨fun hget => ?_, rfl, ?_⟩
        · rw [hget.2] at hlock
          cases hlock
        · constructor
          · intro heq
            exact .inr ⟨hcome, hlock.trans (congrArg Except.error (Except.error.inj heq))⟩
          · rintro (⟨-, hzero⟩ | ⟨-, hdestroyed⟩)
            · exact absurd hzero hseg
            · exact congrArg Except.error (Except.error.inj (hlock.symm.trans hdestroyed))
      | ok u =>
        simp only [hlock] at hr
        have hsplit := split_ne_objectDestroyed a.heap index
        refine .inl ⟨⟨hcome, hlock⟩, ?_⟩
        split at hr
        · subst hr
          exact ⟨rfl, by simp⟩
        · rename_i e hne he
          subst hr
          exact ⟨rfl, fun heq => hsplit (he.trans (congrArg Except.error (Except.error.inj heq)))⟩
        · subst hr
          exact ⟨rfl, by simp⟩

theorem run_lockingHeapMalloc_release (h : lockingHeapMalloc a size offsetNull = some r)
    (hget : a.GetsLock size offsetNull) (rest : List (LockEvent HeapLock)) :
    LockTrace.run ∅ (r.2 ++ .release .dlock :: rest) = LockTrace.run ∅ rest := by
  obtain ⟨-, htrace, -⟩ | ⟨hnot, -⟩ := lockingHeapMalloc_cases h
  · rw [htrace]
    rfl
  · exact absurd hget hnot

theorem run_lockingHeapMalloc_release_of_not (h : lockingHeapMalloc a size offsetNull = some r)
    (hnot : ¬ a.GetsLock size offsetNull) (rest : List (LockEvent HeapLock)) :
    LockTrace.run ∅ (r.2 ++ .release .dlock :: rest) = none := by
  obtain ⟨hget, -⟩ | ⟨-, htrace, -⟩ := lockingHeapMalloc_cases h
  · exact absurd hget hnot
  · rw [htrace]
    rfl

theorem disciplined_release_iff (h : lockingHeapMalloc a size offsetNull = some r) :
    LockTrace.Disciplined (r.2 ++ [.release .dlock]) ↔ a.GetsLock size offsetNull := by
  unfold LockTrace.Disciplined
  by_cases hget : a.GetsLock size offsetNull
  · rw [run_lockingHeapMalloc_release h hget]
    exact iff_of_true rfl hget
  · rw [run_lockingHeapMalloc_release_of_not h hget]
    exact iff_of_false (by simp) hget

/-- Only the attempt that finds the heap destroyed may come without the lock. -/
def HeapAttempt.Sound (size : ℕ) (offsetNull : Bool) (a : HeapAttempt) : Prop :=
  a.GetsLock size offsetNull ∨ a.FindsDestroyed size offsetNull

/-- The heap was not destroyed for an attempt that ends otherwise. -/
theorem sound_iff_getsLock (h : lockingHeapMalloc a size offsetNull = some r)
    (hne : r.1 ≠ .error .objectDestroyed) :
    a.Sound size offsetNull ↔ a.GetsLock size offsetNull := by
  constructor
  · rintro (hget | hdestroyed)
    · exact hget
    · obtain ⟨hget, -⟩ | ⟨-, -, hiff⟩ := lockingHeapMalloc_cases h
      · exact hget
      · exact absurd (hiff.mpr hdestroyed) hne
  · exact Or.inl

theorem not_findsNoBlock (h : lockingHeapMalloc a size offsetNull = some r)
    (hr : r.1 ≠ .error .dynheapRequestedSizeNotAvailable) : ¬ a.FindsNoBlock size offsetNull := by
  rintro ⟨trace, htrace⟩
  exact hr (congrArg Prod.fst (Option.some.inj (h.symm.trans htrace)))

theorem heapAttempts_of_not {rounds : List HeapRound}
    (hnot : ¬ a.FindsNoBlock size offsetNull) :
    heapAttempts size offsetNull a rounds = [a] := by
  cases rounds with
  | nil => rfl
  | cons round rounds => exact if_neg fun hcon => hnot hcon.1

/-- What comes after the loop. -/
theorem disciplined_end_iff {r' : Except DragonError ℕ × List (LockEvent HeapLock)}
    (h : lockingHeapMalloc a size offsetNull = some r)
    (h' : (if r.1 = .error .objectDestroyed then some (r.1, [])
      else some (r.1, [.release .dlock])) = some r') :
    LockTrace.Disciplined (r.2 ++ r'.2) ↔ a.Sound size offsetNull := by
  split_ifs at h' with hr
  · obtain rfl := Option.some.inj h'
    obtain ⟨-, -, hne⟩ | ⟨-, htrace, hiff⟩ := lockingHeapMalloc_cases h
    · exact absurd hr hne
    · rw [htrace]
      exact iff_of_true rfl (.inr (hiff.mp hr))
  · obtain rfl := Option.some.inj h'
    rw [disciplined_release_iff h, sound_iff_getsLock h hr]

/-- **The loop keeps the discipline iff each attempt of it is sound.** -/
theorem retryHeapMalloc_disciplined_iff {rounds : List HeapRound}
    {r' : Except DragonError ℕ × List (LockEvent HeapLock)}
    (h : lockingHeapMalloc a size offsetNull = some r)
    (h' : retryHeapMalloc size offsetNull rounds r.1 = some r') :
    LockTrace.Disciplined (r.2 ++ r'.2) ↔
      ∀ a' ∈ heapAttempts size offsetNull a rounds, a'.Sound size offsetNull := by
  induction rounds generalizing a r r' with
  | nil =>
    unfold retryHeapMalloc at h'
    by_cases hno : r.1 = .error .dynheapRequestedSizeNotAvailable
    · rw [if_pos hno] at h'
      cases h'
    · rw [if_neg hno] at h'
      rw [heapAttempts_of_not (not_findsNoBlock h hno), List.forall_mem_singleton]
      exact disciplined_end_iff h h'
  | cons round rounds ih =>
    unfold retryHeapMalloc at h'
    by_cases hno : r.1 = .error .dynheapRequestedSizeNotAvailable
    · rw [if_pos hno] at h'
      have hne : r.1 ≠ .error .objectDestroyed := by
        rw [hno]
        simp
      have hfinds : a.FindsNoBlock size offsetNull := ⟨r.2, by rw [h, ← hno]⟩
      unfold heapAttempts
      -- a failing clock and a failing wait end the call, one with the lock and one without
      cases hremaining : round.remaining with
      | error e =>
        simp only [hremaining] at h'
        obtain rfl := Option.some.inj h'
        rw [if_neg (fun hcon => by cases hcon.2.1), List.forall_mem_singleton,
          disciplined_release_iff h, sound_iff_getsLock h hne]
      | ok u =>
        cases hwait : round.wait with
        | error e =>
          simp only [hremaining, hwait] at h'
          obtain rfl := Option.some.inj h'
          rw [if_neg (fun hcon => by cases hcon.2.2), List.forall_mem_singleton,
            disciplined_release_iff h, sound_iff_getsLock h hne]
        | ok v =>
          simp only [hremaining, hwait] at h'
          obtain ⟨r₁, hr₁, h'⟩ := Option.bind_eq_some_iff.mp h'
          obtain ⟨r₂, hr₂, rfl⟩ := Option.map_eq_some_iff.mp h'
          rw [if_pos ⟨hfinds, rfl, rfl⟩, List.forall_mem_cons, sound_iff_getsLock h hne]
          by_cases hget : a.GetsLock size offsetNull
          · rw [and_iff_right hget]
            unfold LockTrace.Disciplined
            rw [List.cons_append, run_lockingHeapMalloc_release h hget]
            exact ih hr₁ hr₂
          · unfold LockTrace.Disciplined
            rw [List.cons_append, run_lockingHeapMalloc_release_of_not h hget]
            exact iff_of_false (by simp) fun hcon => hget hcon.1
    · rw [if_neg hno] at h'
      rw [heapAttempts_of_not (not_findsNoBlock h hno), List.forall_mem_singleton]
      exact disciplined_end_iff h h'

end Locks

/-- **The lock of a blocking malloc.**  Whatever the heap is at each attempt, and whatever the locks
and the waits return, a call that returns has released the lock only while it held it, and does not
hold it, iff each attempt of it has taken the lock or, where the timeout is not zero, has found the
heap destroyed. -/
theorem dragonHeapMallocBlocking_disciplined_iff (first : HeapAttempt) (size : ℕ)
    (offsetNull zero : Bool) (rounds : List HeapRound)
    (r : Except DragonError ℕ × List (LockEvent HeapLock))
    (h : dragonHeapMallocBlocking first size offsetNull zero rounds = some r) :
    LockTrace.Disciplined r.2 ↔
      if zero then first.GetsLock size offsetNull
      else ∀ a ∈ heapAttempts size offsetNull first rounds,
        a.GetsLock size offsetNull ∨ a.FindsDestroyed size offsetNull := by
  unfold dragonHeapMallocBlocking at h
  obtain ⟨r₀, hr₀, h⟩ := Option.bind_eq_some_iff.mp h
  cases zero with
  | true =>
    obtain rfl := Option.some.inj h
    exact disciplined_release_iff hr₀
  | false =>
    obtain ⟨index, hindex, h⟩ := Option.bind_eq_some_iff.mp h
    obtain ⟨r₁, hr₁, rfl⟩ := Option.map_eq_some_iff.mp h
    exact retryHeapMalloc_disciplined_iff hr₀ hr₁

/-- One block of 32 bytes that is free. -/
theorem dragonHeapMallocBlocking_disciplined_iff_one_block :
    ∃ r, dragonHeapMallocBlocking ⟨initialHeap (fun _ _ => 0) (fun _ => 0) 6 5 none, .ok ()⟩ 32
        false false [] = some r ∧
      (LockTrace.Disciplined r.2 ↔
        if false then
          HeapAttempt.GetsLock 32 false ⟨initialHeap (fun _ _ => 0) (fun _ => 0) 6 5 none, .ok ()⟩
        else ∀ a ∈ heapAttempts 32 false
            ⟨initialHeap (fun _ _ => 0) (fun _ => 0) 6 5 none, .ok ()⟩ [],
          a.GetsLock 32 false ∨ a.FindsDestroyed 32 false) :=
  ⟨(.ok 0, [.acquire .dlock, .release .dlock]), by decide +kernel,
    dragonHeapMallocBlocking_disciplined_iff _ 32 false false [] _ (by decide +kernel)⟩

/-- A request that is larger than the biggest block ends with a release of a lock that was not
taken. -/
theorem dragonHeapMallocBlocking_not_disciplined :
    ∃ r, dragonHeapMallocBlocking ⟨initialHeap (fun _ _ => 0) (fun _ => 0) 6 5 none, .ok ()⟩ 65
        false false [] = some r ∧ ¬ LockTrace.Disciplined r.2 :=
  ⟨(.error .dynheapRequestedSizeTooLarge, [.release .dlock]), by decide +kernel, by decide⟩
