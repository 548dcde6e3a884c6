/-
# The evaluations of `_powerof2` (`src/lib/heap_manager.c`)

`_dragon_heap_malloc` and `dragon_heap_free` compare the size with that of the heap before they
evaluate `_powerof2`.  `dragon_heap_malloc_blocking` evaluates it once more for its own use, after
its first attempt and whatever that attempt has returned.
-/
import DragonRuntime.HeapMallocBlocking

/-- A call of the user API, with what each attempt finds. -/
inductive HeapCall : Type where
  | malloc (a : HeapAttempt) (size : ℕ) (offsetNull : Bool)
  | mallocBlocking (first : HeapAttempt) (size : ℕ) (offsetNull zero : Bool)
      (rounds : List HeapRound)
  | free (a : HeapAttempt) (offset size : ℕ)

/-- The evaluations of `_powerof2` by `_dragon_heap_malloc`: the arguments. -/
def mallocEvaluations (size : ℕ) (offsetNull : Bool) (a : HeapAttempt) : List (ℕ × ℕ) :=
  if offsetNull = true ∨ a.heap.segmentSize = 0 ∨ a.heap.biggestBlock < size then []
  else [(size, a.heap.segmentSize)]

namespace HeapCall

/-- The evaluations of `_powerof2` that the call reaches. -/
def evaluations : HeapCall → List (ℕ × ℕ)
  | malloc a size offsetNull => mallocEvaluations size offsetNull a
  | mallocBlocking first size offsetNull zero rounds =>
    if zero then mallocEvaluations size offsetNull first
    else (size, first.heap.segmentSize) ::
      (heapAttempts size offsetNull first rounds).flatMap (mallocEvaluations size offsetNull)
  | free a offset size =>
    if a.heap.segmentSize = 0 ∨ a.heap.totalSize < offset ∨ a.heap.totalSize < size ∨
      ¬ Succeeds a.lock then []
    else [(size, a.heap.segmentSize)]

def size : HeapCall → ℕ
  | malloc _ size _ | mallocBlocking _ size _ _ _ | free _ _ size => size

/-- What the attempts of the call find. -/
def attempts : HeapCall → List HeapAttempt
  | malloc a _ _ | free a _ _ => [a]
  | mallocBlocking first size offsetNull zero rounds =>
    if zero then [first] else heapAttempts size offsetNull first rounds

/-- The call evaluates `_powerof2` whatever the size is. -/
def Unchecked : HeapCall → Prop
  | mallocBlocking _ _ _ zero _ => zero = false
  | _ => False

end HeapCall

/-- The evaluation terminates, with the least power that is large enough. -/
def EvaluatesToLeast (arguments : ℕ × ℕ) : Prop :=
  ∃ fuel p, powerof2Loop arguments.1 fuel arguments.2 0 = some p ∧
    arguments.1 ≤ arguments.2 * 2 ^ p ∧ ∀ q, arguments.1 ≤ arguments.2 * 2 ^ q → p ≤ q

theorem evaluatesToLeast_of_le {size m : ℕ} (hm : m ≤ 63) (hsize : size ≤ 2 ^ 63) :
    EvaluatesToLeast (size, 2 ^ m) := by
  have hfit : m + (63 - m) = 63 := Nat.add_sub_cancel' hm
  obtain ⟨p, -, hloop, hle, hleast⟩ :=
    powerof2Loop_eq (m := m) hfit.le (hfit.symm ▸ hsize) 65 0 (Nat.zero_le _) (by omega)
  refine ⟨65, p, hloop, (pow_add 2 m p).symm ▸ hle, fun q hq => ?_⟩
  by_contra hlt
  have hsmall := hleast q (Nat.zero_le q) (Nat.lt_of_not_le hlt)
  rw [pow_add] at hsmall
  exact absurd hq (Nat.not_le.mpr hsmall)

/-- **The loop runs forever** for more than `2^63` bytes: the doubling wraps around to zero. -/
theorem powerof2Loop_runs_forever {size : ℕ} (hsize : 2 ^ 63 < size) (fuel i power : ℕ) :
    powerof2Loop size fuel (2 ^ i % 2 ^ 64) power = none := by
  induction fuel generalizing i power with
  | zero => rfl
  | succ fuel ih =>
    have hlt : 2 ^ i % 2 ^ 64 < size := by
      rcases Nat.lt_or_ge i 64 with hi | hi
      · have hpow : 2 ^ i ≤ 2 ^ 63 := Nat.pow_le_pow_right (by decide) (Nat.le_of_lt_succ hi)
        exact (Nat.mod_le _ _).trans_lt (hpow.trans_lt hsize)
      · rw [Nat.mod_eq_zero_of_dvd (Nat.pow_dvd_pow 2 hi)]
        exact Nat.zero_lt_of_lt hsize
    unfold powerof2Loop
    rw [if_pos hlt, Nat.mod_mul_mod, ← pow_succ]
    exact ih (i + 1) (power + 1)

theorem not_evaluatesToLeast {size m : ℕ} (hm : m < 64) (hsize : 2 ^ 63 < size) :
    ¬ EvaluatesToLeast (size, 2 ^ m) := by
  rintro ⟨fuel, p, hloop, -⟩
  have hnone := powerof2Loop_runs_forever hsize fuel m 0
  rw [Nat.mod_eq_of_lt (Nat.pow_lt_pow_right (by decide) hm)] at hnone
  exact absurd (hloop.symm.trans hnone) nofun

/-- An attempt on a heap. -/
theorem evaluates_mallocEvaluations {a : HeapAttempt} {n m size : ℕ} {offsetNull : Bool}
    (h : HeapShape a.heap n m) :
    ∀ e ∈ mallocEvaluations size offsetNull a, EvaluatesToLeast e := by
  have htotal : 2 ^ (m + (n - 1)) ≤ 2 ^ 63 := Nat.pow_le_pow_right (by decide) (by
    have := h.power_le
    omega)
  intro e he
  unfold mallocEvaluations at he
  split_ifs at he with hreject
  · cases he
  · push Not at hreject
    rw [List.mem_singleton.mp he, h.segmentSize_eq]
    have := h.power_le
    exact evaluatesToLeast_of_le (by omega)
      (hreject.2.2.trans (h.biggestBlock_le.trans htotal))

/-- **The evaluations of `_powerof2`.**  For every call of `dragon_heap_malloc`,
`dragon_heap_malloc_blocking` and `dragon_heap_free` on heaps that are well-formed, whatever the
attempts find and the waits return: each evaluation that is reached terminates, with the least
power, iff the size is at most `2^63` or the call is not a blocking one with a timeout. -/
theorem heapCall_evaluations_iff (call : HeapCall)
    (hheap : ∀ a ∈ call.attempts, ∃ n m, HeapShape a.heap n m) :
    (∀ e ∈ call.evaluations, EvaluatesToLeast e) ↔ (call.Unchecked → call.size ≤ 2 ^ 63) := by
  cases call with
  | malloc a size offsetNull =>
    obtain ⟨n, m, h⟩ := hheap a List.mem_cons_self
    exact iff_of_true (evaluates_mallocEvaluations h) nofun
  | free a offset size =>
    obtain ⟨n, m, h⟩ := hheap a List.mem_cons_self
    refine iff_of_true (fun e he => ?_) nofun
    unfold HeapCall.evaluations at he
    dsimp only at he
    split_ifs at he with hreject
    · cases he
    · push Not at hreject
      rw [List.mem_singleton.mp he, h.segmentSize_eq]
      have hpower := h.power_le
      refine evaluatesToLeast_of_le (by omega) (hreject.2.2.1.trans ?_)
      rw [h.totalSize_eq]
      exact Nat.pow_le_pow_right (by decide) (by omega)
  | mallocBlocking first size offsetNull zero rounds =>
    cases zero with
    | true =>
      obtain ⟨n, m, h⟩ := hheap first List.mem_cons_self
      exact iff_of_true (evaluates_mallocEvaluations h) nofun
    | false =>
      have hfirst : first ∈ heapAttempts size offsetNull first rounds := by
        cases rounds with
        | nil => exact List.mem_cons_self
        | cons round rounds =>
          unfold heapAttempts
          split_ifs
          · exact List.mem_cons_self
          · exact List.mem_cons_self
      obtain ⟨n, m, h⟩ := hheap first hfirst
      have hpower := h.power_le
      have hlater : ∀ e ∈ (heapAttempts size offsetNull first rounds).flatMap
          (mallocEvaluations size offsetNull), EvaluatesToLeast e := by
        intro e he
        obtain ⟨a, ha, hmem⟩ := List.mem_flatMap.mp he
        obtain ⟨n', m', h'⟩ := hheap a ha
        exact evaluates_mallocEvaluations h' e hmem
      show (∀ e ∈ (size, first.heap.segmentSize) :: _, EvaluatesToLeast e) ↔
        (false = false → size ≤ 2 ^ 63)
      rw [List.forall_mem_cons, and_iff_left hlater, h.segmentSize_eq]
      constructor
      · intro hright _
        by_contra hlarge
        exact not_evaluatesToLeast (by omega) (Nat.lt_of_not_le hlarge) hright
      · intro hsize
        exact evaluatesToLeast_of_le (by omega) (hsize rfl)

/-- A blocking call for 100 bytes of a heap of two segments of 32 bytes. -/
theorem heapCall_evaluations_iff_100 : EvaluatesToLeast (100, 2 ^ 5) :=
  (heapCall_evaluations_iff (.mallocBlocking ⟨heapInitBase (fun _ _ => 0) (fun _ => 0) 6 5, .ok ()⟩
    100 false false []) fun a ha => by
      obtain rfl := List.mem_singleton.mp ha
      exact ⟨2, 5, heapShape_heapInitBase _ _ (by decide) (by decide)⟩).mpr
    (fun _ => by decide) (100, 2 ^ 5) List.mem_cons_self

/-- **A blocking call that does not return**, for `2^63 + 1` bytes: its first attempt has answered
that the size is too large. -/
theorem mallocBlocking_runs_forever :
    ¬ ∀ e ∈ (HeapCall.mallocBlocking ⟨heapInitBase (fun _ _ => 0) (fun _ => 0) 6 5, .ok ()⟩
      (2 ^ 63 + 1) false false []).evaluations, EvaluatesToLeast e :=
  fun h => not_evaluatesToLeast (m := 5) (by decide) (Nat.lt_succ_self _)
    (h (2 ^ 63 + 1, 2 ^ 5) List.mem_cons_self)
