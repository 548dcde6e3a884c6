/-
# Traces of lock operations

General infrastructure for code that takes locks and gives them back by hand.  An execution is seen
as the list of the operations that it makes on locks.  Such a trace leads from the locks that are
held before it to those that are held after it, or to nothing: a lock was released by one who did
not hold it, or taken by one who did.
-/
import Mathlib

inductive LockEvent (L : Type*) : Type _ where
  | acquire (l : L)
  | release (l : L)
  deriving DecidableEq

namespace LockTrace

variable {L : Type*} [DecidableEq L]

/-- The locks that are held after a trace. -/
def run : Finset L → List (LockEvent L) → Option (Finset L)
  | held, [] => some held
  | held, .acquire l :: trace => if l ∈ held then none else run (insert l held) trace
  | held, .release l :: trace => if l ∈ held then run (held.erase l) trace else none

/-- Locks are released only while they are held, and none is held at the end. -/
def Disciplined (trace : List (LockEvent L)) : Prop := run ∅ trace = some ∅

instance (trace : List (LockEvent L)) : Decidable (Disciplined trace) :=
  inferInstanceAs (Decidable (_ = _))

variable {held : Finset L} {trace : List (LockEvent L)} {l : L}

theorem run_acquire (h : l ∉ held) :
    run held (.acquire l :: trace) = run (insert l held) trace := if_neg h

theorem run_release (h : l ∈ held) : run held (.release l :: trace) = run (held.erase l) trace :=
  if_pos h

/-- A lock that is taken and given back at once. -/
theorem disciplined_pair :
    Disciplined (.acquire l :: .release l :: trace) ↔ Disciplined trace := by
  unfold Disciplined
  rw [run_acquire (Finset.notMem_empty l), run_release (Finset.mem_insert_self l ∅),
    Finset.erase_insert (Finset.notMem_empty l)]

end LockTrace
