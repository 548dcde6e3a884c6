/-
# Stacks of layers

A stack of layers over one key: a layer says nothing about the key (`none`), that the key
is deleted (`some none`), or which value it has (`some (some v)`).  A reader sees what the
newest layer with an opinion says (`visible`, newest layer first).  A writer who folds the
layers from the oldest on, each one over the result so far, ends with the same
(`foldl_cover`).
-/
import Mathlib

namespace Overlay

variable {V : Type*}

/-- What a reader of the stack sees, newest layer first. -/
def visible : List (Option (Option V)) → Option V
  | [] => none
  | none :: rest => visible rest
  | some said :: _ => said

@[simp] theorem visible_none (rest : List (Option (Option V))) :
    visible (none :: rest) = visible rest := rfl

@[simp] theorem visible_some (said : Option V) (rest : List (Option (Option V))) :
    visible (some said :: rest) = said := rfl

/-- Only what is visible of the older layers matters. -/
theorem visible_append_congr {old old' : List (Option (Option V))}
    (h : visible old = visible old') (new : List (Option (Option V))) :
    visible (new ++ old) = visible (new ++ old') := by
  induction new with
  | nil => exact h
  | cons layer new ih =>
    cases layer with
    | none => exact ih
    | some said => rfl

/-- A layer over a value. -/
def cover (value : Option V) (layer : Option (Option V)) : Option V := layer.getD value

/-- **Folding from the oldest layer on** gives what is visible from the newest layer on. -/
theorem foldl_cover (layers : List (Option (Option V))) :
    layers.foldl cover none = visible layers.reverse := by
  induction layers using List.reverseRecOn with
  | nil => rfl
  | append_singleton _ layer ih =>
    rw [List.foldl_append, List.reverse_append, ih]
    cases layer with
    | none => rfl
    | some said => rfl

end Overlay
