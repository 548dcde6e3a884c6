/-
# Return codes of the C library

The `dragonError_t` codes that the modelled functions return.  `DRAGON_SUCCESS`
is not among them: a call that returns it is `Except.ok`.
-/
import Mathlib

/-- The error codes of `return_codes.h` that the modelled functions return. -/
inductive DragonError : Type where
  | failure
  | invalidArgument
  | outOfSpace
  | keyNotFound
  | objectDestroyed
  | bitsetBoundsError
  | bitsetIterationComplete
  | dynheapInvalidPointer
  | dynheapMaxBlockSizeTooLarge
  | dynheapMinBlockSizeTooSmall
  | dynheapRequestedSizeTooLarge
  | dynheapRequestedSizeNotAvailable
  | hashtableTooBig
  | hashtableFull
  | hashtableKeyNotFound
  | priorityHeapInvalidArgument
  | priorityHeapInvalidBase
  | priorityHeapFull
  | priorityHeapEmpty
  | mapKeyNotFound
  | memoryOperationAttemptOnNonlocalPool
  | bcastNotSerializable
  | bcastNoWaiters
  | bcastNoWaitersNonCritical
  | barrierBroken
  | barrierWaitTryAgain
  | barrierReadyToRelease
  | channelEmpty
  | channelFull
  | channelBufferError
  | channelSendMessageMemoryNull
  | channelSendInvalidDestinationMemory
  | channelRecvInvalidDestinationMemory
  | timeout
  | eagain
  | eot
  | internalMallocFail
  | invalidOperation
  | invalidValue
  | channelOperationUnsupportedRemotely
  | channelEventCapacityExceeded
  | bcastInsufficientWaiters
  | bcastDeadWaiter
  | bcastHandleError
  | bcastIdleWaitCallError
  | memoryErrno
  | blocksIterationComplete
  | hashtableIterationComplete
  /-- No return code: the signal for a division by zero, which stops the process. -/
  | sigfpe
  /-- No return code: the call has written over its own memory, and anything can follow. -/
  | sigsegv
  deriving DecidableEq, Repr, Inhabited

/-- The call returned `DRAGON_SUCCESS`. -/
def Succeeds {α : Type*} : Except DragonError α → Prop
  | .ok _ => True
  | .error _ => False

instance {α : Type*} (r : Except DragonError α) : Decidable (Succeeds r) :=
  match r with
  | .ok _ => isTrue trivial
  | .error _ => isFalse not_false

@[simp] theorem succeeds_ok {α : Type*} (a : α) :
    Succeeds (.ok a : Except DragonError α) := trivial

@[simp] theorem not_succeeds_error {α : Type*} (e : DragonError) :
    ¬ Succeeds (.error e : Except DragonError α) := not_false
