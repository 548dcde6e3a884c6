/-
# The message blocks of a channel (`src/lib/channels.c`)

A channel of capacity `n` has `n` message blocks.  A free block is in the usage table (UT), a
block with a message is in an entry of the ordering table (OT), and each table has its own lock.
`_send_msg` takes a block out of the UT, writes the payload or a serialized descriptor to it
without a lock, and enters it in the OT; `_get_msg` and `_pop` take the entry out of the OT, read
the payload without a lock, and return the block to the UT.

Conventions:

* a lock-protected section is a step, and so is the unprotected part between two sections; the
  tables are lists in the order in which the priority heaps yield their items;
* the memory pools are not modelled here: the return codes of the functions of the memory library
  are arguments of the steps (`SendCalls`, `GetCalls`, ...), so that every failing exit is taken
  by some step;
* functions that fail for a null pointer only are total: `_fast_copy`, `_pack_ot_item`,
  `_unpack_ot_item` and the functions for the attributes of a message;
* wake-ups and the events of channel sets change neither a table nor a count and are left out.
-/
import DragonRuntime.Custody
import DragonRuntime.ReturnCodes
import DragonRuntime.Runs

/-- An entry of the ordering table. -/
structure OtItem where
  mblk : ℕ
  nbytes : ℕ
  isSerializedDescr : Bool
  clientid : ℕ
  hints : ℕ
  sendhid : ℕ
  deriving DecidableEq

/-! ## The unprotected parts -/

/-- What `_send_msg` is called with. -/
structure SendArgs where
  msgBytes : ℕ
  /-- a destination memory was given -/
  dest : Bool
  sendTransferOwnership : Bool
  noCopyReadOnly : Bool
  /-- the length of the descriptor that goes to the block, if one does -/
  serializedLen : ℕ
  blocking : Bool
  /-- it is blocking and has an end time -/
  timed : Bool
  clientid : ℕ
  hints : ℕ
  sendhid : ℕ
  deriving DecidableEq

/-- The return codes of the calls of the memory library in `_send_msg`. -/
structure SendCalls where
  copyPayload : Except DragonError Unit
  putSerializedDesc : Except DragonError Unit
  memoryFree : Except DragonError Unit
  poolAttach : Except DragonError Unit
  timespecRemaining : Except DragonError Unit
  memoryAlloc : Except DragonError Unit
  poolDetach : Except DragonError Unit

/-- How `_send_msg` leaves its part between the two locks. -/
inductive SendExit : Type where
  /-- to the label `ch_send_fail` -/
  | chSendFail (e : DragonError)
  /-- with a return -/
  | ret (e : DragonError)

/-- The `goto` after a call that failed. -/
def orFail (r : Except DragonError Unit) : Except SendExit Unit := r.mapError .chSendFail

/-- The `return` after a call that failed. -/
def orReturn (r : Except DragonError Unit) : Except SendExit Unit := r.mapError .ret

/-- The routes of `_send_msg` for the payload: the number of bytes in the block, and whether they
are a serialized descriptor. -/
def fillBlock (bytesPerMsgBlock : ℕ) (bufferPool : Bool) (args : SendArgs) (calls : SendCalls) :
    Except SendExit (ℕ × Bool) := do
  if args.dest then
    orFail calls.copyPayload
    orFail calls.putSerializedDesc
    if args.sendTransferOwnership then
      orReturn calls.memoryFree
    return (args.serializedLen, true)
  else if args.sendTransferOwnership || args.noCopyReadOnly then
    orFail calls.putSerializedDesc
    return (args.serializedLen, true)
  else if args.msgBytes ≤ bytesPerMsgBlock then
    return (args.msgBytes, false)
  else if bufferPool then
    orFail calls.poolAttach
    if args.timed then
      orFail calls.timespecRemaining
    orFail calls.memoryAlloc
    orFail calls.copyPayload
    orFail calls.putSerializedDesc
    orFail calls.poolDetach
    return (args.serializedLen, true)
  else
    if args.timed then
      orFail calls.timespecRemaining
    orFail calls.memoryAlloc
    orFail calls.copyPayload
    orFail calls.putSerializedDesc
    return (args.serializedLen, true)

/-- The part does not end with a return. -/
def NeverReturns {α : Type*} (x : Except SendExit α) : Prop := ∀ e, x ≠ .error (.ret e)

theorem neverReturns_pure {α : Type*} (a : α) : NeverReturns (pure a : Except SendExit α) :=
  nofun

theorem neverReturns_orFail (r : Except DragonError Unit) : NeverReturns (orFail r) := by
  cases r with
  | ok _ => exact nofun
  | error e => exact nofun

theorem NeverReturns.bind {α β : Type} {x : Except SendExit α} {f : α → Except SendExit β}
    (hx : NeverReturns x) (hf : ∀ a, NeverReturns (f a)) : NeverReturns (x >>= f) := by
  cases x with
  | ok a => exact hf a
  | error exit =>
    intro e heq
    injection heq with heq
    exact hx e (congrArg Except.error heq)

theorem neverReturns_sideBuffer (timed : Bool) (calls : SendCalls) {β : Type}
    {k : Except SendExit β} (hk : NeverReturns k) :
    NeverReturns (do
      if timed then
        orFail calls.timespecRemaining
      orFail calls.memoryAlloc
      orFail calls.copyPayload
      orFail calls.putSerializedDesc
      k) := by
  have hbuffer : NeverReturns (do
      orFail calls.memoryAlloc
      orFail calls.copyPayload
      orFail calls.putSerializedDesc
      k) :=
    .bind (neverReturns_orFail _) fun _ => .bind (neverReturns_orFail _) fun _ =>
      .bind (neverReturns_orFail _) fun _ => hk
  cases timed with
  | false => exact hbuffer
  | true => exact .bind (neverReturns_orFail _) fun _ => hbuffer

/-- The only return on the way is the one after the memory of the sender could not be freed. -/
theorem fillBlock_ret_iff (bytesPerMsgBlock : ℕ) (bufferPool : Bool) (args : SendArgs)
    (calls : SendCalls) :
    (∃ e, fillBlock bytesPerMsgBlock bufferPool args calls = .error (.ret e)) ↔
      args.dest = true ∧ args.sendTransferOwnership = true ∧ Succeeds calls.copyPayload ∧
        Succeeds calls.putSerializedDesc ∧ ¬ Succeeds calls.memoryFree := by
  unfold fillBlock
  by_cases hdest : args.dest = true
  · rw [if_pos hdest]
    simp only [hdest, true_and]
    cases calls.copyPayload with
    | error e => simp [orFail, Except.mapError, bind, Except.bind]
    | ok _ =>
      cases calls.putSerializedDesc with
      | error e => simp [orFail, Except.mapError, bind, Except.bind]
      | ok _ =>
        cases args.sendTransferOwnership with
        | false => simp [orFail, Except.mapError, bind, Except.bind, pure, Except.pure]
        | true =>
          cases calls.memoryFree with
          | error e => simp [orFail, orReturn, Except.mapError, bind, Except.bind]
          | ok _ =>
            simp [orFail, orReturn, Except.mapError, bind, Except.bind, pure, Except.pure]
  · rw [if_neg hdest]
    refine iff_of_false ?_ fun h => hdest h.1
    rintro ⟨e, heq⟩
    revert heq
    show _ ≠ _
    revert e
    show NeverReturns _
    by_cases hcopy : (args.sendTransferOwnership || args.noCopyReadOnly) = true
    · rw [if_pos hcopy]
      exact .bind (neverReturns_orFail _) fun _ => neverReturns_pure _
    rw [if_neg hcopy]
    by_cases hfits : args.msgBytes ≤ bytesPerMsgBlock
    · rw [if_pos hfits]
      exact neverReturns_pure _
    rw [if_neg hfits]
    cases bufferPool with
    | true =>
      exact .bind (neverReturns_orFail _) fun _ => neverReturns_sideBuffer args.timed calls
        (.bind (neverReturns_orFail _) fun _ => neverReturns_pure _)
    | false => exact neverReturns_sideBuffer args.timed calls (neverReturns_pure _)

/-- What `_get_msg` is called with. -/
structure GetArgs where
  /-- the size of the landing pad, if one was given -/
  landing : Option ℕ
  /-- the payload is in the landing pad already -/
  inPlace : Bool
  blocking : Bool
  timed : Bool
  deriving DecidableEq

/-- The return codes of the calls of the memory library in `_get_msg`, under the lock of the OT
and after it. -/
structure GetCalls where
  memoryAttach : Except DragonError Unit
  memoryGetSize : Except DragonError Unit
  /-- the size of the memory that was attached to -/
  memSize : ℕ
  destGetSize : Except DragonError Unit
  destGetPool : Except DragonError Unit
  landingAlloc : Except DragonError Unit
  malloc : Except DragonError Unit
  timespecRemaining : Except DragonError Unit
  memoryAlloc : Except DragonError Unit

/-- The part of `_get_msg` before the entry is taken out.  The result is the code of the
allocation for a landing pad of no bytes: if that fails, the message is discarded. -/
def checkMsg (item : OtItem) (args : GetArgs) (calls : GetCalls) :
    Except DragonError (Except DragonError Unit) := do
  if item.isSerializedDescr then
    calls.memoryAttach
    calls.memoryGetSize
  match args.landing with
  | some destMemSize =>
    calls.destGetSize
    if destMemSize = 0 then
      calls.destGetPool
      return calls.landingAlloc
    else if destMemSize < (if item.isSerializedDescr then calls.memSize else item.nbytes) then
      throw .channelRecvInvalidDestinationMemory
    else return .ok ()
  | none =>
    if !item.isSerializedDescr then
      calls.malloc
      if args.timed then
        calls.timespecRemaining
      calls.memoryAlloc
    return .ok ()

structure UnpackCalls where
  malloc : Except DragonError Unit
  memoryAttach : Except DragonError Unit
  memoryGetPointer : Except DragonError Unit
  copyPayload : Except DragonError Unit
  destGetPointer : Except DragonError Unit
  modifySize : Except DragonError Unit
  memoryFree : Except DragonError Unit

/-- The part of `_get_msg` after the entry was taken out. -/
def unpackMsg (item : OtItem) (args : GetArgs) (allocErr : Except DragonError Unit)
    (calls : UnpackCalls) : Except DragonError Unit := do
  if item.isSerializedDescr then
    calls.malloc
    calls.memoryAttach
    calls.memoryGetPointer
  match args.landing with
  | none =>
    if !item.isSerializedDescr then
      calls.copyPayload
  | some _ =>
    match allocErr with
    | .ok _ =>
      calls.destGetPointer
      if !args.inPlace then
        calls.modifySize
        if item.isSerializedDescr then
          calls.memoryFree
    | .error _ =>
      if item.isSerializedDescr then
        calls.memoryFree

/-- The calls that `unpackMsg` makes all succeed. -/
def Unpacks (item : OtItem) (args : GetArgs) (allocErr : Except DragonError Unit)
    (calls : UnpackCalls) : Prop :=
  (item.isSerializedDescr = true →
    Succeeds calls.malloc ∧ Succeeds calls.memoryAttach ∧ Succeeds calls.memoryGetPointer) ∧
  (args.landing = none → item.isSerializedDescr = false → Succeeds calls.copyPayload) ∧
  (args.landing ≠ none → Succeeds allocErr → Succeeds calls.destGetPointer) ∧
  (args.landing ≠ none → Succeeds allocErr → args.inPlace = false → Succeeds calls.modifySize) ∧
  (args.landing ≠ none → (Succeeds allocErr → args.inPlace = false) →
    item.isSerializedDescr = true → Succeeds calls.memoryFree)

theorem succeeds_unit_bind_iff {β : Type} {x : Except DragonError Unit}
    {f : Unit → Except DragonError β} :
    Succeeds (x >>= f) ↔ Succeeds x ∧ Succeeds (f ()) := by
  cases x with
  | ok a => exact (and_iff_right trivial).symm
  | error e => exact (iff_of_eq (false_and _)).symm

@[simp] theorem succeeds_pure (a : Unit) : Succeeds (pure a : Except DragonError Unit) := trivial

theorem succeeds_unpackMsg_iff (item : OtItem) (args : GetArgs)
    (allocErr : Except DragonError Unit) (calls : UnpackCalls) :
    Succeeds (unpackMsg item args allocErr calls) ↔ Unpacks item args allocErr calls := by
  unfold unpackMsg Unpacks
  cases item.isSerializedDescr with
  | false =>
    cases args.landing with
    | none => simp
    | some n =>
      cases allocErr with
      | error e => simp
      | ok _ =>
        cases args.inPlace with
        | false => simp [succeeds_unit_bind_iff]
        | true => simp
  | true =>
    cases args.landing with
    | none => simp [succeeds_unit_bind_iff]
    | some n =>
      cases allocErr with
      | error e => simp [succeeds_unit_bind_iff, and_assoc]
      | ok _ =>
        cases args.inPlace with
        | false => simp [succeeds_unit_bind_iff, and_assoc]
        | true => simp [succeeds_unit_bind_iff, and_assoc]

/-- The return codes of the calls of the memory library in `_peek_msg`. -/
structure PeekCalls where
  memoryAttach : Except DragonError Unit
  memoryGetPointer : Except DragonError Unit
  memoryGetSize : Except DragonError Unit
  memSize : ℕ
  destGetSize : Except DragonError Unit
  malloc : Except DragonError Unit
  memoryAlloc : Except DragonError Unit
  copyPayload : Except DragonError Unit
  destGetPointer : Except DragonError Unit
  modifySize : Except DragonError Unit

/-- What `_peek_msg` does with the first entry, which stays where it is. -/
def peekItem (item : OtItem) (args : GetArgs) (calls : PeekCalls) : Except DragonError Unit := do
  if item.isSerializedDescr then
    calls.memoryAttach
    calls.memoryGetPointer
    calls.memoryGetSize
  match args.landing with
  | some dstBytes =>
    calls.destGetSize
    if dstBytes < (if item.isSerializedDescr then calls.memSize else item.nbytes) then
      throw .channelRecvInvalidDestinationMemory
    calls.destGetPointer
    if args.inPlace then
      throw .channelBufferError
    calls.modifySize
  | none =>
    calls.malloc
    calls.memoryAlloc
    calls.copyPayload

structure PopCalls where
  memoryAttach : Except DragonError Unit
  memoryFree : Except DragonError Unit

/-- The part of `_pop` after the entry was taken out. -/
def freePopped (item : OtItem) (calls : PopCalls) : Except DragonError Unit := do
  if item.isSerializedDescr then
    calls.memoryAttach
    calls.memoryFree

theorem succeeds_freePopped_iff (item : OtItem) (calls : PopCalls) :
    Succeeds (freePopped item calls) ↔
      (item.isSerializedDescr = true → Succeeds calls.memoryAttach ∧ Succeeds calls.memoryFree) := by
  unfold freePopped
  cases item.isSerializedDescr with
  | false => simp
  | true => simp [succeeds_unit_bind_iff]

/-! ## The channel and the calls in progress -/

/-- Where a call is. -/
inductive ChannelPhase : Type where
  | idle
  /-- in `_send_msg`, before the lock of the UT -/
  | sending (args : SendArgs)
  /-- in `_send_msg`, with a block from the UT -/
  | holding (args : SendArgs) (mblk : ℕ)
  /-- in `_send_msg`, with the payload in the block -/
  | filled (args : SendArgs) (mblk nbytes : ℕ) (isSerializedDescr : Bool)
  /-- at the label `ch_send_fail` -/
  | failing (mblk : ℕ) (e : DragonError)
  /-- in `_get_msg`, before the lock of the OT -/
  | getting (args : GetArgs)
  /-- in `_get_msg`, with an entry from the OT -/
  | got (args : GetArgs) (item : OtItem) (allocErr : Except DragonError Unit)
  /-- in `_peek_msg`, before the lock of the OT -/
  | peeking (args : GetArgs)
  /-- in `_pop`, with an entry from the OT -/
  | popped (item : OtItem)
  /-- before `_release_message_block_and_trigger_bcasts` -/
  | releasing (mblk : ℕ) (r : Except DragonError Unit)
  | returned (r : Except DragonError Unit)

namespace ChannelPhase

/-- The block in the hands of the call. -/
def block : ChannelPhase → Option ℕ
  | .holding _ mblk | .filled _ mblk _ _ | .failing mblk _ | .releasing mblk _ => some mblk
  | .got _ item _ | .popped item => some item.mblk
  | _ => none

/-- The call has begun and not returned. -/
def inProgress : ChannelPhase → Bool
  | .idle | .returned _ => false
  | _ => true

theorem block_eq_none {phase : ChannelPhase} (h : phase.inProgress = false) :
    phase.block = none := by
  cases phase with
  | idle => rfl
  | returned => rfl
  | _ => cases h

end ChannelPhase

/-- The channel, with the calls `ω`. -/
structure ChannelState (ω : Type*) where
  capacity : ℕ
  bytesPerMsgBlock : ℕ
  /-- a pool for side buffers was given -/
  bufferPool : Bool
  ut : List ℕ
  ot : List OtItem
  availableBlocks : ℕ
  availableMsgs : ℕ
  barrierCount : ℕ
  barrierBroken : Bool
  phase : ω → ChannelPhase

namespace ChannelState

variable {ω : Type*} [DecidableEq ω]

/-- A channel that was just made. -/
def init (capacity bytesPerMsgBlock : ℕ) (bufferPool : Bool) : ChannelState ω :=
  ⟨capacity, bytesPerMsgBlock, bufferPool, List.range capacity, [], capacity, 0, 0, false,
    fun _ => .idle⟩

def setPhase (s : ChannelState ω) (w : ω) (phase : ChannelPhase) : ChannelState ω :=
  { s with phase := Function.update s.phase w phase }

/-- The first part of `_send_msg`, without a lock. -/
def sendEnter (s : ChannelState ω) (w : ω) (args : SendArgs) : ChannelState ω :=
  if args.blocking = false ∧ s.availableBlocks = 0 then
    s.setPhase w (.returned (.error .channelFull))
  else s.setPhase w (.sending args)

/-- `_send_msg` under the lock of the UT. -/
def sendTake (s : ChannelState ω) (w : ω) (args : SendArgs) : ChannelState ω :=
  match s.ut with
  | [] => { s with availableBlocks := 0 }.setPhase w (.returned (.error .channelFull))
  | mblk :: ut =>
    { s with ut := ut, availableBlocks := s.availableBlocks - 1 }.setPhase w
      (.holding args mblk)

/-- `_send_msg` between the two locks. -/
def sendFill (s : ChannelState ω) (w : ω) (args : SendArgs) (mblk : ℕ) (calls : SendCalls) :
    ChannelState ω :=
  match fillBlock s.bytesPerMsgBlock s.bufferPool args calls with
  | .ok (nbytes, isSerializedDescr) => s.setPhase w (.filled args mblk nbytes isSerializedDescr)
  | .error (.chSendFail e) => s.setPhase w (.failing mblk e)
  | .error (.ret e) => s.setPhase w (.returned (.error e))

/-- `_send_msg` under the lock of the OT. -/
def sendInsert (s : ChannelState ω) (w : ω) (args : SendArgs) (mblk nbytes : ℕ)
    (isSerializedDescr : Bool) : ChannelState ω :=
  if s.capacity ≤ s.ot.length then s.setPhase w (.failing mblk .channelFull)
  else
    setPhase { s with
      ot := s.ot ++ [⟨mblk, nbytes, isSerializedDescr, args.clientid, args.hints, args.sendhid⟩]
      availableMsgs := s.availableMsgs + 1 } w (.returned (.ok ()))

/-- A block goes back to the UT: `_return_msgblk_to_ut`, and
`_release_message_block_and_trigger_bcasts`. -/
def returnBlock (s : ChannelState ω) (w : ω) (mblk : ℕ) (r : Except DragonError Unit) :
    ChannelState ω :=
  if s.capacity ≤ s.ut.length then s.setPhase w (.returned (.error .priorityHeapFull))
  else
    { s with ut := s.ut ++ [mblk], availableBlocks := s.availableBlocks + 1 }.setPhase w
      (.returned r)

/-- The first part of `_get_msg`, without a lock. -/
def getEnter (s : ChannelState ω) (w : ω) (args : GetArgs) : ChannelState ω :=
  if args.blocking = false ∧ s.availableMsgs = 0 then
    s.setPhase w (.returned (.error .channelEmpty))
  else s.setPhase w (.getting args)

/-- `_get_msg` under the lock of the OT. -/
def getTake (s : ChannelState ω) (w : ω) (args : GetArgs) (calls : GetCalls) : ChannelState ω :=
  match s.ot with
  | [] => { s with availableMsgs := 0 }.setPhase w (.returned (.error .channelEmpty))
  | item :: ot =>
    match checkMsg item args calls with
    | .error e => s.setPhase w (.returned (.error e))
    | .ok allocErr =>
      { s with ot := ot, availableMsgs := s.availableMsgs - 1 }.setPhase w
        (.got args item allocErr)

/-- `_get_msg` between the two locks. -/
def getUnpack (s : ChannelState ω) (w : ω) (args : GetArgs) (item : OtItem)
    (allocErr : Except DragonError Unit) (calls : UnpackCalls) : ChannelState ω :=
  match unpackMsg item args allocErr calls with
  | .error e => s.setPhase w (.returned (.error e))
  | .ok _ => s.setPhase w (.releasing item.mblk allocErr)

/-- The first part of `_peek_msg`, without a lock. -/
def peekEnter (s : ChannelState ω) (w : ω) (args : GetArgs) : ChannelState ω :=
  if s.availableMsgs = 0 then s.setPhase w (.returned (.error .channelEmpty))
  else s.setPhase w (.peeking args)

/-- `_peek_msg` under the lock of the OT. -/
def peekLook (s : ChannelState ω) (w : ω) (args : GetArgs) (calls : PeekCalls) :
    ChannelState ω :=
  match s.ot with
  | [] => { s with availableMsgs := 0 }.setPhase w (.returned (.error .channelEmpty))
  | item :: _ => s.setPhase w (.returned (peekItem item args calls))

/-- `_pop` under the lock of the OT. -/
def popTake (s : ChannelState ω) (w : ω) : ChannelState ω :=
  match s.ot with
  | [] => s.setPhase w (.returned (.error .priorityHeapEmpty))
  | item :: ot =>
    { s with ot := ot, availableMsgs := s.availableMsgs - 1 }.setPhase w (.popped item)

/-- `_pop` between the two locks. -/
def popFree (s : ChannelState ω) (w : ω) (item : OtItem) (calls : PopCalls) : ChannelState ω :=
  match freePopped item calls with
  | .error e => s.setPhase w (.returned (.error e))
  | .ok _ => s.setPhase w (.releasing item.mblk (.ok ()))

/-- The loop of `_release_barrier_waiters`; the message has the identifier `sendhid`. -/
def releaseLoop (sendhid : ℕ) : ℕ → ChannelState ω → Except DragonError Unit × ChannelState ω
  | 0, s => (.ok (), s)
  | k + 1, s =>
    match s.ut with
    | [] => (.error .priorityHeapEmpty, s)
    | mblk :: ut =>
      if s.capacity ≤ s.ot.length then
        (.error .priorityHeapFull,
          { s with ut := ut, availableBlocks := s.availableBlocks - 1 })
      else
        releaseLoop sendhid k
          { s with
            ut := ut
            availableBlocks := s.availableBlocks - 1
            ot := s.ot ++ [⟨mblk, 8, false, 0, 0, sendhid⟩]
            availableMsgs := s.availableMsgs + 1 }

/-- `_release_barrier_waiters`, under both locks. -/
def releaseBarrierWaiters (s : ChannelState ω) (sendhid : ℕ) :
    Except DragonError Unit × ChannelState ω :=
  if s.barrierBroken ∧ s.barrierCount = 0 then (.ok (), s)
  else
    match releaseLoop sendhid s.barrierCount s with
    | (.ok _, s') => (.ok (), { s' with barrierCount := 0 })
    | (.error e, s') => (.error e, s')

/-- The steps of the calls. -/
inductive Step (ω : Type*) : Type _ where
  | sendEnter (w : ω) (args : SendArgs)
  | sendTake (w : ω)
  | sendFill (w : ω) (calls : SendCalls)
  | sendInsert (w : ω)
  /-- `_return_msgblk_to_ut` at the label `ch_send_fail` -/
  | sendReturn (w : ω)
  | getEnter (w : ω) (args : GetArgs)
  | getTake (w : ω) (calls : GetCalls)
  | getUnpack (w : ω) (calls : UnpackCalls)
  | peekEnter (w : ω) (args : GetArgs)
  | peekLook (w : ω) (calls : PeekCalls)
  | popTake (w : ω)
  | popFree (w : ω) (calls : PopCalls)
  /-- `_release_message_block_and_trigger_bcasts`, in `_get_msg` and in `_pop` -/
  | release (w : ω)
  /-- `POLLBARRIER_WAIT` registers a waiter -/
  | barrierWait
  | barrierRelease (sendhid : ℕ)
  | barrierAbort (sendhid : ℕ)
  /-- a wait for the barrier times out before it has registered -/
  | barrierTimeout (sendhid : ℕ)
  | barrierReset (sendhid : ℕ)

/-- A step of a call; one that cannot be made changes nothing. -/
def exec (s : ChannelState ω) : Step ω → ChannelState ω
  | .sendEnter w args =>
    match s.phase w with
    | .idle => s.sendEnter w args
    | _ => s
  | .sendTake w =>
    match s.phase w with
    | .sending args => s.sendTake w args
    | _ => s
  | .sendFill w calls =>
    match s.phase w with
    | .holding args mblk => s.sendFill w args mblk calls
    | _ => s
  | .sendInsert w =>
    match s.phase w with
    | .filled args mblk nbytes isSerializedDescr =>
      s.sendInsert w args mblk nbytes isSerializedDescr
    | _ => s
  | .sendReturn w =>
    match s.phase w with
    | .failing mblk e => s.returnBlock w mblk (.error e)
    | _ => s
  | .getEnter w args =>
    match s.phase w with
    | .idle => s.getEnter w args
    | _ => s
  | .getTake w calls =>
    match s.phase w with
    | .getting args => s.getTake w args calls
    | _ => s
  | .getUnpack w calls =>
    match s.phase w with
    | .got args item allocErr => s.getUnpack w args item allocErr calls
    | _ => s
  | .peekEnter w args =>
    match s.phase w with
    | .idle => s.peekEnter w args
    | _ => s
  | .peekLook w calls =>
    match s.phase w with
    | .peeking args => s.peekLook w args calls
    | _ => s
  | .popTake w =>
    match s.phase w with
    | .idle => s.popTake w
    | _ => s
  | .popFree w calls =>
    match s.phase w with
    | .popped item => s.popFree w item calls
    | _ => s
  | .release w =>
    match s.phase w with
    | .releasing mblk r => s.returnBlock w mblk r
    | _ => s
  | .barrierWait =>
    if s.barrierBroken = false ∧ s.availableBlocks = s.capacity ∧ s.barrierCount ≠ s.capacity then
      { s with barrierCount := s.barrierCount + 1 }
    else s
  | .barrierRelease sendhid =>
    if s.barrierBroken then s else (s.releaseBarrierWaiters sendhid).2
  | .barrierAbort sendhid =>
    if s.barrierBroken then s
    else ({ s with barrierBroken := true }.releaseBarrierWaiters sendhid).2
  | .barrierTimeout sendhid => ({ s with barrierBroken := true }.releaseBarrierWaiters sendhid).2
  | .barrierReset sendhid =>
    match s.releaseBarrierWaiters sendhid with
    | (.ok _, s') => { s' with barrierBroken := false, barrierCount := 0 }
    | (.error _, s') => s'

/-! ## Where the blocks are -/

end ChannelState

/-- The two tables of a channel. -/
inductive ChannelTable : Type where
  | ut
  | ot
  deriving DecidableEq

instance : Fintype ChannelTable where
  elems := {.ut, .ot}
  complete q := by
    cases q with
    | ut => decide
    | ot => decide

namespace ChannelState

variable {ω : Type*} [DecidableEq ω]

/-- The blocks in the tables and in the hands of the calls. -/
def custody (s : ChannelState ω) : Custody ChannelTable ω ℕ where
  queue
    | .ut => s.ut
    | .ot => s.ot.map OtItem.mblk
  hand w := (s.phase w).block

omit [DecidableEq ω] in
theorem length_queue_ut (s : ChannelState ω) : (s.custody.queue .ut).length = s.ut.length := rfl

omit [DecidableEq ω] in
theorem length_queue_ot (s : ChannelState ω) : (s.custody.queue .ot).length = s.ot.length :=
  List.length_map ..

/-- Each block is in exactly one place, and the counts are the sizes of the tables. -/
structure Conserved (cap : ℕ) (s : ChannelState ω) : Prop where
  capacity : s.capacity = cap
  exact : s.custody.Exact (Finset.range cap)
  blocks : s.availableBlocks = s.ut.length
  msgs : s.availableMsgs = s.ot.length

/-- No call is in progress. -/
def Quiet (s : ChannelState ω) : Prop := ∀ w, (s.phase w).inProgress = false

variable {s : ChannelState ω} {w : ω} {cap : ℕ}

omit [DecidableEq ω] in
theorem custody_init (capacity bytesPerMsgBlock : ℕ) (bufferPool : Bool) :
    (init capacity bytesPerMsgBlock bufferPool : ChannelState ω).custody.Exact
      (Finset.range capacity) := by
  refine ⟨?_, ?_, ?_⟩
  · intro b hb
    refine ⟨.queued .ut, ?_, ?_⟩
    · exact List.mem_range.mpr (Finset.mem_range.mp hb)
    · rintro (q | w) hp
      · cases q with
        | ut => rfl
        | ot => exact absurd hp List.not_mem_nil
      · exact absurd hp.symm (Option.some_ne_none b)
  · intro q
    cases q with
    | ut => exact List.nodup_range
    | ot => exact List.nodup_nil
  · rintro b (q | w) hp
    · cases q with
      | ut => exact Finset.mem_range.mpr (List.mem_range.mp hp)
      | ot => exact absurd hp List.not_mem_nil
    · exact absurd hp.symm (Option.some_ne_none b)

omit [DecidableEq ω] in
theorem conserved_init (capacity bytesPerMsgBlock : ℕ) (bufferPool : Bool) :
    Conserved capacity (init capacity bytesPerMsgBlock bufferPool : ChannelState ω) where
  capacity := rfl
  exact := custody_init capacity bytesPerMsgBlock bufferPool
  blocks := List.length_range.symm
  msgs := rfl

omit [DecidableEq ω] in
/-- When no call is in progress, every block is free or has a message. -/
theorem Conserved.quiet (h : Conserved cap s) (hquiet : s.Quiet) :
    s.availableBlocks + s.availableMsgs = cap := by
  have hsum := h.exact.card_eq fun w => ChannelPhase.block_eq_none (hquiet w)
  rw [show (Finset.univ : Finset ChannelTable) = {.ut, .ot} from rfl,
    Finset.sum_pair (by decide), Finset.card_range] at hsum
  rw [h.blocks, h.msgs, ← s.length_queue_ut, ← s.length_queue_ot]
  exact hsum

theorem custody_setPhase (phase : ChannelPhase) :
    (s.setPhase w phase).custody = s.custody.setHand w phase.block := by
  unfold custody setPhase Custody.setHand
  congr 1
  funext w₁
  by_cases hw : w₁ = w
  · subst hw
    rw [Function.update_self]
    exact congrArg ChannelPhase.block (Function.update_self w₁ phase s.phase)
  · rw [Function.update_of_ne hw]
    exact congrArg ChannelPhase.block (Function.update_of_ne hw phase s.phase)

omit [DecidableEq ω] in
theorem custody_ut (ut : List ℕ) (n : ℕ) :
    ({ s with ut := ut, availableBlocks := n } : ChannelState ω).custody
      = s.custody.setQueue .ut ut := by
  unfold custody Custody.setQueue
  congr 1
  funext q
  cases q with
  | ut => rfl
  | ot => rfl

omit [DecidableEq ω] in
theorem custody_ot (ot : List OtItem) (n : ℕ) :
    ({ s with ot := ot, availableMsgs := n } : ChannelState ω).custody
      = s.custody.setQueue .ot (ot.map OtItem.mblk) := by
  unfold custody Custody.setQueue
  congr 1
  funext q
  cases q with
  | ut => rfl
  | ot => rfl

/-! ## What the moves of a block do -/

variable {phase : ChannelPhase} {mblk : ℕ} {item : OtItem} {args : GetArgs}

/-- The call goes on with the block it has, or without one as before. -/
theorem Conserved.setPhase (h : Conserved cap s) (hblock : (s.phase w).block = phase.block) :
    Conserved cap (s.setPhase w phase) where
  capacity := h.capacity
  exact := by
    rw [custody_setPhase, Custody.setHand_eq_self hblock]
    exact h.exact
  blocks := h.blocks
  msgs := h.msgs

/-- The call returns with a block in its hands: the block is lost. -/
theorem Conserved.not_returned (h : Conserved cap s) (hblock : (s.phase w).block = some mblk)
    (r : Except DragonError Unit) : ¬ Conserved cap (s.setPhase w (.returned r)) := by
  intro h'
  have hexact := h'.exact
  rw [custody_setPhase] at hexact
  exact h.exact.not_drop hblock hexact

/-- A block of the UT goes to the hands of a call. -/
theorem Conserved.takeBlock (h : Conserved cap s) {ut : List ℕ} (hut : s.ut = mblk :: ut)
    (hw : (s.phase w).block = none) (hblock : phase.block = some mblk) :
    Conserved cap
      (({ s with ut := ut, availableBlocks := s.availableBlocks - 1 } : ChannelState ω).setPhase w
        phase) where
  capacity := h.capacity
  exact := by
    rw [custody_setPhase, custody_ut, hblock]
    exact h.exact.take (q := ChannelTable.ut) hut hw
  blocks := by
    show s.availableBlocks - 1 = ut.length
    rw [h.blocks, hut, List.length_cons, Nat.add_sub_cancel]
  msgs := h.msgs

/-- The first entry of the OT goes to the hands of a call. -/
theorem Conserved.takeItem (h : Conserved cap s) {ot : List OtItem} (hot : s.ot = item :: ot)
    (hw : (s.phase w).block = none) (hblock : phase.block = some item.mblk) :
    Conserved cap
      (({ s with ot := ot, availableMsgs := s.availableMsgs - 1 } : ChannelState ω).setPhase w
        phase) where
  capacity := h.capacity
  exact := by
    rw [custody_setPhase, custody_ot, hblock]
    apply h.exact.take (q := ChannelTable.ot) _ hw
    show s.ot.map OtItem.mblk = _
    rw [hot, List.map_cons]
  blocks := h.blocks
  msgs := by
    show s.availableMsgs - 1 = ot.length
    rw [h.msgs, hot, List.length_cons, Nat.add_sub_cancel]

/-- A call enters its block in the OT, which has a place for it. -/
theorem Conserved.sendInsert (h : Conserved cap s) (hblock : (s.phase w).block = some mblk)
    (args : SendArgs) (nbytes : ℕ) (isSerializedDescr : Bool) :
    Conserved cap (s.sendInsert w args mblk nbytes isSerializedDescr) := by
  have hlt := h.exact.length_lt_of_held (w := w) hblock .ot
  rw [Finset.card_range, ← h.capacity, length_queue_ot] at hlt
  unfold ChannelState.sendInsert
  rw [if_neg (Nat.not_le.mpr hlt)]
  refine ⟨h.capacity, ?_, h.blocks, ?_⟩
  · rw [custody_setPhase, custody_ot, List.map_append]
    exact h.exact.put (q := ChannelTable.ot) hblock
  · show s.availableMsgs + 1 = (s.ot ++ [_]).length
    rw [h.msgs, List.length_append, List.length_singleton]

theorem Conserved.returnBlock (h : Conserved cap s) (hblock : (s.phase w).block = some mblk)
    (r : Except DragonError Unit) : Conserved cap (s.returnBlock w mblk r) := by
  have hlt := h.exact.length_lt_of_held (w := w) hblock .ut
  rw [Finset.card_range, ← h.capacity, length_queue_ut] at hlt
  unfold ChannelState.returnBlock
  rw [if_neg (Nat.not_le.mpr hlt)]
  refine ⟨h.capacity, ?_, ?_, h.msgs⟩
  · rw [custody_setPhase, custody_ut]
    exact h.exact.put (q := ChannelTable.ut) hblock
  · show s.availableBlocks + 1 = (s.ut ++ [_]).length
    rw [h.blocks, List.length_append, List.length_singleton]

omit [DecidableEq ω] in
theorem Conserved.releaseTurn (h : Conserved cap s) (item : OtItem) {ut : List ℕ}
    (hut : s.ut = item.mblk :: ut) :
    Conserved cap
      { s with
        ut := ut
        availableBlocks := s.availableBlocks - 1
        ot := s.ot ++ [item]
        availableMsgs := s.availableMsgs + 1 } where
  capacity := h.capacity
  exact := by
    have hcustody := h.exact.transfer (q := ChannelTable.ut) (r := ChannelTable.ot) hut (by decide)
    rw [← custody_ut ut (s.availableBlocks - 1)] at hcustody
    rw [custody_ot (s := { s with ut := ut, availableBlocks := s.availableBlocks - 1 }),
      List.map_append]
    exact hcustody
  blocks := by
    show s.availableBlocks - 1 = ut.length
    rw [h.blocks, hut, List.length_cons, Nat.add_sub_cancel]
  msgs := by
    show s.availableMsgs + 1 = (s.ot ++ [item]).length
    rw [h.msgs, List.length_append, List.length_singleton]

omit [DecidableEq ω] in
/-- `_release_barrier_waiters` keeps the blocks, also when there are fewer free blocks than
waiters. -/
theorem Conserved.releaseLoop (sendhid : ℕ) (k : ℕ) {s : ChannelState ω} (h : Conserved cap s) :
    Conserved cap (releaseLoop sendhid k s).2 := by
  -- one turn moves one block; the recursion is on the number of waiters
  induction k generalizing s with
  | zero => exact h
  | succ k ih =>
    rw [ChannelState.releaseLoop]
    split
    · exact h
    · rename_i mblk ut hut
      have hmem : mblk ∈ s.custody.queue .ut := by
        show mblk ∈ s.ut
        rw [hut]
        exact List.mem_cons_self
      have hlt := h.exact.length_lt_of_queued (r := ChannelTable.ot) hmem (by decide)
      rw [Finset.card_range, ← h.capacity, length_queue_ot] at hlt
      rw [if_neg (Nat.not_le.mpr hlt)]
      exact ih (h.releaseTurn ⟨mblk, 8, false, 0, 0, sendhid⟩ hut)

omit [DecidableEq ω] in
theorem Conserved.barrier (h : Conserved cap s) (n : ℕ) (broken : Bool) :
    Conserved cap { s with barrierCount := n, barrierBroken := broken } :=
  ⟨h.capacity, h.exact, h.blocks, h.msgs⟩

omit [DecidableEq ω] in
theorem Conserved.releaseBarrierWaiters (h : Conserved cap s) (sendhid : ℕ) :
    Conserved cap (s.releaseBarrierWaiters sendhid).2 := by
  unfold ChannelState.releaseBarrierWaiters
  have hloop := h.releaseLoop sendhid s.barrierCount
  split
  · exact h
  · split
    · rename_i heq
      rw [heq] at hloop
      exact hloop.barrier 0 _
    · rename_i heq
      rw [heq] at hloop
      exact hloop

/-! ## Which steps keep the blocks -/

/-- The step does not leave a function, between its two locks, by an exit that keeps the block:
the calls of the memory library that are made there succeed. -/
def Keeps (s : ChannelState ω) : Step ω → Prop
  | .sendFill w calls =>
    match s.phase w with
    | .holding args _ =>
      args.dest = true → args.sendTransferOwnership = true → Succeeds calls.copyPayload →
        Succeeds calls.putSerializedDesc → Succeeds calls.memoryFree
    | _ => True
  | .getUnpack w calls =>
    match s.phase w with
    | .got args item allocErr => Unpacks item args allocErr calls
    | _ => True
  | .popFree w calls =>
    match s.phase w with
    | .popped item =>
      item.isSerializedDescr = true → Succeeds calls.memoryAttach ∧ Succeeds calls.memoryFree
    | _ => True
  | _ => True

theorem Conserved.enter (h : Conserved cap s) (hidle : s.phase w = .idle)
    (hblock : phase.block = none) : Conserved cap (s.setPhase w phase) := by
  apply h.setPhase
  rw [hidle, hblock]
  rfl

theorem Conserved.sendTake (h : Conserved cap s) {args : SendArgs}
    (hphase : s.phase w = .sending args) : Conserved cap (s.sendTake w args) := by
  have hnone : (s.phase w).block = none := by rw [hphase]; rfl
  unfold ChannelState.sendTake
  split
  · rename_i hut
    have hzero : Conserved cap { s with availableBlocks := 0 } :=
      ⟨h.capacity, h.exact, by rw [hut]; rfl, h.msgs⟩
    exact hzero.setPhase hnone
  · rename_i mblk ut hut
    exact h.takeBlock hut hnone rfl

omit [DecidableEq ω] in
/-- The counts of an empty OT. -/
theorem Conserved.noMsgs (h : Conserved cap s) (hot : s.ot = []) :
    Conserved cap { s with availableMsgs := 0 } :=
  ⟨h.capacity, h.exact, h.blocks, by rw [hot]; rfl⟩

theorem Conserved.getTake (h : Conserved cap s) (hphase : s.phase w = .getting args)
    (calls : GetCalls) : Conserved cap (s.getTake w args calls) := by
  have hnone : (s.phase w).block = none := by rw [hphase]; rfl
  unfold ChannelState.getTake
  split
  · rename_i hot
    exact (h.noMsgs hot).setPhase hnone
  · rename_i item ot hot
    split
    · exact h.setPhase hnone
    · exact h.takeItem hot hnone rfl

theorem Conserved.peekLook (h : Conserved cap s) (hphase : s.phase w = .peeking args)
    (calls : PeekCalls) : Conserved cap (s.peekLook w args calls) := by
  have hnone : (s.phase w).block = none := by rw [hphase]; rfl
  unfold ChannelState.peekLook
  split
  · rename_i hot
    exact (h.noMsgs hot).setPhase hnone
  · exact h.setPhase hnone

theorem Conserved.popTake (h : Conserved cap s) (hphase : s.phase w = .idle) :
    Conserved cap (s.popTake w) := by
  unfold ChannelState.popTake
  split
  · exact h.enter hphase rfl
  · rename_i item ot hot
    exact h.takeItem hot (by rw [hphase]; rfl) rfl

theorem conserved_sendFill_iff (h : Conserved cap s) {args : SendArgs}
    (hphase : s.phase w = .holding args mblk) (calls : SendCalls) :
    Conserved cap (s.sendFill w args mblk calls) ↔
      (args.dest = true → args.sendTransferOwnership = true → Succeeds calls.copyPayload →
        Succeeds calls.putSerializedDesc → Succeeds calls.memoryFree) := by
  have hblock : (s.phase w).block = some mblk := by rw [hphase]; rfl
  have hret := fillBlock_ret_iff s.bytesPerMsgBlock s.bufferPool args calls
  unfold ChannelState.sendFill
  split
  · rename_i nbytes isSerializedDescr heq
    refine iff_of_true (h.setPhase hblock) ?_
    intro hdest htransfer hcopy hput
    by_contra hfree
    obtain ⟨e, he⟩ := hret.mpr ⟨hdest, htransfer, hcopy, hput, hfree⟩
    rw [heq] at he
    exact nomatch he
  · rename_i e heq
    refine iff_of_true (h.setPhase hblock) ?_
    intro hdest htransfer hcopy hput
    by_contra hfree
    obtain ⟨e', he'⟩ := hret.mpr ⟨hdest, htransfer, hcopy, hput, hfree⟩
    rw [heq] at he'
    exact nomatch he'
  · rename_i e heq
    obtain ⟨hdest, htransfer, hcopy, hput, hfree⟩ := hret.mp ⟨e, heq⟩
    exact iff_of_false (h.not_returned hblock _)
      fun hkeeps => hfree (hkeeps hdest htransfer hcopy hput)

theorem conserved_getUnpack_iff (h : Conserved cap s) {allocErr : Except DragonError Unit}
    (hphase : s.phase w = .got args item allocErr) (calls : UnpackCalls) :
    Conserved cap (s.getUnpack w args item allocErr calls) ↔
      Unpacks item args allocErr calls := by
  have hblock : (s.phase w).block = some item.mblk := by rw [hphase]; rfl
  rw [← succeeds_unpackMsg_iff]
  unfold ChannelState.getUnpack
  split
  · rename_i e heq
    rw [heq]
    exact iff_of_false (h.not_returned hblock _) (not_succeeds_error e)
  · rename_i heq
    rw [heq]
    exact iff_of_true (h.setPhase hblock) trivial

theorem conserved_popFree_iff (h : Conserved cap s) (hphase : s.phase w = .popped item)
    (calls : PopCalls) :
    Conserved cap (s.popFree w item calls) ↔
      (item.isSerializedDescr = true →
        Succeeds calls.memoryAttach ∧ Succeeds calls.memoryFree) := by
  have hblock : (s.phase w).block = some item.mblk := by rw [hphase]; rfl
  rw [← succeeds_freePopped_iff]
  unfold ChannelState.popFree
  split
  · rename_i e heq
    rw [heq]
    exact iff_of_false (h.not_returned hblock _) (not_succeeds_error e)
  · rename_i heq
    rw [heq]
    exact iff_of_true (h.setPhase hblock) trivial

/-- A step keeps the blocks precisely when the calls it makes between two locks succeed, if their
failure has no way back to the UT. -/
theorem conserved_exec_iff (h : Conserved cap s) (a : Step ω) :
    Conserved cap (s.exec a) ↔ s.Keeps a := by
  cases a with
  | sendEnter w args =>
    refine iff_of_true ?_ trivial
    simp only [exec]
    split
    · rename_i hidle
      unfold sendEnter
      split
      · exact h.enter hidle rfl
      · exact h.enter hidle rfl
    · exact h
  | sendTake w =>
    refine iff_of_true ?_ trivial
    simp only [exec]
    split
    · rename_i args hphase
      exact h.sendTake hphase
    · exact h
  | sendFill w calls =>
    simp only [exec, Keeps]
    split
    · rename_i args mblk hphase
      exact conserved_sendFill_iff h hphase calls
    · exact iff_of_true h trivial
  | sendInsert w =>
    refine iff_of_true ?_ trivial
    simp only [exec]
    split
    · rename_i args mblk nbytes isSerializedDescr hphase
      exact h.sendInsert (by rw [hphase]; rfl) args nbytes isSerializedDescr
    · exact h
  | sendReturn w =>
    refine iff_of_true ?_ trivial
    simp only [exec]
    split
    · rename_i mblk e hphase
      exact h.returnBlock (by rw [hphase]; rfl) _
    · exact h
  | getEnter w args =>
    refine iff_of_true ?_ trivial
    simp only [exec]
    split
    · rename_i hidle
      unfold getEnter
      split
      · exact h.enter hidle rfl
      · exact h.enter hidle rfl
    · exact h
  | getTake w calls =>
    refine iff_of_true ?_ trivial
    simp only [exec]
    split
    · rename_i args hphase
      exact h.getTake hphase calls
    · exact h
  | getUnpack w calls =>
    simp only [exec, Keeps]
    split
    · rename_i args item allocErr hphase
      exact conserved_getUnpack_iff h hphase calls
    · exact iff_of_true h trivial
  | peekEnter w args =>
    refine iff_of_true ?_ trivial
    simp only [exec]
    split
    · rename_i hidle
      unfold peekEnter
      split
      · exact h.enter hidle rfl
      · exact h.enter hidle rfl
    · exact h
  | peekLook w calls =>
    refine iff_of_true ?_ trivial
    simp only [exec]
    split
    · rename_i args hphase
      exact h.peekLook hphase calls
    · exact h
  | popTake w =>
    refine iff_of_true ?_ trivial
    simp only [exec]
    split
    · rename_i hidle
      exact h.popTake hidle
    · exact h
  | popFree w calls =>
    simp only [exec, Keeps]
    split
    · rename_i item hphase
      exact conserved_popFree_iff h hphase calls
    · exact iff_of_true h trivial
  | release w =>
    refine iff_of_true ?_ trivial
    simp only [exec]
    split
    · rename_i mblk r hphase
      exact h.returnBlock (by rw [hphase]; rfl) r
    · exact h
  | barrierWait =>
    refine iff_of_true ?_ trivial
    simp only [exec]
    split
    · exact h.barrier _ _
    · exact h
  | barrierRelease sendhid =>
    refine iff_of_true ?_ trivial
    simp only [exec]
    split
    · exact h
    · exact h.releaseBarrierWaiters sendhid
  | barrierAbort sendhid =>
    refine iff_of_true ?_ trivial
    simp only [exec]
    split
    · exact h
    · exact (h.barrier _ true).releaseBarrierWaiters sendhid
  | barrierTimeout sendhid =>
    refine iff_of_true ?_ trivial
    exact (h.barrier _ true).releaseBarrierWaiters sendhid
  | barrierReset sendhid =>
    refine iff_of_true ?_ trivial
    have hrelease := h.releaseBarrierWaiters sendhid
    simp only [exec]
    split
    · rename_i heq
      rw [heq] at hrelease
      exact hrelease.barrier _ _
    · rename_i heq
      rw [heq] at hrelease
      exact hrelease

/-- Each block is in exactly one place, the counts are the sizes of the tables, and if no call is
in progress, they add up to the capacity. -/
def Kept (cap : ℕ) (s : ChannelState ω) : Prop :=
  Conserved cap s ∧ (s.Quiet → s.availableBlocks + s.availableMsgs = cap)

omit [DecidableEq ω] in
theorem kept_iff_conserved : Kept cap s ↔ Conserved cap s :=
  ⟨fun h => h.1, fun h => ⟨h, h.quiet⟩⟩

/-- **Conservation of the blocks.**  In a run of sends, receives, peeks, pops and releases of
barriers in any order, the blocks are kept in every state precisely when no step leaves its
function by an exit without a way back to the UT. -/
theorem kept_iff_keeps (capacity bytesPerMsgBlock : ℕ) (bufferPool : Bool)
    (steps : List (Step ω)) :
    (∀ pre, pre <+: steps → Kept capacity
      (pre.foldl exec (init capacity bytesPerMsgBlock bufferPool))) ↔
      Runs.Legal exec Keeps (init capacity bytesPerMsgBlock bufferPool) steps := by
  simp only [kept_iff_conserved]
  apply Runs.forall_prefix_inv_iff_legal
  · intro s a _ h
    exact conserved_exec_iff h a
  · exact conserved_init capacity bytesPerMsgBlock bufferPool

/-- The arguments of a send that does not copy. -/
def noCopyArgs : SendArgs := ⟨100, false, false, true, 48, false, false, 0, 0, 1⟩

/-- Every call of the memory library succeeds. -/
def sendOk : SendCalls := ⟨.ok (), .ok (), .ok (), .ok (), .ok (), .ok (), .ok ()⟩

def sendSteps (w : Fin 4) : List (Step (Fin 4)) :=
  [.sendEnter w noCopyArgs, .sendTake w, .sendFill w sendOk, .sendInsert w]

/-- One memory is sent twice without a copy, and the messages are popped.  The first pop frees
the memory, so the second one cannot attach to it. -/
def popTwice : List (Step (Fin 4)) :=
  sendSteps 0 ++ sendSteps 1 ++
    [Step.popTake 2, .popFree 2 ⟨.ok (), .ok ()⟩, .release 2, .popTake 3,
      .popFree 3 ⟨.error .hashtableKeyNotFound, .ok ()⟩]

/-- The second pop returns with its block. -/
theorem not_kept_popTwice :
    ¬ ∀ (capacity bytesPerMsgBlock : ℕ) (bufferPool : Bool) (steps : List (Step (Fin 4))),
      Kept capacity (steps.foldl exec (init capacity bytesPerMsgBlock bufferPool)) := by
  intro h
  have hsum := (h 2 64 false popTwice).2 (by unfold Quiet; decide)
  exact absurd hsum (by decide)

end ChannelState
