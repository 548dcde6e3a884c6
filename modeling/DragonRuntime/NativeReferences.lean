/-
# Reference counts of the native objects (`src/dragon/native/queue.py`, `lock.py`, `event.py`)

Global services counts the references to a channel: the request that creates it counts one, a query
can count one more, and a destroy request can be for one reference only, which destroys the channel
with the last one.  A queue, a lock and an event create channels and count the handles to
themselves with them.

Conventions:

* a call is a step, and global services handles its requests at once; a channel is active or not;
* of the channels of a queue only those that it manages itself are modelled, as those that are given
  to its constructor are neither counted nor released, and no two constructors share a list of
  stream channels (which they append to);
* attaching to a channel that is gone fails where its memory is looked up; it is not looked up on
  another node, nor in a process that is still attached to the channel;
* collecting a handle as garbage is the same as closing it;
* it is recorded of a channel whether it was destroyed by a request that is not for one reference.
-/
import DragonRuntime.Runs

/-- A channel in the table of global services (`ChannelContext`). -/
structure ChannelContext where
  active : Bool
  refcnt : ℤ
  destroyed : Bool
  deriving DecidableEq

namespace ChannelContext

/-- `complete_construction` -/
def construct : ChannelContext := ⟨true, 1, false⟩

/-- `handle_channel_query` with `inc_refcnt` -/
def incref (ctx : ChannelContext) : ChannelContext :=
  if ctx.active then { ctx with refcnt := ctx.refcnt + 1 } else ctx

/-- `destroy` -/
def destroy (dec_ref : Bool) (ctx : ChannelContext) : ChannelContext :=
  if ctx.active then
    if dec_ref then { ctx with refcnt := ctx.refcnt - 1, active := ctx.refcnt - 1 ≠ 0 }
    else { ctx with active := false, destroyed := true }
  else ctx

end ChannelContext

/-- What is given to name a channel: its id, or a `Channel` object. -/
inductive ChannelIdentifier : Type where
  | cuid (c : ℕ)
  | channel (c : ℕ)
  deriving DecidableEq

/-- Global services, with its next channel id. -/
structure CountedChannels where
  context : ℕ → Option ChannelContext
  next : ℕ

namespace CountedChannels

def empty : CountedChannels := ⟨fun _ => none, 0⟩

/-- `create` -/
def create (gs : CountedChannels) : CountedChannels × ℕ :=
  (⟨Function.update gs.context gs.next (some .construct), gs.next + 1⟩, gs.next)

def createIf (gs : CountedChannels) (managed : Bool) : CountedChannels × Option ℕ :=
  if managed then (gs.create.1, some gs.create.2) else (gs, none)

def createMany (gs : CountedChannels) : ℕ → CountedChannels × List ℕ
  | 0 => (gs, [])
  | n + 1 => ((gs.create.1.createMany n).1, gs.create.2 :: (gs.create.1.createMany n).2)

def modify (gs : CountedChannels) (c : ℕ) (f : ChannelContext → ChannelContext) : CountedChannels :=
  { gs with context := Function.update gs.context c ((gs.context c).map f) }

/-- `get_refcnt` -/
def get_refcnt (gs : CountedChannels) (c : ℕ) : CountedChannels := gs.modify c .incref

/-- `destroy`, and with `just_decref` `release_refcnt`: what is no name is turned into an integer,
which a `Channel` object cannot be. -/
def destroy (gs : CountedChannels) (dec_ref : Bool) : ChannelIdentifier → Option CountedChannels
  | .cuid c => some (gs.modify c (.destroy dec_ref))
  | .channel _ => none

/-- The same, where every exception is passed over. -/
def tryDestroy (dec_ref : Bool) (gs : CountedChannels) (identifier : ChannelIdentifier) :
    CountedChannels := (gs.destroy dec_ref identifier).getD gs

end CountedChannels

inductive NativeKind : Type where
  | queue
  | lock
  | event
  deriving DecidableEq

/-- A handle, with the channels that its object manages itself: those of a lock and of an event
count as main channels. -/
structure NativeHandle where
  kind : NativeKind
  main : Option ℕ
  mgr : Option ℕ
  sem : Option ℕ
  strm_channels : List ℕ
  closed : Bool
  deriving DecidableEq

namespace NativeHandle

/-- The channels but for the stream channels. -/
def direct (h : NativeHandle) : List ℕ := h.main.toList ++ h.mgr.toList ++ h.sem.toList

def channels (h : NativeHandle) : List ℕ := h.direct ++ h.strm_channels

/-- What `_close` and `destroy` name: the ids of the channels, and the objects of the stream
channels, from the last one on. -/
def identifiers (h : NativeHandle) : List ChannelIdentifier :=
  h.direct.map .cuid ++ h.strm_channels.reverse.map .channel

/-- `_close`, `Event._cleanup` -/
def close (h : NativeHandle) (gs : CountedChannels) : CountedChannels × NativeHandle :=
  if h.closed then (gs, h)
  else (h.identifiers.foldl (CountedChannels.tryDestroy true) gs, { h with closed := true })

/-- `Queue.destroy` -/
def destroy (h : NativeHandle) (gs : CountedChannels) : CountedChannels × NativeHandle :=
  (h.identifiers.foldl (CountedChannels.tryDestroy false) (h.close gs).1, (h.close gs).2)

end NativeHandle

/-- The arguments of the constructor of a queue: of the channels, whether they are given. -/
structure QueueArgs where
  joinable : Bool
  buffered : Bool
  num_streams : ℕ
  main_channel : Bool
  mgr_channel : Bool
  sem_channel : Bool
  strm_channels : ℕ

namespace QueueArgs

/-- No `ValueError` is raised. -/
def valid (args : QueueArgs) : Bool :=
  !args.buffered || (args.strm_channels = 0 && args.num_streams = 0 && !args.mgr_channel)

/-- Not buffered, and with stream channels of its own. -/
def streamed (args : QueueArgs) : Bool :=
  !args.buffered && (0 < args.strm_channels || 0 < args.num_streams)

def managesMain (args : QueueArgs) : Bool := !args.main_channel && (args.buffered || args.streamed)

def managesMgr (args : QueueArgs) : Bool := !args.mgr_channel && args.streamed

def managesSem (args : QueueArgs) : Bool := args.joinable && !args.sem_channel

/-- How many stream channels are appended to those that are given. -/
def managedStreams (args : QueueArgs) : ℕ :=
  if args.streamed then
    (if args.num_streams = 0 then args.strm_channels else args.num_streams) - args.strm_channels
  else 0

/-- `Queue.__init__` -/
def construct (args : QueueArgs) (gs : CountedChannels) : CountedChannels × NativeHandle :=
  let main := gs.createIf args.managesMain
  let mgr := main.1.createIf args.managesMgr
  let strm := mgr.1.createMany args.managedStreams
  let sem := strm.1.createIf args.managesSem
  (sem.1, ⟨.queue, main.2, mgr.2, sem.2, strm.2, false⟩)

end QueueArgs

/-- `Lock.__init__`, `Event.__init__` -/
def constructCounted (kind : NativeKind) (gs : CountedChannels) : CountedChannels × NativeHandle :=
  (gs.create.1.get_refcnt gs.create.2, ⟨kind, some gs.create.2, none, none, [], false⟩)

/-- The handles in all processes, and what was pickled. -/
structure NativeObjects where
  gs : CountedChannels
  handles : List NativeHandle
  pickles : List NativeHandle

inductive NativeAction : Type where
  | queue (args : QueueArgs)
  /-- the constructor of a queue raises after it has created so many channels -/
  | queueFails (created : ℕ)
  | lock
  | event
  | getstate (i : ℕ)
  /-- `attaches`: in a process that can attach to channels that are gone -/
  | setstate (h : NativeHandle) (attaches : Bool)
  | close (i : ℕ)
  /-- of a queue -/
  | destroy (i : ℕ)

namespace NativeObjects

def init : NativeObjects := ⟨.empty, [], []⟩

def add (s : NativeObjects) (made : CountedChannels × NativeHandle) : NativeObjects :=
  { s with gs := made.1, handles := s.handles ++ [made.2] }

def set (s : NativeObjects) (i : ℕ) (changed : CountedChannels × NativeHandle) : NativeObjects :=
  { s with gs := changed.1, handles := s.handles.set i changed.2 }

def isActive (s : NativeObjects) (c : ℕ) : Bool :=
  match s.gs.context c with
  | some ctx => ctx.active
  | none => false

/-- The channel went with its last reference. -/
def isReleased (s : NativeObjects) (c : ℕ) : Bool :=
  match s.gs.context c with
  | some ctx => !ctx.active && !ctx.destroyed
  | none => false

def exec (s : NativeObjects) (action : NativeAction) : NativeObjects :=
  match action with
  | .queue args => if args.valid then s.add (args.construct s.gs) else s
  | .queueFails created => { s with gs := (s.gs.createMany created).1 }
  | .lock => s.add (constructCounted .lock s.gs)
  | .event => s.add (constructCounted .event s.gs)
  | .getstate i =>
    match s.handles[i]? with
    | some h => if h.closed then s else { s with pickles := h :: s.pickles }
    | none => s
  -- the query answers `SUCCESS` for a channel that is gone as well, and counts nothing
  | .setstate h attaches =>
    if h ∈ s.pickles ∧ (attaches ∨ ∀ c ∈ h.channels, s.isActive c) then
      s.add (h.channels.foldl CountedChannels.get_refcnt s.gs, { h with closed := false })
    else s
  | .close i =>
    match s.handles[i]? with
    | some h => s.set i (h.close s.gs)
    | none => s
  | .destroy i =>
    match s.handles[i]? with
    | some h => if h.kind = .queue then s.set i (h.destroy s.gs) else s
    | none => s

/-! ## The contract -/

/-- The number of the open handles of a channel. -/
def openHandles (s : NativeObjects) (c : ℕ) : ℕ :=
  s.handles.countP fun h => !h.closed && decide (c ∈ h.channels)

/-- The count of a channel that nobody has destroyed is the number of its open handles, and it is
there as long as there is one. -/
def Balanced (s : NativeObjects) : Prop :=
  ∀ c ctx, s.gs.context c = some ctx → ctx.destroyed = false →
    (ctx.active = true → ctx.refcnt = s.openHandles c) ∧ (ctx.active = true ↔ 0 < s.openHandles c)

/-- The condition for that: no lock and no event is made, no constructor of a queue raises after it
has created channels, no open handle of a queue with stream channels of its own is closed or
destroyed, and no process that can still attach to it unpickles a handle with a channel that went
with its last reference. -/
def Releases (s : NativeObjects) : NativeAction → Prop
  | .queueFails created => created = 0
  | .lock | .event => False
  | .close i => ∀ h, s.handles[i]? = some h → h.closed = false → h.strm_channels = []
  | .destroy i => ∀ h, s.handles[i]? = some h → h.kind = .queue → h.closed = false →
      h.strm_channels = []
  | .setstate h attaches => h ∈ s.pickles → attaches = true → ∀ c ∈ h.channels, ¬ s.isReleased c
  | .queue _ | .getstate _ => True

end NativeObjects

/-! ## Requests to global services -/

namespace CountedChannels

theorem foldl_modify_next (gs : CountedChannels) (cs : List ℕ) (f : ChannelContext → ChannelContext) :
    (cs.foldl (fun gs c => gs.modify c f) gs).next = gs.next := by
  induction cs generalizing gs with
  | nil => rfl
  | cons c cs ih => exact ih _

/-- One request for each channel of a list. -/
theorem foldl_modify_context (gs : CountedChannels) {cs : List ℕ} (hnodup : cs.Nodup)
    (f : ChannelContext → ChannelContext) (c : ℕ) :
    (cs.foldl (fun gs c => gs.modify c f) gs).context c =
      if c ∈ cs then (gs.context c).map f else gs.context c := by
  induction cs generalizing gs with
  | nil => rfl
  | cons d cs ih =>
    obtain ⟨hnotin, hnodup⟩ := List.nodup_cons.mp hnodup
    rw [List.foldl_cons, ih _ hnodup]
    rcases eq_or_ne c d with rfl | hne
    · rw [if_neg hnotin, if_pos List.mem_cons_self]
      exact Function.update_self ..
    · have hmem : c ∈ d :: cs ↔ c ∈ cs := by
        rw [List.mem_cons]
        exact or_iff_right hne
      have hcontext : (gs.modify d f).context c = gs.context c := Function.update_of_ne hne ..
      simp only [hmem, hcontext]

/-- The objects of the stream channels name nothing. -/
theorem foldl_tryDestroy (gs : CountedChannels) (dec_ref : Bool) (h : NativeHandle) :
    h.identifiers.foldl (tryDestroy dec_ref) gs =
      h.direct.foldl (fun gs c => gs.modify c (.destroy dec_ref)) gs := by
  have hobjects : ∀ (cs : List ℕ) (gs : CountedChannels),
      (cs.map ChannelIdentifier.channel).foldl (tryDestroy dec_ref) gs = gs := by
    intro cs
    induction cs with
    | nil => exact fun _ => rfl
    | cons c cs ih => exact fun gs => ih gs
  rw [NativeHandle.identifiers, List.foldl_append, hobjects, List.foldl_map]
  rfl

/-- The second state has the channels `ids` in addition to those of the first one. -/
structure Creates (gs gs' : CountedChannels) (ids : List ℕ) : Prop where
  consecutive : ids = List.range' gs.next ids.length
  next : gs'.next = gs.next + ids.length
  context : ∀ c, gs'.context c = if c ∈ ids then some .construct else gs.context c

theorem Creates.refl (gs : CountedChannels) : Creates gs gs [] := ⟨rfl, rfl, fun _ => rfl⟩

variable {gs gs' : CountedChannels} {ids : List ℕ}

theorem Creates.trans {gs'' : CountedChannels} {ids' : List ℕ} (h : Creates gs gs' ids)
    (h' : Creates gs' gs'' ids') : Creates gs gs'' (ids ++ ids') where
  consecutive := by
    have hsecond := h'.consecutive
    rw [h.next] at hsecond
    rw [List.length_append, ← List.range'_append_1, ← h.consecutive, ← hsecond]
  next := by
    rw [h'.next, h.next, List.length_append, Nat.add_assoc]
  context := by
    intro c
    rw [h'.context, h.context]
    by_cases hmem : c ∈ ids
    · by_cases hmem' : c ∈ ids'
      · rw [if_pos hmem', if_pos (List.mem_append_left _ hmem)]
      · rw [if_neg hmem', if_pos hmem, if_pos (List.mem_append_left _ hmem)]
    · by_cases hmem' : c ∈ ids'
      · rw [if_pos hmem', if_pos (List.mem_append_right _ hmem')]
      · rw [if_neg hmem', if_neg hmem, if_neg]
        rw [List.mem_append]
        exact not_or.mpr ⟨hmem, hmem'⟩

theorem creates_create (gs : CountedChannels) : Creates gs gs.create.1 [gs.create.2] where
  consecutive := rfl
  next := rfl
  context := by
    intro c
    show gs.create.1.context c = if c ∈ [gs.next] then _ else _
    rcases eq_or_ne c gs.next with rfl | hne
    · rw [if_pos (List.mem_singleton_self _)]
      exact Function.update_self ..
    · rw [if_neg (fun hmem => hne (List.mem_singleton.mp hmem))]
      exact Function.update_of_ne hne ..

theorem creates_createIf (gs : CountedChannels) (managed : Bool) :
    Creates gs (gs.createIf managed).1 (gs.createIf managed).2.toList := by
  cases managed with
  | false => exact Creates.refl gs
  | true => exact creates_create gs

theorem creates_createMany (gs : CountedChannels) (n : ℕ) :
    Creates gs (gs.createMany n).1 (gs.createMany n).2 := by
  induction n generalizing gs with
  | zero => exact Creates.refl gs
  | succ n ih => exact (creates_create gs).trans (ih gs.create.1)

theorem Creates.nodup (h : Creates gs gs' ids) : ids.Nodup := by
  rw [h.consecutive]
  exact List.nodup_range'

theorem Creates.mem (h : Creates gs gs' ids) {c : ℕ} (hc : c ∈ ids) :
    gs.next ≤ c ∧ c < gs'.next := by
  rw [h.next]
  rw [h.consecutive, List.mem_range'_1] at hc
  exact hc

end CountedChannels

/-- The channels of a queue that was made. -/
theorem QueueArgs.creates_construct (args : QueueArgs) (gs : CountedChannels) :
    ∃ ids, CountedChannels.Creates gs (args.construct gs).1 ids ∧
      ids.Perm (args.construct gs).2.channels := by
  have hmain := gs.creates_createIf args.managesMain
  have hmgr := (gs.createIf args.managesMain).1.creates_createIf args.managesMgr
  have hstrm := ((gs.createIf args.managesMain).1.createIf args.managesMgr).1.creates_createMany
    args.managedStreams
  have hsem := (((gs.createIf args.managesMain).1.createIf args.managesMgr).1.createMany
    args.managedStreams).1.creates_createIf args.managesSem
  refine ⟨_, ((hmain.trans hmgr).trans hstrm).trans hsem, ?_⟩
  -- the semaphore channel comes last, and before the stream channels in the handle
  show List.Perm (_ ++ _ ++ _ ++ _) (_ ++ _ ++ _ ++ _)
  simp only [List.append_assoc]
  exact ((List.perm_append_comm.append_left _).append_left _)

namespace NativeObjects

/-! ## What every run keeps -/

/-- The handles, and what was pickled of them. -/
def all (s : NativeObjects) : List NativeHandle := s.handles ++ s.pickles

structure Kept (s : NativeObjects) : Prop where
  fresh : ∀ c, s.gs.next ≤ c → s.gs.context c = none
  made : ∀ c, c < s.gs.next → s.gs.context c ≠ none
  nodup : ∀ h ∈ s.all, h.channels.Nodup
  known : ∀ h ∈ s.all, ∀ c ∈ h.channels, c < s.gs.next
  apart : ∀ h ∈ s.all, ∀ h' ∈ s.all, ∀ c ∈ h.strm_channels, c ∉ h'.direct
  streams : ∀ h ∈ s.all, ∀ c ∈ h.strm_channels, ∀ ctx, s.gs.context c = some ctx →
    ctx.destroyed = false

theorem kept_init : init.Kept where
  fresh := fun _ _ => rfl
  made := fun _ hc => absurd hc (Nat.not_lt_zero _)
  nodup := nofun
  known := nofun
  apart := nofun
  streams := nofun

namespace Kept

variable {s : NativeObjects}

/-- More channels, and a handle for some of them. -/
theorem create (hs : s.Kept) {s' : NativeObjects} {ids : List ℕ} (new : NativeHandle)
    (hcreates : s.gs.Creates s'.gs ids) (hnodup : new.channels.Nodup)
    (hnew : ∀ c ∈ new.channels, c ∈ ids) (hall : ∀ h ∈ s'.all, h ∈ s.all ∨ h = new) :
    s'.Kept where
  fresh := by
    intro c hc
    have hle : s.gs.next ≤ c := by
      rw [hcreates.next] at hc
      omega
    rw [hcreates.context, if_neg (fun hmem => absurd (hcreates.mem hmem).2 (not_lt.mpr hc))]
    exact hs.fresh c hle
  made := by
    intro c hc
    rw [hcreates.context]
    split
    · exact nofun
    next hnot =>
      refine hs.made c ?_
      by_contra hle
      rw [hcreates.consecutive, List.mem_range'_1] at hnot
      rw [hcreates.next] at hc
      omega
  nodup := by
    intro h hh
    rcases hall h hh with hold | rfl
    · exact hs.nodup h hold
    · exact hnodup
  known := by
    intro h hh c hc
    rcases hall h hh with hold | rfl
    · have hlt := hs.known h hold c hc
      rw [hcreates.next]
      omega
    · exact (hcreates.mem (hnew c hc)).2
  apart := by
    intro h hh h' hh' c hc hc'
    have hchannel : c ∈ h.channels := List.mem_append_right _ hc
    have hchannel' : c ∈ h'.channels := List.mem_append_left _ hc'
    rcases hall h hh with hold | rfl
    · rcases hall h' hh' with hold' | rfl
      · exact hs.apart h hold h' hold' c hc hc'
      · exact absurd (hs.known h hold c hchannel) (not_lt.mpr (hcreates.mem (hnew c hchannel')).1)
    · rcases hall h' hh' with hold' | rfl
      · exact absurd (hs.known h' hold' c hchannel') (not_lt.mpr (hcreates.mem (hnew c hchannel)).1)
      · exact List.disjoint_of_nodup_append hnodup hc' hc
  streams := by
    intro h hh c hc ctx hctx
    rw [hcreates.context] at hctx
    split at hctx
    · rw [← Option.some.inj hctx]
      rfl
    next hnot =>
      rcases hall h hh with hold | rfl
      · exact hs.streams h hold c hc ctx hctx
      · exact absurd (hnew c (List.mem_append_right _ hc)) hnot

/-- Requests about the channels that are there, and no new channels in the handles. -/
theorem update (hs : s.Kept) {s' : NativeObjects} (hnext : s'.gs.next = s.gs.next)
    (hcontext : ∀ c, ∃ f : ChannelContext → ChannelContext,
      s'.gs.context c = (s.gs.context c).map f ∧
        ((∃ h ∈ s.all, c ∈ h.direct) ∨ ∀ ctx, (f ctx).destroyed = ctx.destroyed))
    (hall : ∀ h ∈ s'.all, ∃ h₀ ∈ s.all, h.direct = h₀.direct ∧
      h.strm_channels = h₀.strm_channels) : s'.Kept where
  fresh := by
    intro c hc
    rw [hnext] at hc
    obtain ⟨f, hf, -⟩ := hcontext c
    rw [hf, hs.fresh c hc]
    rfl
  made := by
    intro c hc
    rw [hnext] at hc
    obtain ⟨f, hf, -⟩ := hcontext c
    rw [hf, Ne, Option.map_eq_none_iff]
    exact hs.made c hc
  nodup := by
    intro h hh
    obtain ⟨h₀, hh₀, hdirect, hstrm⟩ := hall h hh
    rw [NativeHandle.channels, hdirect, hstrm]
    exact hs.nodup h₀ hh₀
  known := by
    intro h hh c hc
    obtain ⟨h₀, hh₀, hdirect, hstrm⟩ := hall h hh
    rw [NativeHandle.channels, hdirect, hstrm] at hc
    rw [hnext]
    exact hs.known h₀ hh₀ c hc
  apart := by
    intro h hh h' hh' c hc hc'
    obtain ⟨h₀, hh₀, -, hstrm⟩ := hall h hh
    obtain ⟨h₁, hh₁, hdirect, -⟩ := hall h' hh'
    rw [hstrm] at hc
    rw [hdirect] at hc'
    exact hs.apart h₀ hh₀ h₁ hh₁ c hc hc'
  streams := by
    intro h hh c hc ctx hctx
    obtain ⟨h₀, hh₀, -, hstrm⟩ := hall h hh
    rw [hstrm] at hc
    obtain ⟨f, hf, hkeeps⟩ := hcontext c
    rw [hf, Option.map_eq_some_iff] at hctx
    obtain ⟨ctx₀, hctx₀, rfl⟩ := hctx
    rcases hkeeps with ⟨h₁, hh₁, hdirect⟩ | hkeeps
    · exact absurd hdirect (hs.apart h₀ hh₀ h₁ hh₁ c hc)
    · rw [hkeeps]
      exact hs.streams h₀ hh₀ c hc ctx₀ hctx₀

end Kept

variable {h : NativeHandle} {s : NativeObjects} {i : ℕ}

theorem mem_all_add {made : CountedChannels × NativeHandle} (hh : h ∈ (s.add made).all) :
    h ∈ s.all ∨ h = made.2 := by
  rcases List.mem_append.mp hh with hmem | hmem
  · rcases List.mem_append.mp hmem with hmem | hmem
    · exact Or.inl (List.mem_append_left _ hmem)
    · exact Or.inr (List.mem_singleton.mp hmem)
  · exact Or.inl (List.mem_append_right _ hmem)

theorem mem_all_set {changed : CountedChannels × NativeHandle} (hh : h ∈ (s.set i changed).all) :
    h ∈ s.all ∨ h = changed.2 := by
  rcases List.mem_append.mp hh with hmem | hmem
  · rcases List.mem_or_eq_of_mem_set hmem with hmem | heq
    · exact Or.inl (List.mem_append_left _ hmem)
    · exact Or.inr heq
  · exact Or.inl (List.mem_append_right _ hmem)

theorem close_of_open (hopen : h.closed = false) (gs : CountedChannels) :
    h.close gs = (h.direct.foldl (fun gs c => gs.modify c (.destroy true)) gs,
      { h with closed := true }) := by
  rw [NativeHandle.close, hopen, if_neg Bool.false_ne_true, CountedChannels.foldl_tryDestroy]

theorem close_of_closed (hclosed : h.closed = true) (gs : CountedChannels) :
    h.close gs = (gs, h) := if_pos hclosed

theorem destroy_eq (h : NativeHandle) (gs : CountedChannels) :
    h.destroy gs = (h.direct.foldl (fun gs c => gs.modify c (.destroy false)) (h.close gs).1,
      (h.close gs).2) := by
  rw [NativeHandle.destroy, CountedChannels.foldl_tryDestroy]

theorem close_direct (h : NativeHandle) (gs : CountedChannels) :
    (h.close gs).2.direct = h.direct ∧ (h.close gs).2.strm_channels = h.strm_channels := by
  unfold NativeHandle.close
  split <;> exact ⟨rfl, rfl⟩

namespace Kept

variable {s : NativeObjects}

variable {h : NativeHandle}

theorem close (hs : s.Kept) {i : ℕ} (hi : s.handles[i]? = some h) :
    (s.set i (h.close s.gs)).Kept := by
  have hmem : h ∈ s.all := List.mem_append_left _ (List.mem_of_getElem? hi)
  have hall : ∀ h' ∈ (s.set i (h.close s.gs)).all, ∃ h₀ ∈ s.all, h'.direct = h₀.direct ∧
      h'.strm_channels = h₀.strm_channels := by
    intro h' hh'
    rcases mem_all_set hh' with hold | rfl
    · exact ⟨h', hold, rfl, rfl⟩
    · exact ⟨h, hmem, close_direct h s.gs⟩
  have hdirect : h.direct.Nodup := (List.nodup_append.mp (hs.nodup h hmem)).1
  cases hclosed : h.closed with
  | true =>
    refine hs.update ?_ (fun c => ⟨id, ?_, Or.inr fun _ => rfl⟩) hall
    · simp only [set, close_of_closed hclosed]
    · simp only [set, close_of_closed hclosed, Option.map_id, id]
  | false =>
    refine hs.update ?_ (fun c => ?_) hall
    · simp only [set, close_of_open hclosed, CountedChannels.foldl_modify_next]
    · by_cases hc : c ∈ h.direct
      · refine ⟨.destroy true, ?_, Or.inl ⟨h, hmem, hc⟩⟩
        simp only [set, close_of_open hclosed, CountedChannels.foldl_modify_context _ hdirect,
          if_pos hc]
      · refine ⟨id, ?_, Or.inr fun _ => rfl⟩
        simp only [set, close_of_open hclosed, CountedChannels.foldl_modify_context _ hdirect,
          if_neg hc, Option.map_id, id]

theorem hardDestroy (hs : s.Kept) (hh : h ∈ s.all) :
    ({ s with gs := h.direct.foldl (fun gs c => gs.modify c (.destroy false)) s.gs } :
      NativeObjects).Kept := by
  have hdirect : h.direct.Nodup := (List.nodup_append.mp (hs.nodup h hh)).1
  refine hs.update (CountedChannels.foldl_modify_next ..) (fun c => ?_)
    (fun h' hh' => ⟨h', hh', rfl, rfl⟩)
  by_cases hc : c ∈ h.direct
  · refine ⟨.destroy false, ?_, Or.inl ⟨h, hh, hc⟩⟩
    simp only [CountedChannels.foldl_modify_context _ hdirect, if_pos hc]
  · refine ⟨id, ?_, Or.inr fun _ => rfl⟩
    simp only [CountedChannels.foldl_modify_context _ hdirect, if_neg hc, Option.map_id, id]

/-- The state is the one before, with one more handle that holds channels of it. -/
theorem setstate (hs : s.Kept) (hh : h ∈ s.pickles) :
    (s.add (h.channels.foldl CountedChannels.get_refcnt s.gs, { h with closed := false })).Kept := by
  have hmem : h ∈ s.all := List.mem_append_right _ hh
  refine hs.update (CountedChannels.foldl_modify_next ..) (fun c => ?_) (fun h' hh' => ?_)
  · have hcontext := CountedChannels.foldl_modify_context s.gs (hs.nodup h hmem) .incref c
    by_cases hc : c ∈ h.channels
    · rw [if_pos hc] at hcontext
      refine ⟨.incref, hcontext, Or.inr fun ctx => ?_⟩
      unfold ChannelContext.incref
      split <;> rfl
    · rw [if_neg hc] at hcontext
      refine ⟨id, ?_, Or.inr fun _ => rfl⟩
      rw [Option.map_id]
      exact hcontext
  · rcases mem_all_add hh' with hold | rfl
    · exact ⟨h', hold, rfl, rfl⟩
    · exact ⟨h, hmem, rfl, rfl⟩

theorem queue (hs : s.Kept) (args : QueueArgs) : (s.add (args.construct s.gs)).Kept := by
  obtain ⟨ids, hcreates, hperm⟩ := args.creates_construct s.gs
  exact hs.create _ hcreates (hperm.nodup_iff.mp hcreates.nodup) (fun c hc => hperm.mem_iff.mpr hc)
    fun h hh => mem_all_add hh

theorem queueFails (hs : s.Kept) (created : ℕ) :
    ({ s with gs := (s.gs.createMany created).1 } : NativeObjects).Kept :=
  hs.create ⟨.queue, none, none, none, [], true⟩ (s.gs.creates_createMany created)
    List.nodup_nil nofun fun _ hh => Or.inl hh

/-- The creation of a channel and a request that changes its count. -/
theorem counted (hs : s.Kept) (kind : NativeKind) : (s.add (constructCounted kind s.gs)).Kept := by
  have hcreated : (s.add (s.gs.create.1, (constructCounted kind s.gs).2)).Kept :=
    hs.create (constructCounted kind s.gs).2 s.gs.creates_create (List.nodup_singleton _)
      (fun _ hc => hc) fun h hh => mem_all_add hh
  refine hcreated.update rfl (fun c => ?_) fun h hh => ⟨h, hh, rfl, rfl⟩
  rcases eq_or_ne c s.gs.create.2 with rfl | hne
  · refine ⟨.incref, Function.update_self .., Or.inr fun ctx => ?_⟩
    unfold ChannelContext.incref
    split <;> rfl
  · refine ⟨id, ?_, Or.inr fun _ => rfl⟩
    rw [Option.map_id]
    exact Function.update_of_ne hne ..

theorem destroy (hs : s.Kept) {i : ℕ} (hi : s.handles[i]? = some h) :
    (s.set i (h.destroy s.gs)).Kept := by
  have hclose := hs.close hi
  obtain ⟨hdirect, hstrm⟩ := close_direct h s.gs
  have hlt : i < s.handles.length := (List.getElem?_eq_some_iff.mp hi).1
  have hmem : (h.close s.gs).2 ∈ (s.set i (h.close s.gs)).all :=
    List.mem_append_left _ (List.mem_iff_getElem?.mpr ⟨i, List.getElem?_set_self hlt⟩)
  have hhard := hclose.hardDestroy hmem
  rw [hdirect] at hhard
  rw [destroy_eq]
  exact hhard

theorem exec (hs : s.Kept) (action : NativeAction) : (s.exec action).Kept := by
  cases action with
  | queue args =>
    simp only [NativeObjects.exec]
    split
    · exact hs.queue args
    · exact hs
  | queueFails created => exact hs.queueFails created
  | lock => exact hs.counted .lock
  | event => exact hs.counted .event
  | getstate =>
    simp only [NativeObjects.exec]
    split
    next h hi =>
      split
      · exact hs
      · refine hs.update rfl (fun c => ⟨id, by rw [Option.map_id]; rfl, Or.inr fun _ => rfl⟩) ?_
        intro h' hh'
        refine ⟨h', ?_, rfl, rfl⟩
        rcases List.mem_append.mp hh' with hmem | hmem
        · exact List.mem_append_left _ hmem
        · rcases List.mem_cons.mp hmem with rfl | hmem
          · exact List.mem_append_left _ (List.mem_of_getElem? hi)
          · exact List.mem_append_right _ hmem
    next => exact hs
  | setstate =>
    simp only [NativeObjects.exec]
    split
    next hcan => exact hs.setstate hcan.1
    next => exact hs
  | close =>
    simp only [NativeObjects.exec]
    split
    next h hi => exact hs.close hi
    next => exact hs
  | destroy =>
    simp only [NativeObjects.exec]
    split
    next h hi =>
      split
      · exact hs.destroy hi
      · exact hs
    next => exact hs

end Kept

/-! ## Open handles -/

theorem openHandles_add (s : NativeObjects) (made : CountedChannels × NativeHandle) (c : ℕ) :
    (s.add made).openHandles c =
      s.openHandles c + if made.2.closed = false ∧ c ∈ made.2.channels then 1 else 0 := by
  show (s.handles ++ [made.2]).countP _ = s.handles.countP _ + _
  rw [List.countP_append, List.countP_singleton]
  simp only [Bool.and_eq_true, Bool.not_eq_true', decide_eq_true_eq]

theorem openHandles_set (hi : s.handles[i]? = some h) (changed : CountedChannels × NativeHandle)
    (c : ℕ) :
    (s.set i changed).openHandles c =
      s.openHandles c - (if h.closed = false ∧ c ∈ h.channels then 1 else 0) +
        if changed.2.closed = false ∧ c ∈ changed.2.channels then 1 else 0 := by
  obtain ⟨hlt, hget⟩ := List.getElem?_eq_some_iff.mp hi
  show (s.handles.set i changed.2).countP _ = s.handles.countP _ - _ + _
  rw [List.countP_set hlt, hget]
  simp only [Bool.and_eq_true, Bool.not_eq_true', decide_eq_true_eq]

theorem openHandles_pos {c : ℕ} (hi : s.handles[i]? = some h) (hopen : h.closed = false)
    (hc : c ∈ h.channels) : 0 < s.openHandles c := by
  refine List.countP_pos_iff.mpr ⟨h, List.mem_of_getElem? hi, ?_⟩
  rw [hopen]
  exact decide_eq_true hc

theorem Kept.openHandles_eq_zero (hs : s.Kept) {c : ℕ} (hc : s.gs.next ≤ c) :
    s.openHandles c = 0 := by
  refine List.countP_eq_zero.mpr fun h hh hcounted => ?_
  have hmem : c ∈ h.channels := of_decide_eq_true (Bool.and_eq_true_iff.mp hcounted).2
  exact absurd (hs.known h (List.mem_append_left _ hh) c hmem) (not_lt.mpr hc)

/-! ## Balance -/

namespace Balanced

variable {s : NativeObjects}

theorem init : NativeObjects.init.Balanced := nofun

variable {h : NativeHandle} {i : ℕ}

/-- A channel of an open handle that nobody has destroyed is there. -/
theorem active (hs : s.Balanced) {c : ℕ} (hi : s.handles[i]? = some h) (hopen : h.closed = false)
    (hc : c ∈ h.channels) {ctx : ChannelContext} (hctx : s.gs.context c = some ctx)
    (hdestroyed : ctx.destroyed = false) : ctx.active = true :=
  ((hs c ctx hctx hdestroyed).2).mpr (openHandles_pos hi hopen hc)

/-- A new handle for all the channels that were made. -/
theorem queue (hs : s.Balanced) (hkept : s.Kept) (args : QueueArgs) :
    (s.add (args.construct s.gs)).Balanced := by
  obtain ⟨ids, hcreates, hperm⟩ := args.creates_construct s.gs
  intro c ctx hctx hdestroyed
  have hctx' : (args.construct s.gs).1.context c = some ctx := hctx
  rw [hcreates.context] at hctx'
  have hopen : (args.construct s.gs).2.closed = false := rfl
  rw [openHandles_add]
  simp only [hopen, true_and, ← hperm.mem_iff]
  split at hctx'
  next hmem =>
    obtain rfl := Option.some.inj hctx'
    rw [if_pos hmem, hkept.openHandles_eq_zero (hcreates.mem hmem).1]
    exact ⟨fun _ => rfl, iff_of_true rfl Nat.one_pos⟩
  next hnot =>
    rw [if_neg hnot]
    exact hs c ctx hctx' hdestroyed

/-- A lock and an event count a reference twice. -/
theorem not_counted (hkept : s.Kept) (kind : NativeKind) :
    ¬ (s.add (constructCounted kind s.gs)).Balanced := by
  intro hbalanced
  have hcontext : (s.add (constructCounted kind s.gs)).gs.context s.gs.next =
      some ⟨true, 2, false⟩ := by
    show Function.update s.gs.create.1.context s.gs.next
      ((s.gs.create.1.context s.gs.next).map .incref) s.gs.next = _
    have hnew : s.gs.create.1.context s.gs.next = some .construct := Function.update_self ..
    rw [Function.update_self, hnew]
    rfl
  have hcount := (hbalanced _ _ hcontext rfl).1 rfl
  rw [openHandles_add, hkept.openHandles_eq_zero le_rfl] at hcount
  have hone : (constructCounted kind s.gs).2.closed = false ∧
      s.gs.next ∈ (constructCounted kind s.gs).2.channels := ⟨rfl, List.mem_cons_self⟩
  rw [if_pos hone] at hcount
  exact absurd hcount (by decide)

/-- Channels that a constructor leaves behind have a reference and no handle. -/
theorem queueFails_iff (hs : s.Balanced) (hkept : s.Kept) (created : ℕ) :
    ({ s with gs := (s.gs.createMany created).1 } : NativeObjects).Balanced ↔ created = 0 := by
  constructor
  · intro hbalanced
    by_contra hne
    obtain ⟨n, rfl⟩ := Nat.exists_eq_succ_of_ne_zero hne
    have hcreates := s.gs.creates_createMany (n + 1)
    have hcontext : (s.gs.createMany (n + 1)).1.context s.gs.next = some .construct := by
      rw [hcreates.context, if_pos]
      exact List.mem_cons_self
    have hpos : 0 < s.openHandles s.gs.next := (hbalanced _ _ hcontext rfl).2.mp rfl
    rw [hkept.openHandles_eq_zero (le_refl s.gs.next)] at hpos
    exact absurd hpos (lt_irrefl 0)
  · rintro rfl
    exact hs

theorem setstate (hs : s.Balanced) (hkept : s.Kept) (hh : h ∈ s.pickles)
    (hthere : ∀ c ∈ h.channels, ¬ s.isReleased c) :
    (s.add (h.channels.foldl CountedChannels.get_refcnt s.gs, { h with closed := false })).Balanced := by
  have hnodup := hkept.nodup h (List.mem_append_right _ hh)
  intro c ctx hctx hdestroyed
  have hctx' : (h.channels.foldl CountedChannels.get_refcnt s.gs).context c = some ctx := hctx
  have hcontext := CountedChannels.foldl_modify_context s.gs hnodup .incref c
  rw [openHandles_add]
  have hchannels : NativeHandle.channels { h with closed := false } = h.channels := rfl
  simp only [hchannels, true_and]
  by_cases hc : c ∈ h.channels
  · rw [if_pos hc] at hcontext ⊢
    rw [show (h.channels.foldl CountedChannels.get_refcnt s.gs).context c = _ from hcontext,
      Option.map_eq_some_iff] at hctx'
    obtain ⟨ctx₀, hctx₀, rfl⟩ := hctx'
    have hkeeps : ctx₀.incref.destroyed = ctx₀.destroyed := by
      unfold ChannelContext.incref
      split <;> rfl
    have hon : ctx₀.active = true := by
      have hnot := hthere c hc
      rw [isReleased, hctx₀] at hnot
      rw [hkeeps] at hdestroyed
      simpa [hdestroyed] using hnot
    have hincref : ctx₀.incref = { ctx₀ with refcnt := ctx₀.refcnt + 1 } := if_pos hon
    rw [hincref] at hdestroyed ⊢
    obtain ⟨hcount, hpos⟩ := hs c ctx₀ hctx₀ hdestroyed
    refine ⟨fun _ => ?_, iff_of_true hon (Nat.succ_pos _)⟩
    show ctx₀.refcnt + 1 = _
    rw [hcount hon]
    push_cast
    rfl
  · rw [if_neg hc] at hcontext ⊢
    rw [show (h.channels.foldl CountedChannels.get_refcnt s.gs).context c = _ from hcontext] at hctx'
    exact hs c ctx hctx' hdestroyed

/-- A channel that went with its last reference does not come back for a new handle. -/
theorem not_setstate {c : ℕ} (hc : c ∈ h.channels) (hreleased : s.isReleased c)
    (hnodup : h.channels.Nodup) : ¬ (s.add (h.channels.foldl CountedChannels.get_refcnt s.gs,
      { h with closed := false })).Balanced := by
  intro hbalanced
  rcases hctx : s.gs.context c with _ | ctx
  · rw [isReleased, hctx] at hreleased
    exact absurd hreleased Bool.false_ne_true
  · rw [isReleased, hctx] at hreleased
    obtain ⟨hoff, hdestroyed⟩ : ctx.active = false ∧ ctx.destroyed = false := by
      simpa using hreleased
    have hcontext := CountedChannels.foldl_modify_context s.gs hnodup .incref c
    have hincref : ctx.incref = ctx := by
      rw [ChannelContext.incref, hoff]
      rfl
    rw [if_pos hc, hctx, Option.map_some, hincref] at hcontext
    have hpos := (hbalanced c ctx hcontext hdestroyed).2.mpr (by
      rw [openHandles_add, if_pos ⟨rfl, hc⟩]
      exact Nat.succ_pos _)
    exact absurd (hoff.symm.trans hpos) Bool.false_ne_true

/-- An open handle without stream channels of its own is closed. -/
theorem close (hs : s.Balanced) (hkept : s.Kept) (hi : s.handles[i]? = some h)
    (hopen : h.closed = false) (hstrm : h.strm_channels = []) :
    (s.set i (h.close s.gs)).Balanced := by
  have hmem : h ∈ s.all := List.mem_append_left _ (List.mem_of_getElem? hi)
  have hdirect : h.direct.Nodup := (List.nodup_append.mp (hkept.nodup h hmem)).1
  have hchannels : h.channels = h.direct := by rw [NativeHandle.channels, hstrm, List.append_nil]
  rw [close_of_open hopen]
  intro c ctx hctx hdestroyed
  have hctx' : (h.direct.foldl (fun gs c => gs.modify c (.destroy true)) s.gs).context c =
    some ctx := hctx
  rw [CountedChannels.foldl_modify_context _ hdirect] at hctx'
  rw [openHandles_set hi]
  simp only [hopen, true_and, Bool.true_eq_false, false_and, if_false, add_zero, hchannels]
  split at hctx'
  next hc =>
    rw [Option.map_eq_some_iff] at hctx'
    obtain ⟨ctx₀, hctx₀, rfl⟩ := hctx'
    have hkeeps : (ctx₀.destroy true).destroyed = ctx₀.destroyed := by
      unfold ChannelContext.destroy
      split <;> rfl
    rw [hkeeps] at hdestroyed
    have hc' : c ∈ h.channels := hchannels ▸ hc
    have hon := hs.active hi hopen hc' hctx₀ hdestroyed
    have hpos := openHandles_pos hi hopen hc'
    have hcount := (hs c ctx₀ hctx₀ hdestroyed).1 hon
    have hdec : ctx₀.destroy true =
        { ctx₀ with refcnt := ctx₀.refcnt - 1, active := ctx₀.refcnt - 1 ≠ 0 } := by
      rw [ChannelContext.destroy, if_pos hon]
      rfl
    rw [if_pos hc, hdec]
    refine ⟨fun _ => ?_, ?_⟩
    · show ctx₀.refcnt - 1 = _
      omega
    · show decide (ctx₀.refcnt - 1 ≠ 0) = true ↔ _
      rw [decide_eq_true_iff]
      omega
  next hc =>
    rw [if_neg hc]
    exact hs c ctx hctx' hdestroyed

/-- A stream channel keeps the reference of a handle that is closed. -/
theorem not_close (hs : s.Balanced) (hkept : s.Kept) (hi : s.handles[i]? = some h)
    (hopen : h.closed = false) (hstrm : h.strm_channels ≠ []) {gs : CountedChannels}
    (hgs : ∀ c ∉ h.direct, gs.context c = s.gs.context c) :
    ¬ (s.set i (gs, { h with closed := true })).Balanced := by
  intro hbalanced
  obtain ⟨c, hc⟩ := List.exists_mem_of_ne_nil _ hstrm
  have hmem : h ∈ s.all := List.mem_append_left _ (List.mem_of_getElem? hi)
  have hchannel : c ∈ h.channels := List.mem_append_right _ hc
  obtain ⟨ctx, hctx⟩ := Option.ne_none_iff_exists'.mp
    (hkept.made c (hkept.known h hmem c hchannel))
  have hdestroyed := hkept.streams h hmem c hc ctx hctx
  have hon := hs.active hi hopen hchannel hctx hdestroyed
  have hcount := (hs c ctx hctx hdestroyed).1 hon
  have hpos := openHandles_pos hi hopen hchannel
  have hctx' : gs.context c = some ctx :=
    (hgs c (hkept.apart h hmem h hmem c hc)).trans hctx
  have hcount' := (hbalanced c ctx hctx' hdestroyed).1 hon
  rw [openHandles_set hi] at hcount'
  simp only [hopen, hchannel, true_and, Bool.true_eq_false, false_and, if_false, add_zero,
    if_true] at hcount'
  omega

/-- Channels that are destroyed by name need no count any more. -/
theorem hardDestroy (hs : s.Balanced) {cs : List ℕ} (hnodup : cs.Nodup) :
    ({ s with gs := cs.foldl (fun gs c => gs.modify c (.destroy false)) s.gs } :
      NativeObjects).Balanced := by
  intro c ctx hctx hdestroyed
  have hctx' : (cs.foldl (fun gs c => gs.modify c (.destroy false)) s.gs).context c = some ctx :=
    hctx
  rw [CountedChannels.foldl_modify_context _ hnodup] at hctx'
  split at hctx'
  · rw [Option.map_eq_some_iff] at hctx'
    obtain ⟨ctx₀, hctx₀, rfl⟩ := hctx'
    cases hon : ctx₀.active with
    | true =>
      rw [ChannelContext.destroy, if_pos hon] at hdestroyed
      exact nomatch hdestroyed
    | false =>
      have hsame : ctx₀.destroy false = ctx₀ := by
        rw [ChannelContext.destroy, hon]
        rfl
      rw [hsame] at hdestroyed ⊢
      exact hs c ctx₀ hctx₀ hdestroyed
  · exact hs c ctx hctx' hdestroyed

end Balanced

theorem set_same (hi : s.handles[i]? = some h) (gs : CountedChannels) :
    s.set i (gs, h) = { s with gs := gs } := by
  have hset : s.handles.set i h = s.handles := by
    obtain ⟨hlt, hget⟩ := List.getElem?_eq_some_iff.mp hi
    rw [← hget]
    exact List.set_getElem_self hlt
  simp only [set, hset]

/-- **Step lemma.** -/
theorem balanced_exec_iff (hkept : s.Kept) (hs : s.Balanced) (action : NativeAction) :
    (s.exec action).Balanced ↔ s.Releases action := by
  cases action with
  | queue args =>
    simp only [NativeObjects.exec, Releases, iff_true]
    split
    · exact hs.queue hkept args
    · exact hs
  | queueFails created => exact hs.queueFails_iff hkept created
  | lock => exact iff_of_false (Balanced.not_counted hkept .lock) id
  | event => exact iff_of_false (Balanced.not_counted hkept .event) id
  | getstate =>
    simp only [NativeObjects.exec, Releases, iff_true]
    split
    · split <;> exact hs
    · exact hs
  | setstate h attaches =>
    simp only [NativeObjects.exec, Releases]
    split
    next hcan =>
      by_cases hthere : ∀ c ∈ h.channels, ¬ s.isReleased c
      · exact iff_of_true (hs.setstate hkept hcan.1 hthere) fun _ _ => hthere
      · have hnodup := hkept.nodup h (List.mem_append_right _ hcan.1)
        push Not at hthere
        obtain ⟨c, hc, hreleased⟩ := hthere
        refine iff_of_false (Balanced.not_setstate hc hreleased hnodup) fun hall => ?_
        refine hall hcan.1 (hcan.2.resolve_right fun hactive => ?_) c hc hreleased
        -- a channel is not there and gone
        have hon := hactive c hc
        rw [isReleased] at hreleased
        rw [isActive] at hon
        split at hreleased
        next ctx hctx =>
          rw [hctx] at hon
          simp only [hon, Bool.not_true, Bool.false_and, Bool.false_eq_true] at hreleased
        next => exact absurd hreleased Bool.false_ne_true
    next hcannot =>
      refine iff_of_true hs fun hh hattaches => absurd ⟨hh, Or.inl hattaches⟩ hcannot
  | close =>
    simp only [NativeObjects.exec, Releases]
    split
    next h hi =>
      cases hclosed : h.closed with
      | true =>
        rw [close_of_closed hclosed, set_same hi]
        refine iff_of_true hs fun h' hi' hopen => ?_
        obtain rfl := Option.some.inj (hi.symm.trans hi')
        rw [hclosed] at hopen
        exact nomatch hopen
      | false =>
        by_cases hstrm : h.strm_channels = []
        · refine iff_of_true (hs.close hkept hi hclosed hstrm) fun h' hi' _ => ?_
          obtain rfl := Option.some.inj (hi.symm.trans hi')
          exact hstrm
        · refine iff_of_false ?_ fun hall => hstrm (hall h hi hclosed)
          rw [close_of_open hclosed]
          refine hs.not_close hkept hi hclosed hstrm fun c hc => ?_
          have hmem : h ∈ s.all := List.mem_append_left _ (List.mem_of_getElem? hi)
          rw [CountedChannels.foldl_modify_context _ (List.nodup_append.mp (hkept.nodup h hmem)).1,
            if_neg hc]
    next hnone =>
      refine iff_of_true hs fun h hi => ?_
      rw [hnone] at hi
      exact nomatch hi
  | destroy i =>
    simp only [NativeObjects.exec, Releases]
    split
    next h hi =>
      have hmem : h ∈ s.all := List.mem_append_left _ (List.mem_of_getElem? hi)
      have hnodup : h.direct.Nodup := (List.nodup_append.mp (hkept.nodup h hmem)).1
      have hsame : ∀ h', s.handles[i]? = some h' → h' = h := fun h' hi' =>
        Option.some.inj (hi'.symm.trans hi)
      split
      next hkind =>
        rw [destroy_eq]
        cases hclosed : h.closed with
        | true =>
          rw [close_of_closed hclosed, set_same hi]
          refine iff_of_true (hs.hardDestroy hnodup) fun h' hi' _ hopen => ?_
          rw [hsame h' hi', hclosed] at hopen
          exact nomatch hopen
        | false =>
          by_cases hstrm : h.strm_channels = []
          · refine iff_of_true ((hs.close hkept hi hclosed hstrm).hardDestroy hnodup) ?_
            intro h' hi' _ _
            rw [hsame h' hi']
            exact hstrm
          · refine iff_of_false ?_ fun hall => hstrm (hall h hi hkind hclosed)
            rw [close_of_open hclosed]
            refine hs.not_close hkept hi hclosed hstrm fun c hc => ?_
            rw [CountedChannels.foldl_modify_context _ hnodup, if_neg hc,
              CountedChannels.foldl_modify_context _ hnodup, if_neg hc]
      next hkind =>
        refine iff_of_true hs fun h' hi' hkind' => ?_
        rw [hsame h' hi'] at hkind'
        exact absurd hkind' hkind
    next hnone =>
      refine iff_of_true hs fun h hi => ?_
      rw [hnone] at hi
      exact nomatch hi

/-- **Main statement.**  The counts are balanced in every state of a run if and only if the run
meets the condition. -/
theorem balanced_iff_releases (actions : List NativeAction) :
    (∀ pre, pre <+: actions → (pre.foldl exec init).Balanced) ↔
      Runs.Legal exec Releases init actions := by
  have hstep : ∀ s : NativeObjects, ∀ action ∈ actions, s.Kept ∧ s.Balanced →
      ((s.exec action).Kept ∧ (s.exec action).Balanced ↔ s.Releases action) := by
    intro s action _ hs
    rw [← balanced_exec_iff hs.1 hs.2 action]
    exact and_iff_right (hs.1.exec action)
  rw [← Runs.forall_prefix_inv_iff_legal hstep ⟨kept_init, Balanced.init⟩]
  refine forall_congr' fun pre => imp_congr_right fun _ => (and_iff_right ?_).symm
  exact List.foldlRecOn pre exec kept_init fun s hs action _ => hs.exec action

/-- A buffered queue, a handle that is unpickled on another node, and the close of both. -/
theorem balanced_buffered_queue :
    ∀ pre, pre <+: [NativeAction.queue ⟨false, true, 0, false, false, false, 0⟩, .getstate 0,
      .setstate ⟨.queue, some 0, none, none, [], false⟩ true, .close 0, .close 1] →
        (pre.foldl exec init).Balanced := by
  rw [balanced_iff_releases]
  simp only [Runs.legal_cons, Runs.legal_nil, Releases, and_true, true_and]
  refine ⟨fun _ _ => by decide, fun h hi _ => ?_, fun h hi _ => ?_⟩
  · have hh : some h = some ⟨.queue, some 0, none, none, [], false⟩ := hi.symm.trans (by decide)
    rw [Option.some.inj hh]
  · have hh : some h = some ⟨.queue, some 0, none, none, [], false⟩ := hi.symm.trans (by decide)
    rw [Option.some.inj hh]

/-- A lock has two references with one handle, and keeps one when the handle is closed. -/
theorem not_balanced_lock :
    ¬ (∀ pre, pre <+: [NativeAction.lock, .close 0] → (pre.foldl exec init).Balanced) := by
  intro hbalanced
  have hlast := hbalanced _ (List.prefix_refl _) 0 ⟨true, 1, false⟩ (by decide) rfl
  exact absurd (hlast.1 rfl) (by decide)

end NativeObjects
