/-
# Sending and receiving on a file-like interface (`src/lib/fli.c`)

The two ends of a stream.  A send handle turns its sends into messages: buffered bytes are
collected until a send without buffering, a send of memory or the close, nothing is sent for no
bytes, and the close ends the stream with an end marker.  A buffered send handle sends everything
in one message and no end marker.  A receive handle takes messages out of its channel and keeps
what was not asked for in a list of buffered data.

Conventions:

* a channel is the list of its messages, in the order in which they are received; a receive that
  finds it empty waits (`none`);
* no call fails for want of memory, for a timeout or for a cancelled stream;
* a message or a node of buffered data is its bytes, for a node those that are left, and its
  `arg`;
* the field `strm_channel` of a receive handle without a stream channel was never set and is not
  the descriptor of a channel, so that emptying that channel fails and finds no end marker.
-/
import DragonRuntime.Runs

/-- The `arg` of a message: the one of the user, or a reserved one. -/
inductive FliArg : Type where
  | user (arg : ℕ)
  /-- `FLI_TERMINATOR` -/
  | terminator
  /-- `FLI_EOT` -/
  | eot
  deriving DecidableEq

/-- A message, or a node of buffered data. -/
structure FliMsg (β : Type*) where
  bytes : List β
  arg : FliArg
  deriving DecidableEq

/-- The adapters. -/
inductive FliKind : Type where
  | streaming
  /-- `STREAM_CHANNEL_IS_MAIN_FOR_1_1_CONNECTION` -/
  | oneToOne
  /-- the FLI was created with the buffered protocol -/
  | bufferedProtocol
  /-- `STREAM_CHANNEL_IS_MAIN_FOR_BUFFERED_SEND` on a streaming FLI -/
  | bufferedSend
  deriving DecidableEq

/-! ## The send handle -/

/-- A send handle, with the messages it has sent. -/
structure FliSendHandle (β : Type*) where
  bufferedSend : Bool
  closeRequired : Bool
  /-- in the order in which the bytes were buffered -/
  bufferedAllocations : List (List β)
  bufferedArg : ℕ
  out : List (FliMsg β)

/-- A call on an open send handle. -/
inductive SendCall (β : Type*) : Type _ where
  | sendBytes (bytes : List β) (arg : ℕ) (buffer : Bool)
  | sendMem (mem : List β) (arg : ℕ)

namespace FliSendHandle

variable {β : Type*}

/-- `dragon_fli_open_send_handle`; a termination channel, if there is one, is the first message.
There is none for a buffered send. -/
def openSendHandle (kind : FliKind) (term : Option (List β)) : FliSendHandle β :=
  match kind, term with
  | .bufferedProtocol, _ | .bufferedSend, _ => ⟨true, false, [], 0, []⟩
  | _, none => ⟨false, false, [], 0, []⟩
  | _, some ser => ⟨false, false, [], 0, [⟨ser, .terminator⟩]⟩

/-- `_send_mem`: there is no message without bytes. -/
def sendMsg (s : FliSendHandle β) (bytes : List β) (arg : ℕ) : FliSendHandle β :=
  match bytes with
  | [] => s
  | _ => { s with out := s.out ++ [⟨bytes, .user arg⟩] }

/-- `_send_buffered_bytes` -/
def sendBufferedBytes (s : FliSendHandle β) : FliSendHandle β :=
  { s with bufferedAllocations := [] }.sendMsg s.bufferedAllocations.flatten s.bufferedArg

/-- `_buffer_bytes` -/
def bufferBytes (s : FliSendHandle β) (bytes : List β) (arg : ℕ) : FliSendHandle β :=
  { s with
    bufferedArg := if s.bufferedAllocations = [] then arg else s.bufferedArg
    bufferedAllocations :=
      match bytes with
      | [] => s.bufferedAllocations
      | _ => s.bufferedAllocations ++ [bytes] }

/-- `dragon_fli_send_bytes`; `none` if it is refused. -/
def sendBytes (s : FliSendHandle β) (bytes : List β) (arg : ℕ) (buffer : Bool) :
    Option (FliSendHandle β) :=
  if s.closeRequired then none
  else if buffer then some (s.bufferBytes bytes arg)
  else some ({ s with closeRequired := s.bufferedSend }.bufferBytes bytes arg).sendBufferedBytes

/-- `dragon_fli_send_mem`; `none` if it is refused. -/
def sendMem (s : FliSendHandle β) (mem : List β) (arg : ℕ) : Option (FliSendHandle β) :=
  if s.bufferedSend then
    if s.closeRequired ∨ s.bufferedAllocations ≠ [] then none
    else some ({ s with closeRequired := true }.sendMsg mem arg)
  else some (s.sendBufferedBytes.sendMsg mem arg)

def call (s : FliSendHandle β) : SendCall β → Option (FliSendHandle β)
  | .sendBytes bytes arg buffer => s.sendBytes bytes arg buffer
  | .sendMem mem arg => s.sendMem mem arg

/-- Buffered bytes that remain are sent by the close. -/
def flush (s : FliSendHandle β) : FliSendHandle β :=
  if s.bufferedAllocations = [] then s else s.sendBufferedBytes

/-- `dragon_fli_close_send_handle`: the messages that were sent, with those of the close. -/
def closeSendHandle (s : FliSendHandle β) (dummy : β) : List (FliMsg β) :=
  if s.bufferedSend then s.flush.out else s.flush.out ++ [⟨[dummy], .eot⟩]

/-- A sequence of calls, none of which is refused. -/
def calls (s : FliSendHandle β) : List (SendCall β) → Option (FliSendHandle β)
  | [] => some s
  | c :: cs => (s.call c).bind fun s' => s'.calls cs

end FliSendHandle

/-- The bytes of a call. -/
def SendCall.bytes {β : Type*} : SendCall β → List β
  | .sendBytes bytes _ _ => bytes
  | .sendMem mem _ => mem

/-! ## What is sent -/

/-- A message of the user. -/
def FliMsg.IsData {β : Type*} (m : FliMsg β) : Prop := m.bytes ≠ [] ∧ ∃ arg, m.arg = .user arg

/-- The messages are those of a stream with these bytes, up to its end marker. -/
inductive StreamTail {β : Type*} : List (FliMsg β) → List β → Prop where
  | eot (dummy : List β) : StreamTail [⟨dummy, .eot⟩] []
  | data {m : FliMsg β} {msgs : List (FliMsg β)} {bytes : List β} (hdata : m.IsData)
      (htail : StreamTail msgs bytes) : StreamTail (m :: msgs) (m.bytes ++ bytes)

/-- The message with the termination channel. -/
def termMsgs {β : Type*} : Option (List β) → List (FliMsg β)
  | none => []
  | some ser => [⟨ser, .terminator⟩]

/-- The one message of a buffered stream, if it has bytes. -/
def BufferedMsgs {β : Type*} (msgs : List (FliMsg β)) (bytes : List β) : Prop :=
  (bytes = [] ∧ msgs = []) ∨ ∃ m : FliMsg β, m.IsData ∧ msgs = [m] ∧ m.bytes = bytes

theorem BufferedMsgs.isData {β : Type*} {msgs : List (FliMsg β)} {bytes : List β}
    (h : BufferedMsgs msgs bytes) : ∀ m ∈ msgs, m.IsData := by
  rcases h with ⟨-, rfl⟩ | ⟨m, hm, rfl, -⟩
  · exact fun m hm => absurd hm List.not_mem_nil
  · intro m' hm'
    rw [List.mem_singleton.mp hm']
    exact hm

theorem BufferedMsgs.flatMap_bytes {β : Type*} {msgs : List (FliMsg β)} {bytes : List β}
    (h : BufferedMsgs msgs bytes) : msgs.flatMap FliMsg.bytes = bytes := by
  rcases h with ⟨rfl, rfl⟩ | ⟨m, -, rfl, rfl⟩
  · rfl
  · exact List.append_nil _

namespace FliSendHandle

variable {β : Type*} {s s' : FliSendHandle β} {sent : List β}

theorem streamTail_of_data {msgs : List (FliMsg β)} (h : ∀ m ∈ msgs, m.IsData) (dummy : List β) :
    StreamTail (msgs ++ [⟨dummy, .eot⟩]) (msgs.flatMap FliMsg.bytes) := by
  induction msgs with
  | nil => exact .eot dummy
  | cons m msgs ih =>
    rw [List.cons_append, List.flatMap_cons]
    exact .data (h m List.mem_cons_self) (ih fun m' hm' => h m' (List.mem_cons_of_mem m hm'))

@[simp] theorem sendMsg_bufferedSend (bytes : List β) (arg : ℕ) :
    (s.sendMsg bytes arg).bufferedSend = s.bufferedSend := by
  cases bytes with
  | nil => rfl
  | cons b bytes => rfl

@[simp] theorem sendMsg_closeRequired (bytes : List β) (arg : ℕ) :
    (s.sendMsg bytes arg).closeRequired = s.closeRequired := by
  cases bytes with
  | nil => rfl
  | cons b bytes => rfl

@[simp] theorem sendMsg_bufferedAllocations (bytes : List β) (arg : ℕ) :
    (s.sendMsg bytes arg).bufferedAllocations = s.bufferedAllocations := by
  cases bytes with
  | nil => rfl
  | cons b bytes => rfl

/-- A send adds a message with its bytes, if it has any. -/
theorem exists_sendMsg_out (s : FliSendHandle β) (bytes : List β) (arg : ℕ) :
    ∃ msgs, (s.sendMsg bytes arg).out = s.out ++ msgs ∧ BufferedMsgs msgs bytes := by
  cases bytes with
  | nil => exact ⟨[], (List.append_nil _).symm, .inl ⟨rfl, rfl⟩⟩
  | cons b bytes =>
    exact ⟨[⟨b :: bytes, .user arg⟩], rfl,
      .inr ⟨⟨b :: bytes, .user arg⟩, ⟨List.cons_ne_nil b bytes, arg, rfl⟩, rfl, rfl⟩⟩

theorem flatten_bufferBytes (bytes : List β) (arg : ℕ) :
    (s.bufferBytes bytes arg).bufferedAllocations.flatten
      = s.bufferedAllocations.flatten ++ bytes := by
  cases bytes with
  | nil => exact (List.append_nil _).symm
  | cons b bytes =>
    show (s.bufferedAllocations ++ [b :: bytes]).flatten = _
    rw [List.flatten_append, List.flatten_singleton]

/-! ### A stream -/

/-- What a handle that is not buffered has sent, with what it has buffered. -/
structure Streams (first : List (FliMsg β)) (s : FliSendHandle β) (sent : List β) : Prop where
  bufferedSend : s.bufferedSend = false
  closeRequired : s.closeRequired = false
  out : ∃ msgs, s.out = first ++ msgs ∧ (∀ m ∈ msgs, m.IsData) ∧
    msgs.flatMap FliMsg.bytes ++ s.bufferedAllocations.flatten = sent

variable {first : List (FliMsg β)}

theorem Streams.bufferBytes (h : Streams first s sent) (bytes : List β) (arg : ℕ) :
    Streams first (s.bufferBytes bytes arg) (sent ++ bytes) := by
  obtain ⟨msgs, hout, hdata, hsent⟩ := h.out
  refine ⟨h.bufferedSend, h.closeRequired, msgs, hout, hdata, ?_⟩
  rw [flatten_bufferBytes, ← List.append_assoc, hsent]

theorem Streams.sendBufferedBytes (h : Streams first s sent) :
    Streams first s.sendBufferedBytes sent ∧ s.sendBufferedBytes.bufferedAllocations = [] := by
  obtain ⟨msgs, hout, hdata, hsent⟩ := h.out
  obtain ⟨new, hnew, hmsgs⟩ := exists_sendMsg_out { s with bufferedAllocations := [] }
    s.bufferedAllocations.flatten s.bufferedArg
  have hnil : s.sendBufferedBytes.bufferedAllocations = [] :=
    sendMsg_bufferedAllocations ..
  refine ⟨⟨?_, ?_, msgs ++ new, ?_, ?_, ?_⟩, hnil⟩
  · exact (sendMsg_bufferedSend ..).trans h.bufferedSend
  · exact (sendMsg_closeRequired ..).trans h.closeRequired
  · rw [← List.append_assoc, ← hout]
    exact hnew
  · intro m hm
    rcases List.mem_append.mp hm with hm | hm
    · exact hdata m hm
    · exact hmsgs.isData m hm
  · rw [hnil, List.flatten_nil, List.append_nil, List.flatMap_append, hmsgs.flatMap_bytes]
    exact hsent

theorem Streams.sendMsg (h : Streams first s sent) (hnil : s.bufferedAllocations = [])
    (bytes : List β) (arg : ℕ) : Streams first (s.sendMsg bytes arg) (sent ++ bytes) := by
  obtain ⟨msgs, hout, hdata, hsent⟩ := h.out
  obtain ⟨new, hnew, hmsgs⟩ := exists_sendMsg_out s bytes arg
  rw [hnil, List.flatten_nil, List.append_nil] at hsent
  refine ⟨?_, ?_, msgs ++ new, ?_, ?_, ?_⟩
  · exact (sendMsg_bufferedSend ..).trans h.bufferedSend
  · exact (sendMsg_closeRequired ..).trans h.closeRequired
  · rw [← List.append_assoc, ← hout]
    exact hnew
  · intro m hm
    rcases List.mem_append.mp hm with hm | hm
    · exact hdata m hm
    · exact hmsgs.isData m hm
  · rw [sendMsg_bufferedAllocations, hnil, List.flatten_nil, List.append_nil,
      List.flatMap_append, hmsgs.flatMap_bytes, hsent]

theorem Streams.call (h : Streams first s sent) {c : SendCall β} (hc : s.call c = some s') :
    Streams first s' (sent ++ c.bytes) := by
  cases c with
  | sendBytes bytes arg buffer =>
    change (if s.closeRequired then none else _) = some s' at hc
    rw [h.closeRequired, if_neg Bool.false_ne_true] at hc
    cases buffer with
    | true =>
      cases hc
      exact h.bufferBytes bytes arg
    | false =>
      cases hc
      have hclose : Streams first { s with closeRequired := s.bufferedSend } sent :=
        ⟨h.bufferedSend, h.bufferedSend, h.out⟩
      exact (hclose.bufferBytes bytes arg).sendBufferedBytes.1
  | sendMem mem arg =>
    change (if s.bufferedSend then _ else some _) = some s' at hc
    rw [h.bufferedSend, if_neg Bool.false_ne_true] at hc
    cases hc
    exact h.sendBufferedBytes.1.sendMsg h.sendBufferedBytes.2 mem arg

theorem Streams.calls (h : Streams first s sent) {cs : List (SendCall β)}
    (hcs : s.calls cs = some s') : Streams first s' (sent ++ cs.flatMap SendCall.bytes) := by
  induction cs generalizing s sent with
  | nil =>
    cases hcs
    rw [List.flatMap_nil, List.append_nil]
    exact h
  | cons c cs ih =>
    obtain ⟨s₁, hc, hrest⟩ := Option.bind_eq_some_iff.mp hcs
    rw [List.flatMap_cons, ← List.append_assoc]
    exact ih (h.call hc) hrest

theorem Streams.close (h : Streams first s sent) (dummy : β) :
    ∃ tail, s.closeSendHandle dummy = first ++ tail ∧ StreamTail tail sent := by
  have hflush : Streams first s.flush sent ∧ s.flush.bufferedAllocations = [] := by
    unfold flush
    split
    · rename_i hnil
      exact ⟨h, hnil⟩
    · exact h.sendBufferedBytes
  obtain ⟨msgs, hout, hdata, hsent⟩ := hflush.1.out
  rw [hflush.2, List.flatten_nil, List.append_nil] at hsent
  refine ⟨msgs ++ [⟨[dummy], .eot⟩], ?_, ?_⟩
  · unfold closeSendHandle
    rw [h.bufferedSend, if_neg Bool.false_ne_true, hout, List.append_assoc]
  · rw [← hsent]
    exact streamTail_of_data hdata [dummy]

/-- What a handle that is not buffered sends: the termination channel if there is one, the bytes
of its calls in messages that are not empty, and the end marker. -/
theorem close_streamTail {kind : FliKind} (hkind : kind = .streaming ∨ kind = .oneToOne)
    {term : Option (List β)} {cs : List (SendCall β)}
    (hcs : (openSendHandle kind term).calls cs = some s) (dummy : β) :
    ∃ tail, s.closeSendHandle dummy = termMsgs term ++ tail ∧
      StreamTail tail (cs.flatMap SendCall.bytes) := by
  have hopen : Streams (termMsgs term) (openSendHandle kind term) [] := by
    rcases hkind with rfl | rfl
    · cases term with
      | none => exact ⟨rfl, rfl, [], rfl, fun m hm => absurd hm List.not_mem_nil, rfl⟩
      | some ser => exact ⟨rfl, rfl, [], rfl, fun m hm => absurd hm List.not_mem_nil, rfl⟩
    · cases term with
      | none => exact ⟨rfl, rfl, [], rfl, fun m hm => absurd hm List.not_mem_nil, rfl⟩
      | some ser => exact ⟨rfl, rfl, [], rfl, fun m hm => absurd hm List.not_mem_nil, rfl⟩
  exact (hopen.calls hcs).close dummy

/-! ### A buffered send -/

/-- What a buffered handle has sent, with what it has buffered: a message, after which it can only
be closed, or none. -/
structure Buffers (s : FliSendHandle β) (sent : List β) : Prop where
  bufferedSend : s.bufferedSend = true
  out : (s.closeRequired = false ∧ s.out = [] ∧ s.bufferedAllocations.flatten = sent) ∨
    (s.closeRequired = true ∧ s.bufferedAllocations = [] ∧ BufferedMsgs s.out sent)

theorem Buffers.call (h : Buffers s sent) {c : SendCall β} (hc : s.call c = some s') :
    Buffers s' (sent ++ c.bytes) := by
  rcases h.out with ⟨hopen, hout, hsent⟩ | ⟨hclosed, -, -⟩
  · cases c with
    | sendBytes bytes arg buffer =>
      change (if s.closeRequired then none else _) = some s' at hc
      rw [hopen, if_neg Bool.false_ne_true] at hc
      cases buffer with
      | true =>
        cases hc
        refine ⟨h.bufferedSend, .inl ⟨hopen, hout, ?_⟩⟩
        rw [flatten_bufferBytes, hsent]
        rfl
      | false =>
        cases hc
        obtain ⟨new, hnew, hmsgs⟩ := exists_sendMsg_out
          { ({ s with closeRequired := s.bufferedSend }.bufferBytes bytes arg) with
            bufferedAllocations := [] }
          (({ s with closeRequired := s.bufferedSend } : FliSendHandle β).bufferBytes bytes
            arg).bufferedAllocations.flatten
          (({ s with closeRequired := s.bufferedSend } : FliSendHandle β).bufferBytes bytes
            arg).bufferedArg
        have hflatten : (({ s with closeRequired := s.bufferedSend } :
            FliSendHandle β).bufferBytes bytes arg).bufferedAllocations.flatten
              = sent ++ bytes := by
          rw [flatten_bufferBytes]
          show s.bufferedAllocations.flatten ++ bytes = _
          rw [hsent]
        refine ⟨?_, .inr ⟨?_, ?_, ?_⟩⟩
        · exact (sendMsg_bufferedSend ..).trans h.bufferedSend
        · exact (sendMsg_closeRequired ..).trans h.bufferedSend
        · exact sendMsg_bufferedAllocations ..
        · rw [hflatten] at hmsgs
          have hout' : (({ s with closeRequired := s.bufferedSend } :
              FliSendHandle β).bufferBytes bytes arg).sendBufferedBytes.out = new := by
            refine hnew.trans ?_
            show s.out ++ new = new
            rw [hout, List.nil_append]
          rw [hout']
          exact hmsgs
    | sendMem mem arg =>
      change (if s.bufferedSend then (if s.closeRequired = true ∨ _ then none else some _)
        else some _) = some s' at hc
      rw [if_pos h.bufferedSend] at hc
      split at hc
      · cases hc
      · rename_i hallowed
        have hnil : s.bufferedAllocations = [] := by
          by_contra hne
          exact hallowed (.inr hne)
        cases hc
        rw [hnil, List.flatten_nil] at hsent
        subst hsent
        obtain ⟨new, hnew, hmsgs⟩ := exists_sendMsg_out { s with closeRequired := true } mem arg
        refine ⟨?_, .inr ⟨?_, ?_, ?_⟩⟩
        · exact (sendMsg_bufferedSend ..).trans h.bufferedSend
        · exact sendMsg_closeRequired ..
        · exact (sendMsg_bufferedAllocations ..).trans hnil
        · rw [hnew]
          show BufferedMsgs (s.out ++ new) mem
          rw [hout]
          exact hmsgs
  · -- after the message every further send is refused
    cases c with
    | sendBytes =>
      change (if s.closeRequired then none else _) = some s' at hc
      rw [hclosed, if_pos rfl] at hc
      cases hc
    | sendMem =>
      change (if s.bufferedSend then (if s.closeRequired = true ∨ _ then none else some _)
        else some _) = some s' at hc
      rw [if_pos h.bufferedSend, if_pos (.inl hclosed)] at hc
      cases hc

theorem Buffers.calls (h : Buffers s sent) {cs : List (SendCall β)}
    (hcs : s.calls cs = some s') : Buffers s' (sent ++ cs.flatMap SendCall.bytes) := by
  induction cs generalizing s sent with
  | nil =>
    cases hcs
    rw [List.flatMap_nil, List.append_nil]
    exact h
  | cons c cs ih =>
    obtain ⟨s₁, hc, hrest⟩ := Option.bind_eq_some_iff.mp hcs
    rw [List.flatMap_cons, ← List.append_assoc]
    exact ih (h.call hc) hrest

theorem Buffers.close (h : Buffers s sent) (dummy : β) :
    BufferedMsgs (s.closeSendHandle dummy) sent := by
  unfold closeSendHandle
  rw [h.bufferedSend, if_pos rfl]
  unfold flush
  rcases h.out with ⟨-, hout, hsent⟩ | ⟨-, hnil, hmsgs⟩
  · split
    · rename_i hnil
      rw [hnil, List.flatten_nil] at hsent
      exact .inl ⟨hsent.symm, hout⟩
    · obtain ⟨new, hnew, hmsgs⟩ := exists_sendMsg_out { s with bufferedAllocations := [] }
        s.bufferedAllocations.flatten s.bufferedArg
      rw [hsent] at hmsgs
      have hout' : s.sendBufferedBytes.out = new := by
        refine hnew.trans ?_
        show s.out ++ new = new
        rw [hout, List.nil_append]
      rw [hout']
      exact hmsgs
  · rw [if_pos hnil]
    exact hmsgs

/-- What a buffered handle sends: all bytes of its calls in one message, or nothing if there are
none. -/
theorem close_bufferedMsgs {kind : FliKind} (hkind : kind = .bufferedProtocol ∨ kind = .bufferedSend)
    {term : Option (List β)} {cs : List (SendCall β)}
    (hcs : (openSendHandle kind term).calls cs = some s) (dummy : β) :
    BufferedMsgs (s.closeSendHandle dummy) (cs.flatMap SendCall.bytes) := by
  have hopen : Buffers (openSendHandle kind term) [] := by
    rcases hkind with rfl | rfl
    · exact ⟨rfl, .inl ⟨rfl, rfl, rfl⟩⟩
    · exact ⟨rfl, .inl ⟨rfl, rfl, rfl⟩⟩
  exact (hopen.calls hcs).close dummy

end FliSendHandle

/-! ## The receive handle -/

/-- A receive handle, with what is left in the channel it receives from. -/
structure FliRecvHandle (β : Type*) where
  useBufferedProtocol : Bool
  bufferedReceive : Bool
  recvCalled : Bool
  eotReceived : Bool
  streamReceived : Bool
  hasTermChannel : Bool
  bufferedData : List (FliMsg β)
  chan : List (FliMsg β)

/-- What a receive returns. -/
inductive RecvRet (β : Type*) : Type _ where
  | data (bytes : List β) (arg : FliArg)
  /-- `DRAGON_EOT` -/
  | eot
  /-- `DRAGON_INVALID_OPERATION` -/
  | invalidOperation

inductive RecvCall : Type where
  /-- `dragon_fli_recv_bytes` and `dragon_fli_recv_bytes_into` -/
  | recvBytes (requestedSize : ℕ)
  | recvMem

namespace FliRecvHandle

variable {β : Type*}

/-- `dragon_fli_open_recv_handle` -/
def openRecvHandle (kind : FliKind) (chan : List (FliMsg β)) : Option (FliRecvHandle β) :=
  match kind with
  | .streaming | .oneToOne => some ⟨false, false, false, false, false, false, [], chan⟩
  | .bufferedProtocol => some ⟨true, true, false, false, false, false, [], chan⟩
  | .bufferedSend =>
    -- the message that is found where a stream channel is expected is buffered
    match chan with
    | [] => none
    | m :: rest =>
      some ⟨false, true, false, true, false, false, if m.bytes = [] then [] else [m], rest⟩

/-- `buffered_bytes` -/
def bufferedBytes (h : FliRecvHandle β) : ℕ := (h.bufferedData.map fun m => m.bytes.length).sum

/-- `_buffer_mem` -/
def bufferMem (h : FliRecvHandle β) (m : FliMsg β) : FliRecvHandle β :=
  match m.bytes with
  | [] => h
  | _ => { h with bufferedData := h.bufferedData ++ [m] }

/-- `dragon_fli_recv_mem` after the check for a termination channel. -/
def recvMemRest (h : FliRecvHandle β) : Option (RecvRet β × FliRecvHandle β) :=
  match h.bufferedData with
  | m :: rest =>
    some (.data m.bytes m.arg,
      { h with
        bufferedData := rest
        streamReceived := h.streamReceived || h.bufferedReceive })
  | [] =>
    if h.streamReceived then some (.eot, h)
    else
      match h.chan with
      | [] => none
      | m :: rest =>
        if m.arg = .eot then some (.eot, { h with chan := rest, streamReceived := true })
        else some (.data m.bytes m.arg, { h with chan := rest, streamReceived := h.bufferedReceive })

/-- `_get_term_channel`, before the first receive of a stream. -/
def getTermChannel (h : FliRecvHandle β) : Option (RecvRet β × FliRecvHandle β) :=
  (h.recvMemRest).map fun
    | (.data bytes .terminator, h') => (.data bytes .terminator, { h' with hasTermChannel := true })
    | (.data bytes arg, h') => (.data bytes arg, h'.bufferMem ⟨bytes, arg⟩)
    | (ret, h') => (ret, h')

/-- A receive: it ends if the check for a termination channel finds the end of the stream. -/
def withTermChannel (h : FliRecvHandle β)
    (recv : FliRecvHandle β → Option (RecvRet β × FliRecvHandle β)) :
    Option (RecvRet β × FliRecvHandle β) :=
  if h.bufferedReceive || h.recvCalled then recv h
  else
    ({ h with recvCalled := true }.getTermChannel).bind fun
      | (.eot, h') => some (.eot, h')
      | (_, h') => recv h'

/-- `dragon_fli_recv_mem` -/
def recvMem (h : FliRecvHandle β) : Option (RecvRet β × FliRecvHandle β) :=
  h.withTermChannel recvMemRest

/-- The loop of `_recv_bytes_buffered` that fills the buffered data. -/
def fill (requestedSize : ℕ) : List (FliMsg β) → FliRecvHandle β → Option (FliRecvHandle β)
  | chan, h =>
    if requestedSize ≤ h.bufferedBytes then some { h with chan := chan }
    else
      match chan with
      | [] => none
      | m :: rest =>
        if m.arg = .eot then some { h with chan := rest, eotReceived := true }
        else fill requestedSize rest (h.bufferMem m)

/-- The loop of `_recv_bytes_buffered` that copies: the bytes, the `arg` of the last node, and
what is left. -/
def copyOut (arg : FliArg) : ℕ → List (FliMsg β) → List β × FliArg × List (FliMsg β)
  | 0, data => ([], arg, data)
  | _, [] => ([], arg, [])
  | k + 1, m :: rest =>
    if m.bytes.length ≤ k + 1 then
      (m.bytes ++ (copyOut m.arg (k + 1 - m.bytes.length) rest).1,
        (copyOut m.arg (k + 1 - m.bytes.length) rest).2)
    else (m.bytes.take (k + 1), m.arg, ⟨m.bytes.drop (k + 1), m.arg⟩ :: rest)

/-- `alloc_sz`: what was asked for or what is available. -/
def allocSz (h : FliRecvHandle β) (requestedSize : ℕ) : ℕ :=
  if h.bufferedBytes < requestedSize ∨ requestedSize = 0 then h.bufferedBytes else requestedSize

/-- `_recv_bytes_buffered` after the loop that fills the buffered data. -/
def recvBuffered (h : FliRecvHandle β) (requestedSize : ℕ) : RecvRet β × FliRecvHandle β :=
  if h.allocSz requestedSize = 0 then
    if h.useBufferedProtocol || h.eotReceived then (.eot, h) else (.invalidOperation, h)
  else
    match copyOut (.user 0) (h.allocSz requestedSize) h.bufferedData with
    | (bytes, arg, rest) =>
      (.data bytes arg,
        { h with
          bufferedData := rest
          streamReceived := h.streamReceived || (h.useBufferedProtocol && rest.isEmpty) })

/-- `_recv_bytes_buffered` -/
def recvBytesBuffered (h : FliRecvHandle β) (requestedSize : ℕ) :
    Option (RecvRet β × FliRecvHandle β) :=
  if requestedSize = 0 ∧ h.bufferedBytes = 0 then
    match h.chan with
    | [] => none
    | m :: rest =>
      if m.arg = .eot then some (.eot, { h with chan := rest, eotReceived := true })
      else
        some (.data m.bytes m.arg,
          { h with
            chan := rest
            streamReceived := h.streamReceived || h.useBufferedProtocol })
  else if h.eotReceived then some (h.recvBuffered requestedSize)
  else (fill requestedSize h.chan h).map fun h' => h'.recvBuffered requestedSize

/-- The end of `_recv_bytes_common`. -/
def markReceived : RecvRet β × FliRecvHandle β → RecvRet β × FliRecvHandle β
  | (.data bytes arg, h) =>
    (.data bytes arg, { h with streamReceived := h.streamReceived || h.bufferedReceive })
  | (.eot, h) => (.eot, { h with streamReceived := true })
  | (.invalidOperation, h) => (.invalidOperation, h)

/-- `_recv_bytes_common` -/
def recvBytes (h : FliRecvHandle β) (requestedSize : ℕ) :
    Option (RecvRet β × FliRecvHandle β) :=
  if h.streamReceived ∧ h.bufferedBytes = 0 then some (.eot, h)
  else
    h.withTermChannel fun h' => (h'.recvBytesBuffered requestedSize).map markReceived

def call (h : FliRecvHandle β) : RecvCall → Option (RecvRet β × FliRecvHandle β)
  | .recvBytes requestedSize => h.recvBytes requestedSize
  | .recvMem => h.recvMem

/-- `_empty_the_channel` message by message, until the end marker is found. -/
def emptyToEot : List (FliMsg β) → Option (List (FliMsg β))
  | [] => none
  | m :: rest => if m.arg = .eot then some rest else emptyToEot rest

/-- `dragon_fli_close_recv_handle`, and what it leaves in the channel; `none` if it does not
end. -/
def closeRecvHandle (h : FliRecvHandle β) : Option (List (FliMsg β)) :=
  if h.streamReceived || h.useBufferedProtocol then some h.chan
  else if h.bufferedReceive then none
  else emptyToEot h.chan

end FliRecvHandle
