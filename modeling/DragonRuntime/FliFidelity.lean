/-
# Fidelity of the streams of a file-like interface

A receive handle on the channel that the messages of one send handle and, behind them, those of
others are in.  The bytes it receives are those that were sent, and a receive after the last byte
says that the stream is over, unless the handle does not know it: `stream_received` is not set
when a request for more bytes than there are takes the end marker, and the buffered protocol has
no end marker.

The messages of the send handle are described by `StreamTail` and `BufferedMsgs`; the invariant
`Inv` says where the bytes that are still to be received are.
-/
import DragonRuntime.FliTransfer

namespace FliRecvHandle

variable {β : Type*}

/-! ## The buffered data -/

/-- The bytes of messages or nodes. -/
def flat (msgs : List (FliMsg β)) : List β := msgs.flatMap FliMsg.bytes

@[simp] theorem flat_nil : flat ([] : List (FliMsg β)) = [] := rfl

@[simp] theorem flat_cons (m : FliMsg β) (msgs : List (FliMsg β)) :
    flat (m :: msgs) = m.bytes ++ flat msgs := rfl

@[simp] theorem flat_append (msgs msgs' : List (FliMsg β)) :
    flat (msgs ++ msgs') = flat msgs ++ flat msgs' := List.flatMap_append ..

theorem bufferedBytes_eq (h : FliRecvHandle β) : h.bufferedBytes = (flat h.bufferedData).length := by
  unfold bufferedBytes flat
  rw [List.length_flatMap]

/-- No node is empty. -/
def Nodes (data : List (FliMsg β)) : Prop := ∀ m ∈ data, m.bytes ≠ []

theorem nodes_nil : Nodes ([] : List (FliMsg β)) := fun _ hm => absurd hm List.not_mem_nil

variable {data chan msgs : List (FliMsg β)} {m : FliMsg β} {h : FliRecvHandle β} {bytes : List β}
  {c : RecvCall} {n : ℕ}

theorem Nodes.tail (h : Nodes (m :: data)) : Nodes data :=
  fun m' hm' => h m' (List.mem_cons_of_mem m hm')

theorem Nodes.flat_ne_nil (h : Nodes data) (hne : data ≠ []) : flat data ≠ [] := by
  cases data with
  | nil => exact absurd rfl hne
  | cons m data =>
    rw [flat_cons]
    exact List.append_ne_nil_of_left_ne_nil (h m List.mem_cons_self) _

theorem Nodes.append (h : Nodes data) (hm : m.bytes ≠ []) : Nodes (data ++ [m]) := by
  intro m' hm'
  rcases List.mem_append.mp hm' with hm' | hm'
  · exact h m' hm'
  · rw [List.mem_singleton.mp hm']
    exact hm

theorem bufferedBytes_eq_zero_iff (hnodes : Nodes h.bufferedData) :
    h.bufferedBytes = 0 ↔ h.bufferedData = [] := by
  rw [bufferedBytes_eq, List.length_eq_zero_iff]
  constructor
  · intro hnil
    by_contra hne
    exact hnodes.flat_ne_nil hne hnil
  · intro hnil
    rw [hnil]
    rfl

theorem bufferMem_of_ne (hm : m.bytes ≠ []) :
    h.bufferMem m = { h with bufferedData := h.bufferedData ++ [m] } := by
  unfold bufferMem
  split
  · rename_i hnil
    exact absurd hnil hm
  · rfl

/-- The copying takes the first bytes and leaves the others, in nodes that are not empty. -/
theorem copyOut_spec (arg : FliArg) (k : ℕ) (hnodes : Nodes data) :
    (copyOut arg k data).1 = (flat data).take k ∧
      flat (copyOut arg k data).2.2 = (flat data).drop k ∧ Nodes (copyOut arg k data).2.2 := by
  induction data generalizing arg k with
  | nil =>
    cases k with
    | zero => exact ⟨rfl, rfl, hnodes⟩
    | succ k => exact ⟨rfl, rfl, hnodes⟩
  | cons m data ih =>
    cases k with
    | zero => exact ⟨rfl, rfl, hnodes⟩
    | succ k =>
      rw [copyOut, flat_cons]
      split
      · rename_i hle
        obtain ⟨hbytes, hrest, hnodes'⟩ := ih m.arg (k + 1 - m.bytes.length) hnodes.tail
        refine ⟨?_, ?_, hnodes'⟩
        · rw [hbytes, List.take_append, List.take_of_length_le hle]
        · rw [hrest, List.drop_append, List.drop_eq_nil_of_le hle, List.nil_append]
      · rename_i hlt
        have hle : k + 1 ≤ m.bytes.length := by omega
        refine ⟨?_, ?_, ?_⟩
        · exact (List.take_append_of_le_length hle).symm
        · exact (List.drop_append_of_le_length hle).symm
        · intro m' hm'
          rcases List.mem_cons.mp hm' with rfl | hm'
          · intro hnil
            have hlen := congrArg List.length hnil
            rw [List.length_drop, List.length_nil] at hlen
            omega
          · exact hnodes.tail m' hm'

/-- A read of buffered data yields some of it, and leaves the rest. -/
theorem recvBuffered_of_ne (hnodes : Nodes h.bufferedData) (hne : h.bufferedData ≠ []) (n : ℕ) :
    ∃ bytes arg rest, h.recvBuffered n = (.data bytes arg,
        { h with
          bufferedData := rest
          streamReceived := h.streamReceived || (h.useBufferedProtocol && rest.isEmpty) }) ∧
      bytes ≠ [] ∧ bytes ++ flat rest = flat h.bufferedData ∧ Nodes rest := by
  have hpos : 0 < h.bufferedBytes := by
    rw [bufferedBytes_eq]
    exact List.length_pos_of_ne_nil (hnodes.flat_ne_nil hne)
  have hread : ∀ k, 0 < k →
      (copyOut (.user 0) k h.bufferedData).1 ≠ [] ∧
        (copyOut (.user 0) k h.bufferedData).1 ++ flat (copyOut (.user 0) k h.bufferedData).2.2
          = flat h.bufferedData ∧ Nodes (copyOut (.user 0) k h.bufferedData).2.2 := by
    intro k hk
    obtain ⟨hbytes, hrest, hnodes'⟩ := copyOut_spec (.user 0) k hnodes
    refine ⟨?_, ?_, hnodes'⟩
    · rw [hbytes]
      intro hnil
      rcases List.take_eq_nil_iff.mp hnil with hzero | hnil
      · omega
      · exact hnodes.flat_ne_nil hne hnil
    · rw [hbytes, hrest, List.take_append_drop]
  have halloc : 0 < h.allocSz n := by
    unfold allocSz
    split
    · exact hpos
    · rename_i hall
      rw [not_or] at hall
      omega
  unfold recvBuffered
  rw [if_neg (Nat.ne_of_gt halloc)]
  exact ⟨_, _, _, rfl, hread _ halloc⟩

theorem recvBuffered_of_nil (hnil : h.bufferedData = []) (n : ℕ) :
    h.recvBuffered n
      = if h.useBufferedProtocol || h.eotReceived then (.eot, h) else (.invalidOperation, h) := by
  have hzero : h.bufferedBytes = 0 := by
    rw [bufferedBytes_eq, hnil]
    rfl
  have halloc : h.allocSz n = 0 := by
    unfold allocSz
    split
    · exact hzero
    · rename_i hall
      rw [not_or] at hall
      omega
  unfold recvBuffered
  rw [if_pos halloc]

theorem recvBuffered_chan (h : FliRecvHandle β) (n : ℕ) : (h.recvBuffered n).2.chan = h.chan := by
  unfold recvBuffered
  by_cases halloc : h.allocSz n = 0
  · rw [if_pos halloc]
    split
    · rfl
    · rfl
  · rw [if_neg halloc]

/-! ## The states of a receive handle -/

section States

variable (sent : List β) (others : List (FliMsg β))

/-- The end marker of the stream was not taken yet. -/
structure Running (h : FliRecvHandle β) (received : List β) : Prop where
  protocol : h.useBufferedProtocol = false
  buffered : h.bufferedReceive = false
  called : h.recvCalled = true
  eot : h.eotReceived = false
  notOver : h.streamReceived = false
  nodes : Nodes h.bufferedData
  chan : ∃ tail bytes, h.chan = tail ++ others ∧ StreamTail tail bytes ∧
    received ++ flat h.bufferedData ++ bytes = sent

/-- The end marker was taken, and the handle does not know that the stream is over. -/
structure Drained (h : FliRecvHandle β) (received : List β) : Prop where
  protocol : h.useBufferedProtocol = false
  buffered : h.bufferedReceive = false
  called : h.recvCalled = true
  eot : h.eotReceived = true
  notOver : h.streamReceived = false
  nodes : Nodes h.bufferedData
  chan : h.chan = others
  bytes : received ++ flat h.bufferedData = sent

/-- A receive handle of a stream with an end marker. -/
inductive Streaming (h : FliRecvHandle β) (received : List β) : Prop where
  /-- nothing was received yet -/
  | fresh (hcalled : h.recvCalled = false) (heot : h.eotReceived = false)
      (hover : h.streamReceived = false) (hnil : h.bufferedData = []) (hreceived : received = [])
      (term : Option (List β)) (tail : List (FliMsg β))
      (hchan : h.chan = termMsgs term ++ (tail ++ others)) (htail : StreamTail tail sent)
  | running (hrunning : Running sent others h received)
  | drained (hdrained : Drained sent others h received)
  | ended (hcalled : h.recvCalled = true) (hover : h.streamReceived = true)
      (hnil : h.bufferedData = []) (hchan : h.chan = others)
      (hreceived : received = sent)

/-- A receive handle of the buffered protocol. -/
inductive Buffering (h : FliRecvHandle β) (received : List β) : Prop where
  | unread (heot : h.eotReceived = false) (hover : h.streamReceived = false)
      (hnil : h.bufferedData = []) (hreceived : received = []) (msgs : List (FliMsg β))
      (hchan : h.chan = msgs ++ others) (hmsgs : BufferedMsgs msgs sent)
  | read (heot : h.eotReceived = false) (hover : h.streamReceived = true)
      (hnodes : Nodes h.bufferedData) (hchan : h.chan = others)
      (hsent : received ++ flat h.bufferedData = sent)

/-- A receive handle of a buffered send over a streaming FLI. -/
structure Single (h : FliRecvHandle β) (received : List β) : Prop where
  heot : h.eotReceived = true
  hnodes : Nodes h.bufferedData
  hchan : h.chan = others
  hsent : received ++ flat h.bufferedData = sent
  hover : h.streamReceived = false → h.bufferedData ≠ []

/-- Where the bytes are that are still to be received. -/
inductive Inv (h : FliRecvHandle β) (received : List β) : Prop where
  | streaming (hprotocol : h.useBufferedProtocol = false) (hbuffered : h.bufferedReceive = false)
      (hstate : Streaming sent others h received)
  | buffering (hprotocol : h.useBufferedProtocol = true) (hbuffered : h.bufferedReceive = true)
      (hstate : Buffering sent others h received)
  | single (hprotocol : h.useBufferedProtocol = false) (hbuffered : h.bufferedReceive = true)
      (hstate : Single sent others h received)

/-- A receive that yields bytes, or that says that the stream is over. -/
def Yields (received : List β) : Option (RecvRet β × FliRecvHandle β) → Prop
  | some (.data bytes _, h) => bytes ≠ [] ∧ Inv sent others h (received ++ bytes)
  | some (.eot, h) => received = sent ∧ Inv sent others h received
  | _ => False

/-- What a receive has to do: it yields the next bytes of the stream, or says that the stream is
over when all bytes were received; and it takes no message of another send handle and does not
wait for one. -/
def Delivers (received : List β) : Option (RecvRet β × FliRecvHandle β) → Prop
  | some (.data bytes _, h) => bytes ≠ [] ∧ received ++ bytes <+: sent ∧ others <:+ h.chan
  | some (.eot, h) => received = sent ∧ others <:+ h.chan
  | _ => False

end States

variable {sent : List β} {others : List (FliMsg β)} {h : FliRecvHandle β} {received : List β}

theorem Inv.received_isPrefix (hinv : Inv sent others h received) : received <+: sent := by
  cases hinv with
  | streaming _ _ hstate =>
    cases hstate with
    | fresh _ _ _ _ hreceived =>
      rw [hreceived]
      exact List.nil_prefix
    | running hrunning =>
      obtain ⟨tail, bytes, -, -, hsent⟩ := hrunning.chan
      rw [List.append_assoc] at hsent
      exact ⟨_, hsent⟩
    | drained hdrained => exact ⟨_, hdrained.bytes⟩
    | ended _ _ _ _ hreceived => exact ⟨[], by rw [List.append_nil]; exact hreceived⟩
  | buffering _ _ hstate =>
    cases hstate with
    | unread _ _ _ hreceived =>
      rw [hreceived]
      exact List.nil_prefix
    | read _ _ _ _ hsent => exact ⟨_, hsent⟩
  | single _ _ hstate => exact ⟨_, hstate.hsent⟩

theorem Inv.others_suffix (hinv : Inv sent others h received) : others <:+ h.chan := by
  cases hinv with
  | streaming _ _ hstate =>
    cases hstate with
    | fresh _ _ _ _ _ _ _ hchan =>
      rw [hchan, ← List.append_assoc]
      exact List.suffix_append _ _
    | running hrunning =>
      obtain ⟨tail, bytes, hchan, -, -⟩ := hrunning.chan
      rw [hchan]
      exact List.suffix_append _ _
    | drained hdrained =>
      rw [hdrained.chan]
    | ended _ _ _ hchan =>
      rw [hchan]
  | buffering _ _ hstate =>
    cases hstate with
    | unread _ _ _ _ _ hchan =>
      rw [hchan]
      exact List.suffix_append _ _
    | read _ _ _ hchan =>
      rw [hchan]
  | single _ _ hstate =>
    rw [hstate.hchan]

theorem Yields.delivers {o : Option (RecvRet β × FliRecvHandle β)}
    (hyields : Yields sent others received o) : Delivers sent others received o := by
  match o, hyields with
  | some (.data bytes arg, h), hyields =>
    exact ⟨hyields.1, hyields.2.received_isPrefix, hyields.2.others_suffix⟩
  | some (.eot, h), hyields => exact ⟨hyields.1, hyields.2.others_suffix⟩

/-- A receive that has taken a message of another send handle. -/
theorem not_delivers_of_short {o : Option (RecvRet β × FliRecvHandle β)}
    (hshort : ∀ ret h, o = some (ret, h) → h.chan.length < others.length) :
    ¬ Delivers sent others received o := by
  intro hdelivers
  match o, hdelivers with
  | some (.data bytes arg, h), hdelivers =>
    have hle := hdelivers.2.2.length_le
    have hlt := hshort _ h rfl
    omega
  | some (.eot, h), hdelivers =>
    have hle := hdelivers.2.length_le
    have hlt := hshort _ h rfl
    omega

/-! ## The receives -/

theorem StreamTail.ne_nil {tail : List (FliMsg β)} (htail : StreamTail tail bytes) : tail ≠ [] := by
  cases htail with
  | eot => exact List.cons_ne_nil _ _
  | data => exact List.cons_ne_nil _ _

theorem isData_arg_ne_eot (hm : m.IsData) : m.arg ≠ .eot := by
  obtain ⟨-, arg, harg⟩ := hm
  rw [harg]
  exact nofun

theorem Running.inv (hrunning : Running sent others h received) : Inv sent others h received :=
  .streaming hrunning.protocol hrunning.buffered (.running hrunning)

/-- `dragon_fli_recv_mem` after the check for a termination channel. -/
theorem Running.recvMemRest (hrunning : Running sent others h received) :
    Yields sent others received h.recvMemRest := by
  obtain ⟨hprotocol, hbuffered, hcalled, heot, hover, hnodes, tail, bytes, hchan, htail, hsent⟩ :=
    hrunning
  unfold FliRecvHandle.recvMemRest
  cases hdata : h.bufferedData with
  | cons m rest =>
    rw [hdata] at hnodes hsent
    refine ⟨hnodes m List.mem_cons_self, Running.inv ⟨hprotocol, hbuffered, hcalled, heot, ?_,
      hnodes.tail, tail, bytes, hchan, htail, ?_⟩⟩
    · show (h.streamReceived || h.bufferedReceive) = false
      rw [hover, hbuffered]
      rfl
    · rw [flat_cons] at hsent
      simpa only [List.append_assoc] using hsent
  | nil =>
    rw [hdata, flat_nil, List.append_nil] at hsent
    simp only [hover, Bool.false_eq_true, if_false]
    cases htail with
    | eot =>
      rw [hchan]
      simp only [List.cons_append, List.nil_append, if_true]
      rw [List.append_nil] at hsent
      exact ⟨hsent, .streaming hprotocol hbuffered (.ended hcalled rfl rfl rfl hsent)⟩
    | data hm htail' =>
      rename_i m msgs bytes'
      rw [hchan]
      simp only [List.cons_append, if_neg (isData_arg_ne_eot hm)]
      refine ⟨hm.1, Running.inv ⟨hprotocol, hbuffered, hcalled, heot, hbuffered, nodes_nil,
        msgs, bytes', rfl, htail', ?_⟩⟩
      show received ++ m.bytes ++ [] ++ bytes' = sent
      rw [List.append_nil, List.append_assoc]
      exact hsent

/-- The first receive of a stream: the check for a termination channel finds it, a message that is
buffered, or the end marker. -/
theorem withTermChannel_fresh (hprotocol : h.useBufferedProtocol = false)
    (hbuffered : h.bufferedReceive = false) (hcalled : h.recvCalled = false)
    (heot : h.eotReceived = false) (hover : h.streamReceived = false)
    (hnil : h.bufferedData = []) {term : Option (List β)} {tail : List (FliMsg β)}
    (hchan : h.chan = termMsgs term ++ (tail ++ others)) (htail : StreamTail tail sent)
    {recv : FliRecvHandle β → Option (RecvRet β × FliRecvHandle β)}
    (hrecv : ∀ h', Running sent others h' [] → Yields sent others [] (recv h')) :
    Yields sent others [] (h.withTermChannel recv) := by
  unfold withTermChannel
  rw [hbuffered, hcalled]
  simp only [Bool.or_self, Bool.false_eq_true, if_false]
  unfold getTermChannel FliRecvHandle.recvMemRest
  simp only [hnil, hover, Bool.false_eq_true, if_false]
  cases term with
  | some ser =>
    rw [hchan]
    simp only [termMsgs, List.cons_append, List.nil_append, reduceCtorEq, if_false,
      Option.map_some, Option.bind_some]
    apply hrecv
    exact ⟨hprotocol, rfl, rfl, heot, rfl, nodes_nil, tail, sent, rfl, htail, rfl⟩
  | none =>
    cases htail with
    | eot =>
      rw [hchan]
      simp only [termMsgs, List.cons_append, List.nil_append, if_true, Option.map_some,
        Option.bind_some]
      exact ⟨rfl, .streaming hprotocol rfl (.ended rfl rfl rfl rfl rfl)⟩
    | data hm htail' =>
      rename_i m msgs bytes'
      rw [hchan]
      obtain ⟨bytes, arg⟩ := m
      obtain ⟨hne, user, harg⟩ := hm
      subst harg
      simp only [termMsgs, List.cons_append, List.nil_append, reduceCtorEq, if_false,
        Option.map_some, Option.bind_some]
      rw [bufferMem_of_ne hne]
      apply hrecv
      refine ⟨hprotocol, rfl, rfl, heot, rfl, nodes_nil.append hne, msgs, bytes', rfl, htail',
        ?_⟩
      show [] ++ flat ([] ++ [_]) ++ bytes' = bytes ++ bytes'
      rw [List.nil_append, List.nil_append, flat_cons, flat_nil, List.append_nil]

/-- The loop that fills the buffered data ends with enough of it, or at the end marker. -/
theorem Running.fill (n : ℕ) (htail : StreamTail chan bytes) :
    ∀ {h : FliRecvHandle β}, h.useBufferedProtocol = false → h.bufferedReceive = false →
      h.recvCalled = true → h.eotReceived = false → h.streamReceived = false →
      Nodes h.bufferedData → received ++ flat h.bufferedData ++ bytes = sent →
      ∃ h', FliRecvHandle.fill n (chan ++ others) h = some h' ∧
        ((Running sent others h' received ∧ n ≤ h'.bufferedBytes) ∨
          Drained sent others h' received) := by
  -- the induction is on the messages that are left of the stream
  induction htail with
  | eot dummy =>
    intro h hprotocol hbuffered hcalled heot hover hnodes hsent
    unfold FliRecvHandle.fill
    by_cases henough : n ≤ h.bufferedBytes
    · rw [if_pos henough]
      refine ⟨_, rfl, .inl ⟨⟨hprotocol, hbuffered, hcalled, heot, hover, hnodes, _, _, rfl,
        .eot dummy, hsent⟩, ?_⟩⟩
      exact henough
    · rw [if_neg henough]
      simp only [List.cons_append, List.nil_append, if_true]
      rw [List.append_nil] at hsent
      exact ⟨_, rfl, .inr ⟨hprotocol, hbuffered, hcalled, rfl, hover, hnodes, rfl, hsent⟩⟩
  | data hm htail' ih =>
    rename_i m msgs bytes'
    intro h hprotocol hbuffered hcalled heot hover hnodes hsent
    unfold FliRecvHandle.fill
    by_cases henough : n ≤ h.bufferedBytes
    · rw [if_pos henough]
      refine ⟨_, rfl, .inl ⟨⟨hprotocol, hbuffered, hcalled, heot, hover, hnodes, _, _, rfl,
        .data hm htail', hsent⟩, ?_⟩⟩
      exact henough
    · rw [if_neg henough]
      simp only [List.cons_append, if_neg (isData_arg_ne_eot hm), bufferMem_of_ne hm.1]
      refine ih (h := { h with bufferedData := h.bufferedData ++ [m] }) hprotocol hbuffered
        hcalled heot hover (hnodes.append hm.1) ?_
      show received ++ flat (h.bufferedData ++ [m]) ++ bytes' = sent
      rw [flat_append, flat_cons, flat_nil, List.append_nil, ← hsent]
      simp only [List.append_assoc]

theorem Running.recvBuffered (hrunning : Running sent others h received)
    (hne : h.bufferedData ≠ []) (n : ℕ) :
    Yields sent others received (some (markReceived (h.recvBuffered n))) := by
  obtain ⟨bytes, arg, rest, heq, hbytes, hflat, hnodes⟩ := recvBuffered_of_ne hrunning.nodes hne n
  obtain ⟨tail, last, hchan, htail, hsent⟩ := hrunning.chan
  rw [heq]
  refine ⟨hbytes, Running.inv ⟨hrunning.protocol, hrunning.buffered, hrunning.called,
    hrunning.eot, ?_, hnodes, tail, last, hchan, htail, ?_⟩⟩
  · show (h.streamReceived || (h.useBufferedProtocol && rest.isEmpty) || h.bufferedReceive) = false
    rw [hrunning.notOver, hrunning.protocol, hrunning.buffered]
    rfl
  · show received ++ bytes ++ flat rest ++ last = sent
    rw [← hsent, ← hflat]
    simp only [List.append_assoc]

/-- After the end marker was taken, a read that asks for bytes finds the rest or the end of the
stream. -/
theorem Drained.recvBuffered (hdrained : Drained sent others h received) (n : ℕ) :
    Yields sent others received (some (markReceived (h.recvBuffered n))) := by
  by_cases hne : h.bufferedData = []
  · have hall : received = sent := by
      have hsent := hdrained.bytes
      rw [hne, flat_nil, List.append_nil] at hsent
      exact hsent
    rw [recvBuffered_of_nil hne, hdrained.eot, Bool.or_true, if_pos rfl]
    exact ⟨hall, .streaming hdrained.protocol hdrained.buffered
      (.ended hdrained.called rfl hne hdrained.chan hall)⟩
  · obtain ⟨bytes, arg, rest, heq, hbytes, hflat, hnodes⟩ :=
      recvBuffered_of_ne hdrained.nodes hne n
    rw [heq]
    refine ⟨hbytes, .streaming hdrained.protocol hdrained.buffered (.drained
      ⟨hdrained.protocol, hdrained.buffered, hdrained.called, hdrained.eot, ?_, hnodes,
        hdrained.chan, ?_⟩)⟩
    · show (h.streamReceived || (h.useBufferedProtocol && rest.isEmpty) || h.bufferedReceive)
        = false
      rw [hdrained.notOver, hdrained.protocol, hdrained.buffered]
      rfl
    · show received ++ bytes ++ flat rest = sent
      rw [← hdrained.bytes, ← hflat, List.append_assoc]

/-- `_recv_bytes_buffered` before the end marker was taken. -/
theorem Running.recvBytesBuffered (hrunning : Running sent others h received) (n : ℕ) :
    Yields sent others received ((h.recvBytesBuffered n).map markReceived) := by
  unfold FliRecvHandle.recvBytesBuffered
  split
  · -- nothing is buffered, and whatever is next is asked for
    rename_i hnext
    have hnil : h.bufferedData = [] := (bufferedBytes_eq_zero_iff hrunning.nodes).mp hnext.2
    obtain ⟨tail, bytes, hchan, htail, hsent⟩ := hrunning.chan
    rw [hnil, flat_nil, List.append_nil] at hsent
    cases htail with
    | eot =>
      rw [List.append_nil] at hsent
      rw [hchan]
      simp only [List.cons_append, List.nil_append, if_true, Option.map_some]
      exact ⟨hsent, .streaming hrunning.protocol hrunning.buffered
        (.ended hrunning.called rfl hnil rfl hsent)⟩
    | data hm htail' =>
      rename_i m msgs bytes'
      rw [hchan]
      simp only [List.cons_append, if_neg (isData_arg_ne_eot hm), Option.map_some]
      refine ⟨hm.1, Running.inv ⟨hrunning.protocol, hrunning.buffered, hrunning.called,
        hrunning.eot, ?_, ?_, msgs, bytes', rfl, htail', ?_⟩⟩
      · show (h.streamReceived || h.useBufferedProtocol || h.bufferedReceive) = false
        rw [hrunning.notOver, hrunning.protocol, hrunning.buffered]
        rfl
      · exact hrunning.nodes
      · show received ++ m.bytes ++ flat h.bufferedData ++ bytes' = sent
        rw [hnil, flat_nil, List.append_nil, List.append_assoc]
        exact hsent
  · rename_i hask
    rw [hrunning.eot, if_neg Bool.false_ne_true]
    obtain ⟨tail, bytes, hchan, htail, hsent⟩ := hrunning.chan
    have hfill : ∃ h', FliRecvHandle.fill n (tail ++ others) h = some h' ∧
        ((Running sent others h' received ∧ n ≤ h'.bufferedBytes) ∨
          Drained sent others h' received) :=
      Running.fill n htail hrunning.protocol hrunning.buffered hrunning.called hrunning.eot
        hrunning.notOver hrunning.nodes hsent
    obtain ⟨h', hfill, hfilled⟩ := hfill
    rw [hchan, hfill]
    rcases hfilled with ⟨hrunning', henough⟩ | hdrained
    · apply hrunning'.recvBuffered
      intro hnil
      have hzero : h'.bufferedBytes = 0 :=
        (bufferedBytes_eq_zero_iff hrunning'.nodes).mpr hnil
      -- a request for what is available does not fill the buffered data
      have hn : n = 0 := by omega
      subst hn
      unfold FliRecvHandle.fill at hfill
      rw [if_pos (Nat.zero_le _)] at hfill
      cases hfill
      exact hask ⟨rfl, hzero⟩
    · exact hdrained.recvBuffered n

theorem withTermChannel_called
    {recv : FliRecvHandle β → Option (RecvRet β × FliRecvHandle β)}
    (hcalled : h.bufferedReceive = true ∨ h.recvCalled = true) :
    h.withTermChannel recv = recv h := by
  unfold withTermChannel
  rw [if_pos]
  rcases hcalled with hcalled | hcalled
  · rw [hcalled, Bool.true_or]
  · rw [hcalled, Bool.or_true]

/-- All bytes were received and nothing of the stream is left in the channel, and the handle does
not know that the stream is over. -/
def Unaware (sent : List β) (others : List (FliMsg β)) (h : FliRecvHandle β)
    (received : List β) : Prop :=
  h.streamReceived = false ∧ received = sent ∧ h.chan = others

/-- A receive of one of the two kinds that go to the channel without a test of `EOT_received`. -/
def FromChan : RecvCall → Prop
  | .recvBytes 0 => True
  | .recvBytes (_ + 1) => False
  | .recvMem => True

/-- A receive on a stream yields, unless it goes to the channel of a stream that is over. -/
theorem Streaming.call (hprotocol : h.useBufferedProtocol = false)
    (hbuffered : h.bufferedReceive = false) (hstate : Streaming sent others h received)
    (c : RecvCall) (hfits : FromChan c → ¬ Unaware sent others h received) :
    Yields sent others received (h.call c) := by
  cases hstate with
  | fresh hcalled heot hover hnil hreceived _ _ hchan htail =>
    subst hreceived
    cases c with
    | recvBytes n =>
      show Yields sent others [] (h.recvBytes n)
      unfold FliRecvHandle.recvBytes
      rw [if_neg (by rw [hover]; exact fun hand => Bool.false_ne_true hand.1)]
      exact withTermChannel_fresh hprotocol hbuffered hcalled heot hover hnil hchan htail
        fun h' hrunning => hrunning.recvBytesBuffered n
    | recvMem =>
      exact withTermChannel_fresh hprotocol hbuffered hcalled heot hover hnil hchan htail
        fun h' hrunning => hrunning.recvMemRest
  | running hrunning =>
    cases c with
    | recvBytes n =>
      show Yields sent others received (h.recvBytes n)
      unfold FliRecvHandle.recvBytes
      rw [if_neg (by rw [hrunning.notOver]; exact fun hand => Bool.false_ne_true hand.1),
        withTermChannel_called (.inr hrunning.called)]
      exact hrunning.recvBytesBuffered n
    | recvMem =>
      show Yields sent others received (h.withTermChannel FliRecvHandle.recvMemRest)
      rw [withTermChannel_called (.inr hrunning.called)]
      exact hrunning.recvMemRest
  | drained hdrained =>
    have haware : h.bufferedData = [] → ¬ FromChan c := by
      intro hnil hfrom
      have hsent := hdrained.bytes
      rw [hnil, flat_nil, List.append_nil] at hsent
      exact hfits hfrom ⟨hdrained.notOver, hsent, hdrained.chan⟩
    cases c with
    | recvBytes n =>
      show Yields sent others received (h.recvBytes n)
      unfold FliRecvHandle.recvBytes
      rw [if_neg (by rw [hdrained.notOver]; exact fun hand => Bool.false_ne_true hand.1),
        withTermChannel_called (.inr hdrained.called)]
      unfold FliRecvHandle.recvBytesBuffered
      rw [if_neg, hdrained.eot, if_pos rfl]
      · exact hdrained.recvBuffered n
      · rintro ⟨rfl, hzero⟩
        exact haware ((bufferedBytes_eq_zero_iff hdrained.nodes).mp hzero) trivial
    | recvMem =>
      show Yields sent others received (h.withTermChannel FliRecvHandle.recvMemRest)
      rw [withTermChannel_called (.inr hdrained.called)]
      unfold FliRecvHandle.recvMemRest
      have hnodes := hdrained.nodes
      have hsent := hdrained.bytes
      cases hdata : h.bufferedData with
      | nil => exact absurd trivial (haware hdata)
      | cons m rest =>
        rw [hdata] at hnodes hsent
        refine ⟨hnodes m List.mem_cons_self, .streaming hprotocol hbuffered (.drained
          ⟨hprotocol, hbuffered, hdrained.called, hdrained.eot, ?_, hnodes.tail,
            hdrained.chan, ?_⟩)⟩
        · show (h.streamReceived || h.bufferedReceive) = false
          rw [hdrained.notOver, hbuffered]
          rfl
        · rw [flat_cons, ← List.append_assoc] at hsent
          exact hsent
  | ended hcalled hover hnil hchan hreceived =>
    have hzero : h.bufferedBytes = 0 := by
      rw [bufferedBytes_eq, hnil]
      rfl
    have hinv : Inv sent others h received :=
      .streaming hprotocol hbuffered (.ended hcalled hover hnil hchan hreceived)
    cases c with
    | recvBytes n =>
      show Yields sent others received (h.recvBytes n)
      unfold FliRecvHandle.recvBytes
      rw [if_pos ⟨hover, hzero⟩]
      exact ⟨hreceived, hinv⟩
    | recvMem =>
      show Yields sent others received (h.withTermChannel FliRecvHandle.recvMemRest)
      rw [withTermChannel_called (.inr hcalled)]
      unfold FliRecvHandle.recvMemRest
      rw [hnil, hover]
      exact ⟨hreceived, hinv⟩

/-- Reading from the channel of a stream that is over takes a message of another send handle, or
waits for one. -/
theorem not_delivers_fromChan (hover : h.streamReceived = false) (hnil : h.bufferedData = [])
    (hchan : h.chan = others) (hcalled : h.bufferedReceive = true ∨ h.recvCalled = true)
    (hfrom : FromChan c) : ¬ Delivers sent others received (h.call c) := by
  have hzero : h.bufferedBytes = 0 := by
    rw [bufferedBytes_eq, hnil]
    rfl
  apply not_delivers_of_short
  intro ret h' hcall
  match c, hfrom, hcall with
  | .recvBytes 0, _, hcall =>
    change h.recvBytes 0 = some (ret, h') at hcall
    unfold FliRecvHandle.recvBytes at hcall
    rw [if_neg (by rw [hover]; exact fun hand => Bool.false_ne_true hand.1),
      withTermChannel_called hcalled] at hcall
    unfold FliRecvHandle.recvBytesBuffered at hcall
    rw [if_pos ⟨rfl, hzero⟩, hchan] at hcall
    cases others with
    | nil => exact nomatch hcall
    | cons m rest =>
      simp only at hcall
      split at hcall
      · cases hcall
        exact Nat.lt_succ_self _
      · cases hcall
        exact Nat.lt_succ_self _
  | .recvMem, _, hcall =>
    change h.withTermChannel FliRecvHandle.recvMemRest = some (ret, h') at hcall
    rw [withTermChannel_called hcalled] at hcall
    unfold FliRecvHandle.recvMemRest at hcall
    rw [hnil, hover, hchan] at hcall
    cases others with
    | nil => exact nomatch hcall
    | cons m rest =>
      simp only [Bool.false_eq_true, if_false] at hcall
      split at hcall
      · cases hcall
        exact Nat.lt_succ_self _
      · cases hcall
        exact Nat.lt_succ_self _

/-! ### The buffered protocol -/

/-- What is in a handle after a read of buffered data. -/
theorem Buffering.recvBuffered (hprotocol : h.useBufferedProtocol = true)
    (hbuffered : h.bufferedReceive = true) (heot : h.eotReceived = false)
    (hnodes : Nodes h.bufferedData) (hne : h.bufferedData ≠ []) (hchan : h.chan = others)
    (hsent : received ++ flat h.bufferedData = sent) (n : ℕ) :
    Yields sent others received (some (markReceived (h.recvBuffered n))) := by
  obtain ⟨bytes, arg, rest, heq, hbytes, hflat, hnodes'⟩ := recvBuffered_of_ne hnodes hne n
  rw [heq]
  refine ⟨hbytes, .buffering hprotocol hbuffered (.read heot ?_ hnodes' hchan ?_)⟩
  · show (h.streamReceived || (h.useBufferedProtocol && rest.isEmpty) || h.bufferedReceive) = true
    rw [hbuffered, Bool.or_true]
  · show received ++ bytes ++ flat rest = sent
    rw [← hsent, ← hflat, List.append_assoc]

/-- Every turn of the loop that fills the buffered data takes a message. -/
theorem fill_length_lt {h' : FliRecvHandle β} (hlt : h.bufferedBytes < n)
    (hfill : fill n chan h = some h') : h'.chan.length < chan.length := by
  induction chan generalizing h with
  | nil =>
    unfold fill at hfill
    rw [if_neg (Nat.not_le.mpr hlt)] at hfill
    exact nomatch hfill
  | cons m rest ih =>
    unfold fill at hfill
    rw [if_neg (Nat.not_le.mpr hlt)] at hfill
    simp only at hfill
    split at hfill
    · cases hfill
      exact Nat.lt_succ_self _
    · by_cases henough : n ≤ (h.bufferMem m).bufferedBytes
      · unfold fill at hfill
        rw [if_pos henough] at hfill
        cases hfill
        exact Nat.lt_succ_self _
      · have hshorter := ih (Nat.not_le.mp henough) hfill
        exact Nat.lt_succ_of_lt hshorter

theorem markReceived_chan (ret : RecvRet β × FliRecvHandle β) :
    (markReceived ret).2.chan = ret.2.chan := by
  obtain ⟨ret, h⟩ := ret
  cases ret with
  | data => rfl
  | eot => rfl
  | invalidOperation => rfl

/-- The condition under which a receive does what it has to do: it does not go to the channel of a
stream that is over, and on the buffered protocol it asks for no more bytes than are left. -/
def Fits (sent : List β) (others : List (FliMsg β)) (h : FliRecvHandle β) (received : List β) :
    RecvCall → Prop
  | .recvBytes 0 => ¬ Unaware sent others h received
  | .recvBytes (n + 1) => h.useBufferedProtocol = true →
      (h.streamReceived = true ∧ received = sent) ∨ n + 1 ≤ sent.length - received.length
  | .recvMem => ¬ Unaware sent others h received

/-- The reads of the buffered protocol that come with bytes: nothing or not enough is buffered, or
the buffered data is enough. -/
theorem recvBytes_buffering (hbuffered : h.bufferedReceive = true) (heot : h.eotReceived = false)
    (hmore : ¬ (h.streamReceived = true ∧ h.bufferedBytes = 0))
    (hask : ¬ (n = 0 ∧ h.bufferedBytes = 0)) :
    h.recvBytes n
      = ((fill n h.chan h).map fun h' => h'.recvBuffered n).map markReceived := by
  unfold FliRecvHandle.recvBytes
  rw [if_neg hmore, withTermChannel_called (.inl hbuffered)]
  unfold FliRecvHandle.recvBytesBuffered
  rw [if_neg hask, heot, if_neg Bool.false_ne_true]

theorem fill_of_le (hle : n ≤ h.bufferedBytes) : fill n chan h = some { h with chan := chan } := by
  unfold fill
  rw [if_pos hle]

theorem fill_cons_of_lt {rest : List (FliMsg β)} (hlt : h.bufferedBytes < n) (hm : m.IsData) :
    fill n (m :: rest) h = fill n rest { h with bufferedData := h.bufferedData ++ [m] } := by
  conv_lhs => unfold fill
  rw [if_neg (Nat.not_le.mpr hlt), ← bufferMem_of_ne hm.1]
  simp only [if_neg (isData_arg_ne_eot hm)]

theorem Buffering.call (hprotocol : h.useBufferedProtocol = true)
    (hbuffered : h.bufferedReceive = true) (hstate : Buffering sent others h received)
    (hfits : Fits sent others h received c) : Yields sent others received (h.call c) := by
  cases hstate with
  | unread heot hover hnil hreceived _ hchan hmsgs =>
    subst hreceived
    have hzero : h.bufferedBytes = 0 := by
      rw [bufferedBytes_eq, hnil]
      rfl
    have hmore : ¬ (h.streamReceived = true ∧ h.bufferedBytes = 0) := by
      rw [hover]
      exact fun hand => Bool.false_ne_true hand.1
    rcases hmsgs with ⟨hempty, rfl⟩ | ⟨m, hm, rfl, hbytes⟩
    · -- there is no message of an empty stream, and no receive fits
      have hunaware : Unaware sent others h [] := ⟨hover, hempty.symm, hchan⟩
      match c, hfits with
      | .recvBytes 0, hfits => exact absurd hunaware hfits
      | .recvMem, hfits => exact absurd hunaware hfits
      | .recvBytes (n + 1), hfits =>
        rcases hfits hprotocol with ⟨hover', -⟩ | hle
        · rw [hover] at hover'
          exact absurd hover' Bool.false_ne_true
        · rw [hempty] at hle
          exact absurd hle (Nat.not_succ_le_zero n)
    · have hread : Inv sent others { h with chan := others, streamReceived := true } m.bytes := by
        refine .buffering hprotocol hbuffered (.read heot rfl ?_ rfl ?_)
        · show Nodes h.bufferedData
          rw [hnil]
          exact nodes_nil
        · show m.bytes ++ flat h.bufferedData = sent
          rw [hnil, flat_nil, List.append_nil]
          exact hbytes
      match c, hfits with
      | .recvBytes 0, _ =>
        show Yields sent others [] (h.recvBytes 0)
        unfold FliRecvHandle.recvBytes
        rw [if_neg hmore, withTermChannel_called (.inl hbuffered)]
        unfold FliRecvHandle.recvBytesBuffered
        rw [if_pos ⟨rfl, hzero⟩, hchan]
        simp only [List.singleton_append, if_neg (isData_arg_ne_eot hm), Option.map_some]
        refine ⟨hm.1, ?_⟩
        simp only [hbuffered, Bool.or_true]
        rw [hbuffered] at hread
        exact hread
      | .recvMem, _ =>
        show Yields sent others [] (h.withTermChannel FliRecvHandle.recvMemRest)
        rw [withTermChannel_called (.inl hbuffered)]
        unfold FliRecvHandle.recvMemRest
        rw [hnil, hover, hchan]
        simp only [List.singleton_append, if_neg (isData_arg_ne_eot hm), Bool.false_eq_true,
          if_false]
        refine ⟨hm.1, ?_⟩
        rw [hnil] at hread
        rw [hbuffered] at hread ⊢
        exact hread
      | .recvBytes (n + 1), hfits =>
        have hle : n + 1 ≤ m.bytes.length := by
          rcases hfits hprotocol with ⟨hover', -⟩ | hle
          · rw [hover] at hover'
            exact absurd hover' Bool.false_ne_true
          · rw [hbytes]
            exact hle
        show Yields sent others [] (h.recvBytes (n + 1))
        rw [recvBytes_buffering hbuffered heot hmore (fun hand => Nat.succ_ne_zero n hand.1), hchan,
          List.singleton_append, fill_cons_of_lt (by omega) hm, hnil, List.nil_append,
          fill_of_le (by rw [bufferedBytes_eq, flat_cons, flat_nil, List.append_nil]; exact hle)]
        refine Buffering.recvBuffered (h := { h with bufferedData := [m], chan := others })
          hprotocol hbuffered heot ?_ ?_ rfl ?_ (n + 1)
        · exact nodes_nil.append hm.1
        · exact List.cons_ne_nil m []
        · show [] ++ flat [m] = sent
          rw [List.nil_append, flat_cons, flat_nil, List.append_nil]
          exact hbytes
  | read heot hover hnodes hchan hsent =>
    by_cases hnil : h.bufferedData = []
    · have hall : received = sent := by
        rw [hnil, flat_nil, List.append_nil] at hsent
        exact hsent
      have hinv : Inv sent others h received :=
        .buffering hprotocol hbuffered (.read heot hover hnodes hchan hsent)
      cases c with
      | recvBytes n =>
        show Yields sent others received (h.recvBytes n)
        unfold FliRecvHandle.recvBytes
        rw [if_pos ⟨hover, (bufferedBytes_eq_zero_iff hnodes).mpr hnil⟩]
        exact ⟨hall, hinv⟩
      | recvMem =>
        show Yields sent others received (h.withTermChannel FliRecvHandle.recvMemRest)
        rw [withTermChannel_called (.inl hbuffered)]
        unfold FliRecvHandle.recvMemRest
        rw [hnil, hover]
        exact ⟨hall, hinv⟩
    · have hpos : h.bufferedBytes ≠ 0 :=
        fun hzero => hnil ((bufferedBytes_eq_zero_iff hnodes).mp hzero)
      have hne : received ≠ sent := by
        intro heq
        rw [heq] at hsent
        exact hnodes.flat_ne_nil hnil (List.append_right_eq_self.mp hsent)
      have hlen : sent.length - received.length = h.bufferedBytes := by
        rw [bufferedBytes_eq, ← hsent, List.length_append]
        omega
      have hread : ∀ n, n ≤ h.bufferedBytes → Yields sent others received (h.recvBytes n) := by
        intro n hle
        rw [recvBytes_buffering hbuffered heot (fun hand => hpos hand.2)
          (fun hand => hpos hand.2), fill_of_le hle]
        exact Buffering.recvBuffered hprotocol hbuffered heot hnodes hnil hchan hsent n
      match c, hfits with
      | .recvBytes 0, _ => exact hread 0 (Nat.zero_le _)
      | .recvBytes (n + 1), hfits =>
        rcases hfits hprotocol with ⟨-, heq⟩ | hle
        · exact absurd heq hne
        · exact hread (n + 1) (hlen ▸ hle)
      | .recvMem, _ =>
        show Yields sent others received (h.withTermChannel FliRecvHandle.recvMemRest)
        rw [withTermChannel_called (.inl hbuffered)]
        unfold FliRecvHandle.recvMemRest
        cases hdata : h.bufferedData with
        | nil => exact absurd hdata hnil
        | cons m rest =>
          rw [hdata] at hnodes hsent
          refine ⟨hnodes m List.mem_cons_self, .buffering hprotocol hbuffered
            (.read heot ?_ hnodes.tail hchan ?_)⟩
          · show (h.streamReceived || h.bufferedReceive) = true
            rw [hover]
            rfl
          · rw [flat_cons, ← List.append_assoc] at hsent
            exact hsent

/-- A request for more bytes than are left takes a message of another send handle, or waits for
one. -/
theorem Buffering.not_delivers (hbuffered : h.bufferedReceive = true)
    (hstate : Buffering sent others h received) {c : RecvCall}
    (hfits : ¬ Fits sent others h received c) :
    ¬ Delivers sent others received (h.call c) := by
  have hfrom : FromChan c → Unaware sent others h received →
      ¬ Delivers sent others received (h.call c) := by
    intro hfrom hunaware
    cases hstate with
    | unread _ hover hnil _ _ _ _ =>
      exact not_delivers_fromChan hover hnil hunaware.2.2 (.inl hbuffered) hfrom
    | read _ hover _ _ _ =>
      rw [hunaware.1] at hover
      exact absurd hover Bool.false_ne_true
  match c, hfits with
  | .recvBytes 0, hfits => exact hfrom trivial (not_not.mp hfits)
  | .recvMem, hfits => exact hfrom trivial (not_not.mp hfits)
  | .recvBytes (n + 1), hfits =>
    have hnot : ¬ (h.streamReceived = true ∧ received = sent) :=
      fun hand => hfits fun _ => .inl hand
    have hlt : sent.length - received.length < n + 1 :=
      Nat.not_le.mp fun hle => hfits fun _ => .inr hle
    -- the loop goes on after the last byte
    have hshort : ∀ h', fill (n + 1) h.chan h = some h' → h'.chan.length < others.length := by
      intro h' hfill
      cases hstate with
      | unread heot hover hnil hreceived msgs hchan hmsgs =>
        have hzero : h.bufferedBytes = 0 := by
          rw [bufferedBytes_eq, hnil]
          rfl
        rw [hchan] at hfill
        rcases hmsgs with ⟨-, rfl⟩ | ⟨m, hm, rfl, hbytes⟩
        · exact fill_length_lt (by omega) hfill
        · rw [List.singleton_append, fill_cons_of_lt (by omega) hm] at hfill
          refine fill_length_lt ?_ hfill
          rw [bufferedBytes_eq]
          show (flat (h.bufferedData ++ [m])).length < n + 1
          rw [hnil, List.nil_append, flat_cons, flat_nil, List.append_nil, hbytes]
          rw [hreceived, List.length_nil] at hlt
          exact hlt
      | read heot hover hnodes hchan hsent =>
        rw [hchan] at hfill
        refine fill_length_lt ?_ hfill
        rw [bufferedBytes_eq]
        rw [← hsent, List.length_append] at hlt
        omega
    apply not_delivers_of_short
    intro ret h' hcall
    have heot : h.eotReceived = false := by
      cases hstate with
      | unread heot _ _ _ _ _ _ => exact heot
      | read heot _ _ _ _ => exact heot
    have hmore : ¬ (h.streamReceived = true ∧ h.bufferedBytes = 0) := by
      rintro ⟨hover, hzero⟩
      cases hstate with
      | unread _ hover' _ _ _ _ _ =>
        rw [hover'] at hover
        exact Bool.false_ne_true hover
      | read _ _ hnodes _ hsent =>
        rw [(bufferedBytes_eq_zero_iff hnodes).mp hzero, flat_nil, List.append_nil] at hsent
        exact hnot ⟨hover, hsent⟩
    change h.recvBytes (n + 1) = some (ret, h') at hcall
    rw [recvBytes_buffering hbuffered heot hmore (fun hand => Nat.succ_ne_zero n hand.1)] at hcall
    cases hfill : fill (n + 1) h.chan h with
    | none =>
      rw [hfill] at hcall
      exact nomatch hcall
    | some h₁ =>
      rw [hfill] at hcall
      have hchan : h'.chan = h₁.chan := by
        have hpair : markReceived (h₁.recvBuffered (n + 1)) = (ret, h') :=
          Option.some.inj hcall
        rw [← recvBuffered_chan h₁ (n + 1), ← markReceived_chan, hpair]
      rw [hchan]
      exact hshort h₁ hfill

/-! ### A buffered send over a streaming FLI -/

theorem Single.all_received (hstate : Single sent others h received) (hnil : h.bufferedData = []) :
    h.streamReceived = true ∧ received = sent := by
  have hsent := hstate.hsent
  rw [hnil, flat_nil, List.append_nil] at hsent
  refine ⟨?_, hsent⟩
  by_contra hover
  exact hstate.hover (Bool.eq_false_iff.mpr hover) hnil

theorem Single.call (hprotocol : h.useBufferedProtocol = false)
    (hbuffered : h.bufferedReceive = true) (hstate : Single sent others h received)
    (c : RecvCall) : Yields sent others received (h.call c) := by
  by_cases hnil : h.bufferedData = []
  · obtain ⟨hover, hall⟩ := hstate.all_received hnil
    cases c with
    | recvBytes n =>
      show Yields sent others received (h.recvBytes n)
      unfold FliRecvHandle.recvBytes
      rw [if_pos ⟨hover, (bufferedBytes_eq_zero_iff hstate.hnodes).mpr hnil⟩]
      exact ⟨hall, .single hprotocol hbuffered hstate⟩
    | recvMem =>
      show Yields sent others received (h.withTermChannel FliRecvHandle.recvMemRest)
      rw [withTermChannel_called (.inl hbuffered)]
      unfold FliRecvHandle.recvMemRest
      rw [hnil, hover]
      exact ⟨hall, .single hprotocol hbuffered hstate⟩
  · have hpos : h.bufferedBytes ≠ 0 :=
      fun hzero => hnil ((bufferedBytes_eq_zero_iff hstate.hnodes).mp hzero)
    cases c with
    | recvBytes n =>
      show Yields sent others received (h.recvBytes n)
      unfold FliRecvHandle.recvBytes
      rw [if_neg (fun hand => hpos hand.2), withTermChannel_called (.inl hbuffered)]
      unfold FliRecvHandle.recvBytesBuffered
      rw [if_neg (fun hand => hpos hand.2), hstate.heot, if_pos rfl]
      obtain ⟨bytes, arg, rest, heq, hbytes, hflat, hnodes⟩ :=
        recvBuffered_of_ne hstate.hnodes hnil n
      rw [heq]
      refine ⟨hbytes, .single hprotocol hbuffered ⟨hstate.heot, hnodes, hstate.hchan, ?_, ?_⟩⟩
      · show received ++ bytes ++ flat rest = sent
        rw [List.append_assoc, hflat]
        exact hstate.hsent
      · intro hover
        change (h.streamReceived || (h.useBufferedProtocol && rest.isEmpty)
          || h.bufferedReceive) = false at hover
        rw [hbuffered, Bool.or_true] at hover
        exact absurd hover.symm Bool.false_ne_true
    | recvMem =>
      show Yields sent others received (h.withTermChannel FliRecvHandle.recvMemRest)
      rw [withTermChannel_called (.inl hbuffered)]
      unfold FliRecvHandle.recvMemRest
      have hnodes := hstate.hnodes
      have hsent := hstate.hsent
      cases hdata : h.bufferedData with
      | nil => exact absurd hdata hnil
      | cons m rest =>
        rw [hdata] at hnodes hsent
        refine ⟨hnodes m List.mem_cons_self, .single hprotocol hbuffered
          ⟨hstate.heot, hnodes.tail, hstate.hchan, ?_, ?_⟩⟩
        · rw [flat_cons, ← List.append_assoc] at hsent
          exact hsent
        · intro hover
          change (h.streamReceived || h.bufferedReceive) = false at hover
          rw [hbuffered, Bool.or_true] at hover
          exact absurd hover.symm Bool.false_ne_true

/-! ### All adapters -/

theorem Fits.not_unaware (hfits : Fits sent others h received c) (hfrom : FromChan c) :
    ¬ Unaware sent others h received := by
  match c, hfrom, hfits with
  | .recvBytes 0, _, hfits => exact hfits
  | .recvMem, _, hfits => exact hfits

/-- Without the buffered protocol a receive does not fit only if it goes to the channel of a stream
that is over. -/
theorem unaware_of_not_fits (hprotocol : h.useBufferedProtocol = false)
    (hfits : ¬ Fits sent others h received c) : FromChan c ∧ Unaware sent others h received := by
  match c, hfits with
  | .recvBytes 0, hfits => exact ⟨trivial, not_not.mp hfits⟩
  | .recvMem, hfits => exact ⟨trivial, not_not.mp hfits⟩
  | .recvBytes (n + 1), hfits =>
    refine absurd ?_ hfits
    intro hprotocol'
    rw [hprotocol] at hprotocol'
    exact absurd hprotocol' Bool.false_ne_true

/-- Something of the stream is left in the channel as long as its end marker is. -/
theorem StreamTail.append_ne (first : List (FliMsg β)) {tail : List (FliMsg β)}
    (htail : StreamTail tail bytes) : first ++ (tail ++ others) ≠ others := by
  intro heq
  have hlen := congrArg List.length heq
  rw [List.length_append, List.length_append] at hlen
  have hpos := List.length_pos_of_ne_nil (StreamTail.ne_nil htail)
  omega

theorem Streaming.not_delivers (hstate : Streaming sent others h received) {c : RecvCall}
    (hfrom : FromChan c) (hunaware : Unaware sent others h received) :
    ¬ Delivers sent others received (h.call c) := by
  obtain ⟨hover, hall, hchan⟩ := hunaware
  cases hstate with
  | fresh _ _ _ _ _ term tail hchan' htail =>
    rw [hchan'] at hchan
    exact absurd hchan (StreamTail.append_ne _ htail)
  | running hrunning =>
    obtain ⟨tail, bytes, hchan', htail, -⟩ := hrunning.chan
    rw [hchan'] at hchan
    exact absurd hchan (StreamTail.append_ne [] htail)
  | drained hdrained =>
    have hnil : h.bufferedData = [] := by
      by_contra hne
      have hsent := hdrained.bytes
      rw [hall] at hsent
      exact hdrained.nodes.flat_ne_nil hne (List.append_right_eq_self.mp hsent)
    exact not_delivers_fromChan hover hnil hchan (.inr hdrained.called) hfrom
  | ended _ hover' _ _ _ =>
    rw [hover] at hover'
    exact absurd hover' Bool.false_ne_true

theorem Inv.call (hinv : Inv sent others h received) (hfits : Fits sent others h received c) :
    Yields sent others received (h.call c) := by
  cases hinv with
  | streaming hprotocol hbuffered hstate =>
    exact hstate.call hprotocol hbuffered c fun hfrom => hfits.not_unaware hfrom
  | buffering hprotocol hbuffered hstate => exact hstate.call hprotocol hbuffered hfits
  | single hprotocol hbuffered hstate => exact hstate.call hprotocol hbuffered c

/-- A receive does what it has to do exactly if it fits. -/
theorem Inv.delivered_iff (hinv : Inv sent others h received) (c : RecvCall) :
    Delivers sent others received (h.call c) ↔ Fits sent others h received c := by
  refine ⟨fun hdelivers => ?_, fun hfits => (hinv.call hfits).delivers⟩
  by_contra hfits
  cases hinv with
  | streaming hprotocol _ hstate =>
    obtain ⟨hfrom, hunaware⟩ := unaware_of_not_fits hprotocol hfits
    exact hstate.not_delivers hfrom hunaware hdelivers
  | buffering hprotocol hbuffered hstate =>
    exact hstate.not_delivers hbuffered hfits hdelivers
  | single hprotocol _ hstate =>
    -- before the first receive there are bytes, and the handle knows after it
    obtain ⟨-, hover, hall, -⟩ := unaware_of_not_fits hprotocol hfits
    have hsent := hstate.hsent
    rw [hall] at hsent
    exact hstate.hnodes.flat_ne_nil (hstate.hover hover) (List.append_right_eq_self.mp hsent)

/-! ## The close -/

/-- What the close has to do: it ends, and takes no message of another send handle. -/
def ClosesWell (others : List (FliMsg β)) (h : FliRecvHandle β) : Prop :=
  ∃ chan, h.closeRecvHandle = some chan ∧ others <:+ chan

/-- The condition under which it does: the handle knows that the stream is over, or it is the
buffered protocol, or something of the stream is left in the channel. -/
def CloseFits (others : List (FliMsg β)) (h : FliRecvHandle β) : Prop :=
  h.streamReceived = true ∨ h.useBufferedProtocol = true ∨ h.chan ≠ others

theorem emptyToEot_streamTail {tail : List (FliMsg β)} (htail : StreamTail tail bytes) :
    emptyToEot (tail ++ others) = some others := by
  induction htail with
  | eot => exact if_pos rfl
  | data hdata htail ih =>
    rename_i m msgs bytes
    show (if m.arg = .eot then _ else emptyToEot (msgs ++ others)) = _
    rw [if_neg (isData_arg_ne_eot hdata)]
    exact ih

theorem emptyToEot_termMsgs (term : Option (List β)) (chan : List (FliMsg β)) :
    emptyToEot (termMsgs term ++ chan) = emptyToEot chan := by
  cases term with
  | none => rfl
  | some ser => exact if_neg nofun

theorem emptyToEot_length_lt {rest : List (FliMsg β)} (h : emptyToEot chan = some rest) :
    rest.length < chan.length := by
  induction chan with
  | nil => exact nomatch h
  | cons m chan ih =>
    unfold emptyToEot at h
    split at h
    · cases h
      exact Nat.lt_succ_self _
    · exact Nat.lt_succ_of_lt (ih h)

theorem closesWell_of_streamTail (hprotocol : h.useBufferedProtocol = false)
    (hbuffered : h.bufferedReceive = false) (hover : h.streamReceived = false)
    (term : Option (List β)) {tail : List (FliMsg β)}
    (hchan : h.chan = termMsgs term ++ (tail ++ others)) (htail : StreamTail tail bytes) :
    ClosesWell others h := by
  refine ⟨others, ?_, List.suffix_rfl⟩
  unfold closeRecvHandle
  rw [hover, hprotocol, hbuffered, hchan, emptyToEot_termMsgs, emptyToEot_streamTail htail]
  rfl

theorem Inv.closesWell (hinv : Inv sent others h received) (hfits : CloseFits others h) :
    ClosesWell others h := by
  by_cases hknows : (h.streamReceived || h.useBufferedProtocol) = true
  · refine ⟨h.chan, ?_, hinv.others_suffix⟩
    unfold closeRecvHandle
    rw [if_pos hknows]
  · rw [Bool.not_eq_true, Bool.or_eq_false_iff] at hknows
    obtain ⟨hover, hprotocol⟩ := hknows
    have hleft : h.chan ≠ others := by
      rcases hfits with hover' | hprotocol' | hleft
      · rw [hover] at hover'
        exact absurd hover' Bool.false_ne_true
      · rw [hprotocol] at hprotocol'
        exact absurd hprotocol' Bool.false_ne_true
      · exact hleft
    cases hinv with
    | streaming _ hbuffered hstate =>
      cases hstate with
      | fresh _ _ _ _ _ term _ hchan htail =>
        exact closesWell_of_streamTail hprotocol hbuffered hover term hchan htail
      | running hrunning =>
        obtain ⟨tail, bytes, hchan, htail, -⟩ := hrunning.chan
        exact closesWell_of_streamTail hprotocol hbuffered hover none hchan htail
      | drained hdrained => exact absurd hdrained.chan hleft
      | ended _ _ _ hchan => exact absurd hchan hleft
    | buffering hprotocol' =>
      rw [hprotocol] at hprotocol'
      exact absurd hprotocol' Bool.false_ne_true
    | single _ _ hstate => exact absurd hstate.hchan hleft

/-- Emptying the channel when nothing of the stream is left does not end, or takes messages of
another send handle up to its end marker. -/
theorem not_closesWell (hfits : ¬ CloseFits others h) : ¬ ClosesWell others h := by
  rintro ⟨chan, hclose, hsuffix⟩
  unfold CloseFits at hfits
  rw [not_or, not_or, Bool.not_eq_true, Bool.not_eq_true, not_not] at hfits
  obtain ⟨hover, hprotocol, hchan⟩ := hfits
  unfold closeRecvHandle at hclose
  rw [hover, hprotocol, hchan] at hclose
  simp only [Bool.or_self, Bool.false_eq_true, if_false] at hclose
  split at hclose
  · exact nomatch hclose
  · have hlt := emptyToEot_length_lt hclose
    have hle := hsuffix.length_le
    omega

theorem Inv.closesWell_iff (hinv : Inv sent others h received) :
    ClosesWell others h ↔ CloseFits others h :=
  ⟨fun hclose => by_contra fun hfits => not_closesWell hfits hclose, hinv.closesWell⟩

/-! ## The runs -/

section Reads

variable (sent : List β) (others : List (FliMsg β))

/-- A receive, with all bytes that were received before it and then after it. -/
def read (s : FliRecvHandle β × List β) (c : RecvCall) : FliRecvHandle β × List β :=
  match s.1.call c with
  | some (.data bytes _, h) => (h, s.2 ++ bytes)
  | some (_, h) => (h, s.2)
  | none => s

/-- The stream of a send handle that has sent `msgs` is received as it was sent: the open and the
receives get it, a receive after the last byte says so, and none of them nor the close waits for a
message of another send handle or takes one. -/
def Faithful (kind : FliKind) (msgs : List (FliMsg β)) (calls : List RecvCall) : Prop :=
  ∃ h, openRecvHandle kind (msgs ++ others) = some h ∧ others <:+ h.chan ∧
    Runs.Legal read (fun s c => Delivers sent others s.2 (s.1.call c)) (h, []) calls ∧
    ClosesWell others (calls.foldl read (h, [])).1

/-- The calls on a receive handle that all fit. -/
def Harmless (kind : FliKind) (msgs : List (FliMsg β)) (calls : List RecvCall) : Prop :=
  (kind = .bufferedSend → sent ≠ []) ∧
    ∀ h, openRecvHandle kind (msgs ++ others) = some h →
      Runs.Legal read (fun s c => Fits sent others s.1 s.2 c) (h, []) calls ∧
        CloseFits others (calls.foldl read (h, [])).1

end Reads

theorem Inv.read {s : FliRecvHandle β × List β} (hinv : Inv sent others s.1 s.2)
    (hfits : Fits sent others s.1 s.2 c) : Inv sent others (read s c).1 (read s c).2 := by
  have hyields := hinv.call hfits
  unfold FliRecvHandle.read
  match s.1.call c, hyields with
  | some (.data bytes arg, h), hyields => exact hyields.2
  | some (.eot, h), hyields => exact hyields.2

theorem Inv.run_iff (hinv : Inv sent others h []) (calls : List RecvCall) :
    (Runs.Legal FliRecvHandle.read (fun s c => Delivers sent others s.2 (s.1.call c)) (h, []) calls ∧
        ClosesWell others (calls.foldl FliRecvHandle.read (h, [])).1) ↔
      Runs.Legal FliRecvHandle.read (fun s c => Fits sent others s.1 s.2 c) (h, []) calls ∧
        CloseFits others (calls.foldl FliRecvHandle.read (h, [])).1 := by
  have hcalls := Runs.legal_congr (I := fun s => Inv sent others s.1 s.2)
    (fun s c hs => hs.delivered_iff c) (fun s c hs hfits => hs.read hfits) (s := (h, [])) hinv calls
  rw [hcalls]
  refine and_congr_right fun hlegal => ?_
  have hlast := hlegal.invariant (I := fun s => Inv sent others s.1 s.2)
    (fun s c hs hfits => hs.read hfits) hinv
  exact hlast.closesWell_iff

/-- The open of a receive handle on the messages of a stream with an end marker. -/
theorem inv_open_streamTail {kind : FliKind} (hkind : kind = .streaming ∨ kind = .oneToOne)
    {term : Option (List β)} {tail : List (FliMsg β)} (htail : StreamTail tail sent) :
    ∃ h, openRecvHandle kind (termMsgs term ++ tail ++ others) = some h ∧
      Inv sent others h [] := by
  rw [List.append_assoc]
  rcases hkind with rfl | rfl
  · exact ⟨_, rfl, .streaming rfl rfl (.fresh rfl rfl rfl rfl rfl term tail rfl htail)⟩
  · exact ⟨_, rfl, .streaming rfl rfl (.fresh rfl rfl rfl rfl rfl term tail rfl htail)⟩

theorem inv_open_bufferedProtocol (hmsgs : BufferedMsgs msgs sent) :
    ∃ h, openRecvHandle .bufferedProtocol (msgs ++ others) = some h ∧ Inv sent others h [] :=
  ⟨_, rfl, .buffering rfl rfl (.unread rfl rfl rfl rfl msgs rfl hmsgs)⟩

/-- A buffered send over a streaming FLI that is not empty is found by the open. -/
theorem inv_open_bufferedSend (hmsgs : BufferedMsgs msgs sent) (hne : sent ≠ []) :
    ∃ h, openRecvHandle .bufferedSend (msgs ++ others) = some h ∧ Inv sent others h [] := by
  rcases hmsgs with ⟨hnil, -⟩ | ⟨m, hm, rfl, hbytes⟩
  · exact absurd hnil hne
  · refine ⟨_, rfl, .single rfl rfl ⟨rfl, ?_, rfl, ?_, ?_⟩⟩
    · rw [if_neg hm.1]
      exact nodes_nil.append hm.1
    · rw [if_neg hm.1, flat_cons, flat_nil, List.append_nil, List.nil_append]
      exact hbytes
    · intro _
      rw [if_neg hm.1]
      exact List.cons_ne_nil m []

theorem faithful_iff_of_inv {kind : FliKind} {calls : List RecvCall}
    (hsome : kind = .bufferedSend → sent ≠ [])
    (hopen : ∃ h, openRecvHandle kind (msgs ++ others) = some h ∧ Inv sent others h []) :
    Faithful sent others kind msgs calls ↔ Harmless sent others kind msgs calls := by
  obtain ⟨h, hopen, hinv⟩ := hopen
  constructor
  · rintro ⟨h', hopen', -, hlegal, hclose⟩
    have heq : h = h' := Option.some.inj (hopen.symm.trans hopen')
    subst heq
    refine ⟨hsome, fun h' hopen' => ?_⟩
    have heq : h = h' := Option.some.inj (hopen.symm.trans hopen')
    subst heq
    exact (hinv.run_iff calls).mp ⟨hlegal, hclose⟩
  · rintro ⟨-, hall⟩
    exact ⟨h, hopen, hinv.others_suffix, (hinv.run_iff calls).mpr (hall h hopen)⟩

/-- An empty buffered send sends nothing: the open waits for, or takes, the first message of
another send handle. -/
theorem not_faithful_of_nil {calls : List RecvCall} (hmsgs : BufferedMsgs msgs []) :
    ¬ Faithful sent others .bufferedSend msgs calls := by
  rcases hmsgs with ⟨-, rfl⟩ | ⟨m, hm, -, hbytes⟩
  · rintro ⟨h, hopen, hsuffix, -⟩
    cases others with
    | nil => exact nomatch hopen
    | cons m rest =>
      cases hopen
      have hle := hsuffix.length_le
      exact Nat.not_succ_le_self _ hle
  · exact absurd hbytes hm.1

/-- For every adapter, all sends that a send handle accepts, and all receives: the stream is
received as it was sent exactly if every receive and the close fit. -/
theorem faithful_iff_harmless {kind : FliKind} {term : Option (List β)} {cs : List (SendCall β)}
    {s : FliSendHandle β} (hcs : (FliSendHandle.openSendHandle kind term).calls cs = some s)
    (dummy : β) (others : List (FliMsg β)) (calls : List RecvCall) :
    Faithful (cs.flatMap SendCall.bytes) others kind (s.closeSendHandle dummy) calls ↔
      Harmless (cs.flatMap SendCall.bytes) others kind (s.closeSendHandle dummy) calls := by
  cases kind with
  | streaming =>
    obtain ⟨tail, hmsgs, htail⟩ := FliSendHandle.close_streamTail (.inl rfl) hcs dummy
    rw [hmsgs]
    exact faithful_iff_of_inv nofun (inv_open_streamTail (.inl rfl) htail)
  | oneToOne =>
    obtain ⟨tail, hmsgs, htail⟩ := FliSendHandle.close_streamTail (.inr rfl) hcs dummy
    rw [hmsgs]
    exact faithful_iff_of_inv nofun (inv_open_streamTail (.inr rfl) htail)
  | bufferedProtocol =>
    have hmsgs := FliSendHandle.close_bufferedMsgs (.inl rfl) hcs dummy
    exact faithful_iff_of_inv nofun (inv_open_bufferedProtocol hmsgs)
  | bufferedSend =>
    have hmsgs := FliSendHandle.close_bufferedMsgs (.inr rfl) hcs dummy
    by_cases hnil : cs.flatMap SendCall.bytes = []
    · rw [hnil] at hmsgs ⊢
      exact iff_of_false (not_faithful_of_nil hmsgs) fun hharmless => hharmless.1 rfl rfl
    · exact faithful_iff_of_inv (fun _ => hnil) (inv_open_bufferedSend hmsgs hnil)

/-- The messages of a stream of one byte. -/
def oneByte (byte : UInt8) : List (FliMsg UInt8) := [⟨[byte], .user 0⟩, ⟨[0], .eot⟩]

/-- One byte is sent, and received by reading whatever there is. -/
theorem faithful_iff_harmless_oneByte :
    Faithful [7] [] .streaming (oneByte 7) [.recvBytes 0, .recvBytes 0] := by
  refine (@faithful_iff_harmless UInt8 .streaming none [.sendBytes [7] 0 false] _ rfl 0 []
    [.recvBytes 0, .recvBytes 0]).mpr ⟨nofun, ?_⟩
  intro h hopen
  cases hopen
  refine ⟨⟨?_, ?_, trivial⟩, .inl rfl⟩
  · exact fun hunaware => nomatch hunaware.2.2
  · exact fun hunaware => nomatch hunaware.2.2

/-- One byte is sent and five are asked for.  The first receive gets the byte and takes the end
marker, and the second one gets the byte of the next stream on the channel. -/
theorem not_faithful_largeRequest :
    ∃ s, (FliSendHandle.openSendHandle .oneToOne none).calls [.sendBytes [7] 0 false] = some s ∧
      s.closeSendHandle 0 = oneByte 7 ∧
      ¬ Faithful [7] (oneByte 9) .oneToOne (s.closeSendHandle 0) [.recvBytes 5, .recvMem] := by
  refine ⟨_, rfl, rfl, ?_⟩
  rintro ⟨h, hopen, -, hlegal, -⟩
  cases hopen
  have hsecond : [7, 9] <+: ([7] : List UInt8) := hlegal.2.1.2.1
  exact absurd hsecond (by decide)

end FliRecvHandle
