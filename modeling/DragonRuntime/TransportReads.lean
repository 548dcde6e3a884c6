/-
# Streams that end early (`src/dragon/transport/tcp/transport.py`, `_do_recv`)

`StreamTransport._do_recv` reads messages from a connection up to its end.  If the connection ends
early, the stream ends inside a message, and what was read of this one is dropped.

Conventions:

* one call of `_do_recv`, on a stream that gets EOF after its bytes; `run_forever`, which calls it
  again when it has raised, is left out;
* `_handle_recv` does not raise;
* the times are those of the reads; `none` stands for a call that goes on after the last of them.
-/
import DragonRuntime.TransportMessages

open StreamCodec

namespace TcpTransport

theorem causal_struct (format : StructFormat) : Causal .IncompleteReadError (readStruct format) :=
  (Causal.exactly _).bind fun _ => Causal.except _

theorem causal_variableBytes (format : StructFormat) :
    Causal .IncompleteReadError (readVariableBytes format) := by
  refine (causal_struct format).bind fun value => ?_
  cases value with
  | int n => exact Causal.exactly _
  | _ => exact Causal.except (.error _)

theorem Codec.causal (codec : Codec) : Causal .IncompleteReadError codec.read := by
  cases codec with
  | struct format => exact causal_struct format
  | variableBytes format | payloadBytes format =>
    exact (causal_variableBytes format).bind fun _ => Causal.except (.ok _)
  | variableText format => exact (causal_variableBytes format).bind fun _ => Causal.except _
  | uuidBytes | ipv4Address | ipv6Address =>
    exact (Causal.exactly _).bind fun _ => Causal.except _
  | enum format => exact (causal_struct format).bind fun _ => Causal.except _

namespace TransportMessage

theorem causal_readMessage (now : ℕ) : Causal .IncompleteReadError (readMessage now) := by
  refine (Causal.exactly 1).bind fun typeid => ?_
  cases typeid.head?.bind MessageClass.ofTypeid with
  | none => exact Causal.except (.error _)
  | some cls => exact (Causal.list fun item => item.2.causal).bind fun _ => Causal.except _

inductive RecvEnd : Type where
  | returned
  | raised (e : ReadError)

/-- `StreamTransport._do_recv`: the messages that `_handle_recv` gets, and how the call ends. -/
def doRecv : List ℕ → Bytes → List TransportMessage × Option RecvEnd
  | [], _ => ([], none)
  | now :: times, stream =>
    if stream = [] then ([], some .returned)
    else match readMessage now stream with
      | .ok (msg, rest) => (msg :: (doRecv times rest).1, (doRecv times rest).2)
      -- the reader drops the bytes that it has, so that it is at its end
      | .error .IncompleteReadError => ([], some .returned)
      | .error e => ([], some (.raised e))

variable {now : ℕ} {times : List ℕ} {stream : Bytes}

theorem doRecv_ok {rest : Bytes} {msg : TransportMessage}
    (h : readMessage now stream = .ok (msg, rest)) :
    doRecv (now :: times) stream = (msg :: (doRecv times rest).1, (doRecv times rest).2) := by
  cases stream with
  | nil => cases h
  | cons byte stream => rw [doRecv, if_neg (List.cons_ne_nil byte stream), h]

theorem doRecv_incomplete (h : stream ≠ [] → readMessage now stream = .error .IncompleteReadError) :
    doRecv (now :: times) stream = ([], some .returned) := by
  by_cases hne : stream = []
  · rw [doRecv, if_pos hne]
  · rw [doRecv, if_neg hne, h hne]

/-- **A stream that ends early.**  Whatever bytes a stream has: the messages that come of its begin
are the first ones that come of all of it, and `_do_recv` returns, unless it does on the whole
stream exactly what it does on the begin. -/
theorem doRecv_append (times : List ℕ) (stream rest : Bytes) :
    (doRecv times stream).1 <+: (doRecv times (stream ++ rest)).1 ∧
      (doRecv times (stream ++ rest) = doRecv times stream ∨
        (doRecv times stream).2 = some .returned) := by
  induction times generalizing stream with
  | nil => exact ⟨List.prefix_rfl, .inl rfl⟩
  | cons now times ih =>
    by_cases hne : stream = []
    · rw [doRecv_incomplete fun h => absurd hne h]
      exact ⟨List.nil_prefix, .inr rfl⟩
    have hcausal := causal_readMessage now stream rest
    cases hread : readMessage now stream with
    | ok item =>
      rw [doRecv_ok hread, doRecv_ok (hcausal.1 item.1 item.2 hread)]
      obtain ⟨hfirst, hend⟩ := ih item.2
      exact ⟨List.cons_prefix_cons.mpr ⟨rfl, hfirst⟩, hend.imp_left fun h => by rw [h]⟩
    | error e =>
      rcases hcausal.2 e hread with rfl | herror
      · rw [doRecv_incomplete fun _ => hread]
        exact ⟨List.nil_prefix, .inr rfl⟩
      · have hlong : stream ++ rest ≠ [] := fun h => hne (List.append_eq_nil_iff.mp h).1
        have hsame : doRecv (now :: times) (stream ++ rest) = doRecv (now :: times) stream := by
          rw [doRecv, doRecv, if_neg hne, if_neg hlong, hread, herror]
        exact ⟨by rw [hsame], .inl hsame⟩

/-- The first byte of a greeting, and the whole of it. -/
theorem doRecv_append_example :
    (doRecv [0, 4] ((hello6.writeMessage []).2.take 1)).1
      <+: (doRecv [0, 4] (hello6.writeMessage []).2).1 := by
  have h := (doRecv_append [0, 4] ((hello6.writeMessage []).2.take 1)
    ((hello6.writeMessage []).2.drop 1)).1
  rwa [List.take_append_drop] at h

theorem readMessage_written (now : ℕ) {msg : TransportMessage} (h : msg.InRange) {data : Bytes}
    (hdata : msg.writeMessage [] = (.ok (), data)) :
    ∃ msg', Transmits msg msg' ∧ ∀ rest, readMessage now (data ++ rest) = .ok (msg', rest) := by
  obtain ⟨msg', htransmits, datum, hwrite, hread⟩ := roundTrip now h
  obtain rfl : datum = data := congrArg Prod.snd ((hwrite []).symm.trans hdata)
  exact ⟨msg', htransmits, hread⟩

/-- **A connection that ends early.**  Of messages that were written one after the other, the last
of them in part, `_do_recv` hands on all but that one, as they are transmitted, and returns. -/
theorem doRecv_written (items : List TransportMessage) (hitems : ∀ item ∈ items, item.InRange)
    (data : List Bytes)
    (hdata : List.Forall₂ (fun item datum => item.writeMessage [] = (.ok (), datum)) items data)
    (msg : TransportMessage) (hmsg : msg.InRange) (part later : Bytes)
    (hwrite : msg.writeMessage [] = (.ok (), part ++ later)) (hlater : later ≠ [])
    (times : List ℕ) (htimes : items.length < times.length) :
    ∃ msgs, List.Forall₂ Transmits items msgs ∧
      doRecv times (data.flatten ++ part) = (msgs, some .returned) := by
  induction hdata generalizing times with
  | nil =>
    obtain ⟨now, times, rfl⟩ := List.exists_cons_of_length_pos htimes
    obtain ⟨msg', -, hread⟩ := readMessage_written now hmsg hwrite
    have hwhole := hread []
    rw [List.append_nil] at hwhole
    exact ⟨[], .nil, doRecv_incomplete fun _ =>
      (causal_readMessage now).incomplete_of_part hwhole hlater⟩
  | cons hitem _ ih =>
    obtain ⟨hfirst, hrest⟩ := List.forall_mem_cons.mp hitems
    obtain ⟨now, times, rfl⟩ := List.exists_cons_of_length_pos (Nat.zero_lt_of_lt htimes)
    obtain ⟨msg', htransmits, hread⟩ := readMessage_written now hfirst hitem
    obtain ⟨msgs, hmsgs, hrun⟩ := ih hrest times (Nat.lt_of_succ_lt_succ htimes)
    refine ⟨msg' :: msgs, .cons htransmits hmsgs, ?_⟩
    rw [List.flatten_cons, List.append_assoc, doRecv_ok (hread _), hrun]

/-- A greeting, and the first byte of another one. -/
theorem doRecv_written_example : ∃ msgs, List.Forall₂ Transmits [hello6] msgs ∧
    doRecv [0, 4] ([(hello6.writeMessage []).2].flatten ++ (hello6.writeMessage []).2.take 1)
      = (msgs, some .returned) :=
  doRecv_written [hello6] (List.forall_mem_singleton.mpr inRange_hello6) _ (.cons rfl .nil) hello6
    inRange_hello6 _ ((hello6.writeMessage []).2.drop 1) (by rw [List.take_append_drop]; rfl)
    (by decide) [0, 4] (by decide)

end TransportMessage

end TcpTransport
