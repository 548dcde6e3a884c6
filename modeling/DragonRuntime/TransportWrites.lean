/-
# Failed writes of the TCP transport (`src/dragon/transport/tcp/messages.py`, `transport.py`)

`write_message` writes the type id of a message and then field after field, and stops at the first
field that cannot be written, with what is before it in the stream.  On a connection that is kept
after a failed write the peer gets whole messages as long as every message is writable or has no
type id (`allOrNothing_iff`).
-/
import DragonRuntime.TransportMessages

open StreamCodec

namespace TcpTransport

namespace Codec

/-- The values that a codec writes: an IPv6 address also with a scope, and a number for a `float`
that fits a single. -/
def Accepts : Codec → Value → Prop
  | .ipv6Address, .ipv6 _ => True
  | .struct .f, .int n => toSingle n < 2 ^ 128
  | .struct .f, .monotonic time => toSingle time < 2 ^ 128
  | codec, value => codec.InRange value

/-- A number of bytes, or of a member, is packed as an integer. -/
def counting : Codec → Bool
  | .variableBytes format | .payloadBytes format | .variableText format | .enum format =>
    format ≠ .f
  | _ => true

/-- The digits of a number, before the bytes whose number it is. -/
def counted (format : StructFormat) (data : Bytes) : Option Bytes :=
  if data.length < 256 ^ format.size then
    some (bigEndian format.size data.length ++ data)
  else none

/-- The encoding of a value, where it has one. -/
def encoding : Codec → Value → Option Bytes
  | .struct .f, .float pattern => some (bigEndian 4 pattern.toNat)
  | .struct .f, .int n => (packSingle n).toOption
  | .struct .f, .monotonic time => (packSingle time).toOption
  | .struct format, .int n =>
    if 0 ≤ n ∧ n < 256 ^ format.size then some (bigEndian format.size n.toNat) else none
  | .variableBytes format, .bytes data => counted format data
  | .payloadBytes format, .payload data => counted format data
  | .variableText format, .str s => counted format s.toUTF8.data.toList
  | .uuidBytes, .uuid u => some (bigEndian 16 u.int)
  | .ipv4Address, .ipv4 ip => some (bigEndian 4 ip.ip)
  | .ipv6Address, .ipv6 ip => some (bigEndian 16 ip.ip)
  | .enum format, .returnMode mode =>
    if mode.value < 256 ^ format.size then some (bigEndian format.size mode.value) else none
  | _, _ => none

end Codec

/-- A writer appends all of an encoding, or fails when there is none. -/
def Whole (write : StreamWriter) (encoding : Option Bytes) : Prop :=
  match encoding with
  | some data => ∀ stream, write stream = (.ok (), stream ++ data)
  | none => ∃ e data, ∀ stream, write stream = (.error e, stream ++ data)

theorem whole_throw (e : WriteError) : Whole (throw e) none :=
  ⟨e, [], fun stream => by rw [List.append_nil]; rfl⟩

/-- A writer that fails after another one. -/
theorem Whole.bind_none {write write' : StreamWriter} {encoding : Option Bytes}
    (h : Whole write encoding) (h' : Whole write' none) : Whole (write >>= fun _ => write') none := by
  cases encoding with
  | none =>
    obtain ⟨e, data, hfail⟩ := h
    obtain rfl : write = fun stream => (.error e, stream ++ data) := funext hfail
    exact ⟨e, data, fun _ => rfl⟩
  | some data =>
    obtain ⟨e, data', hfail⟩ := h'
    obtain rfl : write = fun stream => (.ok (), stream ++ data) := funext h
    refine ⟨e, data ++ data', fun stream => ?_⟩
    rw [← List.append_assoc]
    exact hfail _

theorem whole_fixedBytes {size : ℕ} {data : Bytes} (hlength : data.length = size) :
    Whole (writeFixedBytes size data) (some data) := by
  intro stream
  rw [writeFixedBytes, if_pos hlength]
  rfl

theorem whole_fixedBytes_ne {size : ℕ} {data : Bytes} (hlength : data.length ≠ size) :
    Whole (writeFixedBytes size data) none := by
  rw [writeFixedBytes, if_neg hlength]
  exact whole_throw _

variable {format : StructFormat}

/-- A number is written when it has so many digits. -/
theorem whole_int (hformat : format ≠ .f) (n : ℤ) :
    Whole (writeStruct format (.int n))
      (if 0 ≤ n ∧ n < 256 ^ format.size then some (bigEndian format.size n.toNat) else none) := by
  unfold writeStruct
  rw [format.pack_int hformat]
  by_cases hrange : 0 ≤ n ∧ n < 256 ^ format.size
  · rw [if_pos hrange, if_pos hrange]
    exact whole_fixedBytes (length_bigEndian _ _)
  · rw [if_neg hrange, if_neg hrange]
    exact whole_throw _

/-- A number is written as a `float` when it is not too large. -/
theorem whole_single {value : Value} {n : ℤ} (hpack : StructFormat.f.pack value = packSingle n) :
    Whole (writeStruct .f value) (packSingle n).toOption := by
  unfold writeStruct
  rw [hpack]
  by_cases hrange : toSingle n < 2 ^ 128
  · rw [packSingle, if_pos hrange]
    exact whole_fixedBytes (length_bigEndian _ _)
  · rw [packSingle, if_neg hrange]
    exact whole_throw _

theorem whole_nat (hformat : format ≠ .f) (n : ℕ) :
    Whole (writeStruct format (.int n))
      (if n < 256 ^ format.size then some (bigEndian format.size n) else none) := by
  have hint := whole_int hformat n
  have hrange : (0 ≤ (n : ℤ) ∧ (n : ℤ) < 256 ^ format.size) ↔ n < 256 ^ format.size := by
    constructor
    · intro h
      exact_mod_cast h.2
    · intro h
      exact ⟨Int.natCast_nonneg n, by exact_mod_cast h⟩
  simp only [hrange, Int.toNat_natCast] at hint
  exact hint

/-- The number of the bytes fails before any of them is written. -/
theorem whole_counted (hformat : format ≠ .f) (data : Bytes) :
    Whole (writeVariableBytes format data) (Codec.counted format data) := by
  have hnumber := whole_nat hformat data.length
  unfold Codec.counted
  by_cases hrange : data.length < 256 ^ format.size
  · rw [if_pos hrange] at hnumber ⊢
    intro stream
    have hwrite : writeStruct format (.int data.length) = emit (bigEndian format.size data.length) :=
      funext hnumber
    show (writeStruct format (.int data.length) >>= fun _ => emit data) stream = _
    rw [hwrite, ← List.append_assoc]
    rfl
  · rw [if_neg hrange] at hnumber ⊢
    obtain ⟨e, digits, hfail⟩ := hnumber
    refine ⟨e, digits, fun stream => ?_⟩
    have hwrite : writeStruct format (.int data.length) = fun stream => (.error e, stream ++ digits) :=
      funext hfail
    show (writeStruct format (.int data.length) >>= fun _ => emit data) stream = _
    rw [hwrite]
    rfl

/-- What is no bytes fails after its length, where it has one. -/
theorem whole_writeLength (hformat : format ≠ .f) (value : Value) (e : WriteError) :
    Whole (writeLength format value e) none := by
  unfold writeLength
  cases value.len with
  | none => exact whole_throw _
  | some n => exact (whole_nat hformat n).bind_none (whole_throw e)

theorem whole_struct (format : StructFormat) (value : Value) :
    Whole (writeStruct format value) (Codec.encoding (.struct format) value) := by
  by_cases hformat : format = .f
  · subst hformat
    cases value with
    | float pattern => exact whole_fixedBytes (length_bigEndian _ _)
    | int n => exact whole_single rfl
    | monotonic time => exact whole_single rfl
    | hugeFloat => exact whole_throw .OverflowError
    | _ => exact whole_throw .StructError
  · cases value with
    | int n =>
      have hwhole := whole_int hformat n
      cases format with
      | f => exact absurd rfl hformat
      | B | H | L | Q => exact hwhole
    | _ =>
      cases format with
      | f => exact absurd rfl hformat
      | B | H | L | Q => exact whole_throw .StructError

theorem Codec.write_encode {codec : Codec} (hcodec : codec.counting = true) (value : Value) :
    Whole (codec.write value) (codec.encoding value) := by
  cases codec with
  | struct format => exact whole_struct format value
  | variableBytes format =>
    have hformat := of_decide_eq_true hcodec
    have hlength := whole_writeLength hformat value .TypeError
    cases value with
    | bytes data => exact whole_counted hformat data
    | _ => exact hlength
  | payloadBytes format =>
    have hformat := of_decide_eq_true hcodec
    have hlength := whole_writeLength hformat value .AttributeError
    cases value with
    | payload data => exact whole_counted hformat data
    | _ => exact hlength
  | variableText format =>
    have hformat := of_decide_eq_true hcodec
    cases value with
    | str => exact whole_counted hformat _
    | _ => exact whole_throw _
  | uuidBytes =>
    cases value with
    | uuid => exact whole_fixedBytes (length_bigEndian _ _)
    | _ => exact whole_throw _
  | ipv4Address =>
    cases value with
    | ipv4 => exact whole_fixedBytes (length_bigEndian _ _)
    | ipv6 => exact whole_fixedBytes_ne (by rw [length_bigEndian]; decide)
    | _ => exact whole_throw _
  | ipv6Address =>
    cases value with
    | ipv6 => exact whole_fixedBytes (length_bigEndian _ _)
    | ipv4 => exact whole_fixedBytes_ne (by rw [length_bigEndian]; decide)
    | _ => exact whole_throw _
  | enum format =>
    cases value with
    | returnMode mode => exact whole_nat (of_decide_eq_true hcodec) mode.value
    | _ => exact whole_throw _

theorem Codec.counted_eq_none_iff (hformat : format ≠ .f) (data : Bytes) :
    Codec.counted format data = none ↔ ¬ (format ≠ .f ∧ data.length < 256 ^ format.size) := by
  unfold Codec.counted
  rw [and_iff_right hformat]
  split
  next hrange => exact iff_of_false (fun h => by cases h) (not_not.mpr hrange)
  next hrange => exact iff_of_true rfl hrange

theorem packSingle_eq_none_iff (n : ℤ) :
    (packSingle n).toOption = none ↔ ¬ toSingle n < 2 ^ 128 := by
  by_cases hrange : toSingle n < 2 ^ 128
  · rw [packSingle, if_pos hrange]
    exact iff_of_false (fun h => by cases h) (not_not.mpr hrange)
  · rw [packSingle, if_neg hrange]
    exact iff_of_true rfl hrange

theorem Codec.encoding_eq_none_iff {codec : Codec} (hcodec : codec.counting = true)
    (value : Value) : codec.encoding value = none ↔ ¬ codec.Accepts value := by
  cases codec with
  | struct format =>
    cases value with
    | int n =>
      cases format with
      | f => exact packSingle_eq_none_iff n
      | B | H | L | Q => simp [encoding, Accepts, InRange]
    | monotonic time =>
      cases format with
      | f => exact packSingle_eq_none_iff time
      | B | H | L | Q => simp [encoding, Accepts, InRange]
    | _ => cases format <;> simp [encoding, Accepts, InRange]
  | variableBytes format =>
    have hformat := of_decide_eq_true hcodec
    cases value with
    | bytes data => exact counted_eq_none_iff hformat data
    | _ => exact iff_of_true rfl id
  | payloadBytes format =>
    have hformat := of_decide_eq_true hcodec
    cases value with
    | payload data => exact counted_eq_none_iff hformat data
    | _ => exact iff_of_true rfl id
  | variableText format =>
    have hformat := of_decide_eq_true hcodec
    cases value with
    | str => exact counted_eq_none_iff hformat _
    | _ => exact iff_of_true rfl id
  | uuidBytes | ipv4Address | ipv6Address =>
    cases value <;> simp [encoding, InRange, Accepts]
  | enum format =>
    have hformat : format ≠ .f := of_decide_eq_true hcodec
    cases value <;> simp [encoding, InRange, Accepts, hformat]

/-- The codecs of all classes count in integers. -/
theorem MessageClass.counting (cls : MessageClass) :
    ∀ item ∈ cls.getIoAnnotations, item.2.counting = true := by
  cases cls <;> decide

namespace TransportMessage

/-- The encodings of fields, one after the other. -/
def fieldsEncoding (msg : TransportMessage) : List (FieldName × Codec) → Option Bytes
  | [] => some []
  | item :: items =>
    match (msg.attr item.1).bind item.2.encoding, msg.fieldsEncoding items with
    | some data, some rest => some (data ++ rest)
    | _, _ => none

/-- The complete encoding of a message. -/
def encoding (msg : TransportMessage) : Option Bytes :=
  match msg.cls.typeid with
  | none => none
  | some typeid => (msg.fieldsEncoding msg.cls.getIoAnnotations).map (typeid :: ·)

/-- A write of the message to the stream appends its complete encoding, or nothing. -/
def AllOrNothing (msg : TransportMessage) (stream : Bytes) : Prop :=
  (msg.writeMessage stream).2 = stream ∨
    ∃ data, msg.encoding = some data ∧ (msg.writeMessage stream).2 = stream ++ data

/-- The message is of no transmittable class, or each of its transmitted fields is accepted. -/
def Writable (msg : TransportMessage) : Prop :=
  msg.cls.typeid = none ∨
    ∀ item ∈ msg.cls.getIoAnnotations, ∃ value, msg.attr item.1 = some value ∧ item.2.Accepts value

theorem writeFields (msg : TransportMessage) {items : List (FieldName × Codec)}
    (hitems : ∀ item ∈ items, item.2.counting = true) :
    match msg.fieldsEncoding items with
    | some data => ∀ stream, items.forM msg.writeField stream = (.ok (), stream ++ data)
    | none => ∃ e data, ∀ stream, items.forM msg.writeField stream = (.error e, stream ++ data) := by
  induction items with
  | nil =>
    intro stream
    rw [List.append_nil]
    rfl
  | cons item items ih =>
    obtain ⟨hitem, hitems⟩ := List.forall_mem_cons.mp hitems
    specialize ih hitems
    have hfirst : Whole (msg.writeField item) ((msg.attr item.1).bind item.2.encoding) := by
      unfold writeField
      cases msg.attr item.1 with
      | none => exact whole_throw .AttributeError
      | some value => exact Codec.write_encode hitem value
    unfold fieldsEncoding
    cases hdata : (msg.attr item.1).bind item.2.encoding with
    | none =>
      rw [hdata] at hfirst
      obtain ⟨e, written, hfail⟩ := hfirst
      refine ⟨e, written, fun stream => ?_⟩
      have hwrite : msg.writeField item = fun stream => (.error e, stream ++ written) := funext hfail
      show (msg.writeField item >>= fun _ => items.forM msg.writeField) stream = _
      rw [hwrite]
      rfl
    | some data =>
      rw [hdata] at hfirst
      have hwrite : msg.writeField item = emit data := funext hfirst
      cases hrest : msg.fieldsEncoding items with
      | none =>
        rw [hrest] at ih
        obtain ⟨e, written, hfail⟩ := ih
        refine ⟨e, data ++ written, fun stream => ?_⟩
        show (msg.writeField item >>= fun _ => items.forM msg.writeField) stream = _
        rw [hwrite, ← List.append_assoc]
        exact hfail _
      | some rest =>
        rw [hrest] at ih
        intro stream
        show (msg.writeField item >>= fun _ => items.forM msg.writeField) stream = _
        rw [hwrite, ← List.append_assoc]
        exact ih _

theorem fieldsEncoding_eq_none_iff (msg : TransportMessage) {items : List (FieldName × Codec)}
    (hitems : ∀ item ∈ items, item.2.counting = true) :
    msg.fieldsEncoding items = none ↔
      ¬ ∀ item ∈ items, ∃ value, msg.attr item.1 = some value ∧ item.2.Accepts value := by
  induction items with
  | nil => exact iff_of_false nofun (not_not.mpr nofun)
  | cons item items ih =>
    obtain ⟨hitem, hitems⟩ := List.forall_mem_cons.mp hitems
    specialize ih hitems
    have hfirst : (msg.attr item.1).bind item.2.encoding = none ↔
        ¬ ∃ value, msg.attr item.1 = some value ∧ item.2.Accepts value := by
      cases hvalue : msg.attr item.1 with
      | none =>
        refine iff_of_true rfl ?_
        rintro ⟨value, hsome, -⟩
        exact absurd hsome nofun
      | some value =>
        rw [Option.bind_some, Codec.encoding_eq_none_iff hitem]
        refine not_congr ⟨fun h => ⟨value, rfl, h⟩, ?_⟩
        rintro ⟨value', hsome, h⟩
        obtain rfl := Option.some.inj hsome
        exact h
    rw [List.forall_mem_cons, not_and_or, ← hfirst, ← ih]
    cases hdata : (msg.attr item.1).bind item.2.encoding with
    | none => exact iff_of_true (by simp only [fieldsEncoding, hdata]) (.inl rfl)
    | some data =>
      cases hrest : msg.fieldsEncoding items with
      | none => exact iff_of_true (by simp only [fieldsEncoding, hdata, hrest]) (.inr rfl)
      | some rest =>
        refine iff_of_false ?_ (not_or.mpr ⟨nofun, nofun⟩)
        simp only [fieldsEncoding, hdata, hrest]
        exact nofun

variable {msg : TransportMessage}

theorem writeMessage_of_none (htypeid : msg.cls.typeid = none) (stream : Bytes) :
    (msg.writeMessage stream).2 = stream := by
  unfold writeMessage
  rw [htypeid]
  rfl

/-- The type id is written in any case, and what comes after it is the encodings of the fields when
there are such. -/
theorem writeMessage_of_some {typeid : UInt8} (htypeid : msg.cls.typeid = some typeid) :
    ∃ data, (∀ stream, (msg.writeMessage stream).2 = stream ++ typeid :: data) ∧
      ∀ fields, msg.fieldsEncoding msg.cls.getIoAnnotations = some fields → data = fields := by
  have hfields := msg.writeFields msg.cls.counting
  have hwrite : ∀ stream, msg.writeMessage stream =
      msg.cls.getIoAnnotations.forM msg.writeField (stream ++ [typeid]) := by
    intro stream
    unfold writeMessage
    rw [htypeid]
    rfl
  cases hencoding : msg.fieldsEncoding msg.cls.getIoAnnotations with
  | none =>
    rw [hencoding] at hfields
    obtain ⟨e, data, hfail⟩ := hfields
    refine ⟨data, fun stream => ?_, nofun⟩
    rw [hwrite, hfail, List.append_assoc]
    rfl
  | some data =>
    rw [hencoding] at hfields
    refine ⟨data, fun stream => ?_, fun fields hsome => Option.some.inj hsome⟩
    rw [hwrite, hfields, List.append_assoc]
    rfl

theorem writeMessage_of_encoding {data : Bytes} (hencoding : msg.encoding = some data)
    (stream : Bytes) : (msg.writeMessage stream).2 = stream ++ data := by
  unfold encoding at hencoding
  split at hencoding
  · exact absurd hencoding nofun
  next typeid htypeid =>
    obtain ⟨fields, hfields, rfl⟩ := Option.map_eq_some_iff.mp hencoding
    obtain ⟨data, hstream, hdata⟩ := writeMessage_of_some htypeid
    rw [hstream, hdata fields hfields]

theorem Writable.encoding (h : msg.Writable) {typeid : UInt8}
    (htypeid : msg.cls.typeid = some typeid) : ∃ data, msg.encoding = some data := by
  rcases h with hnone | hall
  · exact absurd (htypeid.symm.trans hnone) nofun
  · unfold TransportMessage.encoding
    rw [htypeid]
    cases hfields : msg.fieldsEncoding msg.cls.getIoAnnotations with
    | none => exact absurd hall ((msg.fieldsEncoding_eq_none_iff msg.cls.counting).mp hfields)
    | some fields => exact ⟨typeid :: fields, rfl⟩

theorem Writable.allOrNothing (h : msg.Writable) (stream : Bytes) : msg.AllOrNothing stream := by
  cases htypeid : msg.cls.typeid with
  | none => exact .inl (writeMessage_of_none htypeid stream)
  | some typeid =>
    obtain ⟨data, hdata⟩ := h.encoding htypeid
    exact .inr ⟨data, hdata, writeMessage_of_encoding hdata stream⟩

/-! ## A connection that is kept -/

/-- The bytes on a connection that is kept over the writes of messages, failed ones too. -/
def connection (msgs : List TransportMessage) : Bytes :=
  msgs.foldl (fun stream msg => (msg.writeMessage stream).2) []

/-- Writable messages leave complete encodings, one after the other. -/
theorem connection_whole {msgs : List TransportMessage} (h : ∀ msg ∈ msgs, msg.Writable) :
    connection msgs = (msgs.filterMap encoding).flatten := by
  unfold connection
  suffices hrun : ∀ stream, msgs.foldl (fun stream msg => (msg.writeMessage stream).2) stream
      = stream ++ (msgs.filterMap encoding).flatten from hrun []
  induction msgs with
  | nil => exact fun stream => (List.append_nil stream).symm
  | cons msg msgs ih =>
    intro stream
    obtain ⟨hmsg, hmsgs⟩ := List.forall_mem_cons.mp h
    rw [List.foldl_cons, ih hmsgs, List.filterMap_cons]
    cases htypeid : msg.cls.typeid with
    | none =>
      have hnone : msg.encoding = none := by
        unfold encoding
        rw [htypeid]
      rw [writeMessage_of_none htypeid, hnone]
    | some typeid =>
      obtain ⟨data, hdata⟩ := hmsg.encoding htypeid
      rw [writeMessage_of_encoding hdata, hdata, List.flatten_cons, List.append_assoc]

/-- A write is all or nothing if and only if the message is writable. -/
theorem allOrNothing_iff_writable (msg : TransportMessage) (stream : Bytes) :
    msg.AllOrNothing stream ↔ msg.Writable := by
  constructor
  · rintro (hnone | ⟨data, hencoding, -⟩)
    · cases htypeid : msg.cls.typeid with
      | none => exact .inl htypeid
      | some typeid =>
        obtain ⟨data, hstream, -⟩ := writeMessage_of_some htypeid
        rw [hstream] at hnone
        exact absurd (List.append_right_eq_self.mp hnone) (List.cons_ne_nil _ _)
    · right
      unfold TransportMessage.encoding at hencoding
      split at hencoding
      · exact absurd hencoding nofun
      · obtain ⟨fields, hfields, -⟩ := Option.map_eq_some_iff.mp hencoding
        by_contra hnot
        rw [(msg.fieldsEncoding_eq_none_iff msg.cls.counting).mpr hnot] at hfields
        exact absurd hfields nofun
  · intro h
    exact h.allOrNothing stream

/-- **All or nothing.**  Each write appends the complete encoding of its message or nothing, and a
connection that is kept over all of them carries these encodings one after the other, if and only if
each message is of no transmittable class or has all of its fields accepted. -/
theorem allOrNothing_iff (msgs : List TransportMessage) :
    ((∀ msg ∈ msgs, ∀ stream, msg.AllOrNothing stream) ∧
      connection msgs = (msgs.filterMap encoding).flatten) ↔ ∀ msg ∈ msgs, msg.Writable := by
  constructor
  · rintro ⟨hall, -⟩ msg hmsg
    exact (msg.allOrNothing_iff_writable []).mp (hall msg hmsg [])
  · intro h
    exact ⟨fun msg hmsg stream => (h msg hmsg).allOrNothing stream, connection_whole h⟩

/-- A response with an error number of 17 bits. -/
def largeErrno : TransportMessage where
  cls := .ErrorResponse
  attr
    | .seqno => some (.int 1)
    | .errno => some (.int 65536)
    | .text => some (.str "")
    | _ => none

/-- The type id and the sequence number of the response are in the stream. -/
theorem not_allOrNothing_largeErrno : ¬ largeErrno.AllOrNothing [] := by
  have hstream : (largeErrno.writeMessage []).2 = [0xff, 0, 0, 0, 0, 0, 0, 0, 1] := by
    decide +kernel
  have hencoding : largeErrno.encoding = none := by
    decide +kernel
  rintro (hnone | ⟨data, hsome, -⟩)
  · rw [hstream] at hnone
    exact absurd hnone nofun
  · rw [hencoding] at hsome
    exact absurd hsome nofun

end TransportMessage

end TcpTransport
