/-
# The messages of the TCP transport (`src/dragon/transport/tcp/messages.py`, `io.py`)

A message is written as the type id of its class and then its fields, each by the codec in the
annotations of the class; the fields and their order come from the annotations of the class and its
bases, and the message that is read is built by the constructor of the class, which gets the fields
by position.

Conventions:

* a stream is the list of its bytes, and a writer keeps what it has written when it fails;
* a `float` is the 32-bit pattern that `struct` packs, if there is one, and a value of
  `time.monotonic()` a number;
* a payload is the bytes of the gateway message that it wraps;
* the attributes of a message are a function of their names.
-/
import DragonRuntime.StreamCodec

open StreamCodec

namespace TcpTransport

abbrev Bytes := List UInt8

/-! ## Values -/

inductive SendReturnMode : Type where
  | IMMEDIATELY | WHEN_BUFFERED | WHEN_DEPOSITED | WHEN_RECEIVED
  deriving DecidableEq

def SendReturnMode.value : SendReturnMode → ℕ
  | .IMMEDIATELY => 1
  | .WHEN_BUFFERED => 2
  | .WHEN_DEPOSITED => 3
  | .WHEN_RECEIVED => 4

/-- `SendReturnMode(value)` -/
def SendReturnMode.ofValue (value : ℕ) : Option SendReturnMode :=
  [IMMEDIATELY, WHEN_BUFFERED, WHEN_DEPOSITED, WHEN_RECEIVED].find? fun mode => mode.value = value

theorem SendReturnMode.ofValue_value (mode : SendReturnMode) : ofValue mode.value = some mode := by
  cases mode <;> rfl

structure UUID where
  int : ℕ
  lt : int < 256 ^ 16
  deriving DecidableEq

structure IPv4Address where
  ip : ℕ
  lt : ip < 256 ^ 4
  deriving DecidableEq

structure IPv6Address where
  ip : ℕ
  lt : ip < 256 ^ 16
  scope_id : Option String
  deriving DecidableEq

/-- The values of the fields. -/
inductive Value : Type where
  | int (n : ℤ)
  | float (pattern : BitVec 32)
  /-- a `float` that is too large for 32 bits -/
  | hugeFloat
  | monotonic (time : ℕ)
  | bytes (data : Bytes)
  /-- `Payload`, with the bytes of its gateway message -/
  | payload (data : Bytes)
  | str (s : String)
  /-- a `str` of so many characters, one of them a surrogate -/
  | surrogates (length : ℕ)
  | uuid (u : UUID)
  | ipv4 (ip : IPv4Address)
  | ipv6 (ip : IPv6Address)
  | returnMode (mode : SendReturnMode)
  deriving DecidableEq

inductive ReadError : Type where
  | IncompleteReadError
  | NotImplementedError
  | StructError
  | TypeError
  | ValueError
  | UnicodeDecodeError
  deriving DecidableEq

inductive WriteError : Type where
  | NotImplementedError
  | StructError
  | AssertionError
  | AttributeError
  | OverflowError
  | TypeError
  | UnicodeEncodeError
  deriving DecidableEq

abbrev StreamReader (α : Type) := Reader UInt8 ReadError α

abbrev StreamWriter := Writer UInt8 WriteError Unit

/-! ## The codecs of `io.py` -/

/-- The formats of `struct`, in network order: `!B`, `!H`, `!L`, `!Q` and `!f`. -/
inductive StructFormat : Type where
  | B | H | L | Q | f
  deriving DecidableEq

def StructFormat.size : StructFormat → ℕ
  | .B => 1
  | .H => 2
  | .L => 4
  | .Q => 8
  | .f => 4

/-- A number with so many significant binary digits, rounded half to even. -/
def roundBits (bits n : ℕ) : ℕ :=
  let shift := n.log2 + 1 - bits
  let quotient := n / 2 ^ shift
  let twice := 2 * (n % 2 ^ shift)
  if 2 ^ shift < twice ∨ twice = 2 ^ shift ∧ quotient % 2 = 1 then (quotient + 1) * 2 ^ shift
  else quotient * 2 ^ shift

/-- The 32 bits of a number that is an integer of at most 24 significant digits. -/
def singleBits (negative : Bool) (n : ℕ) : ℕ :=
  (if negative then 2 ^ 31 else 0) +
    if n = 0 then 0
    else (n.log2 + 127) * 2 ^ 23 + (n * 2 ^ 23 / 2 ^ n.log2 - 2 ^ 23)

/-- The single of an integer, by way of its double. -/
def toSingle (n : ℤ) : ℕ := roundBits 24 (roundBits 53 n.natAbs)

/-- `!f` of an integer; where it is too large for a double, it is too large for a single. -/
def packSingle (n : ℤ) : Except WriteError Bytes :=
  if toSingle n < 2 ^ 128 then .ok (bigEndian 4 (singleBits (n < 0) (toSingle n)))
  else .error .OverflowError

def StructFormat.pack : StructFormat → Value → Except WriteError Bytes
  | .f, .float pattern => .ok (bigEndian 4 pattern.toNat)
  | .f, .hugeFloat => .error .OverflowError
  | .f, .int n => packSingle n
  | .f, .monotonic time => packSingle time
  | .f, _ => .error .StructError
  | format, .int n =>
    if 0 ≤ n ∧ n < 256 ^ format.size then .ok (bigEndian format.size n.toNat)
    else .error .StructError
  | _, _ => .error .StructError

def StructFormat.unpack (format : StructFormat) (data : Bytes) : Except ReadError Value :=
  if data.length = format.size then
    if format = .f then .ok (.float (BitVec.ofNat 32 (fromBigEndian data)))
    else .ok (.int (fromBigEndian data))
  else .error .StructError

/-- `FixedBytesIO` -/
def readFixedBytes (size : ℕ) : StreamReader Bytes := readExactly .IncompleteReadError size

def writeFixedBytes (size : ℕ) (data : Bytes) : StreamWriter :=
  if data.length = size then emit data else throw .AssertionError

/-- `StructIO` -/
def readStruct (format : StructFormat) : StreamReader Value := do
  let packed_data ← readFixedBytes format.size
  format.unpack packed_data

def writeStruct (format : StructFormat) (value : Value) : StreamWriter :=
  match format.pack value with
  | .ok packed_data => writeFixedBytes format.size packed_data
  | .error e => throw e

/-- `VariableBytesIO`, and `PayloadBytesIO` but for the object that is written -/
def readVariableBytes (format : StructFormat) : StreamReader Bytes := do
  match ← readStruct format with
  | .int num_bytes => readExactly .IncompleteReadError num_bytes.toNat
  | _ => throw .TypeError

def writeVariableBytes (format : StructFormat) (data : Bytes) : StreamWriter := do
  writeStruct format (.int data.length)
  emit data

/-- `len` -/
def Value.len : Value → Option ℕ
  | .bytes data | .payload data => some data.length
  | .str s => some s.length
  | .surrogates length => some length
  | _ => none

/-- The number of bytes of a value that fails when its bytes are to be written. -/
def writeLength (format : StructFormat) (value : Value) (e : WriteError) : StreamWriter :=
  match value.len with
  | some num_bytes => do
      writeStruct format (.int num_bytes)
      throw e
  | none => throw .TypeError

/-- `VariableTextIO.decode` -/
def decodeText (s : Bytes) : Except ReadError Value :=
  match String.fromUTF8? ⟨s.toArray⟩ with
  | some text => .ok (.str text)
  | none => .error .UnicodeDecodeError

def decodeUUID (s : Bytes) : Except ReadError Value :=
  if h : fromBigEndian s < 256 ^ 16 then .ok (.uuid ⟨fromBigEndian s, h⟩) else .error .ValueError

/-- `ip_address` of packed bytes -/
def ip_address (s : Bytes) : Except ReadError Value :=
  if h : s.length = 4 ∧ fromBigEndian s < 256 ^ 4 then .ok (.ipv4 ⟨fromBigEndian s, h.2⟩)
  else if h : s.length = 16 ∧ fromBigEndian s < 256 ^ 16 then
    .ok (.ipv6 ⟨fromBigEndian s, h.2, none⟩)
  else .error .ValueError

/-- `IPAddressIO.encode` -/
def packed : Value → Except WriteError Bytes
  | .ipv4 ip => .ok (bigEndian 4 ip.ip)
  | .ipv6 ip => .ok (bigEndian 16 ip.ip)
  | _ => .error .AttributeError

def decodeReturnMode : Value → Except ReadError Value
  | .int value =>
    match SendReturnMode.ofValue value.toNat with
    | some mode => .ok (.returnMode mode)
    | none => .error .ValueError
  | _ => .error .ValueError

/-- The instances of `FixedBytesIO`. -/
inductive Codec : Type where
  | struct (format : StructFormat)
  | variableBytes (format : StructFormat)
  | payloadBytes (format : StructFormat)
  | variableText (format : StructFormat)
  | uuidBytes
  | ipv4Address
  | ipv6Address
  | enum (format : StructFormat)
  deriving DecidableEq

namespace Codec

def read : Codec → StreamReader Value
  | .struct format => readStruct format
  | .variableBytes format => do return .bytes (← readVariableBytes format)
  | .payloadBytes format => do return .bytes (← readVariableBytes format)
  | .variableText format => do decodeText (← readVariableBytes format)
  | .uuidBytes => do decodeUUID (← readFixedBytes 16)
  | .ipv4Address => do ip_address (← readFixedBytes 4)
  | .ipv6Address => do ip_address (← readFixedBytes 16)
  | .enum format => do decodeReturnMode (← readStruct format)

def write : Codec → Value → StreamWriter
  | .struct format, value => writeStruct format value
  | .variableBytes format, .bytes data => writeVariableBytes format data
  | .variableBytes format, value => writeLength format value .TypeError
  | .payloadBytes format, .payload data => writeVariableBytes format data
  | .payloadBytes format, value => writeLength format value .AttributeError
  | .variableText format, .str s => writeVariableBytes format s.toUTF8.data.toList
  | .variableText _, .surrogates _ => throw .UnicodeEncodeError
  | .uuidBytes, .uuid u => writeFixedBytes 16 (bigEndian 16 u.int)
  | .ipv4Address, value =>
    match packed value with
    | .ok data => writeFixedBytes 4 data
    | .error e => throw e
  | .ipv6Address, value =>
    match packed value with
    | .ok data => writeFixedBytes 16 data
    | .error e => throw e
  | .enum format, .returnMode mode => writeStruct format (.int mode.value)
  | _, _ => throw .AttributeError

/-- The values that a codec is for. -/
def InRange : Codec → Value → Prop
  | .struct .f, .float _ => True
  | .struct format, .int n => format ≠ .f ∧ 0 ≤ n ∧ n < 256 ^ format.size
  | .variableBytes format, .bytes data => format ≠ .f ∧ data.length < 256 ^ format.size
  | .payloadBytes format, .payload data => format ≠ .f ∧ data.length < 256 ^ format.size
  | .variableText format, .str s => format ≠ .f ∧ s.toUTF8.data.toList.length < 256 ^ format.size
  | .uuidBytes, .uuid _ => True
  | .ipv4Address, .ipv4 _ => True
  | .ipv6Address, .ipv6 ip => ip.scope_id = none
  | .enum format, .returnMode mode => format ≠ .f ∧ mode.value < 256 ^ format.size
  | _, _ => False

end Codec

/-- The value that is read: a payload is read as its bytes. -/
def Value.received : Value → Value
  | .payload data => .bytes data
  | value => value

/-! ## Round trips of the codecs -/

theorem roundTrip_struct {format : StructFormat} {value : Value} {packed_data : Bytes}
    (hpack : format.pack value = .ok packed_data) (hlength : packed_data.length = format.size)
    (hunpack : format.unpack packed_data = .ok value) :
    RoundTrip (writeStruct format value) (readStruct format) value := by
  have hwrite : writeStruct format value = emit packed_data := by
    rw [writeStruct, hpack]
    show writeFixedBytes format.size packed_data = _
    rw [writeFixedBytes, if_pos hlength]
  rw [hwrite]
  refine RoundTrip.decode ?_ hunpack
  rw [← hlength]
  exact RoundTrip.exactly _ packed_data

theorem StructFormat.pack_int {format : StructFormat} (hformat : format ≠ .f) (n : ℤ) :
    format.pack (.int n) =
      if 0 ≤ n ∧ n < 256 ^ format.size then .ok (bigEndian format.size n.toNat)
      else .error .StructError := by
  cases format with
  | f => exact absurd rfl hformat
  | B | H | L | Q => rfl

theorem roundTrip_int {format : StructFormat} (hformat : format ≠ .f) {n : ℕ}
    (hn : n < 256 ^ format.size) :
    RoundTrip (writeStruct format (.int n)) (readStruct format) (.int n) := by
  have hpack : format.pack (.int n) = .ok (bigEndian format.size n) := by
    have hrange : (0 : ℤ) ≤ n ∧ (n : ℤ) < 256 ^ format.size :=
      ⟨Int.natCast_nonneg n, by exact_mod_cast hn⟩
    rw [format.pack_int hformat, if_pos hrange, Int.toNat_natCast]
  refine roundTrip_struct hpack (length_bigEndian _ _) ?_
  rw [StructFormat.unpack, if_pos (length_bigEndian _ _), if_neg hformat,
    fromBigEndian_bigEndian _ _ hn]

theorem roundTrip_float (pattern : BitVec 32) :
    RoundTrip (writeStruct .f (.float pattern)) (readStruct .f) (.float pattern) := by
  have hpack : StructFormat.f.pack (.float pattern) = .ok (bigEndian 4 pattern.toNat) := rfl
  have hlength : (bigEndian 4 pattern.toNat).length = StructFormat.f.size := length_bigEndian _ _
  have hlt : pattern.toNat < 256 ^ 4 := pattern.isLt
  refine roundTrip_struct hpack hlength ?_
  rw [StructFormat.unpack, if_pos hlength, if_pos rfl, fromBigEndian_bigEndian _ _ hlt,
    BitVec.ofNat_toNat, BitVec.setWidth_eq]

theorem roundTrip_variableBytes {format : StructFormat} (hformat : format ≠ .f) {data : Bytes}
    (hdata : data.length < 256 ^ format.size) :
    RoundTrip (writeVariableBytes format data) (readVariableBytes format) data :=
  (roundTrip_int hformat hdata).bind (RoundTrip.exactly _ data)

theorem roundTrip_fixed {size : ℕ} {data : Bytes} (hlength : data.length = size) :
    RoundTrip (writeFixedBytes size data) (readFixedBytes size) data := by
  rw [writeFixedBytes, if_pos hlength, ← hlength]
  exact RoundTrip.exactly _ data

theorem decodeText_toUTF8 (s : String) : decodeText s.toUTF8.data.toList = .ok (.str s) := by
  have hbytes : (⟨s.toUTF8.data.toList.toArray⟩ : ByteArray) = s.toUTF8 := by
    rw [Array.toArray_toList]
  have hdecode : String.fromUTF8? s.toUTF8 = some s := dif_pos s.isValidUTF8
  rw [decodeText, hbytes, hdecode]

/-- A codec reads what it has written, and nothing of what follows. -/
theorem Codec.roundTrip {codec : Codec} {value : Value} (h : codec.InRange value) :
    RoundTrip (codec.write value) codec.read value.received := by
  cases codec with
  | struct format =>
    cases value with
    | int n =>
      have hrange : format ≠ .f ∧ 0 ≤ n ∧ n < 256 ^ format.size := by
        cases format <;> exact h
      obtain ⟨hformat, hpos, hlt⟩ := hrange
      lift n to ℕ using hpos
      exact roundTrip_int hformat (by exact_mod_cast hlt)
    | float pattern =>
      cases format with
      | f => exact roundTrip_float pattern
      | B | H | L | Q => exact h.elim
    | _ => cases format <;> exact h.elim
  | variableBytes =>
    cases value with
    | bytes => exact (roundTrip_variableBytes h.1 h.2).map Value.bytes
    | _ => exact h.elim
  | payloadBytes =>
    cases value with
    | payload =>
      exact (roundTrip_variableBytes h.1 h.2).map Value.bytes
    | _ => exact h.elim
  | variableText =>
    cases value with
    | str text => exact (roundTrip_variableBytes h.1 h.2).decode (decodeText_toUTF8 text)
    | _ => exact h.elim
  | uuidBytes =>
    cases value with
    | uuid u =>
      refine (roundTrip_fixed (length_bigEndian 16 u.int)).decode ?_
      simp only [decodeUUID, fromBigEndian_bigEndian _ _ u.lt, u.lt, dif_pos]
      rfl
    | _ => exact h.elim
  | ipv4Address =>
    cases value with
    | ipv4 ip =>
      refine (roundTrip_fixed (length_bigEndian 4 ip.ip)).decode ?_
      simp only [ip_address, length_bigEndian, fromBigEndian_bigEndian _ _ ip.lt, ip.lt,
        and_self, dif_pos]
      rfl
    | _ => exact h.elim
  | ipv6Address =>
    cases value with
    | ipv6 ip =>
      obtain ⟨ip, hlt, scope_id⟩ := ip
      obtain rfl : scope_id = none := h
      refine (roundTrip_fixed (length_bigEndian 16 ip)).decode ?_
      have hlength : ¬ ((bigEndian 16 ip).length = 4 ∧
          fromBigEndian (bigEndian 16 ip) < 256 ^ 4) := by
        rw [length_bigEndian]
        exact fun h4 => absurd h4.1 (by decide)
      rw [ip_address, dif_neg hlength]
      simp only [length_bigEndian, fromBigEndian_bigEndian _ _ hlt, hlt, and_self, dif_pos]
      rfl
    | _ => exact h.elim
  | enum =>
    cases value with
    | returnMode =>
      refine (roundTrip_int h.1 h.2).decode ?_
      rw [decodeReturnMode, Int.toNat_natCast, SendReturnMode.ofValue_value]
      rfl
    | _ => exact h.elim

/-! ## The classes -/

inductive MessageClass : Type where
  | TransportMessage | Hello | Hello6 | SequencedTransportMessage
  | Request | SendRequest | SendMemoryRequest | RecvRequest | EventRequest
  | Response | ErrorResponse | SendResponse | RecvResponse | EventResponse
  deriving DecidableEq

inductive FieldName : Type where
  | host | port | seqno | timestamp | timeout | channel_sd | return_mode | sendhid | clientid
  | hints | payload | mem_sd | mask | errno | text | result
  deriving DecidableEq

/-- An annotated name in the body of a class. -/
structure FieldDecl where
  name : FieldName
  /-- the codec in the metadata of the annotated type -/
  codec : Option Codec
  /-- whether it is a parameter of the constructor -/
  init : Bool

namespace MessageClass

def base : MessageClass → Option MessageClass
  | TransportMessage => none
  | Hello | SequencedTransportMessage => some TransportMessage
  | Hello6 => some Hello
  | Request | Response => some SequencedTransportMessage
  | SendRequest | RecvRequest | EventRequest => some Request
  | SendMemoryRequest => some SendRequest
  | ErrorResponse | SendResponse | RecvResponse | EventResponse => some Response

/-- The class keyword `typeid`. -/
def typeid : MessageClass → Option UInt8
  | Hello => some 0x40
  | Hello6 => some 0x60
  | SendRequest => some 0x01
  | SendMemoryRequest => some 0x02
  | RecvRequest => some 0x03
  | EventRequest => some 0x04
  | ErrorResponse => some 0xff
  | SendResponse => some 0xfe
  | RecvResponse => some 0xfc
  | EventResponse => some 0xfb
  | TransportMessage | SequencedTransportMessage | Request | Response => none

/-- Whether the class is decorated with `@dataclass`. -/
def isDataclass : MessageClass → Bool
  | RecvRequest | Response | SendResponse => false
  | _ => true

def decls : MessageClass → List FieldDecl
  | Hello => [⟨.host, some .ipv4Address, true⟩, ⟨.port, some (.struct .H), true⟩]
  | Hello6 => [⟨.host, some .ipv6Address, true⟩]
  | SequencedTransportMessage => [⟨.seqno, some (.struct .Q), true⟩]
  | Request =>
    [⟨.timestamp, none, false⟩, ⟨.timeout, some (.struct .f), true⟩,
      ⟨.channel_sd, some (.variableBytes .H), true⟩]
  | SendRequest =>
    [⟨.return_mode, some (.enum .B), true⟩, ⟨.sendhid, some .uuidBytes, true⟩,
      ⟨.clientid, some (.struct .Q), true⟩, ⟨.hints, some (.struct .Q), true⟩,
      ⟨.payload, some (.payloadBytes .Q), true⟩]
  | SendMemoryRequest => [⟨.mem_sd, some (.variableBytes .H), true⟩]
  | EventRequest => [⟨.mask, some (.struct .H), true⟩]
  | ErrorResponse =>
    [⟨.errno, some (.struct .H), true⟩, ⟨.text, some (.variableText .Q), true⟩]
  | RecvResponse =>
    [⟨.clientid, some (.struct .Q), true⟩, ⟨.hints, some (.struct .Q), true⟩,
      ⟨.payload, some (.variableBytes .Q), true⟩]
  | EventResponse => [⟨.errno, some (.struct .H), true⟩, ⟨.result, some (.struct .Q), true⟩]
  | TransportMessage | RecvRequest | Response | SendResponse => []

def mroFrom : ℕ → MessageClass → List MessageClass
  | 0, cls => [cls]
  | depth + 1, cls => cls :: (base cls).elim [] (mroFrom depth)

/-- The class and its bases. -/
def mro (cls : MessageClass) : List MessageClass := mroFrom 4 cls

end MessageClass

/-- `d[key] = value` in a `dict`, which keeps the place of a key that it has. -/
def dictSet {κ ν : Type} [DecidableEq κ] (d : List (κ × ν)) (key : κ) (value : ν) :
    List (κ × ν) :=
  if key ∈ d.map Prod.fst then d.map fun item => if item.1 = key then (key, value) else item
  else d ++ [(key, value)]

namespace MessageClass

/-- `get_type_hints(cls, include_extras=True)`: the bodies of the bases come first. -/
def getTypeHints (cls : MessageClass) : List (FieldName × Option Codec) :=
  ((mro cls).reverse.flatMap decls).foldl (fun hints decl => dictSet hints decl.name decl.codec) []

/-- `_get_io_annotations` -/
def getIoAnnotations (cls : MessageClass) : List (FieldName × Codec) :=
  (getTypeHints cls).filterMap fun hint => hint.2.map fun codec => (hint.1, codec)

/-- The fields that `@dataclass` collects for the constructor, with those that it has as
parameters. -/
def fields (cls : MessageClass) : List (FieldName × Bool) :=
  (((mro cls).reverse.filter isDataclass).flatMap decls).foldl
    (fun fields decl => dictSet fields decl.name decl.init) []

/-- The parameters of the constructor. -/
def parameters (cls : MessageClass) : List FieldName :=
  ((fields cls).filter fun field => field.2).map Prod.fst

/-- `_types` -/
def ofTypeid (id : UInt8) : Option MessageClass :=
  [Hello, Hello6, SendRequest, SendMemoryRequest, RecvRequest, EventRequest, ErrorResponse,
    SendResponse, RecvResponse, EventResponse].find? fun cls => typeid cls = some id

theorem ofTypeid_of_typeid {cls : MessageClass} {id : UInt8} (h : typeid cls = some id) :
    ofTypeid id = some cls := by
  cases cls <;> cases h <;> rfl

/-- Writer, reader and constructor have the transmitted fields in one order. -/
theorem parameters_eq (cls : MessageClass) :
    parameters cls = (getIoAnnotations cls).map Prod.fst := by
  cases cls <;> rfl

theorem parameters_nodup (cls : MessageClass) : (parameters cls).Nodup := by
  cases cls <;> decide

end MessageClass

/-! ## Messages -/

structure TransportMessage where
  cls : MessageClass
  /-- `getattr` -/
  attr : FieldName → Option Value

namespace TransportMessage

/-- `cls(*args)`, at the time `now`. -/
def construct (now : ℕ) (cls : MessageClass) (args : List Value) :
    Except ReadError TransportMessage :=
  if args.length = cls.parameters.length then
    .ok {
      cls := cls
      attr := fun name =>
        match (cls.parameters.zip args).lookup name with
        | some value => some value
        | none =>
          if name = .timestamp ∧ (name, false) ∈ cls.fields then some (.monotonic now)
          else none }
  else .error .TypeError

/-- The fields of a class, in the order of its annotations. -/
def readFields (now : ℕ) (cls : MessageClass) : StreamReader TransportMessage := do
  let args ← cls.getIoAnnotations.mapM fun item => item.2.read
  construct now cls args

/-- `read_message` -/
def readMessage (now : ℕ) : StreamReader TransportMessage := do
  let typeid ← readExactly .IncompleteReadError 1
  match typeid.head?.bind MessageClass.ofTypeid with
  | none => throw .NotImplementedError
  | some cls => readFields now cls

/-- `io.write(writer, getattr(msg, name))` -/
def writeField (msg : TransportMessage) (item : FieldName × Codec) : StreamWriter :=
  match msg.attr item.1 with
  | some value => item.2.write value
  | none => throw .AttributeError

/-- `write_message` -/
def writeMessage (msg : TransportMessage) : StreamWriter :=
  match msg.cls.typeid with
  | none => throw .NotImplementedError
  | some typeid => do
      emit [typeid]
      msg.cls.getIoAnnotations.forM msg.writeField

/-- The message can be transmitted, and its transmitted fields are in the ranges of their codecs. -/
structure InRange (msg : TransportMessage) : Prop where
  transmittable : msg.cls.typeid ≠ none
  fields : ∀ item ∈ msg.cls.getIoAnnotations, ∃ value, msg.attr item.1 = some value ∧
    item.2.InRange value

/-- The message `msg'` is what arrives of `msg`: it is of the same class, and the transmitted fields
are equal, but for a payload, which arrives as its bytes. -/
structure Transmits (msg msg' : TransportMessage) : Prop where
  cls : msg'.cls = msg.cls
  fields : ∀ name ∈ msg.cls.getIoAnnotations.map Prod.fst,
    msg'.attr name = (msg.attr name).map Value.received

/-- A lookup in the arguments that were bound to the parameters. -/
theorem lookup_map {ι κ ν : Type} [DecidableEq κ] {items : List ι} {key : ι → κ} {value : ι → ν}
    (hnodup : (items.map key).Nodup) {item : ι} (hitem : item ∈ items) :
    (items.map fun i => (key i, value i)).lookup (key item) = some (value item) := by
  induction items with
  | nil => exact absurd hitem List.not_mem_nil
  | cons i items ih =>
    rw [List.map_cons] at hnodup
    obtain ⟨hnotin, hnodup⟩ := List.nodup_cons.mp hnodup
    rw [List.map_cons, List.lookup_cons]
    rcases List.mem_cons.mp hitem with rfl | hmem
    · rw [beq_self_eq_true]
    · have hne : key item ≠ key i := by
        intro heq
        exact hnotin (heq ▸ List.mem_map_of_mem hmem)
      rw [beq_false_of_ne hne]
      exact ih hnodup hmem

/-- The constructor binds what was read to the names under which it was written. -/
theorem construct_eq (now : ℕ) (cls : MessageClass) (value : FieldName × Codec → Value) :
    ∃ msg, construct now cls (cls.getIoAnnotations.map value) = .ok msg ∧ msg.cls = cls ∧
      ∀ item ∈ cls.getIoAnnotations, msg.attr item.1 = some (value item) := by
  have hlength : (cls.getIoAnnotations.map value).length = cls.parameters.length := by
    rw [cls.parameters_eq, List.length_map, List.length_map]
  refine ⟨_, if_pos hlength, rfl, fun item hitem => ?_⟩
  have hnodup := cls.parameters_nodup
  rw [cls.parameters_eq] at hnodup
  simp only [cls.parameters_eq, List.zip_map', lookup_map hnodup hitem]

/-- A message is read back, whatever follows it. -/
theorem roundTrip (now : ℕ) {msg : TransportMessage} (h : msg.InRange) :
    ∃ msg', Transmits msg msg' ∧ RoundTrip msg.writeMessage (readMessage now) msg' := by
  obtain ⟨typeid, htypeid⟩ := Option.ne_none_iff_exists'.mp h.transmittable
  let value : FieldName × Codec → Value := fun item =>
    ((msg.attr item.1).map Value.received).getD (.int 0)
  have hvalue : ∀ item ∈ msg.cls.getIoAnnotations,
      (msg.attr item.1).map Value.received = some (value item) ∧
        RoundTrip (msg.writeField item) item.2.read (value item) := by
    intro item hitem
    obtain ⟨v, hv, hrange⟩ := h.fields item hitem
    have hreceived : value item = v.received := by simp only [value, hv, Option.map_some, Option.getD_some]
    have hwrite : msg.writeField item = item.2.write v := by simp only [writeField, hv]
    rw [hreceived, hwrite, hv]
    exact ⟨rfl, Codec.roundTrip hrange⟩
  obtain ⟨msg', hconstruct, hcls, hattr⟩ := construct_eq now msg.cls value
  refine ⟨msg', ⟨hcls, fun name hname => ?_⟩, ?_⟩
  · obtain ⟨item, hitem, rfl⟩ := List.mem_map.mp hname
    rw [hattr item hitem, (hvalue item hitem).1]
  · have hargs := RoundTrip.list fun item hitem => (hvalue item hitem).2
    have hbody : RoundTrip (msg.cls.getIoAnnotations.forM msg.writeField)
        (readFields now msg.cls) msg' := hargs.decode hconstruct
    rw [writeMessage, htypeid]
    refine (RoundTrip.exactly _ [typeid]).bind ?_
    simp only [List.head?_cons, Option.bind_some, MessageClass.ofTypeid_of_typeid htypeid]
    exact hbody

/-- **Round trip.**  A message is read back from what was written, whatever follows, and so is a
sequence of messages. -/
theorem readMessage_writeMessage :
    (∀ (now : ℕ) (msg : TransportMessage), msg.InRange →
      ∃ (data : Bytes) (msg' : TransportMessage), Transmits msg msg' ∧
        (∀ stream, msg.writeMessage stream = (.ok (), stream ++ data)) ∧
        ∀ rest, readMessage now (data ++ rest) = .ok (msg', rest)) ∧
    ∀ items : List (ℕ × TransportMessage), (∀ item ∈ items, item.2.InRange) →
      ∃ (data : Bytes) (msgs : List TransportMessage),
        List.Forall₂ (fun item msg' => Transmits item.2 msg') items msgs ∧
        (∀ stream, (items.forM fun item => item.2.writeMessage : StreamWriter) stream =
          (.ok (), stream ++ data)) ∧
        ∀ rest, (items.mapM fun item => readMessage item.1) (data ++ rest) = .ok (msgs, rest) := by
  constructor
  · intro now msg hmsg
    obtain ⟨msg', htransmits, data, hwrite, hread⟩ := roundTrip now hmsg
    exact ⟨data, msg', htransmits, hwrite, hread⟩
  · intro items hitems
    obtain ⟨msgs, htransmits, data, hwrite, hread⟩ :=
      RoundTrip.exists_list fun item hitem => roundTrip item.1 (hitems item hitem)
    exact ⟨data, msgs, htransmits, hwrite, hread⟩

/-- A greeting that overrides the host, and a request with its payload. -/
def hello6 : TransportMessage where
  cls := .Hello6
  attr
    | .host => some (.ipv6 ⟨1, by decide, none⟩)
    | .port => some (.int 7575)
    | _ => none

def sendRequest : TransportMessage where
  cls := .SendMemoryRequest
  attr
    | .seqno => some (.int 3)
    | .timestamp => some (.monotonic 20)
    | .timeout => some (.float 0x7f800000#32)
    | .channel_sd => some (.bytes [1, 2])
    | .return_mode => some (.returnMode .WHEN_DEPOSITED)
    | .sendhid => some (.uuid ⟨258, by decide⟩)
    | .clientid => some (.int 5)
    | .hints => some (.int 0)
    | .payload => some (.payload [])
    | .mem_sd => some (.bytes [9])
    | _ => none

theorem inRange_hello6 : hello6.InRange where
  transmittable := nofun
  fields := by
    show ∀ item ∈ [(FieldName.host, Codec.ipv6Address), (FieldName.port, Codec.struct .H)], _
    simp only [List.forall_mem_cons]
    refine ⟨⟨_, rfl, rfl⟩, ⟨_, rfl, ?_⟩, fun item hitem => nomatch hitem⟩
    exact ⟨nofun, by decide, by decide⟩

theorem inRange_sendRequest : sendRequest.InRange where
  transmittable := nofun
  fields := by
    show ∀ item ∈ [(FieldName.seqno, Codec.struct .Q), (FieldName.timeout, Codec.struct .f),
      (FieldName.channel_sd, Codec.variableBytes .H), (FieldName.return_mode, Codec.enum .B),
      (FieldName.sendhid, Codec.uuidBytes), (FieldName.clientid, Codec.struct .Q),
      (FieldName.hints, Codec.struct .Q), (FieldName.payload, Codec.payloadBytes .Q),
      (FieldName.mem_sd, Codec.variableBytes .H)], _
    simp only [List.forall_mem_cons]
    refine ⟨⟨_, rfl, ?_⟩, ⟨_, rfl, trivial⟩, ⟨_, rfl, ?_⟩, ⟨_, rfl, ?_⟩, ⟨_, rfl, trivial⟩,
      ⟨_, rfl, ?_⟩, ⟨_, rfl, ?_⟩, ⟨_, rfl, ?_⟩, ⟨_, rfl, ?_⟩, fun item hitem => nomatch hitem⟩
    · exact ⟨nofun, by decide, by decide⟩
    · exact ⟨nofun, by decide⟩
    · exact ⟨nofun, by decide⟩
    · exact ⟨nofun, by decide, by decide⟩
    · exact ⟨nofun, by decide, by decide⟩
    · exact ⟨nofun, by decide⟩
    · exact ⟨nofun, by decide⟩

theorem readMessage_writeMessage_hello6_sendRequest :
    ∃ (data : Bytes) (msgs : List TransportMessage),
      List.Forall₂ Transmits [hello6, sendRequest] msgs ∧
      ∀ rest, ([0, 4].mapM fun now => readMessage now) (data ++ rest) = .ok (msgs, rest) := by
  obtain ⟨data, msgs, htransmits, -, hread⟩ :=
    readMessage_writeMessage.2 [(0, hello6), (4, sendRequest)] (by
      simp only [List.forall_mem_cons]
      exact ⟨inRange_hello6, inRange_sendRequest, fun item hitem => nomatch hitem⟩)
  cases htransmits with
  | cons hfirst hrest =>
    cases hrest with
    | cons hsecond hnil =>
      cases hnil
      exact ⟨data, _, .cons hfirst (.cons hsecond .nil), hread⟩

end TransportMessage

end TcpTransport
