/-
# The messages of a connection (`src/dragon/infrastructure/connection.py`)

`send` pickles an object into the writing adapter, and `send_bytes` writes a header and bytes; the
peer receives either with `recv`, `recv_bytes` or `recv_bytes_into`, which share a reading adapter.

Conventions:

* what pickles is a parameter: the parts that `dump` writes, the reads that `load` makes after the
  bytes it has, and what the bytes stand for;
* a call that raises or waits forever at the receiver has no result;
* a buffer of a caller is bytes, and the buffer that `recv_bytes_into` wrote to is part of the result;
* the memory that the adapters do not write is arbitrary, in every call anew (`Memory`).
-/
import DragonRuntime.ReadingChannelFile

namespace Connection

/-- What reading a pickle can raise. -/
inductive LoadError : Type where
  | UnpicklingError
  | other

/-- A call of `pickle.load` to its file. -/
inductive FileRead : Type where
  | read (size : ℕ)
  | readinto (size : ℕ)

def FileRead.size : FileRead → ℕ
  | .read size => size
  | .readinto size => size

structure Pickle (Obj : Type) : Type where
  /-- What `dump` writes to its file, part by part. -/
  dump : Obj → List (List UInt8)
  /-- What `load` reads after the bytes that it has, until it has the object. -/
  next_read : List UInt8 → Option FileRead
  loads : List UInt8 → Except LoadError Obj

/-- A value that a receive gave to the caller. -/
inductive Value (Obj : Type) : Type where
  | obj (obj : Obj)
  | bytearray (buf : ℕ)
  | buffer (msg_len : ℕ) (buffer : List UInt8)

/-- What a value is, at some moment. -/
inductive Content (Obj : Type) : Type where
  | obj (obj : Obj)
  | bytes (bytes : List UInt8)
  | buffer (msg_len : ℕ) (buffer : List UInt8)
  deriving DecidableEq

inductive Receive : Type where
  | recv
  | recv_bytes (maxlength : Option ℤ)
  | recv_bytes_into (buffer : List UInt8) (offset : ℤ)

inductive Event (Obj : Type) : Type where
  | send (obj : Obj)
  | send_bytes (buffer : List UInt8) (offset : ℤ) (size : Option ℤ)
  | receive (receive : Receive)

section receiving

variable {Obj : Type} (pickle : Pickle Obj)

/-- The value as it is with some bytearrays. -/
def Value.content (bytearrays : List (List UInt8)) : Value Obj → Content Obj
  | .obj o => .obj o
  | .bytearray buf => .bytes (bytearrays[buf]?.getD [])
  | .buffer msg_len bytes => .buffer msg_len bytes

namespace Reader

def file_read (r : Reader) : FileRead → Option (List UInt8 × Reader)
  | .read size => r.read size
  | .readinto size => r.readinto size true

/-- The rounds of `pickle.load`, after the bytes that it has. -/
def load_loop : ℕ → Reader → List UInt8 → Option (Except LoadError Obj × Reader)
  | 0, _, _ => none
  | rounds + 1, r, seen =>
    match pickle.next_read seen with
    | none => some (pickle.loads seen, r)
    | some call =>
      match r.file_read call with
      | none => none
      | some (bytes, r) => load_loop rounds r (seen ++ bytes)

/-- `pickle.load`, with a round for every byte there is. -/
def load (r : Reader) : Option (Except LoadError Obj × Reader) :=
  r.load_loop pickle (r.rest.length + r.queue.flatten.length + 1) []

/-- `recv`. -/
def recv (behind : ℕ → UInt8) (r : Reader) : Option (Value Obj × Reader) :=
  match r.check_header behind with
  | none => none
  | some (.EOT, _) => none
  | some (.RAW_BYTES msg_len, r) =>
    match r.advance_raw_header with
    | none => none
    | some r =>
      match (r.bytearray msg_len).2.readinto msg_len true with
      | none => none
      | some (bytes, r') =>
        match pickle.loads bytes with
        | .ok obj => some (.obj obj, (r'.store r.bytearrays.length bytes).destroy_current_block)
        | .error .UnpicklingError =>
          some (.bytearray r.bytearrays.length,
            (r'.store r.bytearrays.length bytes).destroy_current_block)
        | .error .other => none
  | some (.PICKLE_PROT_5, r) =>
    match r.load pickle with
    | some (.ok obj, r) => some (.obj obj, r.destroy_current_block)
    | _ => none

/-- The bound that a caller gives to `recv_bytes`. -/
def within (maxlength : Option ℤ) (length : ℕ) : Prop := ∀ bound ∈ maxlength, (length : ℤ) ≤ bound

instance (maxlength : Option ℤ) (length : ℕ) : Decidable (within maxlength length) :=
  inferInstanceAs (Decidable (∀ bound ∈ maxlength, (length : ℤ) ≤ bound))

/-- `recv_bytes`. -/
def recv_bytes (behind : ℕ → UInt8) (r : Reader) (maxlength : Option ℤ) :
    Option (Value Obj × Reader) :=
  match r.check_header behind with
  | none => none
  | some (.EOT, _) => none
  | some (.PICKLE_PROT_5, r) =>
    -- `set_side_buf`, of a new bytearray
    match Reader.load pickle
        { (r.bytearray 0).2 with side_buf := some r.bytearrays.length } with
    | some (.ok _, r') =>
      if within maxlength (r'.bytearrays[r.bytearrays.length]?.getD []).length then
        some (.bytearray r.bytearrays.length, r'.destroy_current_block)
      else none
    | _ => none
  | some (.RAW_BYTES msg_len, r) =>
    if within maxlength msg_len then
      match r.advance_raw_header with
      | none => none
      | some r =>
        match (r.bytearray msg_len).2.readinto msg_len true with
        | none => none
        | some (bytes, r') =>
          some (.bytearray r.bytearrays.length,
            (r'.store r.bytearrays.length bytes).destroy_current_block)
    else none

/-- `recv_bytes_into`. -/
def recv_bytes_into (behind : ℕ → UInt8) (r : Reader) (buffer : List UInt8) (offset : ℤ) :
    Option (Value Obj × Reader) :=
  if offset < 0 ∨ (buffer.length : ℤ) < offset then none
  else
    match r.check_header behind with
    | none => none
    | some (.EOT, _) => none
    | some (.PICKLE_PROT_5, _) => none
    | some (.RAW_BYTES msg_len, r) =>
      if (buffer.length : ℤ) < msg_len + offset then none
      else
        match r.advance_raw_header with
        | none => none
        | some r =>
          match r.readinto msg_len true with
          | none => none
          | some (bytes, r) =>
            some (.buffer msg_len
              (buffer.take offset.toNat ++ bytes ++ buffer.drop (offset.toNat + msg_len)),
              r.destroy_current_block)

def receive (behind : ℕ → UInt8) (r : Reader) : Receive → Option (Value Obj × Reader)
  | .recv => r.recv pickle behind
  | .recv_bytes maxlength => r.recv_bytes pickle behind maxlength
  | .recv_bytes_into buffer offset => r.recv_bytes_into behind buffer offset

end Reader

end receiving

/-- The checks of `send_bytes`, and the bytes that it sends. -/
def slice (buffer : List UInt8) (offset : ℤ) (size : Option ℤ) : Option (List UInt8) :=
  if offset < 0 ∨ (buffer.length : ℤ) < offset then none
  else
    match size with
    | none => some (buffer.drop offset.toNat)
    | some size =>
      if size < 0 ∨ (buffer.length : ℤ) < offset + size then none
      else some ((buffer.drop offset.toNat).take size.toNat)

/-- What the memory has in it that a call finds: where blocks are written, and behind blocks that
are read. -/
structure Memory : Type where
  writing : Blk → ℕ → UInt8
  behind : ℕ → UInt8

/-- The two ends of a connection. -/
structure Ends (Obj : Type) : Type where
  reader : Reader
  /-- The values that the receives gave. -/
  held : List (Value Obj)

section events

variable {Obj : Type} (options : Options) (pickle : Pickle Obj)

def Ends.opened : Ends Obj where
  reader := ⟨[], none, 0, none, []⟩
  held := []

/-- The blocks of a message go into the channel. -/
def Ends.transmit (memory : Memory) (ends : Ends Obj) (writes : List (List UInt8)) : Ends Obj :=
  { ends with reader := { ends.reader with
      queue := ends.reader.queue ++ blocks options memory.writing writes } }

/-- A call at one of the ends.  A send that raises sends nothing. -/
def Ends.step (memory : Memory) (ends : Ends Obj) : Event Obj → Option (Ends Obj)
  | .send obj => some (ends.transmit options memory (pickle.dump obj))
  | .send_bytes buffer offset size =>
    match slice buffer offset size with
    | none => some ends
    | some bytes =>
      match ConnMsgHeader.make bytes.length with
      | none => some ends
      | some header => some (ends.transmit options memory [header, bytes])
  | .receive receive =>
    match ends.reader.receive pickle memory.behind receive with
    | none => none
    | some (value, reader) => some ⟨reader, ends.held ++ [value]⟩

/-- Some calls, one after the other, with the memory that each of them finds. -/
def Ends.run (memory : ℕ → Memory) (ends : Ends Obj) : List (Event Obj) → Option (Ends Obj)
  | [] => some ends
  | event :: events =>
    match ends.step options pickle (memory 0) event with
    | none => none
    | some ends => ends.run (fun call => memory (call + 1)) events

def Ends.contents (ends : Ends Obj) : List (Content Obj) :=
  ends.held.map (Value.content ends.reader.bytearrays)

end events

/-! ## What the calls are for -/

/-- A message, as a send was given it. -/
inductive Message (Obj : Type) : Type where
  | obj (obj : Obj)
  | bytes (bytes : List UInt8)

section purpose

variable {Obj : Type} (options : Options) (pickle : Pickle Obj)

/-- The message of a send, unless it raises. -/
def Event.message : Event Obj → Option (Message Obj)
  | .send o => some (.obj o)
  | .send_bytes buffer offset size =>
    match slice buffer offset size with
    | none => none
    | some bytes =>
      if bytes.length ≤ ConnMsgHeader.MAX_RAW_BYTE_LEN then some (.bytes bytes) else none
  | .receive _ => none

/-- The bytes of the pickle of an object. -/
def Pickle.bytes (o : Obj) : List UInt8 := (pickle.dump o).flatten

/-- What a receive is to yield for a message, when the receive fits it. -/
def fitting : Message Obj → Receive → Option (Content Obj)
  | .obj o, .recv => some (.obj o)
  | .obj o, .recv_bytes maxlength =>
    if Reader.within maxlength (pickle.bytes o).length then some (.bytes (pickle.bytes o)) else none
  | .obj _, .recv_bytes_into _ _ => none
  | .bytes bytes, .recv =>
    match pickle.loads bytes with
    | .ok o => some (.obj o)
    | .error _ => none
  | .bytes bytes, .recv_bytes maxlength =>
    if Reader.within maxlength bytes.length then some (.bytes bytes) else none
  | .bytes bytes, .recv_bytes_into buffer offset =>
    if 0 ≤ offset ∧ (bytes.length : ℤ) + offset ≤ buffer.length then
      some (.buffer bytes.length
        (buffer.take offset.toNat ++ bytes ++ buffer.drop (offset.toNat + bytes.length)))
    else none

/-- The receive leaves a side buffer behind. -/
def leaves_side_buf : Message Obj → Receive → Bool
  | .obj _, .recv_bytes _ => true
  | _, _ => false

/-- The messages that are not received yet, the values that the receives are to have yielded, and
whether there is a side buffer. -/
structure Purpose (Obj : Type) : Type where
  waiting : List (Message Obj)
  contents : List (Content Obj)
  side_buf : Bool

def Purpose.step (purpose : Purpose Obj) : Event Obj → Purpose Obj
  | .receive receive =>
    match purpose.waiting with
    | [] => purpose
    | message :: waiting =>
      { waiting
        contents := purpose.contents ++ (fitting pickle message receive).toList
        side_buf := purpose.side_buf || leaves_side_buf message receive }
  | event => { purpose with waiting := purpose.waiting ++ event.message.toList }

/-- After some calls, from the opening of the connection. -/
def purpose (events : List (Event Obj)) : Purpose Obj :=
  events.foldl (Purpose.step pickle) ⟨[], [], false⟩

/-- Every receive is for a message that was sent, and fits it. -/
def Fits (purpose : Purpose Obj) (event : Event Obj) : Prop :=
  ∀ receive, event = .receive receive →
    ∃ message waiting content, purpose.waiting = message :: waiting ∧
      fitting pickle message receive = some content

/-- The condition on a receive. -/
def Unharmed (purpose : Purpose Obj) (event : Event Obj) : Prop :=
  ∀ receive, event = .receive receive → ∀ message ∈ purpose.waiting.head?,
    match message with
    | .obj _ =>
      2 ≤ options.large_blk_size ∧
        (purpose.side_buf = true → leaves_side_buf message receive = true)
    | .bytes bytes =>
      ConnMsgHeader.RAW_HDR_SZ ≤ options.large_blk_size ∧
        (bytes.length = ConnMsgHeader.MAX_RAW_BYTE_LEN →
          ConnMsgHeader.RAW_HDR_SZ + bytes.length ≤
            Writer.first_size options ConnMsgHeader.RAW_HDR_SZ) ∧
        (purpose.side_buf = true → bytes = [])

/-- Something is so of every call, with the calls before it. -/
def Throughout (holds : Purpose Obj → Event Obj → Prop) (events : List (Event Obj)) : Prop :=
  ∀ before event, before ++ [event] <+: events → holds (purpose pickle before) event

/-- The receives have yielded their messages, and the values are still these. -/
def Delivers (memory : ℕ → Memory) (events : List (Event Obj)) : Prop :=
  ∃ ends, Ends.opened.run options pickle memory events = some ends ∧
    ends.contents = (purpose pickle events).contents

/-- What is known of pickles: they begin with the protocol, `load` reads parts of a pickle until it
has the whole, and gives the object back. -/
structure Pickle.Faithful : Prop where
  dump_head (o : Obj) : ∃ first rest, pickle.dump o = first :: rest ∧
    [ConnMsgHeader.PROTOCOL_5_FIRSTB, ConnMsgHeader.PROTOCOL_5_NEXTB] <+: first
  reads (o : Obj) (seen : List UInt8) (hseen : seen <+: pickle.bytes o)
    (hne : seen ≠ pickle.bytes o) :
    ∃ call, pickle.next_read seen = some call ∧ 0 < call.size ∧
      seen.length + call.size ≤ (pickle.bytes o).length
  stops (o : Obj) : pickle.next_read (pickle.bytes o) = none
  loads (o : Obj) : pickle.loads (pickle.bytes o) = .ok o
  loads_nil (o : Obj) : pickle.loads [] ≠ .ok o

end purpose

end Connection
