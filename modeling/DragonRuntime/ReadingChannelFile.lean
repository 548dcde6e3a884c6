/-
# The reading adapter of a connection (`src/dragon/pydragon_channels.pyx`)

`Peer2PeerReadingChannelFile` takes blocks from the channel and gives their bytes one after the
other.  The kind of a message is read from the first bytes of its first block
(`_ConnMsgHeader_parse`).

Conventions:

* the channel is a list of blocks; taking a block from an empty channel waits forever, and the call
  has no result, like one that raises;
* the bytearrays of the process are a list, and a reference to one is its place there;
* the header is parsed from eight bytes also where the block is shorter: then there is something
  else in the memory behind it.
-/
import DragonRuntime.WritingChannelFile

namespace Connection

/-- `ChannelAdapterMsgTypes`, with the length of bytes. -/
inductive MsgType : Type where
  | EOT
  | PICKLE_PROT_5
  | RAW_BYTES (msg_len : ℕ)
  deriving DecidableEq

namespace ConnMsgHeader

def EOT_MSG : UInt8 := 0x20
def RAW_BYTE_MSG_FIRSTB : UInt8 := 0x40
def MAX_RAW_BYTE_LEN : ℕ := 2 ^ 56 - 1
def RAW_HDR_SZ : ℕ := 8
def PROTOCOL_5_FIRSTB : UInt8 := 0x80
def PROTOCOL_5_NEXTB : UInt8 := 0x05

/-- The length in the bytes of a header, from the last one to the second. -/
def decoded_length (first_bytes : ℕ → UInt8) : ℕ :=
  [7, 6, 5, 4, 3, 2, 1].foldl
    (fun decoded_length place => decoded_length <<< 8 ||| (first_bytes place).toNat) 0

/-- `_ConnMsgHeader_parse`. -/
def parse (first_bytes : ℕ → UInt8) (length : ℕ) : Option MsgType :=
  if first_bytes 0 = EOT_MSG then some .EOT
  else if first_bytes 0 = PROTOCOL_5_FIRSTB ∧ first_bytes 1 = PROTOCOL_5_NEXTB then
    some .PICKLE_PROT_5
  else if first_bytes 0 = RAW_BYTE_MSG_FIRSTB ∧ RAW_HDR_SZ ≤ length then
    -- a sender that does not know the length says so with all ones
    some (.RAW_BYTES (if decoded_length first_bytes = 0xFFFFFFFFFFFFFF then length - RAW_HDR_SZ
      else decoded_length first_bytes))
  else none

/-- `_ConnMsgHeader_make`. -/
def make (msglen : ℕ) : Option (List UInt8) :=
  if MAX_RAW_BYTE_LEN < msglen then none
  else some (RAW_BYTE_MSG_FIRSTB ::
    (List.range 7).map fun place => UInt8.ofNat ((msglen >>> (8 * place)) % 256))

theorem shiftLeft_or (n : ℕ) (b : UInt8) : n <<< 8 ||| b.toNat = n * 256 + b.toNat := by
  have hlt : b.toNat < 2 ^ 8 := b.toNat_lt
  rw [← Nat.shiftLeft_add_eq_or_of_lt hlt, Nat.shiftLeft_eq]

variable {header : List UInt8} {msglen : ℕ}

theorem decoded_length_make (h : make msglen = some header) {first_bytes : ℕ → UInt8}
    (hbytes : ∀ place < 8, header[place]? = some (first_bytes place)) :
    decoded_length first_bytes = msglen := by
  unfold make at h
  split at h
  · exact absurd h nofun
  next hle =>
    obtain rfl := Option.some.inj h
    have hbyte : ∀ place < 7, (first_bytes (place + 1)).toNat = msglen / 2 ^ (8 * place) % 256 := by
      intro place hplace
      have hget := hbytes (place + 1) (by omega)
      rw [List.getElem?_cons_succ, List.getElem?_map, List.getElem?_range hplace] at hget
      rw [← Option.some.inj hget, UInt8.toNat_ofNat', Nat.shiftRight_eq_div_pow]
      exact Nat.mod_mod _ _
    unfold decoded_length
    simp only [List.foldl_cons, List.foldl_nil, shiftLeft_or]
    rw [hbyte 6 (by decide), hbyte 5 (by decide), hbyte 4 (by decide), hbyte 3 (by decide),
      hbyte 2 (by decide), hbyte 1 (by decide), hbyte 0 (by decide)]
    unfold MAX_RAW_BYTE_LEN at hle
    omega

theorem length_make (h : make msglen = some header) : header.length = RAW_HDR_SZ := by
  unfold make at h
  split at h
  · exact absurd h nofun
  · obtain rfl := Option.some.inj h
    rfl

theorem head_make (h : make msglen = some header) : header[0]? = some RAW_BYTE_MSG_FIRSTB := by
  unfold make at h
  split at h
  · exact absurd h nofun
  · obtain rfl := Option.some.inj h
    rfl

end ConnMsgHeader

structure Reader : Type where
  /-- The blocks in the channel. -/
  queue : List (List UInt8)
  current_block : Option (List UInt8)
  cursor : ℕ
  /-- The bytearray that what is read is added to. -/
  side_buf : Option ℕ
  /-- The bytearrays of the process. -/
  bytearrays : List (List UInt8)

namespace Reader

/-- The current block, or else a new one (`_get_new_block`). -/
def get_block (r : Reader) : Option (List UInt8 × Reader) :=
  match r.current_block with
  | some block => some (block, r)
  | none =>
    match r.queue with
    | [] => none
    | block :: queue => some (block, { r with queue, current_block := some block, cursor := 0 })

/-- `_destroy_current_block`, which `close` does. -/
def destroy_current_block (r : Reader) : Reader := { r with current_block := none, cursor := 0 }

/-- What `check_header` looks at, with what the memory behind the block has in it. -/
def first_bytes (behind : ℕ → UInt8) (block : List UInt8) (cursor place : ℕ) : UInt8 :=
  (block[cursor + place]?).getD (behind (cursor + place - block.length))

/-- `check_header`. -/
def check_header (behind : ℕ → UInt8) (r : Reader) : Option (MsgType × Reader) :=
  match r.get_block with
  | none => none
  | some (block, r) =>
    match ConnMsgHeader.parse (first_bytes behind block r.cursor) block.length with
    | none => none
    | some send_type => some (send_type, r)

/-- `advance_raw_header`. -/
def advance_raw_header (r : Reader) : Option Reader :=
  match r.current_block with
  | none => none
  | some block =>
    if r.cursor + ConnMsgHeader.RAW_HDR_SZ ≤ block.length then
      some { r with cursor := r.cursor + ConnMsgHeader.RAW_HDR_SZ }
    else none

/-- One round of the loop of `readinto`: bytes of a block, which is destroyed at its end. -/
def take (r : Reader) (block : List UInt8) (remaining : ℕ) : List UInt8 × Reader :=
  let to_get := min remaining (block.length - r.cursor)
  ((block.drop r.cursor).take to_get,
    if r.cursor + to_get = block.length then r.destroy_current_block
    else { r with cursor := r.cursor + to_get })

/-- The loop of `readinto`, with the bytes that it gets.  After the first round a round takes a
block from the channel. -/
def readinto_loop : ℕ → Reader → ℕ → Option (List UInt8 × Reader)
  | _, r, 0 => some ([], r)
  | 0, _, _ + 1 => none
  | rounds + 1, r, remaining + 1 =>
    match r.get_block with
    | none => none
    | some (block, r) =>
      let got := r.take block (remaining + 1)
      match readinto_loop rounds got.2 (remaining + 1 - got.1.length) with
      | none => none
      | some (bytes, r) => some (got.1 ++ bytes, r)

/-- `_side_buf.extend`. -/
def extend_side_buf (r : Reader) (bytes : List UInt8) : Reader :=
  match r.side_buf with
  | none => r
  | some side_buf => { r with bytearrays := r.bytearrays.modify side_buf (· ++ bytes) }

/-- `readinto`, with the bytes that the buffer gets. -/
def readinto (r : Reader) (size : ℕ) (accumulate_sb : Bool) : Option (List UInt8 × Reader) :=
  match readinto_loop (r.queue.length + 1) r size with
  | none => none
  | some (bytes, r) => some (bytes, if accumulate_sb then r.extend_side_buf bytes else r)

/-- `read`. -/
def read (r : Reader) (size : ℕ) : Option (List UInt8 × Reader) :=
  if size = 0 then none
  else
    match r.readinto size false with
    | none => none
    | some (return_buf, r) => some (return_buf, r.extend_side_buf return_buf)

/-- `bytearray(size)` of the process. -/
def bytearray (r : Reader) (size : ℕ) : ℕ × Reader :=
  (r.bytearrays.length, { r with bytearrays := r.bytearrays ++ [List.replicate size 0] })

/-- A buffer of the process gets the bytes. -/
def store (r : Reader) (buf : ℕ) (bytes : List UInt8) : Reader :=
  { r with bytearrays := r.bytearrays.set buf bytes }

/-! ## Reading a message -/

/-- What is left of the current block. -/
def rest (r : Reader) : List UInt8 :=
  match r.current_block with
  | some block => block.drop r.cursor
  | none => []

/-- Before the reader are the bytes of a message, in what is left of a block and in blocks of the
channel, and then other blocks. -/
structure Holds (r : Reader) (data : List UInt8) (later : List (List UInt8)) : Prop where
  cursor_le : ∀ block, r.current_block = some block → r.cursor ≤ block.length
  split : ∃ blocks, r.queue = blocks ++ later ∧ (∀ block ∈ blocks, block ≠ []) ∧
    r.rest ++ blocks.flatten = data

variable {later : List (List UInt8)} {r r' : Reader} {data : List UInt8}

/-- At the end of a message the reader is before the next one. -/
theorem Holds.finished (h : r.Holds [] later) : r.queue = later := by
  obtain ⟨blocks, hqueue, hblocks, hdata⟩ := h.split
  cases blocks with
  | nil => exact hqueue
  | cons block blocks =>
    have hnil := (List.append_eq_nil_iff.mp (List.append_eq_nil_iff.mp hdata).2).1
    exact absurd hnil (hblocks block List.mem_cons_self)

theorem Holds.get_block (h : r.Holds data later) (hdata : data ≠ []) :
    ∃ block r', r.get_block = some (block, r') ∧ r'.Holds data later ∧
      r'.current_block = some block ∧ r'.side_buf = r.side_buf ∧ r'.bytearrays = r.bytearrays ∧
      r'.queue.length + 1 = r.queue.length + r.current_block.toList.length := by
  unfold Reader.get_block
  cases hcurrent : r.current_block with
  | some block => exact ⟨block, r, rfl, h, hcurrent, rfl, rfl, rfl⟩
  | none =>
    obtain ⟨blocks, hqueue, hblocks, hsplit⟩ := h.split
    unfold rest at hsplit
    rw [hcurrent, List.nil_append] at hsplit
    cases blocks with
    | nil => exact absurd hsplit.symm hdata
    | cons block blocks =>
      rw [hqueue]
      refine ⟨block, _, rfl, ⟨?_, blocks, rfl, ?_, ?_⟩, rfl, rfl, rfl, ?_⟩
      · intro block' hblock'
        exact Nat.zero_le _
      · intro block' hmem
        exact hblocks block' (List.mem_cons_of_mem _ hmem)
      · exact hsplit
      · simp

/-- A round takes bytes of the message; unless they are all that was asked for, the block has come
to its end. -/
theorem Holds.take (h : r.Holds data later) {block : List UInt8}
    (hcurrent : r.current_block = some block) (remaining : ℕ) :
    ∃ to_get r', r.take block remaining = (data.take to_get, r') ∧
      r'.Holds (data.drop to_get) later ∧ to_get ≤ remaining ∧
      (to_get = remaining ∨ r'.current_block = none) ∧
      r'.side_buf = r.side_buf ∧ r'.bytearrays = r.bytearrays ∧ r'.queue = r.queue := by
  have hle := h.cursor_le block hcurrent
  obtain ⟨blocks, hqueue, hblocks, hdata⟩ := h.split
  unfold rest at hdata
  rw [hcurrent] at hdata
  have hlength : (block.drop r.cursor).length = block.length - r.cursor := List.length_drop
  have hget : min remaining (block.length - r.cursor) ≤ (block.drop r.cursor).length := by
    rw [hlength]
    exact min_le_right _ _
  have hbytes : (block.drop r.cursor).take (min remaining (block.length - r.cursor)) =
      data.take (min remaining (block.length - r.cursor)) := by
    rw [← hdata, List.take_append_of_le_length hget]
  unfold Reader.take
  by_cases hend : r.cursor + min remaining (block.length - r.cursor) = block.length
  · refine ⟨min remaining (block.length - r.cursor), r.destroy_current_block, ?_, ?_,
      min_le_left _ _, .inr rfl, rfl, rfl, rfl⟩
    · simp only [hbytes, if_pos hend]
    · have hmin : min remaining (block.length - r.cursor) = block.length - r.cursor := by omega
      refine ⟨nofun, blocks, hqueue, hblocks, ?_⟩
      rw [← hdata, hmin, ← hlength, List.drop_left]
      rfl
  · refine ⟨min remaining (block.length - r.cursor),
      { r with cursor := r.cursor + min remaining (block.length - r.cursor) }, ?_, ?_,
      min_le_left _ _, .inl (by omega), rfl, rfl, rfl⟩
    · simp only [hbytes, if_neg hend]
    · refine ⟨?_, blocks, hqueue, hblocks, ?_⟩
      · intro block' hblock'
        obtain rfl := Option.some.inj (hcurrent.symm.trans hblock')
        show r.cursor + min remaining (block.length - r.cursor) ≤ block.length
        omega
      · rw [← hdata, List.drop_append_of_le_length hget, List.drop_drop]
        unfold rest
        simp only [hcurrent]

/-- The loop of `readinto`: the induction is on the rounds, and there is one for every block. -/
theorem readinto_loop_holds (rounds : ℕ) :
    ∀ {r : Reader} {data : List UInt8} {later : List (List UInt8)} (size : ℕ),
      r.Holds data later → size ≤ data.length →
      r.queue.length + r.current_block.toList.length ≤ rounds →
      ∃ r', readinto_loop rounds r size = some (data.take size, r') ∧
        r'.Holds (data.drop size) later ∧ r'.side_buf = r.side_buf ∧
        r'.bytearrays = r.bytearrays := by
  induction rounds with
  | zero =>
    intro r data later size h hsize hrounds
    cases size with
    | zero => exact ⟨r, rfl, h, rfl, rfl⟩
    | succ size =>
      obtain ⟨hqueue, hcurrent⟩ : r.queue.length = 0 ∧ r.current_block.toList.length = 0 := by
        omega
      obtain ⟨block, r', hget, -, -, -, -, hlength⟩ :=
        h.get_block (List.ne_nil_of_length_pos ((Nat.succ_pos size).trans_le hsize))
      omega
  | succ rounds ih =>
    intro r data later size h hsize hrounds
    cases size with
    | zero => exact ⟨r, rfl, h, rfl, rfl⟩
    | succ size =>
      obtain ⟨block, r₁, hget, h₁, hcurrent, hside, hbytes, hlength⟩ :=
        h.get_block (List.ne_nil_of_length_pos ((Nat.succ_pos size).trans_le hsize))
      obtain ⟨to_get, r₂, htake, h₂, hle, hends, hside₂, hbytes₂, hqueue₂⟩ :=
        h₁.take hcurrent (size + 1)
      have htaken : (data.take to_get).length = to_get :=
        List.length_take_of_le (hle.trans hsize)
      unfold readinto_loop
      simp only [hget, htake, htaken]
      rcases hends with rfl | hnone
      · rw [Nat.sub_self]
        refine ⟨r₂, ?_, h₂, hside₂.trans hside, hbytes₂.trans hbytes⟩
        cases rounds <;> simp [readinto_loop]
      · obtain ⟨r₃, hloop, h₃, hside₃, hbytes₃⟩ := ih (size + 1 - to_get) h₂
          (by rw [List.length_drop]; omega)
          (by rw [hqueue₂, hnone]; simp only [Option.toList_none, List.length_nil]; omega)
        rw [hloop]
        refine ⟨r₃, ?_, ?_, hside₃.trans (hside₂.trans hside), hbytes₃.trans (hbytes₂.trans hbytes)⟩
        · have htotal : to_get + (size + 1 - to_get) = size + 1 := by omega
          have happend : data.take to_get ++ (data.drop to_get).take (size + 1 - to_get) =
              data.take (size + 1) := by
            rw [← htotal, List.take_add]
            rw [htotal]
          simp only [happend]
        · have htotal : to_get + (size + 1 - to_get) = size + 1 := by omega
          rw [List.drop_drop, htotal] at h₃
          exact h₃

theorem Holds.frame (h : r.Holds data later) (hqueue : r'.queue = r.queue)
    (hcurrent : r'.current_block = r.current_block) (hcursor : r'.cursor = r.cursor) :
    r'.Holds data later := by
  refine ⟨?_, ?_⟩
  · rw [hcurrent, hcursor]
    exact h.cursor_le
  · unfold rest
    rw [hqueue, hcurrent, hcursor]
    exact h.split

/-- A reader after another one, that has read bytes and, with a side buffer, added them to it. -/
structure Reads (r r' : Reader) (bytes : List UInt8) : Prop where
  side_buf : r'.side_buf = r.side_buf
  bytearrays : r'.bytearrays = (r.extend_side_buf bytes).bytearrays

theorem Holds.extend_side_buf (h : r.Holds data later) (bytes : List UInt8) :
    (r.extend_side_buf bytes).Holds data later := by
  unfold Reader.extend_side_buf
  split
  · exact h
  · exact h.frame rfl rfl rfl

theorem side_buf_extend_side_buf (r : Reader) (bytes : List UInt8) :
    (r.extend_side_buf bytes).side_buf = r.side_buf := by
  unfold extend_side_buf
  split <;> rfl

/-- What is added depends on the side buffer and the bytearrays only. -/
theorem extend_side_buf_congr (hside : r'.side_buf = r.side_buf)
    (hbytes : r'.bytearrays = r.bytearrays) (bytes : List UInt8) :
    (r'.extend_side_buf bytes).bytearrays = (r.extend_side_buf bytes).bytearrays := by
  unfold extend_side_buf
  rw [hside]
  cases r.side_buf with
  | none => exact hbytes
  | some side_buf =>
    show r'.bytearrays.modify side_buf (· ++ bytes) = r.bytearrays.modify side_buf (· ++ bytes)
    rw [hbytes]

/-- `readinto` gives the next bytes of the message. -/
theorem readinto_holds {size : ℕ} (h : r.Holds data later) (hsize : size ≤ data.length) :
    ∃ r', r.readinto size true = some (data.take size, r') ∧ r'.Holds (data.drop size) later ∧
      r.Reads r' (data.take size) := by
  obtain ⟨r', hloop, hholds, hside, hbytes⟩ := readinto_loop_holds (r.queue.length + 1) size h hsize
    (by cases r.current_block <;> simp)
  unfold readinto
  simp only [hloop, if_true]
  exact ⟨_, rfl, hholds.extend_side_buf _, (side_buf_extend_side_buf _ _).trans hside,
    extend_side_buf_congr hside hbytes _⟩

theorem read_holds {size : ℕ} (h : r.Holds data later) (hpos : 0 < size)
    (hsize : size ≤ data.length) :
    ∃ r', r.read size = some (data.take size, r') ∧ r'.Holds (data.drop size) later ∧
      r.Reads r' (data.take size) := by
  obtain ⟨r', hloop, hholds, hside, hbytes⟩ := readinto_loop_holds (r.queue.length + 1) size h hsize
    (by cases r.current_block <;> simp)
  have hinto : r.readinto size false = some (data.take size, r') := by
    unfold readinto
    simp only [hloop]
    rfl
  unfold read
  rw [if_neg hpos.ne']
  simp only [hinto]
  exact ⟨_, rfl, hholds.extend_side_buf _, (side_buf_extend_side_buf _ _).trans hside,
    extend_side_buf_congr hside hbytes _⟩

/-- Bytes that are read one part after the other are added one part after the other. -/
theorem extend_side_buf_append (r : Reader) (xs ys : List UInt8) :
    (r.extend_side_buf xs).extend_side_buf ys = r.extend_side_buf (xs ++ ys) := by
  unfold extend_side_buf
  cases hside : r.side_buf with
  | none =>
    dsimp only
    rw [hside]
  | some side_buf =>
    dsimp only
    congr 1
    rw [List.modify_modify_eq]
    congr 1
    funext b
    exact List.append_assoc b xs ys

theorem Reads.trans {r'' : Reader} {xs ys : List UInt8} (h : r.Reads r' xs) (h' : r'.Reads r'' ys) :
    r.Reads r'' (xs ++ ys) := by
  refine ⟨h'.side_buf.trans h.side_buf, ?_⟩
  rw [h'.bytearrays, ← extend_side_buf_append]
  exact extend_side_buf_congr (h.side_buf.trans (side_buf_extend_side_buf r xs).symm)
    h.bytearrays ys

theorem Reads.refl (r : Reader) : r.Reads r [] := by
  refine ⟨rfl, ?_⟩
  unfold extend_side_buf
  split
  · rfl
  next side_buf _ =>
    have hid : (fun buf : List UInt8 => buf ++ []) = id := by
      funext buf
      exact List.append_nil buf
    show r.bytearrays = r.bytearrays.modify side_buf fun buf => buf ++ []
    rw [hid, List.modify_id]

end Reader

end Connection
