/-
# What the receives of a connection yield

A receive recognises its message from the first block, which begins with the protocol of a pickle or
with a header (`parse_pickle`, `parse_raw`), and reads the message to its end, through as many
blocks as there are.  The values of earlier receives change when the reading adapter still has the
side buffer of one of them (`Yielded.bytearrays`).
-/
import DragonRuntime.ConnectionMessages

namespace Connection

open ConnMsgHeader

/-! ## The kind of a message -/

variable {block : List UInt8}

theorem first_bytes_lt (behind : ℕ → UInt8) {place : ℕ} {b : UInt8} (hget : block[place]? = some b) :
    Reader.first_bytes behind block 0 place = b := by
  unfold Reader.first_bytes
  rw [Nat.zero_add, hget]
  rfl

theorem getElem?_of_start {xs ys : List UInt8} (hpre : xs <+: ys) (place : ℕ) {b : UInt8}
    (hget : xs[place]? = some b) : ys[place]? = some b := by
  obtain ⟨rest, rfl⟩ := hpre
  rw [List.getElem?_append_left (List.getElem?_eq_some_iff.mp hget).1]
  exact hget

theorem parse_pickle (behind : ℕ → UInt8) (hblock : [PROTOCOL_5_FIRSTB, PROTOCOL_5_NEXTB] <+: block) :
    parse (Reader.first_bytes behind block 0) block.length = some .PICKLE_PROT_5 := by
  have hfirst := first_bytes_lt behind (getElem?_of_start hblock 0 rfl)
  have hnext := first_bytes_lt behind (getElem?_of_start hblock 1 rfl)
  unfold parse
  rw [hfirst, hnext, if_neg (by decide), if_pos ⟨rfl, rfl⟩]

/-- The length is the one of the header, but for the length that stands for an unknown one. -/
theorem parse_raw (behind : ℕ → UInt8) {header : List UInt8} {msglen : ℕ}
    (hmake : make msglen = some header) (hblock : header <+: block) :
    parse (Reader.first_bytes behind block 0) block.length =
      some (.RAW_BYTES (if msglen = MAX_RAW_BYTE_LEN then block.length - RAW_HDR_SZ
        else msglen)) := by
  have hlength := length_make hmake
  have hget : ∀ place < 8, header[place]? = some (Reader.first_bytes behind block 0 place) := by
    intro place hplace
    have hlt : place < header.length := hplace.trans_eq hlength.symm
    have hsome : header[place]? = some header[place] := List.getElem?_eq_getElem hlt
    rw [first_bytes_lt behind (getElem?_of_start hblock place hsome)]
    exact hsome
  have hfirst : Reader.first_bytes behind block 0 0 = RAW_BYTE_MSG_FIRSTB :=
    first_bytes_lt behind (getElem?_of_start hblock 0 (head_make hmake))
  have hdecoded := decoded_length_make hmake hget
  unfold parse
  rw [hdecoded, hfirst, if_neg (by decide), if_neg fun h => absurd h.1 (by decide),
    if_pos ⟨rfl, hlength ▸ hblock.length_le⟩]
  rfl

/-- A header that is cut is none. -/
theorem parse_short (behind : ℕ → UInt8) (hfirst : block[0]? = some RAW_BYTE_MSG_FIRSTB)
    (hlength : block.length < RAW_HDR_SZ) :
    parse (Reader.first_bytes behind block 0) block.length = none := by
  unfold parse
  rw [first_bytes_lt behind hfirst, if_neg (by decide), if_neg fun h => absurd h.1 (by decide),
    if_neg fun h => absurd h.2 (Nat.not_le.mpr hlength)]

/-- The first byte of a pickle, with zeros behind it. -/
theorem parse_cut : parse (Reader.first_bytes (fun _ => 0) [PROTOCOL_5_FIRSTB] 0) 1 = none := by
  decide

namespace Reader

theorem check_header_cons (behind : ℕ → UInt8) {r : Reader} {block : List UInt8}
    {queue : List (List UInt8)} (hcurrent : r.current_block = none)
    (hqueue : r.queue = block :: queue) :
    r.check_header behind =
      (parse (first_bytes behind block 0) block.length).map fun send_type =>
        (send_type, { r with queue, current_block := some block, cursor := 0 }) := by
  unfold check_header get_block
  rw [hcurrent, hqueue]
  dsimp only
  cases parse (first_bytes behind block 0) block.length <;> rfl

theorem Holds.advance_raw_header {r : Reader} {data : List UInt8} {later : List (List UInt8)}
    (h : r.Holds data later) {block : List UInt8} (hcurrent : r.current_block = some block)
    (hroom : r.cursor + RAW_HDR_SZ ≤ block.length) :
    ∃ r', r.advance_raw_header = some r' ∧ r'.Holds (data.drop RAW_HDR_SZ) later ∧
      r'.side_buf = r.side_buf ∧ r'.bytearrays = r.bytearrays := by
  unfold Reader.advance_raw_header
  simp only [hcurrent, if_pos hroom]
  refine ⟨_, rfl, ?_, rfl, rfl⟩
  obtain ⟨blocks, hqueue, hblocks, hdata⟩ := h.split
  refine ⟨?_, blocks, hqueue, hblocks, ?_⟩
  · intro block' hblock'
    obtain rfl := Option.some.inj hblock'
    exact hroom
  · unfold rest at hdata ⊢
    rw [hcurrent] at hdata
    have hlength : RAW_HDR_SZ ≤ (block.drop r.cursor).length := by
      rw [List.length_drop]
      omega
    rw [← hdata]
    show block.drop (r.cursor + RAW_HDR_SZ) ++ blocks.flatten = _
    rw [List.drop_append_of_le_length hlength, List.drop_drop]

end Reader

section pickles

variable {Obj : Type} {pickle : Pickle Obj}

namespace Reader

theorem file_read_holds {r : Reader} {data : List UInt8} {later : List (List UInt8)}
    (h : r.Holds data later) {call : FileRead} (hpos : 0 < call.size)
    (hsize : call.size ≤ data.length) :
    ∃ r', r.file_read call = some (data.take call.size, r') ∧
      r'.Holds (data.drop call.size) later ∧ r.Reads r' (data.take call.size) := by
  cases call with
  | read => exact read_holds h hpos hsize
  | readinto => exact readinto_holds h hsize

/-- `pickle.load` reads the whole pickle: the induction is on the rounds, with the bytes that were
read and those that are left. -/
theorem load_loop_holds (hpickle : pickle.Faithful) (o : Obj) (rounds : ℕ) :
    ∀ {r : Reader} (seen : List UInt8) {data : List UInt8} {later : List (List UInt8)},
      seen ++ data = pickle.bytes o → r.Holds data later → data.length < rounds →
      ∃ r', r.load_loop pickle rounds seen = some (.ok o, r') ∧ r'.Holds [] later ∧
        r.Reads r' data := by
  induction rounds with
  | zero =>
    intro r seen data later _ _ hrounds
    exact absurd hrounds (Nat.not_lt_zero _)
  | succ rounds ih =>
    intro r seen data later hseen h hrounds
    unfold load_loop
    by_cases hdata : data = []
    · subst hdata
      rw [List.append_nil] at hseen
      rw [hseen, hpickle.stops o, hpickle.loads o]
      exact ⟨r, rfl, h, .refl r⟩
    · have hne : seen ≠ pickle.bytes o := by
        intro hall
        rw [← hseen] at hall
        exact hdata (List.append_right_eq_self.mp hall.symm)
      obtain ⟨call, hnext, hpos, hlength⟩ := hpickle.reads o seen ⟨data, hseen⟩ hne
      rw [← hseen, List.length_append] at hlength
      have hsize : call.size ≤ data.length := by omega
      obtain ⟨r₁, hread, h₁, hreads₁⟩ := file_read_holds h hpos hsize
      obtain ⟨r₂, hloop, h₂, hreads₂⟩ := ih (seen ++ data.take call.size)
        (by rw [List.append_assoc, List.take_append_drop, hseen]) h₁
        (by rw [List.length_drop]; omega)
      simp only [hnext, hread, hloop]
      refine ⟨r₂, rfl, h₂, ?_⟩
      have hreads := hreads₁.trans hreads₂
      rw [List.take_append_drop] at hreads
      exact hreads

theorem load_holds (hpickle : pickle.Faithful) {r : Reader} {o : Obj}
    {later : List (List UInt8)} (h : r.Holds (pickle.bytes o) later) :
    ∃ r', r.load pickle = some (.ok o, r') ∧ r'.Holds [] later ∧ r.Reads r' (pickle.bytes o) := by
  refine load_loop_holds hpickle o _ [] (List.nil_append _) h ?_
  obtain ⟨blocks, hqueue, -, hdata⟩ := h.split
  rw [← hdata, hqueue, List.length_append, List.flatten_append, List.length_append]
  omega

end Reader

/-- What a receive yields: a value with the content, and a reader before the next message, with what
was read added to the side buffer. -/
structure Yielded (r r' : Reader) (value : Value Obj) (content : Content Obj) (added : List UInt8)
    (later : List (List UInt8)) (leaves : Bool) : Prop where
  queue : r'.queue = later
  current : r'.current_block = none
  bytearrays : ∃ fresh, r'.bytearrays = (r.extend_side_buf added).bytearrays ++ fresh
  content : value.content r'.bytearrays = content
  lt : ∀ buf, value = .bytearray buf → buf < r'.bytearrays.length
  kept : leaves = false → r'.side_buf = r.side_buf
  left : leaves = true → ∃ buf, value = .bytearray buf ∧ r'.side_buf = some buf

theorem modify_length (xs : List (List UInt8)) (x : List UInt8) (f : List UInt8 → List UInt8) :
    (xs ++ [x]).modify xs.length f = xs ++ [f x] := by
  induction xs with
  | nil => rfl
  | cons y xs ih => exact congrArg (y :: ·) ih

theorem modify_append (xs ys : List (List UInt8)) (f : List UInt8 → List UInt8) :
    ∀ buf < xs.length, (xs ++ ys).modify buf f = xs.modify buf f ++ ys := by
  induction xs with
  | nil => exact fun buf hlt => absurd hlt (Nat.not_lt_zero _)
  | cons x xs ih =>
    intro buf hlt
    cases buf with
    | zero => rfl
    | succ buf => exact congrArg (x :: ·) (ih buf (Nat.lt_of_succ_lt_succ hlt))

theorem length_extend_side_buf (r : Reader) (added : List UInt8) :
    (r.extend_side_buf added).bytearrays.length = r.bytearrays.length := by
  unfold Reader.extend_side_buf
  split
  · rfl
  · exact List.length_modify ..

variable {content : Content Obj} {later : List (List UInt8)} {memory : Blk → ℕ → UInt8}
  {options : Options} {r : Reader} {receive : Receive} {bytes header : List UInt8}

/-- A pickle is received: it is loaded, and with `recv_bytes` it goes to a side buffer of its own.
-/
theorem yielded_obj (hpickle : pickle.Faithful) {o : Obj} (hlarge : 2 ≤ options.large_blk_size)
    (hcurrent : r.current_block = none)
    (hqueue : r.queue = blocks options memory (pickle.dump o) ++ later)
    (hfits : fitting pickle (.obj o) receive = some content) (behind : ℕ → UInt8) :
    ∃ value r', r.receive pickle behind receive = some (value, r') ∧
      Yielded r r' value content
        (if leaves_side_buf (.obj o : Message Obj) receive then [] else pickle.bytes o) later
        (leaves_side_buf (.obj o : Message Obj) receive) := by
  -- the first block shows a pickle
  obtain ⟨first, rest, hdump, hfirst⟩ := hpickle.dump_head o
  have hne : first ≠ [] := by
    rintro rfl
    exact absurd hfirst.length_le (by decide)
  obtain ⟨block, blocks', hblocks, hblock⟩ := blocks_head options memory hne rest
  have hhead : [PROTOCOL_5_FIRSTB, PROTOCOL_5_NEXTB] <+: block := by
    refine List.IsPrefix.trans ?_ hblock
    exact List.prefix_take_iff.mpr ⟨hfirst, hlarge⟩
  have hnonempty := fun block hmem => (blocks_bound options memory (pickle.dump o) block hmem).1
  have hflatten := blocks_flatten options memory (pickle.dump o)
  rw [hdump, hblocks] at hqueue hnonempty hflatten
  have hcheck := Reader.check_header_cons behind hcurrent hqueue
  rw [parse_pickle behind hhead] at hcheck
  -- the reader with the first block
  have hholds : Reader.Holds
      { r with queue := blocks' ++ later, current_block := some block, cursor := 0 }
      (pickle.bytes o) later := by
    refine ⟨fun _ _ => Nat.zero_le _, blocks', rfl,
      fun block' hmem => hnonempty block' (List.mem_cons_of_mem _ hmem), ?_⟩
    unfold Pickle.bytes
    rw [hdump]
    exact hflatten
  generalize hr₁ : ({ r with queue := blocks' ++ later, current_block := some block, cursor := 0 } :
    Reader) = r₁ at hcheck hholds
  have hside₁ : r₁.side_buf = r.side_buf := by
    rw [← hr₁]
  have hbytes₁ : r₁.bytearrays = r.bytearrays := by
    rw [← hr₁]
  cases receive with
  | recv =>
    obtain ⟨r₂, hload, h₂, hreads⟩ := Reader.load_holds hpickle hholds
    obtain rfl := Option.some.inj hfits
    refine ⟨.obj o, r₂.destroy_current_block, ?_, ?_⟩
    · unfold Reader.receive Reader.recv
      simp only [hcheck, Option.map_some, hload]
    · refine ⟨h₂.finished, rfl, ⟨[], ?_⟩, rfl, nofun, fun _ => hreads.side_buf.trans hside₁, nofun⟩
      rw [List.append_nil]
      exact hreads.bytearrays.trans (Reader.extend_side_buf_congr hside₁ hbytes₁ _)
  | recv_bytes maxlength =>
    obtain ⟨r₂, hload, h₂, hreads⟩ := Reader.load_holds hpickle
      (r := { (r₁.bytearray 0).2 with side_buf := some r₁.bytearrays.length })
      (hholds.frame rfl rfl rfl)
    have hbytes₂ : r₂.bytearrays = r.bytearrays ++ [pickle.bytes o] := by
      rw [hreads.bytearrays, ← hbytes₁]
      exact modify_length _ _ _
    have hget : r₂.bytearrays[r₁.bytearrays.length]? = some (pickle.bytes o) := by
      rw [hbytes₂, hbytes₁]
      exact List.getElem?_concat_length
    obtain ⟨hwithin, hcontent⟩ := Option.ite_none_right_eq_some.mp
      (show (if Reader.within maxlength (pickle.bytes o).length then
        some (Content.bytes (pickle.bytes o)) else none) = some content from hfits)
    obtain rfl := Option.some.inj hcontent
    refine ⟨.bytearray r₁.bytearrays.length, r₂.destroy_current_block, ?_, ?_⟩
    · unfold Reader.receive Reader.recv_bytes
      simp only [hcheck, Option.map_some, hload, hget, Option.getD_some, if_pos hwithin]
    · refine ⟨h₂.finished, rfl, ⟨[pickle.bytes o], ?_⟩, ?_, ?_, nofun,
        fun _ => ⟨_, rfl, hreads.side_buf⟩⟩
      · show r₂.bytearrays = (r.extend_side_buf []).bytearrays ++ _
        rw [hbytes₂, ← (Reader.Reads.refl r).bytearrays]
      · show Content.bytes (r₂.bytearrays[r₁.bytearrays.length]?.getD []) = _
        rw [hget]
        rfl
      · rintro buf ⟨⟩
        show r₁.bytearrays.length < r₂.bytearrays.length
        rw [hbytes₂, hbytes₁, List.length_append]
        exact Nat.lt_succ_self _
  | recv_bytes_into => exact absurd hfits nofun

theorem bytearray_readinto {data : List UInt8} (h : r.Holds data later) :
    ∃ r', (r.bytearray data.length).2.readinto data.length true = some (data, r') ∧
      r'.Holds [] later ∧ r'.side_buf = r.side_buf ∧
      ((∀ buf, r.side_buf = some buf → buf < r.bytearrays.length) →
        (r'.store r.bytearrays.length data).bytearrays =
          (r.extend_side_buf data).bytearrays ++ [data]) := by
  obtain ⟨r', hread, hholds, hreads⟩ := Reader.readinto_holds
    (r := (r.bytearray data.length).2) (h.frame rfl rfl rfl) le_rfl
  rw [List.take_length] at hread hreads
  rw [List.drop_length] at hholds
  refine ⟨r', hread, hholds, hreads.side_buf, ?_⟩
  intro hlt
  have hset : ∀ (xs : List (List UInt8)) (x y : List UInt8), xs.length = r.bytearrays.length →
      (xs ++ [x]).set r.bytearrays.length y = xs ++ [y] := by
    intro xs x y hlength
    rw [← hlength]
    exact List.set_append_right _ _ le_rfl |>.trans (by rw [Nat.sub_self]; rfl)
  show r'.bytearrays.set r.bytearrays.length data = _
  rw [hreads.bytearrays]
  unfold Reader.extend_side_buf
  cases hside : r.side_buf with
  | none =>
    simp only [Reader.bytearray, hside]
    exact hset _ _ _ rfl
  | some buf =>
    simp only [Reader.bytearray, hside]
    rw [modify_append _ _ _ _ (hlt buf hside)]
    exact hset _ _ _ (List.length_modify ..)

/-- The blocks of bytes show their header, and their length when it is not one that stands for an
unknown length, or when they are in one block. -/
theorem check_header_bytes (hmake : make bytes.length = some header)
    (hlarge : RAW_HDR_SZ ≤ options.large_blk_size) (hlength : bytes.length = MAX_RAW_BYTE_LEN →
      RAW_HDR_SZ + bytes.length ≤ Writer.first_size options RAW_HDR_SZ)
    (hcurrent : r.current_block = none)
    (hqueue : r.queue = blocks options memory [header, bytes] ++ later) (behind : ℕ → UInt8) :
    ∃ r₁ r₂, r.check_header behind = some (.RAW_BYTES bytes.length, r₁) ∧
      r₁.advance_raw_header = some r₂ ∧ r₂.Holds bytes later ∧ r₂.side_buf = r.side_buf ∧
      r₂.bytearrays = r.bytearrays := by
  have hheader := length_make hmake
  have hne : header ≠ [] := List.ne_nil_of_length_pos (hheader ▸ Nat.succ_pos _)
  -- the first block, and what it shows
  obtain ⟨block, rest, hblocks, hblock, hshown⟩ : ∃ block rest,
      blocks options memory [header, bytes] = block :: rest ∧ header <+: block ∧
        (if bytes.length = MAX_RAW_BYTE_LEN then block.length - RAW_HDR_SZ else bytes.length) =
          bytes.length := by
    rcases blocks_header options memory hne (hheader ▸ hlarge) bytes with
      ⟨-, hone⟩ | ⟨hspill, rest, hmore⟩
    · refine ⟨header ++ bytes, [], hone, List.prefix_append _ _, ?_⟩
      split
      · rw [List.length_append, hheader, Nat.add_sub_cancel_left]
      · rfl
    · refine ⟨header, rest, hmore, List.prefix_refl _, if_neg ?_⟩
      intro hmax
      rw [hheader] at hspill
      exact absurd (hlength hmax) (Nat.not_le.mpr hspill)
  have hnonempty := fun block hmem => (blocks_bound options memory [header, bytes] block hmem).1
  have hflatten := blocks_flatten options memory [header, bytes]
  rw [hblocks] at hqueue hnonempty hflatten
  have hcheck := Reader.check_header_cons behind hcurrent hqueue
  rw [parse_raw behind hmake hblock, hshown] at hcheck
  have hholds : Reader.Holds
      { r with queue := rest ++ later, current_block := some block, cursor := 0 }
      (header ++ bytes) later := by
    refine ⟨fun _ _ => Nat.zero_le _, rest, rfl,
      fun block' hmem => hnonempty block' (List.mem_cons_of_mem _ hmem), ?_⟩
    refine hflatten.trans ?_
    simp
  obtain ⟨r₂, hadvance, h₂, hside, hbytes⟩ := hholds.advance_raw_header rfl
    (show 0 + RAW_HDR_SZ ≤ block.length by
      rw [Nat.zero_add, ← hheader]
      exact hblock.length_le)
  rw [← hheader, List.drop_left] at h₂
  exact ⟨_, r₂, hcheck, hadvance, h₂, hside, hbytes⟩

theorem yielded_bytes (hmake : make bytes.length = some header)
    (hlarge : RAW_HDR_SZ ≤ options.large_blk_size) (hlength : bytes.length = MAX_RAW_BYTE_LEN →
      RAW_HDR_SZ + bytes.length ≤ Writer.first_size options RAW_HDR_SZ)
    (hlt : ∀ buf, r.side_buf = some buf → buf < r.bytearrays.length)
    (hcurrent : r.current_block = none)
    (hqueue : r.queue = blocks options memory [header, bytes] ++ later)
    (hfits : fitting pickle (.bytes bytes) receive = some content) (behind : ℕ → UInt8) :
    ∃ value r', r.receive pickle behind receive = some (value, r') ∧
      Yielded r r' value content bytes later false := by
  obtain ⟨r₁, r₂, hcheck, hadvance, h₂, hside, hbytes⟩ :=
    check_header_bytes hmake hlarge hlength hcurrent hqueue behind
  obtain ⟨r₃, hread, h₃, hside₃, hstore⟩ := bytearray_readinto h₂
  have hall : (r₃.store r₂.bytearrays.length bytes).bytearrays =
      (r.extend_side_buf bytes).bytearrays ++ [bytes] := by
    rw [hstore (by rw [hside, hbytes]; exact hlt), Reader.extend_side_buf_congr hside hbytes]
  have hget : ((r.extend_side_buf bytes).bytearrays ++ [bytes])[r₂.bytearrays.length]? =
      some bytes := by
    rw [hbytes, ← length_extend_side_buf r bytes]
    exact List.getElem?_concat_length
  have hbound : r₂.bytearrays.length < ((r.extend_side_buf bytes).bytearrays ++ [bytes]).length := by
    rw [hbytes, ← length_extend_side_buf r bytes, List.length_append]
    exact Nat.lt_succ_self _
  -- a receive into a new bytearray, whatever it gives to the caller
  have hyielded : ∀ value : Value Obj,
      (∀ buf, value = .bytearray buf → buf = r₂.bytearrays.length) →
      value.content ((r.extend_side_buf bytes).bytearrays ++ [bytes]) = content →
      Yielded r (r₃.store r₂.bytearrays.length bytes).destroy_current_block value content bytes
        later false := by
    intro value hvalue hcontent
    refine ⟨h₃.finished, rfl, ⟨[bytes], hall⟩, ?_, ?_, fun _ => hside₃.trans hside, nofun⟩
    · show value.content (r₃.store r₂.bytearrays.length bytes).bytearrays = content
      rw [hall]
      exact hcontent
    · intro buf hbuf
      show buf < (r₃.store r₂.bytearrays.length bytes).bytearrays.length
      rw [hall, hvalue buf hbuf]
      exact hbound
  cases receive with
  | recv =>
    cases hloads : pickle.loads bytes with
    | error e =>
      simp only [fitting, hloads] at hfits
      exact absurd hfits nofun
    | ok o =>
      simp only [fitting, hloads] at hfits
      obtain rfl := Option.some.inj hfits
      refine ⟨.obj o, _, ?_, hyielded (.obj o) nofun rfl⟩
      unfold Reader.receive Reader.recv
      simp only [hcheck, hadvance, hread, hloads]
  | recv_bytes maxlength =>
    obtain ⟨hwithin, hcontent⟩ := Option.ite_none_right_eq_some.mp
      (show (if Reader.within maxlength bytes.length then some (Content.bytes bytes) else none) =
        some content from hfits)
    obtain rfl := Option.some.inj hcontent
    refine ⟨.bytearray r₂.bytearrays.length, _, ?_, hyielded _ ?_ ?_⟩
    · unfold Reader.receive Reader.recv_bytes
      simp only [hcheck, hadvance, hread, if_pos hwithin]
    · rintro buf ⟨⟩
      rfl
    · show Content.bytes
        (((r.extend_side_buf bytes).bytearrays ++ [bytes])[r₂.bytearrays.length]?.getD []) = _
      rw [hget]
      rfl
  | recv_bytes_into buffer offset =>
    obtain ⟨⟨hoffset, hroom⟩, hcontent⟩ := Option.ite_none_right_eq_some.mp
      (show (if 0 ≤ offset ∧ (bytes.length : ℤ) + offset ≤ buffer.length then
        some (Content.buffer bytes.length (buffer.take offset.toNat ++ bytes ++
          buffer.drop (offset.toNat + bytes.length))) else none) = some content from hfits)
    obtain rfl := Option.some.inj hcontent
    obtain ⟨r₄, hread₄, h₄, hreads₄⟩ := Reader.readinto_holds h₂ le_rfl
    rw [List.take_length] at hread₄ hreads₄
    rw [List.drop_length] at h₄
    refine ⟨.buffer bytes.length (buffer.take offset.toNat ++ bytes ++
      buffer.drop (offset.toNat + bytes.length)), r₄.destroy_current_block, ?_, ?_⟩
    · unfold Reader.receive Reader.recv_bytes_into
      simp only [if_neg (show ¬ (offset < 0 ∨ (buffer.length : ℤ) < offset) by omega), hcheck,
        if_neg (show ¬ (buffer.length : ℤ) < bytes.length + offset by omega), hadvance, hread₄]
    · refine ⟨h₄.finished, rfl, ⟨[], ?_⟩, rfl, nofun, fun _ => hreads₄.side_buf.trans hside, nofun⟩
      rw [List.append_nil]
      exact hreads₄.bytearrays.trans (Reader.extend_side_buf_congr hside hbytes _)

/-! ## Messages that are not recognised -/

/-- Without a header nothing is received. -/
theorem receive_none {behind : ℕ → UInt8} (hcheck : r.check_header behind = none)
    (receive : Receive) : r.receive pickle behind receive = none := by
  cases receive with
  | recv =>
    unfold Reader.receive Reader.recv
    simp only [hcheck]
  | recv_bytes =>
    unfold Reader.receive Reader.recv_bytes
    simp only [hcheck]
  | recv_bytes_into =>
    unfold Reader.receive Reader.recv_bytes_into
    simp only [hcheck, ite_self]

/-- Blocks of one byte have no pickle that is recognised. -/
theorem receive_obj_cut (hpickle : pickle.Faithful) {o : Obj} (hlarge : options.large_blk_size < 2)
    (hcurrent : r.current_block = none)
    (hqueue : r.queue = blocks options memory (pickle.dump o) ++ later) (receive : Receive) :
    r.receive pickle (fun _ => 0) receive = none := by
  obtain ⟨first, rest, hdump, hfirst⟩ := hpickle.dump_head o
  obtain ⟨tail, rfl⟩ := hfirst
  have hne : [PROTOCOL_5_FIRSTB, PROTOCOL_5_NEXTB] ++ tail ≠ [] := nofun
  obtain ⟨block, blocks', hblocks, hblock⟩ := blocks_head options memory hne rest
  have hone : options.large_blk_size = 1 := by
    have hlt := options.small_lt_large
    omega
  have hle := (blocks_bound options memory _ block (hblocks ▸ List.mem_cons_self)).2
  rw [hone] at hblock hle
  have hcut : block = [PROTOCOL_5_FIRSTB] := (hblock.eq_of_length_le hle).symm
  rw [hdump, hblocks, hcut] at hqueue
  apply receive_none
  rw [Reader.check_header_cons (fun _ => 0) hcurrent hqueue]
  show (parse (Reader.first_bytes (fun _ => 0) [PROTOCOL_5_FIRSTB] 0) 1).map _ = none
  rw [parse_cut]
  rfl

/-- Blocks that do not take a header have no bytes that are recognised. -/
theorem receive_bytes_cut (hmake : make bytes.length = some header)
    (hlarge : options.large_blk_size < RAW_HDR_SZ) (hcurrent : r.current_block = none)
    (hqueue : r.queue = blocks options memory [header, bytes] ++ later) (behind : ℕ → UInt8)
    (receive : Receive) : r.receive pickle behind receive = none := by
  have hheader := length_make hmake
  have hne : header ≠ [] := List.ne_nil_of_length_pos (hheader ▸ Nat.succ_pos _)
  obtain ⟨block, blocks', hblocks, hblock⟩ := blocks_head options memory hne [bytes]
  have hle := (blocks_bound options memory _ block (hblocks ▸ List.mem_cons_self)).2
  rw [hblocks] at hqueue
  have hpos : 0 < options.large_blk_size := (Nat.zero_le _).trans_lt options.small_lt_large
  have hfirst : block[0]? = some RAW_BYTE_MSG_FIRSTB := by
    refine getElem?_of_start hblock 0 ?_
    rw [List.getElem?_take_of_lt hpos]
    exact head_make hmake
  apply receive_none
  rw [Reader.check_header_cons behind hcurrent hqueue,
    parse_short behind hfirst (hle.trans_lt hlarge)]
  rfl

/-- Bytes whose length stands for an unknown one, after their header, are received as none. -/
theorem receive_bytes_unknown (hpickle : pickle.Faithful) (hmake : make bytes.length = some header)
    (hlarge : RAW_HDR_SZ ≤ options.large_blk_size) (hmax : bytes.length = MAX_RAW_BYTE_LEN)
    (hspill : Writer.first_size options RAW_HDR_SZ < RAW_HDR_SZ + bytes.length)
    (hcurrent : r.current_block = none)
    (hqueue : r.queue = blocks options memory [header, bytes] ++ later)
    (hfits : fitting pickle (.bytes bytes) receive = some content) (behind : ℕ → UInt8)
    {value : Value Obj} {r' : Reader}
    (hreceive : r.receive pickle behind receive = some (value, r')) :
    value.content r'.bytearrays ≠ content := by
  have hheader := length_make hmake
  have hne : header ≠ [] := List.ne_nil_of_length_pos (hheader ▸ Nat.succ_pos _)
  have hlong : bytes ≠ [] := by
    rintro rfl
    exact absurd hmax (by decide)
  -- the first block is the header
  obtain ⟨hroom, -⟩ | ⟨-, rest, hblocks⟩ :=
    blocks_header options memory hne (hheader ▸ hlarge) bytes
  · rw [hheader] at hroom
    exact absurd hspill (Nat.not_lt.mpr hroom)
  · rw [hblocks, List.cons_append] at hqueue
    have hcheck := Reader.check_header_cons behind hcurrent hqueue
    rw [parse_raw behind hmake (List.prefix_refl _), if_pos hmax, hheader, Nat.sub_self,
      Option.map_some] at hcheck
    have hadvance : Reader.advance_raw_header
        { r with queue := rest ++ later, current_block := some header, cursor := 0 } =
          some { r with queue := rest ++ later, current_block := some header, cursor := RAW_HDR_SZ } := by
      unfold Reader.advance_raw_header
      simp only [hheader, Nat.zero_add, le_refl, if_true]
    have hread : ∀ r : Reader, r.readinto 0 true = some ([], r.extend_side_buf []) := by
      intro r
      simp [Reader.readinto, Reader.readinto_loop]
    have hstored : ∀ (xs : List (List UInt8)) (buf : ℕ), ((xs.set buf [])[buf]?).getD [] = [] := by
      intro xs buf
      by_cases hlt : buf < xs.length
      · rw [List.getElem?_set_self hlt]
        rfl
      · rw [List.getElem?_eq_none (by rw [List.length_set]; exact Nat.not_lt.mp hlt)]
        rfl
    cases receive with
    | recv =>
      unfold Reader.receive Reader.recv at hreceive
      simp only [hcheck, hadvance, hread] at hreceive
      have hcontent : ∃ o, content = .obj o := by
        cases hloads : pickle.loads bytes with
        | error e =>
          simp [fitting, hloads] at hfits
        | ok o =>
          simp only [fitting, hloads] at hfits
          exact ⟨o, (Option.some.inj hfits).symm⟩
      obtain ⟨o, rfl⟩ := hcontent
      cases hnil : pickle.loads [] with
      | ok o' => exact absurd hnil (hpickle.loads_nil o')
      | error e =>
        cases e with
        | UnpicklingError =>
          simp only [hnil] at hreceive
          obtain ⟨rfl, -⟩ := Prod.mk.inj (Option.some.inj hreceive)
          intro h
          cases h
        | other => simp [hnil] at hreceive
    | recv_bytes maxlength =>
      obtain ⟨-, hcontent⟩ := Option.ite_none_right_eq_some.mp
        (show (if Reader.within maxlength bytes.length then some (Content.bytes bytes) else none) =
          some content from hfits)
      obtain rfl := Option.some.inj hcontent
      unfold Reader.receive Reader.recv_bytes at hreceive
      simp only [hcheck, hadvance, hread] at hreceive
      obtain ⟨-, hvalue⟩ := Option.ite_none_right_eq_some.mp hreceive
      obtain ⟨rfl, rfl⟩ := Prod.mk.inj (Option.some.inj hvalue)
      intro hbytes
      have hempty : bytes = [] := by
        rw [← Content.bytes.inj hbytes]
        exact hstored _ _
      exact hlong hempty
    | recv_bytes_into buffer offset =>
      obtain ⟨-, hcontent⟩ := Option.ite_none_right_eq_some.mp
        (show (if 0 ≤ offset ∧ (bytes.length : ℤ) + offset ≤ buffer.length then
          some (Content.buffer bytes.length (buffer.take offset.toNat ++ bytes ++
            buffer.drop (offset.toNat + bytes.length))) else none) = some content from hfits)
      obtain rfl := Option.some.inj hcontent
      unfold Reader.receive Reader.recv_bytes_into at hreceive
      simp only [hcheck, hadvance, hread] at hreceive
      obtain ⟨-, hrest⟩ := Option.ite_none_left_eq_some.mp hreceive
      obtain ⟨-, hvalue⟩ := Option.ite_none_left_eq_some.mp hrest
      obtain ⟨rfl, -⟩ := Prod.mk.inj (Option.some.inj hvalue)
      intro hbuffer
      exact hlong (List.length_eq_zero_iff.mp (Content.buffer.inj hbuffer).1.symm)

end pickles

end Connection
