/-
# The writing adapter of a connection (`src/dragon/pydragon_channels.pyx`)

`Peer2PeerWritingChannelFile` cuts what is written into it into the blocks that are sent through a
channel.  A block is chosen from the number of bytes that are still to come, and the memory that is
sent is chosen again, from the number of bytes in it.

Conventions:

* the memory of a kind of block is a function from places to bytes, with anything in the places
  that nothing was written to; a new large or huge block is one more of these;
* the sizes are numbers, as the counters never go below zero;
* the loop over the bytes to be written has as many rounds as there are bytes.
-/
import Mathlib

namespace Connection

/-- The block sizes of an adapter, as it accepts them. -/
structure Options : Type where
  small_blk_size : ℕ
  large_blk_size : ℕ
  huge_blk_size : ℕ
  small_lt_large : small_blk_size < large_blk_size
  large_lt_huge : large_blk_size < huge_blk_size

inductive Blk : Type where
  | small
  | large
  | huge
  deriving DecidableEq

def Options.size (options : Options) : Blk → ℕ
  | .small => options.small_blk_size
  | .large => options.large_blk_size
  | .huge => options.huge_blk_size

structure Writer : Type where
  memory : Blk → ℕ → UInt8
  current_block : Option Blk
  current_block_size : ℕ
  cursor : ℕ
  next_transmit_size : ℕ
  /-- The blocks that went into the channel. -/
  sent : List (List UInt8)

namespace Writer

/-- `open`, with what the memory has in it. -/
def opened (memory : Blk → ℕ → UInt8) : Writer where
  memory := memory
  current_block := none
  current_block_size := 0
  cursor := 0
  next_transmit_size := 0
  sent := []

/-- The memory that `_send_current_block` makes a message of. -/
def sent_blk (options : Options) (cursor : ℕ) : Blk :=
  if cursor ≤ options.small_blk_size then .small
  else if cursor ≤ options.large_blk_size then .large
  else .huge

/-- The first bytes of a memory. -/
def bytes (w : Writer) (blk : Blk) (length : ℕ) : List UInt8 := (List.range length).map (w.memory blk)

/-- `_send_current_block`. -/
def send_current_block (options : Options) (w : Writer) : Writer where
  memory := w.memory
  current_block := none
  current_block_size := 0
  cursor := 0
  next_transmit_size := w.next_transmit_size - w.cursor
  sent := w.sent ++ [w.bytes (sent_blk options w.cursor) w.cursor]

/-- `_get_new_block`. -/
def get_new_block (options : Options) (w : Writer) : Blk :=
  if w.next_transmit_size ≤ options.small_blk_size then .small
  else if w.cursor ≤ options.large_blk_size then .large
  else .huge

/-- `memcpy` to the cursor of a block. -/
def memcpy (memory : Blk → ℕ → UInt8) (blk : Blk) (cursor : ℕ) (data : List UInt8) :
    Blk → ℕ → UInt8 :=
  Function.update memory blk fun place =>
    if cursor ≤ place then (data[place - cursor]?).getD (memory blk place) else memory blk place

/-- One round of the loop of `_write`, in a block: the writer, and the bytes that remain. -/
def fill (options : Options) (w : Writer) (blk : Blk) (size : ℕ) (buf : List UInt8) :
    Writer × List UInt8 :=
  let to_write := min buf.length (size - w.cursor)
  let filled : Writer :=
    { w with
      memory := memcpy w.memory blk w.cursor (buf.take to_write)
      current_block := some blk
      current_block_size := size
      cursor := w.cursor + to_write }
  (if filled.cursor = size then filled.send_current_block options else filled, buf.drop to_write)

/-- The loop of `_write`. -/
def write_loop (options : Options) : ℕ → Writer → List UInt8 → Writer
  | 0, w, _ => w
  | _ + 1, w, [] => w
  | rounds + 1, w, b :: buf =>
    let next :=
      match w.current_block with
      | some blk => w.fill options blk w.current_block_size (b :: buf)
      | none => w.fill options (w.get_new_block options) (options.size (w.get_new_block options))
          (b :: buf)
    write_loop options rounds next.1 next.2

/-- The head of `_write`: a block that the bytes would spill out of is sent first. -/
def spill (options : Options) (w : Writer) (length : ℕ) : Writer :=
  match w.current_block with
  | some _ =>
    if w.current_block_size < w.next_transmit_size + length then
      { w.send_current_block options with next_transmit_size := 0 }
    else w
  | none => w

/-- The adapter with so many more bytes to come. -/
def expect (w : Writer) (length : ℕ) : Writer :=
  { w with next_transmit_size := w.next_transmit_size + length }

/-- `_write`. -/
def write (options : Options) (w : Writer) (buf : List UInt8) : Writer :=
  if buf = [] then w
  else write_loop options buf.length ((w.spill options buf.length).expect buf.length) buf

/-- `flush`, which `close` does. -/
def flush (options : Options) (w : Writer) : Writer :=
  match w.current_block with
  | some _ => w.send_current_block options
  | none => w

end Writer

/-- The blocks of a message, from the opening of the adapter to its closing. -/
def blocks (options : Options) (memory : Blk → ℕ → UInt8) (writes : List (List UInt8)) :
    List (List UInt8) :=
  ((writes.foldl (Writer.write options) (Writer.opened memory)).flush options).sent

/-! ## Between two writes -/

namespace Writer

/-- The blocks that went into the channel, and then the current one. -/
def outgoing (w : Writer) : List (List UInt8) :=
  match w.current_block with
  | some blk => w.sent ++ [w.bytes blk w.cursor]
  | none => w.sent

/-- The writer between two writes: without a block, or with one that has room, and that is the one
which is sent. -/
inductive Ready (options : Options) (w : Writer) : Prop where
  | idle (hblock : w.current_block = none) (hcursor : w.cursor = 0)
      (hnext : w.next_transmit_size = 0)
  | filling {blk : Blk} (hblock : w.current_block = some blk)
      (hsize : w.current_block_size = options.size blk) (hpos : 0 < w.cursor)
      (hlt : w.cursor < options.size blk) (hsent : sent_blk options w.cursor = blk)
      (hnext : w.next_transmit_size = w.cursor)

theorem length_bytes (w : Writer) (blk : Blk) (length : ℕ) : (w.bytes blk length).length = length := by
  simp [bytes]

/-- What is written comes after what was there. -/
theorem map_memcpy (memory : Blk → ℕ → UInt8) (blk : Blk) (cursor : ℕ) (data : List UInt8) :
    (List.range (cursor + data.length)).map (memcpy memory blk cursor data blk) =
      (List.range cursor).map (memory blk) ++ data := by
  apply List.ext_getElem
  · simp
  · intro place hplace _
    rw [List.getElem_map, List.getElem_range]
    unfold memcpy
    rw [Function.update_self]
    simp only [List.length_map, List.length_range] at hplace
    by_cases hle : cursor ≤ place
    · have hlt : place - cursor < data.length := by omega
      rw [if_pos hle, List.getElem_append_right (by simpa using hle), List.getElem?_eq_getElem hlt]
      simp
    · rw [if_neg hle, List.getElem_append_left (by simpa using hle)]
      simp

/-- The bytes fit into a block that stays current. -/
theorem fill_room (options : Options) (w : Writer) (blk : Blk) (size : ℕ) (buf : List UInt8)
    (hroom : w.cursor + buf.length < size) :
    ∃ w', w.fill options blk size buf = (w', []) ∧ w'.current_block = some blk ∧
      w'.current_block_size = size ∧ w'.cursor = w.cursor + buf.length ∧
      w'.outgoing = w.sent ++ [w.bytes blk w.cursor ++ buf] ∧
      w'.next_transmit_size = w.next_transmit_size := by
  have hmin : min buf.length (size - w.cursor) = buf.length := Nat.min_eq_left (by omega)
  unfold fill
  simp only [hmin, List.take_length, List.drop_length, if_neg (Nat.ne_of_lt hroom)]
  exact ⟨_, rfl, rfl, rfl, rfl,
    congrArg (fun bytes => w.sent ++ [bytes]) (map_memcpy w.memory blk w.cursor buf), rfl⟩

theorem fill_full (options : Options) (w : Writer) (blk : Blk) (size : ℕ) (buf : List UInt8)
    (hcursor : w.cursor ≤ size) (hfull : size ≤ w.cursor + buf.length)
    (hsent : sent_blk options size = blk) :
    ∃ w', w.fill options blk size buf = (w', buf.drop (size - w.cursor)) ∧
      w'.current_block = none ∧ w'.cursor = 0 ∧
      w'.sent = w.sent ++ [w.bytes blk w.cursor ++ buf.take (size - w.cursor)] ∧
      w'.next_transmit_size = w.next_transmit_size - size := by
  have hmin : min buf.length (size - w.cursor) = size - w.cursor := Nat.min_eq_right (by omega)
  have hsum : w.cursor + (size - w.cursor) = size := by omega
  have hlength : (buf.take (size - w.cursor)).length = size - w.cursor :=
    List.length_take_of_le (by omega)
  have hdata : (List.range size).map
      (memcpy w.memory blk w.cursor (buf.take (size - w.cursor)) blk) =
        w.bytes blk w.cursor ++ buf.take (size - w.cursor) := by
    have hmap := map_memcpy w.memory blk w.cursor (buf.take (size - w.cursor))
    rw [hlength, hsum] at hmap
    exact hmap
  unfold fill
  simp only [hmin, hsum, if_true]
  refine ⟨_, rfl, rfl, rfl, ?_, rfl⟩
  show w.sent ++ [(List.range size).map
    (memcpy w.memory blk w.cursor (buf.take (size - w.cursor)) (sent_blk options size))] = _
  rw [hsent, hdata]

variable {cursor : ℕ} {options : Options} {blk : Blk} {w : Writer} {buf data : List UInt8}

theorem sent_blk_small (h : cursor ≤ options.small_blk_size) :
    sent_blk options cursor = .small := if_pos h

theorem sent_blk_large (h : options.small_blk_size < cursor) (h' : cursor ≤ options.large_blk_size) :
    sent_blk options cursor = .large := by
  unfold sent_blk
  rw [if_neg (Nat.not_le.mpr h), if_pos h']

/-- A block that is sent for some of its bytes is sent for more of them. -/
theorem sent_blk_mono {cursor' : ℕ} (hsent : sent_blk options cursor = blk) (hle : cursor ≤ cursor')
    (hsize : cursor' ≤ options.size blk) : sent_blk options cursor' = blk := by
  unfold sent_blk at hsent
  split at hsent
  next =>
    subst hsent
    exact sent_blk_small hsize
  next hsmall =>
    split at hsent
    next =>
      subst hsent
      exact sent_blk_large ((Nat.not_le.mp hsmall).trans_le hle) hsize
    next hlarge =>
      subst hsent
      have hlt : options.large_blk_size < cursor' := (Nat.not_le.mp hlarge).trans_le hle
      unfold sent_blk
      rw [if_neg (Nat.not_le.mpr (options.small_lt_large.trans hlt)), if_neg (Nat.not_le.mpr hlt)]

/-- The size of the first block for bytes that are written without a current block. -/
def first_size (options : Options) (length : ℕ) : ℕ :=
  if length ≤ options.small_blk_size then options.small_blk_size else options.large_blk_size

/-- Every block has some bytes, and fits into a large block. -/
def Blocks (options : Options) (blocks : List (List UInt8)) : Prop :=
  ∀ block ∈ blocks, block ≠ [] ∧ block.length ≤ options.large_blk_size

/-- The bytes are cut into new blocks after the ones before, which writing without a current block
does. -/
structure Cut (options : Options) (before : List (List UInt8)) (w' : Writer) (buf : List UInt8) :
    Prop where
  ready : w'.Ready options
  outgoing : ∃ new, w'.outgoing = before ++ new ∧ new.flatten = buf ∧
    Blocks options new ∧ ∀ block ∈ new.head?, block = buf.take (first_size options buf.length)
  stays : buf ≠ [] → buf.length < first_size options buf.length → w'.current_block ≠ none

theorem outgoing_none (hblock : w.current_block = none) : w.outgoing = w.sent := by
  unfold outgoing
  rw [hblock]

theorem outgoing_some (hblock : w.current_block = some blk) :
    w.outgoing = w.sent ++ [w.bytes blk w.cursor] := by
  unfold outgoing
  rw [hblock]

theorem Cut.idle (hblock : w.current_block = none) (hcursor : w.cursor = 0)
    (hnext : w.next_transmit_size = 0) : Cut options w.sent w [] :=
  ⟨.idle hblock hcursor hnext,
    ⟨[], by rw [outgoing_none hblock, List.append_nil], rfl, nofun, nofun⟩,
    fun hbuf => absurd rfl hbuf⟩

theorem get_new_block_fits (options : Options) (w : Writer) (hpos : 0 < w.next_transmit_size)
    (hcursor : w.cursor = 0) :
    options.size (w.get_new_block options) = first_size options w.next_transmit_size ∧
      0 < options.size (w.get_new_block options) ∧
      options.size (w.get_new_block options) ≤ options.large_blk_size ∧
      sent_blk options (min w.next_transmit_size (options.size (w.get_new_block options))) =
        w.get_new_block options := by
  unfold get_new_block first_size
  by_cases hsmall : w.next_transmit_size ≤ options.small_blk_size
  · rw [if_pos hsmall, if_pos hsmall]
    refine ⟨rfl, hpos.trans_le hsmall, options.small_lt_large.le, ?_⟩
    exact sent_blk_small (min_le_right _ _)
  · rw [if_neg hsmall, if_neg hsmall, hcursor, if_pos (Nat.zero_le _)]
    refine ⟨rfl, (Nat.zero_le _).trans_lt options.small_lt_large, le_rfl, ?_⟩
    apply sent_blk_large
    · exact lt_min (Nat.not_le.mp hsmall) options.small_lt_large
    · exact min_le_right _ _

theorem write_loop_idle (options : Options) (rounds : ℕ) :
    ∀ (w : Writer) (buf : List UInt8), buf.length ≤ rounds → w.current_block = none →
      w.cursor = 0 → w.next_transmit_size = buf.length →
      Cut options w.sent (write_loop options rounds w buf) buf := by
  induction rounds with
  | zero =>
    intro w buf hrounds hblock hcursor hnext
    obtain rfl : buf = [] := List.length_eq_zero_iff.mp (Nat.le_zero.mp hrounds)
    exact .idle hblock hcursor hnext
  | succ rounds ih =>
    intro w buf hrounds hblock hcursor hnext
    cases buf with
    | nil => exact .idle hblock hcursor hnext
    | cons b buf =>
      have hloop : write_loop options (rounds + 1) w (b :: buf) =
          write_loop options rounds
            (w.fill options (w.get_new_block options) (options.size (w.get_new_block options))
              (b :: buf)).1
            (w.fill options (w.get_new_block options) (options.size (w.get_new_block options))
              (b :: buf)).2 := by
        rw [write_loop, hblock]
      rw [hloop]
      have hpos : 0 < (b :: buf).length := Nat.succ_pos _
      generalize b :: buf = data at *
      obtain ⟨hsize, hpos', hlarge, hsent⟩ :=
        get_new_block_fits options w (hnext ▸ hpos) hcursor
      generalize w.get_new_block options = blk at *
      rw [hnext] at hsize hsent
      have hbytes : w.bytes blk w.cursor = [] := by
        rw [hcursor]
        rfl
      by_cases hroom : data.length < options.size blk
      · -- the bytes end in this block, which stays current
        obtain ⟨w', hfill, hblock', hsize', hcursor', houtgoing, hnext'⟩ :=
          fill_room options w blk (options.size blk) data (by omega)
        rw [hcursor, Nat.zero_add] at hcursor'
        rw [Nat.min_eq_left hroom.le] at hsent
        rw [hbytes] at houtgoing
        have hdone : write_loop options rounds w' [] = w' := by
          cases rounds <;> rfl
        rw [hfill, hdone]
        refine ⟨?_, ⟨[data], houtgoing, List.flatten_singleton, ?_, ?_⟩,
          fun _ _ => hblock' ▸ Option.some_ne_none blk⟩
        · refine .filling hblock' hsize' ?_ ?_ ?_ ?_
          · rw [hcursor']
            exact hpos
          · rw [hcursor']
            exact hroom
          · rw [hcursor']
            exact hsent
          · rw [hnext', hnext, hcursor']
        · intro block hmem
          obtain rfl := List.mem_singleton.mp hmem
          exact ⟨List.ne_nil_of_length_pos hpos, hroom.le.trans hlarge⟩
        · intro block hhead
          obtain rfl : data = block := by simpa using hhead
          exact (List.take_of_length_le (hsize ▸ hroom.le)).symm
      · -- the block is sent, and the rest goes to new ones
        have hle : options.size blk ≤ data.length := Nat.not_lt.mp hroom
        rw [Nat.min_eq_right hle] at hsent
        obtain ⟨w', hfill, hblock', hcursor', hsent', hnext'⟩ :=
          fill_full options w blk (options.size blk) data (by omega) (by omega) hsent
        rw [hbytes, List.nil_append, hcursor, Nat.sub_zero] at hsent'
        rw [hcursor, Nat.sub_zero] at hfill
        rw [hfill]
        have hrest := ih w' (data.drop (options.size blk))
          (by rw [List.length_drop]; omega) hblock' hcursor'
          (by rw [hnext', hnext, List.length_drop])
        obtain ⟨new, hnew, hflatten, hblocks, -⟩ := hrest.outgoing
        have hlength : (data.take (options.size blk)).length = options.size blk :=
          List.length_take_of_le hle
        refine ⟨hrest.ready, ⟨data.take (options.size blk) :: new, ?_, ?_, ?_, ?_⟩,
          fun _ hroom => absurd hroom (hsize ▸ Nat.not_lt.mpr hle)⟩
        · rw [hnew, hsent', List.append_assoc]
          rfl
        · rw [List.flatten_cons, hflatten]
          exact List.take_append_drop _ _
        · intro block hmem
          rcases List.mem_cons.mp hmem with rfl | hmem
          · exact ⟨List.ne_nil_of_length_pos (hpos'.trans_eq hlength.symm),
              hlength.trans_le hlarge⟩
          · exact hblocks block hmem
        · intro block hhead
          obtain rfl : data.take (options.size blk) = block := by simpa using hhead
          rw [hsize]

/-- What a call to `_write` did: the bytes were cut into new blocks, or they went into the current
one. -/
inductive Wrote (options : Options) (w w' : Writer) (buf : List UInt8) : Prop where
  | cut (h : Cut options w.outgoing w' buf)
      (hspill : ∀ blk, w.current_block = some blk → buf ≠ [] →
        options.size blk < w.cursor + buf.length)
  | filled {blk : Blk} (hready : w'.Ready options) (hblock : w.current_block = some blk)
      (hroom : w.cursor + buf.length ≤ options.size blk)
      (houtgoing : w'.outgoing = w.sent ++ [w.bytes blk w.cursor ++ buf])

theorem spill_none (hblock : w.current_block = none) (length : ℕ) : w.spill options length = w := by
  unfold spill
  rw [hblock]

theorem spill_sends {length : ℕ} (hblock : w.current_block = some blk)
    (hspill : w.current_block_size < w.next_transmit_size + length) :
    w.spill options length = { w.send_current_block options with next_transmit_size := 0 } := by
  unfold spill
  rw [hblock]
  exact if_pos hspill

theorem spill_room {length : ℕ} (hroom : w.next_transmit_size + length ≤ w.current_block_size) :
    w.spill options length = w := by
  unfold spill
  split
  · exact if_neg (Nat.not_lt.mpr hroom)
  · rfl

theorem write_loop_some (hbuf : buf ≠ []) (hblock : w.current_block = some blk)
    (hsize : w.current_block_size = options.size blk) :
    write_loop options buf.length w buf =
      write_loop options (buf.length - 1) (w.fill options blk (options.size blk) buf).1
        (w.fill options blk (options.size blk) buf).2 := by
  obtain ⟨b, rest, rfl⟩ := List.exists_cons_of_ne_nil hbuf
  rw [List.length_cons, write_loop, hblock, hsize, Nat.add_sub_cancel]

theorem write_loop_nil (options : Options) (rounds : ℕ) (w : Writer) :
    write_loop options rounds w [] = w := by
  cases rounds <;> rfl

theorem write_wrote (hready : w.Ready options) (buf : List UInt8) :
    Wrote options w (w.write options buf) buf := by
  by_cases hbuf : buf = []
  · have hsame : w.write options buf = w := if_pos hbuf
    rw [hsame, hbuf]
    exact .cut ⟨hready, ⟨[], (List.append_nil _).symm, rfl, nofun, nofun⟩,
      fun hnil => absurd rfl hnil⟩ fun _ _ hnil => absurd rfl hnil
  · have hpos : 0 < buf.length := List.length_pos_iff.mpr hbuf
    have hwrite : w.write options buf = write_loop options buf.length
        ((w.spill options buf.length).expect buf.length) buf := if_neg hbuf
    rw [hwrite]
    cases hready with
    | idle hblock hcursor hnext =>
      rw [spill_none hblock]
      refine .cut ?_ fun _ hsome => absurd (hblock.symm.trans hsome) (Option.some_ne_none _).symm
      rw [outgoing_none hblock]
      refine write_loop_idle options buf.length (w.expect buf.length) buf le_rfl hblock hcursor ?_
      show w.next_transmit_size + buf.length = buf.length
      rw [hnext, Nat.zero_add]
    | @filling blk hblock hsize hpos' hlt hsent hnext =>
      by_cases hspill : w.current_block_size < w.next_transmit_size + buf.length
      · -- the block is cut first
        rw [spill_sends hblock hspill]
        rw [hsize, hnext] at hspill
        refine .cut ?_ fun _ hsome _ => (Option.some.inj (hblock.symm.trans hsome)) ▸ hspill
        have hbefore : (w.send_current_block options).sent = w.outgoing := by
          rw [outgoing_some hblock]
          show w.sent ++ [w.bytes (sent_blk options w.cursor) w.cursor] = _
          rw [hsent]
        rw [← hbefore]
        exact write_loop_idle options buf.length
          ({ w.send_current_block options with next_transmit_size := 0 }.expect buf.length) buf
          le_rfl rfl rfl (Nat.zero_add _)
      · -- one round, in the current block
        have hroom : w.next_transmit_size + buf.length ≤ w.current_block_size :=
          Nat.not_lt.mp hspill
        rw [spill_room hroom]
        rw [hnext, hsize] at hroom
        rw [write_loop_some (w := w.expect buf.length) hbuf hblock hsize]
        rcases hroom.lt_or_eq with hlt' | hfull
        · obtain ⟨w', hfill, hblock', hsize', hcursor', houtgoing, hnext'⟩ :=
            fill_room options (w.expect buf.length) blk (options.size blk) buf hlt'
          have hcursor'' : w'.cursor = w.cursor + buf.length := hcursor'
          rw [hfill, write_loop_nil]
          refine .filled ?_ hblock hroom houtgoing
          refine .filling hblock' hsize' ?_ ?_ ?_ ?_
          · rw [hcursor'']
            exact Nat.lt_add_right _ hpos'
          · rw [hcursor'']
            exact hlt'
          · rw [hcursor'']
            exact sent_blk_mono hsent (Nat.le_add_right _ _) hlt'.le
          · rw [hnext', hcursor'', ← hnext]
            rfl
        · obtain ⟨w', hfill, hblock', hcursor', hsent', hnext'⟩ :=
            fill_full options (w.expect buf.length) blk (options.size blk) buf hlt.le hfull.ge
              (sent_blk_mono hsent hlt.le le_rfl)
          have hall : options.size blk - (w.expect buf.length).cursor = buf.length := by
            show options.size blk - w.cursor = buf.length
            omega
          rw [hall, List.drop_length] at hfill
          rw [hall, List.take_length] at hsent'
          rw [hfill, write_loop_nil]
          refine .filled ?_ hblock hroom ?_
          · refine .idle hblock' hcursor' ?_
            rw [hnext', ← hfull, ← hnext]
            exact Nat.sub_self _
          · rw [outgoing_none hblock']
            exact hsent'

theorem Wrote.ready {w' : Writer} (h : Wrote options w w' buf) : w'.Ready options := by
  cases h with
  | cut h => exact h.ready
  | filled hready => exact hready

/-! ## A whole message -/

theorem flush_sent (hready : w.Ready options) : (w.flush options).sent = w.outgoing := by
  unfold flush
  cases hready with
  | idle hblock =>
    rw [hblock, outgoing_none hblock]
  | filling hblock _ _ _ hsent =>
    rw [hblock, outgoing_some hblock]
    show w.sent ++ [w.bytes (sent_blk options w.cursor) w.cursor] = _
    rw [hsent]

/-- The blocks that are on their way have the bytes that were written. -/
structure Written (options : Options) (data : List UInt8) (w : Writer) : Prop where
  ready : w.Ready options
  flatten : w.outgoing.flatten = data
  blocks : Blocks options w.outgoing

theorem Blocks.append {xs ys : List (List UInt8)} (hxs : Blocks options xs)
    (hys : Blocks options ys) : Blocks options (xs ++ ys) := by
  intro block hmem
  rcases List.mem_append.mp hmem with hmem | hmem
  · exact hxs block hmem
  · exact hys block hmem

theorem Written.opened (options : Options) (memory : Blk → ℕ → UInt8) :
    Written options [] (opened memory) :=
  ⟨.idle rfl rfl rfl, rfl, nofun⟩

/-- A block that is in use has the size of a first block. -/
theorem size_sent_blk (hlarge : cursor ≤ options.large_blk_size) :
    options.size (sent_blk options cursor) = first_size options cursor := by
  unfold sent_blk first_size
  by_cases hsmall : cursor ≤ options.small_blk_size
  · rw [if_pos hsmall, if_pos hsmall]
    rfl
  · rw [if_neg hsmall, if_neg hsmall, if_pos hlarge]
    rfl

theorem first_size_le (options : Options) (length : ℕ) :
    first_size options length ≤ options.large_blk_size := by
  unfold first_size
  split
  · exact options.small_lt_large.le
  · exact le_rfl

theorem Written.write (h : Written options data w) (buf : List UInt8) :
    Written options (data ++ buf) (w.write options buf) := by
  have hwrote := write_wrote h.ready buf
  refine ⟨hwrote.ready, ?_, ?_⟩
  · rw [← h.flatten]
    cases hwrote with
    | cut hcut =>
      obtain ⟨new, hnew, hflatten, -, -⟩ := hcut.outgoing
      rw [hnew, List.flatten_append, hflatten]
    | filled _ hblock _ houtgoing =>
      rw [houtgoing, outgoing_some hblock]
      simp
  · cases hwrote with
    | cut hcut =>
      obtain ⟨new, hnew, -, hblocks, -⟩ := hcut.outgoing
      rw [hnew]
      exact h.blocks.append hblocks
    | @filled blk _ hblock hroom houtgoing =>
      have hblocks := h.blocks
      rw [outgoing_some hblock] at hblocks
      obtain ⟨hne, hle⟩ := hblocks _ (List.mem_append_right _ (List.mem_singleton_self _))
      rw [length_bytes] at hle
      rw [houtgoing]
      refine Blocks.append (fun block hmem => hblocks block (List.mem_append_left _ hmem)) ?_
      intro block hmem
      obtain rfl := List.mem_singleton.mp hmem
      refine ⟨List.append_ne_nil_of_left_ne_nil hne _, ?_⟩
      rw [List.length_append, length_bytes]
      cases h.ready with
      | idle hblock' => exact absurd (hblock.symm.trans hblock') (Option.some_ne_none _)
      | filling hblock' _ _ _ hsent =>
        obtain rfl := Option.some.inj (hblock.symm.trans hblock')
        rw [← hsent, size_sent_blk hle] at hroom
        exact hroom.trans (first_size_le options w.cursor)

theorem Written.writes (writes : List (List UInt8)) :
    ∀ {data : List UInt8} {w : Writer}, Written options data w →
      Written options (data ++ writes.flatten) (writes.foldl (Writer.write options) w) := by
  induction writes with
  | nil =>
    intro data w h
    rw [List.flatten_nil, List.append_nil]
    exact h
  | cons buf writes ih =>
    intro data w h
    rw [List.flatten_cons, ← List.append_assoc]
    exact ih (h.write buf)

/-- The first block may get more bytes. -/
theorem Wrote.head {w' : Writer} (h : Wrote options w w' buf)
    (hhead : ∃ block rest, w.outgoing = block :: rest ∧ data <+: block) :
    ∃ block rest, w'.outgoing = block :: rest ∧ data <+: block := by
  obtain ⟨block, rest, hout, hdata⟩ := hhead
  cases h with
  | cut hcut =>
    obtain ⟨new, hnew, -⟩ := hcut.outgoing
    exact ⟨block, rest ++ new, by rw [hnew, hout]; rfl, hdata⟩
  | @filled blk _ hblock _ houtgoing =>
    rw [outgoing_some hblock] at hout
    rw [houtgoing]
    cases hsent : w.sent with
    | nil =>
      rw [hsent] at hout
      obtain ⟨rfl, -⟩ := List.cons.inj hout
      exact ⟨_, [], rfl, hdata.trans (List.prefix_append _ _)⟩
    | cons block' sent =>
      rw [hsent] at hout
      obtain ⟨rfl, -⟩ := List.cons.inj hout
      exact ⟨block', _, rfl, hdata⟩

theorem head_writes (writes : List (List UInt8)) :
    ∀ {w : Writer}, w.Ready options →
      (∃ block rest, w.outgoing = block :: rest ∧ data <+: block) →
      ∃ block rest, (writes.foldl (Writer.write options) w).outgoing = block :: rest ∧
        data <+: block := by
  induction writes with
  | nil =>
    intro w _ hhead
    exact hhead
  | cons buf writes ih =>
    intro w hready hhead
    exact ih (write_wrote hready buf).ready ((write_wrote hready buf).head hhead)

/-- What is written first, without a current block, is cut into the first blocks. -/
theorem write_opened (options : Options) (memory : Blk → ℕ → UInt8) (first : List UInt8) :
    Cut options [] ((opened memory).write options first) first := by
  cases write_wrote (Written.opened options memory).ready first with
  | cut hcut => exact hcut
  | filled _ hblock => exact absurd hblock (Option.some_ne_none _).symm

end Writer

open Writer

variable (options : Options) (memory : Blk → ℕ → UInt8)

theorem written_blocks (writes : List (List UInt8)) :
    Written options writes.flatten (writes.foldl (Writer.write options) (opened memory)) :=
  (Written.opened options memory).writes writes

/-- The blocks are the bytes of the message, cut. -/
theorem blocks_flatten (writes : List (List UInt8)) :
    (blocks options memory writes).flatten = writes.flatten := by
  unfold blocks
  rw [flush_sent (written_blocks options memory writes).ready]
  exact (written_blocks options memory writes).flatten

theorem blocks_bound (writes : List (List UInt8)) :
    Blocks options (blocks options memory writes) := by
  unfold blocks
  rw [flush_sent (written_blocks options memory writes).ready]
  exact (written_blocks options memory writes).blocks

/-- The first block begins with what was written first, as far as a large block takes it. -/
theorem blocks_head {first : List UInt8} (hfirst : first ≠ []) (writes : List (List UInt8)) :
    ∃ block rest, blocks options memory (first :: writes) = block :: rest ∧
      first.take options.large_blk_size <+: block := by
  unfold blocks
  rw [flush_sent (written_blocks options memory (first :: writes)).ready]
  have hcut := write_opened options memory first
  refine head_writes writes hcut.ready ?_
  obtain ⟨new, hnew, hflatten, -, hhead⟩ := hcut.outgoing
  cases new with
  | nil => exact absurd hflatten.symm hfirst
  | cons block rest =>
    refine ⟨block, rest, hnew, ?_⟩
    rw [hhead block rfl]
    unfold first_size
    split
    next hsmall =>
      rw [List.take_of_length_le hsmall,
        List.take_of_length_le (hsmall.trans options.small_lt_large.le)]
    next => exact List.prefix_refl _

/-- The header goes into the first block whole. -/
theorem outgoing_header {header : List UInt8} (hheader : header ≠ [])
    (hlarge : header.length ≤ options.large_blk_size) :
    ((opened memory).write options header).outgoing = [header] := by
  have hcut := write_opened options memory header
  obtain ⟨new, hnew, hflatten, hblocks, hhead⟩ := hcut.outgoing
  rw [hnew]
  cases new with
  | nil => exact absurd hflatten.symm hheader
  | cons block rest =>
    have hblock : block = header := by
      rw [hhead block rfl]
      apply List.take_of_length_le
      unfold first_size
      split
      · assumption
      · exact hlarge
    subst hblock
    have hrest : rest.flatten = [] := by simpa using hflatten
    cases rest with
    | nil => rfl
    | cons block' rest =>
      have hnil : block' = [] := (List.append_eq_nil_iff.mp hrest).1
      exact absurd hnil (hblocks block' (List.mem_cons_of_mem _ List.mem_cons_self)).1

/-- The bytes after a header go into its block when there is room, and else into new ones. -/
theorem blocks_header {header : List UInt8} (hheader : header ≠ [])
    (hlarge : header.length ≤ options.large_blk_size) (buf : List UInt8) :
    (header.length + buf.length ≤ first_size options header.length ∧
        blocks options memory [header, buf] = [header ++ buf]) ∨
      (first_size options header.length < header.length + buf.length ∧
        ∃ rest, blocks options memory [header, buf] = header :: rest) := by
  have hall : blocks options memory [header, buf] =
      (((opened memory).write options header).write options buf).outgoing := by
    unfold blocks
    rw [flush_sent (written_blocks options memory [header, buf]).ready]
    rfl
  have hcut := write_opened options memory header
  have hout := outgoing_header options memory hheader hlarge
  have hready := hcut.ready
  have hstays := hcut.stays hheader
  rw [hall]
  generalize (opened memory).write options header = w at *
  -- the block of the header, when it is still there
  have hcurrent : ∀ blk, w.current_block = some blk →
      w.sent = [] ∧ w.bytes blk w.cursor = header ∧ w.cursor = header.length ∧
        options.size blk = first_size options header.length := by
    intro blk hblock
    rw [outgoing_some hblock] at hout
    obtain ⟨hsent, hbytes⟩ := List.append_eq_singleton_iff.mp hout |>.resolve_right nofun
    have hbytes := List.singleton_inj.mp hbytes
    have hcursor : w.cursor = header.length := by
      rw [← hbytes, length_bytes]
    refine ⟨hsent, hbytes, hcursor, ?_⟩
    cases hready with
    | idle hnone => exact absurd (hnone.symm.trans hblock) (Option.some_ne_none _).symm
    | filling hblock' _ _ _ hblk =>
      obtain rfl := Option.some.inj (hblock.symm.trans hblock')
      rw [hcursor] at hblk
      rw [← hblk]
      exact size_sent_blk hlarge
  by_cases hbuf : buf = []
  · subst hbuf
    have hsame : w.write options [] = w := if_pos rfl
    rw [hsame, hout, List.append_nil]
    refine .inl ⟨?_, rfl⟩
    unfold first_size
    split
    · assumption
    · exact hlarge
  · cases write_wrote hready buf with
    | cut hcut' hspill =>
      obtain ⟨new, hnew, -⟩ := hcut'.outgoing
      rw [hnew, hout]
      refine .inr ⟨?_, new, rfl⟩
      cases hblock : w.current_block with
      | none =>
        have hfull : first_size options header.length ≤ header.length :=
          Nat.not_lt.mp fun hlt => hstays hlt hblock
        have hpos : 0 < buf.length := List.length_pos_iff.mpr hbuf
        omega
      | some blk =>
        obtain ⟨-, -, hcursor, hsize⟩ := hcurrent blk hblock
        rw [← hsize, ← hcursor]
        exact hspill blk hblock hbuf
    | @filled blk _ hblock hroom houtgoing =>
      obtain ⟨hsent, hbytes, hcursor, hsize⟩ := hcurrent blk hblock
      rw [houtgoing, hsent, hbytes]
      refine .inl ⟨?_, rfl⟩
      rw [← hsize, ← hcursor]
      exact hroom

end Connection
