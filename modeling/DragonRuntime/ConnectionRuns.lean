/-
# The runs of a connection

After every call the channel has the blocks of the messages that are not received yet, and the
values that the receives gave are what they are to be (`InStep`).  A call keeps that, when it is
unharmed (`InStep.step`); one that is not loses its message or changes an earlier value
(`InStep.harmed`).
-/
import DragonRuntime.ConnectionDelivery

namespace Connection

open ConnMsgHeader

variable {Obj : Type} {options : Options} {pickle : Pickle Obj}

/-- The blocks of a message. -/
inductive Sent (options : Options) (pickle : Pickle Obj) :
    Message Obj → List (List UInt8) → Prop where
  | obj (o : Obj) (memory : Blk → ℕ → UInt8) :
      Sent options pickle (.obj o) (blocks options memory (pickle.dump o))
  | bytes {bytes header : List UInt8} (memory : Blk → ℕ → UInt8)
      (hmake : make bytes.length = some header) :
      Sent options pickle (.bytes bytes) (blocks options memory [header, bytes])

structure InStep (options : Options) (pickle : Pickle Obj) (ends : Ends Obj)
    (purpose : Purpose Obj) : Prop where
  queue : ∃ sent, List.Forall₂ (Sent options pickle) purpose.waiting sent ∧
    ends.reader.queue = sent.flatten
  current : ends.reader.current_block = none
  contents : ends.contents = purpose.contents
  held : ∀ buf, Value.bytearray buf ∈ ends.held → buf < ends.reader.bytearrays.length
  side_buf : ∀ buf, ends.reader.side_buf = some buf → Value.bytearray buf ∈ ends.held
  leaves : purpose.side_buf = ends.reader.side_buf.isSome

theorem InStep.opened : InStep options pickle Ends.opened ⟨[], [], false⟩ where
  queue := ⟨[], .nil, rfl⟩
  current := rfl
  contents := rfl
  held := nofun
  side_buf := nofun
  leaves := rfl

/-! ## The values of earlier receives -/

theorem contents_append {held : List (Value Obj)} {bytearrays : List (List UInt8)}
    (hheld : ∀ buf, Value.bytearray buf ∈ held → buf < bytearrays.length)
    (fresh : List (List UInt8)) :
    held.map (Value.content (bytearrays ++ fresh)) = held.map (Value.content bytearrays) := by
  apply List.map_congr_left
  intro value hmem
  cases value with
  | obj => rfl
  | bytearray buf =>
    show Content.bytes ((bytearrays ++ fresh)[buf]?.getD []) = _
    rw [List.getElem?_append_left (hheld buf hmem)]
    rfl
  | buffer => rfl

variable {added : List UInt8} {ends : Ends Obj} {message : Message Obj} {event : Event Obj}

/-- Nothing is added without a side buffer, or without bytes. -/
theorem bytearrays_kept {r : Reader} (hkept : r.side_buf.isSome = true → added = []) :
    (r.extend_side_buf added).bytearrays = r.bytearrays := by
  cases hside : r.side_buf with
  | none =>
    unfold Reader.extend_side_buf
    rw [hside]
  | some buf =>
    rw [hkept (hside ▸ rfl)]
    exact (Reader.Reads.refl r).bytearrays.symm

theorem contents_changed {held : List (Value Obj)} {r : Reader} {buf : ℕ}
    (hside : r.side_buf = some buf) (hmem : Value.bytearray buf ∈ held)
    (hlt : buf < r.bytearrays.length) (hadded : added ≠ []) (fresh : List (List UInt8)) :
    held.map (Value.content ((r.extend_side_buf added).bytearrays ++ fresh)) ≠
      held.map (Value.content r.bytearrays) := by
  intro hsame
  have hvalue : Value.content ((r.extend_side_buf added).bytearrays ++ fresh)
      (.bytearray buf : Value Obj) = Value.content r.bytearrays (.bytearray buf) :=
    List.map_inj_left.mp hsame _ hmem
  have hbytes : ((r.extend_side_buf added).bytearrays ++ fresh)[buf]?.getD [] =
      r.bytearrays[buf]?.getD [] := Content.bytes.inj hvalue
  have hlt' : buf < (r.extend_side_buf added).bytearrays.length := by
    rw [length_extend_side_buf]
    exact hlt
  rw [List.getElem?_append_left hlt'] at hbytes
  unfold Reader.extend_side_buf at hbytes
  rw [hside] at hbytes
  simp only [List.getElem?_modify_eq, List.getElem?_eq_getElem hlt, Option.getD_some] at hbytes
  exact hadded (List.append_right_eq_self.mp hbytes)

/-! ## One call -/

theorem InStep.send {purpose : Purpose Obj} (h : InStep options pickle ends purpose)
    {writes : List (List UInt8)} {memory : Memory}
    (hsent : Sent options pickle message (blocks options memory.writing writes)) :
    InStep options pickle (ends.transmit options memory writes)
      { purpose with waiting := purpose.waiting ++ [message] } := by
  obtain ⟨sent, hall, hqueue⟩ := h.queue
  refine ⟨⟨sent ++ [blocks options memory.writing writes],
    List.rel_append hall (.cons hsent .nil), ?_⟩, h.current, h.contents, h.held, h.side_buf,
    h.leaves⟩
  show ends.reader.queue ++ _ = _
  rw [hqueue, List.flatten_append, List.flatten_singleton]

/-- A receive that adds nothing to a side buffer. -/
theorem InStep.yield {purpose : Purpose Obj} (h : InStep options pickle ends purpose)
    {waiting : List (Message Obj)} {sent : List (List (List UInt8))}
    (hall : List.Forall₂ (Sent options pickle) waiting sent) {value : Value Obj} {r' : Reader}
    {content : Content Obj} {leaves : Bool}
    (hyielded : Yielded ends.reader r' value content added sent.flatten leaves)
    (hkept : purpose.side_buf = true → added = []) :
    InStep options pickle ⟨r', ends.held ++ [value]⟩
      ⟨waiting, purpose.contents ++ [content], purpose.side_buf || leaves⟩ := by
  obtain ⟨fresh, hfresh⟩ := hyielded.bytearrays
  rw [bytearrays_kept (h.leaves ▸ hkept)] at hfresh
  have hlength : ends.reader.bytearrays.length ≤ r'.bytearrays.length := by
    rw [hfresh, List.length_append]
    exact Nat.le_add_right _ _
  refine ⟨⟨sent, hall, hyielded.queue⟩, hyielded.current, ?_, ?_, ?_, ?_⟩
  · show (ends.held ++ [value]).map (Value.content r'.bytearrays) = _
    rw [List.map_append, List.map_singleton, hyielded.content, hfresh, contents_append h.held,
      ← h.contents]
    rfl
  · intro buf hmem
    rcases List.mem_append.mp hmem with hmem | hmem
    · exact (h.held buf hmem).trans_le hlength
    · exact hyielded.lt buf (List.mem_singleton.mp hmem).symm
  · intro buf hside
    cases leaves with
    | false =>
      rw [hyielded.kept rfl] at hside
      exact List.mem_append_left _ (h.side_buf buf hside)
    | true =>
      obtain ⟨buf', hvalue, hside'⟩ := hyielded.left rfl
      obtain rfl := Option.some.inj (hside.symm.trans hside')
      exact List.mem_append_right _ (List.mem_singleton.mpr hvalue.symm)
  · show (purpose.side_buf || leaves) = r'.side_buf.isSome
    cases leaves with
    | false => rw [hyielded.kept rfl, Bool.or_false, h.leaves]
    | true =>
      obtain ⟨buf', -, hside'⟩ := hyielded.left rfl
      rw [hside', Bool.or_true]
      rfl

/-- The receives of a message, when its kind is recognised. -/
theorem receive_yielded (hpickle : pickle.Faithful) {purpose : Purpose Obj}
    (h : InStep options pickle ends purpose) {sent : List (List UInt8)} {later : List (List UInt8)}
    (hsent : Sent options pickle message sent) (hqueue : ends.reader.queue = sent ++ later)
    {receive : Receive} {content : Content Obj}
    (hfits : fitting pickle message receive = some content) (behind : ℕ → UInt8)
    (hlarge : match message with
      | .obj _ => 2 ≤ options.large_blk_size
      | .bytes bytes => RAW_HDR_SZ ≤ options.large_blk_size ∧
          (bytes.length = MAX_RAW_BYTE_LEN →
            RAW_HDR_SZ + bytes.length ≤ Writer.first_size options RAW_HDR_SZ)) :
    ∃ value r' added, ends.reader.receive pickle behind receive = some (value, r') ∧
      Yielded ends.reader r' value content added later (leaves_side_buf message receive) ∧
      (added = [] ↔ match message with
        | .obj _ => leaves_side_buf message receive = true
        | .bytes bytes => bytes = []) := by
  cases hsent with
  | obj o =>
    obtain ⟨value, r', hreceive, hyielded⟩ :=
      yielded_obj hpickle hlarge h.current hqueue hfits behind
    refine ⟨value, r', _, hreceive, hyielded, ?_⟩
    have hne : pickle.bytes o ≠ [] := by
      obtain ⟨first, rest, hdump, tail, rfl⟩ := hpickle.dump_head o
      unfold Pickle.bytes
      rw [hdump]
      exact nofun
    split
    next hleaves => exact iff_of_true rfl hleaves
    next hleaves => exact iff_of_false hne hleaves
  | @bytes bytes header memory hmake =>
    have hlt : ∀ buf, ends.reader.side_buf = some buf → buf < ends.reader.bytearrays.length :=
      fun buf hside => h.held buf (h.side_buf buf hside)
    obtain ⟨value, r', hreceive, hyielded⟩ :=
      yielded_bytes hmake hlarge.1 hlarge.2 hlt h.current hqueue hfits behind
    exact ⟨value, r', bytes, hreceive, hyielded, Iff.rfl⟩

/-- Before a receive that fits: the message, its blocks and the ones after them. -/
theorem InStep.next {purpose : Purpose Obj} (h : InStep options pickle ends purpose)
    {waiting : List (Message Obj)} (hwaiting : purpose.waiting = message :: waiting) :
    ∃ sent later, Sent options pickle message sent ∧
      List.Forall₂ (Sent options pickle) waiting later ∧
      ends.reader.queue = sent ++ later.flatten := by
  obtain ⟨sent, hall, hqueue⟩ := h.queue
  rw [hwaiting] at hall
  obtain ⟨blocks, later, hsent, hlater, rfl⟩ := List.forall₂_cons_left_iff.mp hall
  exact ⟨blocks, later, hsent, hlater, hqueue⟩

theorem InStep.step (hpickle : pickle.Faithful) {purpose : Purpose Obj}
    (h : InStep options pickle ends purpose) (hfits : Fits pickle purpose event)
    (hunharmed : Unharmed options purpose event) (memory : Memory) :
    ∃ ends', ends.step options pickle memory event = some ends' ∧
      InStep options pickle ends' (purpose.step pickle event) := by
  cases event with
  | send o => exact ⟨_, rfl, h.send (.obj o memory.writing)⟩
  | send_bytes buffer offset size =>
    have hsame : InStep options pickle ends { purpose with waiting := purpose.waiting ++ [] } := by
      rw [List.append_nil]
      exact h
    simp only [Ends.step, Purpose.step, Event.message]
    cases hslice : slice buffer offset size with
    | none => exact ⟨ends, rfl, hsame⟩
    | some bytes =>
      by_cases hle : bytes.length ≤ MAX_RAW_BYTE_LEN
      · obtain ⟨header, hmake⟩ : ∃ header, make bytes.length = some header :=
          ⟨_, if_neg (Nat.not_lt.mpr hle)⟩
        simp only [hmake, if_pos hle]
        exact ⟨_, rfl, h.send (.bytes memory.writing hmake)⟩
      · have hmake : make bytes.length = none := if_pos (Nat.not_le.mp hle)
        simp only [hmake, if_neg hle]
        exact ⟨ends, rfl, hsame⟩
  | receive receive =>
    obtain ⟨message, waiting, content, hwaiting, hcontent⟩ := hfits receive rfl
    obtain ⟨sent, later, hsent, hlater, hqueue⟩ := h.next hwaiting
    have hmeets := hunharmed receive rfl message (by rw [hwaiting]; rfl)
    obtain ⟨value, r', added, hreceive, hyielded, hadded⟩ :=
      receive_yielded hpickle h hsent hqueue hcontent memory.behind (by
        cases message with
        | obj => exact hmeets.1
        | bytes => exact ⟨hmeets.1, hmeets.2.1⟩)
    unfold Ends.step Purpose.step
    simp only [hreceive, hwaiting, hcontent]
    refine ⟨_, rfl, h.yield hlater hyielded ?_⟩
    intro hside
    rw [hadded]
    cases message with
    | obj => exact hmeets.2 hside
    | bytes => exact hmeets.2.2 hside

/-- A receive that is not unharmed, with zeros behind the blocks. -/
theorem InStep.harmed (hpickle : pickle.Faithful) {ends' : Ends Obj} {purpose : Purpose Obj}
    (h : InStep options pickle ends purpose) (hfits : Fits pickle purpose event)
    (hharmed : ¬ Unharmed options purpose event) {memory : Memory}
    (hmemory : memory.behind = fun _ => 0)
    (hstep : ends.step options pickle memory event = some ends') :
    ends'.contents ≠ (purpose.step pickle event).contents := by
  unfold Unharmed at hharmed
  push Not at hharmed
  obtain ⟨receive, rfl, message, hhead, hmeets⟩ := hharmed
  obtain ⟨message', waiting, content, hwaiting, hcontent⟩ := hfits receive rfl
  obtain rfl : message = message' := by
    rw [hwaiting] at hhead
    exact (Option.some.inj hhead).symm
  obtain ⟨sent, later, hsent, hlater, hqueue⟩ := h.next hwaiting
  -- the next message is recognised, unless a block is too small for it
  have hdistinct : ∀ {value : Value Obj} {r' : Reader} {added : List UInt8} {leaves : Bool},
      ends.reader.receive pickle memory.behind receive = some (value, r') →
      Yielded ends.reader r' value content added later.flatten leaves →
      purpose.side_buf = true → added ≠ [] →
      ends'.contents ≠ (purpose.step pickle (.receive receive)).contents := by
    intro value r' added leaves hreceive hyielded hside hadded
    simp only [Ends.step, hreceive] at hstep
    obtain rfl := Option.some.inj hstep
    rw [h.leaves] at hside
    obtain ⟨buf, hbuf⟩ := Option.isSome_iff_exists.mp hside
    have hmem := h.side_buf buf hbuf
    obtain ⟨fresh, hfresh⟩ := hyielded.bytearrays
    have hchanged := contents_changed hbuf hmem (h.held buf hmem) hadded fresh
    simp only [Purpose.step, hwaiting, hcontent]
    intro hsame
    have hall : (ends.held ++ [value]).map (Value.content r'.bytearrays) =
        purpose.contents ++ [content] := hsame
    rw [List.map_append, List.map_singleton] at hall
    obtain ⟨hearlier, -⟩ := List.append_inj' hall rfl
    rw [hfresh, ← h.contents] at hearlier
    exact hchanged hearlier
  have hnone : ends.reader.receive pickle memory.behind receive ≠ none := by
    intro hnone
    simp only [Ends.step, hnone] at hstep
    exact absurd hstep nofun
  cases message with
  | obj o =>
    by_cases hlarge : 2 ≤ options.large_blk_size
    · obtain ⟨hside, hleaves⟩ := Classical.not_imp.mp fun hall => hmeets ⟨hlarge, hall⟩
      obtain ⟨value, r', added, hreceive, hyielded, hadded⟩ :=
        receive_yielded hpickle h hsent hqueue hcontent memory.behind hlarge
      exact hdistinct hreceive hyielded hside (mt hadded.mp hleaves)
    · cases hsent with
      | obj =>
        refine absurd ?_ hnone
        rw [hmemory]
        exact receive_obj_cut hpickle (Nat.not_le.mp hlarge) h.current hqueue receive
  | bytes bytes =>
    by_cases hlarge : RAW_HDR_SZ ≤ options.large_blk_size
    · by_cases hlength : bytes.length = MAX_RAW_BYTE_LEN →
          RAW_HDR_SZ + bytes.length ≤ Writer.first_size options RAW_HDR_SZ
      · obtain ⟨hside, hne⟩ := Classical.not_imp.mp fun hall => hmeets ⟨hlarge, hlength, hall⟩
        obtain ⟨value, r', added, hreceive, hyielded, hadded⟩ :=
          receive_yielded hpickle h hsent hqueue hcontent memory.behind ⟨hlarge, hlength⟩
        exact hdistinct hreceive hyielded hside (mt hadded.mp hne)
      · obtain ⟨hmax, hspill⟩ := Classical.not_imp.mp hlength
        cases hsent with
        | @bytes bytes header memory' hmake =>
          cases hreceive : ends.reader.receive pickle memory.behind receive with
          | none => exact absurd hreceive hnone
          | some result =>
            obtain ⟨value, r'⟩ := result
            have hother := receive_bytes_unknown hpickle hmake hlarge hmax (Nat.not_le.mp hspill)
              h.current hqueue hcontent memory.behind hreceive
            simp only [Ends.step, hreceive] at hstep
            obtain rfl := Option.some.inj hstep
            simp only [Purpose.step, hwaiting, hcontent]
            intro hsame
            have hall : (ends.held ++ [value]).map (Value.content r'.bytearrays) =
                purpose.contents ++ [content] := hsame
            rw [List.map_append, List.map_singleton] at hall
            obtain ⟨-, hlast⟩ := List.append_inj' hall rfl
            exact hother (List.singleton_inj.mp hlast)
    · cases hsent with
      | @bytes bytes header memory' hmake =>
        refine absurd ?_ hnone
        exact receive_bytes_cut hmake (Nat.not_le.mp hlarge) h.current hqueue memory.behind receive

/-! ## Whole runs -/

theorem purpose_append (events : List (Event Obj)) (event : Event Obj) :
    purpose pickle (events ++ [event]) = (purpose pickle events).step pickle event :=
  List.foldl_concat ..

theorem Ends.run_append (events : List (Event Obj)) (event : Event Obj) :
    ∀ (memory : ℕ → Memory) (ends : Ends Obj),
      ends.run options pickle memory (events ++ [event]) =
        (ends.run options pickle memory events).bind fun ends =>
          ends.step options pickle (memory events.length) event := by
  induction events with
  | nil =>
    intro memory ends
    simp only [List.nil_append, Ends.run, Option.bind_some, List.length_nil]
    cases ends.step options pickle (memory 0) event <;> rfl
  | cons first events ih =>
    intro memory ends
    simp only [List.cons_append, Ends.run]
    cases ends.step options pickle (memory 0) first with
    | none => rfl
    | some ends =>
      dsimp only
      rw [ih]
      rfl

theorem Throughout.nil (holds : Purpose Obj → Event Obj → Prop) : Throughout pickle holds [] := by
  intro before event hpre
  exact absurd (List.prefix_nil.mp hpre)
    (List.append_ne_nil_of_right_ne_nil before (List.cons_ne_nil event []))

theorem Throughout.append {holds : Purpose Obj → Event Obj → Prop} {events : List (Event Obj)} :
    Throughout pickle holds (events ++ [event]) ↔
      Throughout pickle holds events ∧ holds (purpose pickle events) event := by
  constructor
  · intro h
    exact ⟨fun before next hpre => h before next (hpre.trans (List.prefix_append _ _)),
      h events event (List.prefix_refl _)⟩
  · rintro ⟨h, hlast⟩ before next hpre
    rcases List.prefix_concat_iff.mp hpre with hwhole | hpre
    · obtain ⟨rfl, hnext⟩ := List.append_inj' hwhole rfl
      obtain rfl := List.singleton_inj.mp hnext
      exact hlast
    · exact h before next hpre

/-- The run of unharmed calls: the induction is on the calls, from the last one. -/
theorem run_inStep (hpickle : pickle.Faithful) (memory : ℕ → Memory) (events : List (Event Obj)) :
    Throughout pickle (Fits pickle) events → Throughout pickle (Unharmed options) events →
      ∃ ends, Ends.opened.run options pickle memory events = some ends ∧
        InStep options pickle ends (purpose pickle events) := by
  induction events using List.reverseRecOn with
  | nil => exact fun _ _ => ⟨_, rfl, .opened⟩
  | append_singleton events _ ih =>
    intro hfits hunharmed
    obtain ⟨hfits, hfit⟩ := Throughout.append.mp hfits
    obtain ⟨hunharmed, hmeets⟩ := Throughout.append.mp hunharmed
    obtain ⟨ends, hrun, h⟩ := ih hfits hunharmed
    obtain ⟨ends', hstep, h'⟩ := h.step hpickle hfit hmeets (memory events.length)
    refine ⟨ends', ?_, ?_⟩
    · rw [Ends.run_append, hrun]
      exact hstep
    · rw [purpose_append]
      exact h'

/-- **Delivery.**  After each of the calls the receives have yielded their messages, and the values
are still these, when every receive is unharmed, and only then. -/
theorem delivers_iff (options : Options) (hpickle : pickle.Faithful) (events : List (Event Obj))
    (hfits : Throughout pickle (Fits pickle) events) :
    (∀ memory before, before <+: events → Delivers options pickle memory before) ↔
      Throughout pickle (Unharmed options) events := by
  constructor
  · induction events using List.reverseRecOn with
    | nil => exact fun _ => .nil _
    | append_singleton events event ih =>
      intro h
      obtain ⟨hfits, hfit⟩ := Throughout.append.mp hfits
      have hunharmed := ih hfits fun memory before hpre =>
        h memory before (hpre.trans (List.prefix_append _ _))
      refine Throughout.append.mpr ⟨hunharmed, ?_⟩
      by_contra hharmed
      obtain ⟨ends, hrun, hstep⟩ :=
        run_inStep hpickle (fun _ => ⟨fun _ _ => 0, fun _ => 0⟩) events hfits hunharmed
      obtain ⟨ends', hrun', hcontents⟩ :=
        h (fun _ => ⟨fun _ _ => 0, fun _ => 0⟩) _ (List.prefix_refl _)
      rw [Ends.run_append, hrun] at hrun'
      rw [purpose_append] at hcontents
      exact hstep.harmed hpickle hfit hharmed rfl hrun' hcontents
  · intro hunharmed memory before hpre
    have hthrough : ∀ {holds : Purpose Obj → Event Obj → Prop},
        Throughout pickle holds events → Throughout pickle holds before :=
      fun h earlier event hearlier => h earlier event (hearlier.trans hpre)
    obtain ⟨ends, hrun, hstep⟩ :=
      run_inStep hpickle memory before (hthrough hfits) (hthrough hunharmed)
    exact ⟨ends, hrun, hstep.contents⟩

/-! ## A connection for `None` -/

/-- `pickle.dumps(None, protocol=5)`. -/
def pickled_none : List UInt8 := [0x80, 0x05, 0x4E, 0x2E]

/-- The pickle of `None`, which is read byte by byte. -/
def only_none : Pickle Unit where
  dump _ := [pickled_none]
  next_read seen := if seen.length < 4 then some (.read 1) else none
  loads bytes :=
    if bytes = [] then .error .other
    else if bytes = pickled_none then .ok ()
    else .error .UnpicklingError

theorem only_none_faithful : only_none.Faithful where
  dump_head _ := ⟨pickled_none, [], rfl, by decide⟩
  reads _ seen hseen hne := by
    have hlt : seen.length < 4 := by
      refine lt_of_le_of_ne hseen.length_le ?_
      intro hlength
      exact hne (hseen.eq_of_length hlength)
    exact ⟨.read 1, if_pos hlt, by decide, hlt⟩
  stops _ := rfl
  loads _ := rfl
  loads_nil _ := nofun

/-- Blocks of 2, 16 and 32 bytes. -/
def small_blocks : Options where
  small_blk_size := 2
  large_blk_size := 16
  huge_blk_size := 32
  small_lt_large := by decide
  large_lt_huge := by decide

/-- An object and a byte are sent and received. -/
def none_and_byte (receive : Receive) : List (Event Unit) :=
  [.send (), .send_bytes [1, 2] 1 none, .receive receive, .receive (.recv_bytes none)]

theorem none_and_byte_eq (receive : Receive) : none_and_byte receive =
    [] ++ [Event.send ()] ++ [Event.send_bytes [1, 2] 1 none] ++ [Event.receive receive] ++
      [Event.receive (.recv_bytes none)] := rfl

theorem none_and_byte_fits {receive : Receive} {content : Content Unit}
    (hfits : fitting only_none (.obj ()) receive = some content) :
    Throughout only_none (Fits only_none) (none_and_byte receive) := by
  rw [none_and_byte_eq]
  simp only [Throughout.append]
  refine ⟨⟨⟨⟨.nil _, nofun⟩, nofun⟩, ?_⟩, ?_⟩
  · rintro _ ⟨⟩
    exact ⟨.obj (), [.bytes [2]], content, rfl, hfits⟩
  · rintro _ ⟨⟩
    exact ⟨.bytes [2], [], .bytes [2], rfl, rfl⟩

/-- The byte comes to the pickle that was received before it. -/
theorem not_delivers :
    Throughout only_none (Fits only_none) (none_and_byte (.recv_bytes none)) ∧
      ¬ Delivers small_blocks only_none (fun _ => ⟨fun _ _ => 0, fun _ => 0⟩)
        (none_and_byte (.recv_bytes none)) := by
  refine ⟨none_and_byte_fits rfl, ?_⟩
  have hrun : (Ends.opened.run small_blocks only_none (fun _ => ⟨fun _ _ => 0, fun _ => 0⟩)
      (none_and_byte (.recv_bytes none))).map Ends.contents =
        some [.bytes (pickled_none ++ [2]), .bytes [2]] := by
    decide +kernel
  rintro ⟨ends, hends, hcontents⟩
  rw [hends] at hrun
  have hsame : ends.contents = [.bytes (pickled_none ++ [2]), .bytes [2]] := Option.some.inj hrun
  rw [hcontents] at hsame
  exact absurd hsame (by decide +kernel)

theorem delivers_none_and_byte :
    Delivers small_blocks only_none (fun _ => ⟨fun _ _ => 0, fun _ => 0⟩)
      (none_and_byte .recv) := by
  refine (delivers_iff small_blocks only_none_faithful (none_and_byte .recv)
    (none_and_byte_fits rfl)).mpr ?_ _ _ (List.prefix_refl _)
  rw [none_and_byte_eq]
  simp only [Throughout.append]
  refine ⟨⟨⟨⟨.nil _, nofun⟩, nofun⟩, ?_⟩, ?_⟩
  · rintro _ ⟨⟩ message ⟨⟩
    exact ⟨by decide, nofun⟩
  · rintro _ ⟨⟩ message ⟨⟩
    exact ⟨by decide, nofun, nofun⟩

end Connection
