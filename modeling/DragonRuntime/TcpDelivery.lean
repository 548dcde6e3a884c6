/-
# Requests and responses of the TCP transport (`src/dragon/transport/tcp/transport.py`)

A transport numbers its requests and keeps a future for each until a response with its number
arrives.  A request that arrives over a connection is put on the queue if its number is larger than
the last one that was seen from the address of the peer.

Conventions:

* a connection is the list of the complete messages that are in flight on it, first in, first out,
  with the address that its peer has given; which messages the peers send is left open;
* a write that is retried leaves the mailbox as it was;
* the number of a future is its place in the list of all that were made;
* what was received, what `read_request` has returned and the calls of `set_result` are recorded.
-/
import DragonRuntime.Runs
import DragonRuntime.TransportMessages

namespace TcpTransport

inductive RequestKind (η : Type*) : Type _ where
  | send (return_mode : SendReturnMode) (sendhid : η)
  | recv
  | event (mask : ℕ)
  deriving DecidableEq

structure Request (σ η : Type*) where
  seqno : ℕ
  channel_sd : σ
  kind : RequestKind η
  deriving DecidableEq

inductive ResponseBody : Type where
  | error (errno : ℕ)
  | send
  | recv (clientid hints : ℕ) (payload : Bytes)
  | event (errno result : ℕ)
  deriving DecidableEq

structure Response where
  seqno : ℕ
  body : ResponseBody
  deriving DecidableEq

inductive Message (σ η : Type*) : Type _ where
  | request (req : Request σ η)
  | response (resp : Response)
  /-- a greeting -/
  | hello
  deriving DecidableEq

/-- The return mode of a `SendRequest`. -/
def Message.return_mode {σ η : Type*} : Message σ η → Option SendReturnMode
  | .request ⟨_, _, .send return_mode _⟩ => some return_mode
  | _ => none

def Message.seqno {σ η : Type*} : Message σ η → ℕ
  | .request req => req.seqno
  | .response resp => resp.seqno
  | .hello => 0

/-- `DRAGON_NOT_IMPLEMENTED` -/
def notImplemented : ℕ := 6

structure Transport (α κ σ η : Type*) where
  addr : α
  /-- the next value of the counter -/
  seqno : ℕ
  /-- `_responses`: the future of a sequence number -/
  responses : ℕ → Option ℕ
  /-- the sequence numbers for which the futures were made -/
  futures : List ℕ
  last_request : α → ℕ
  requests : List (Request σ η × α)
  mailboxes : α → List (Message σ η)
  connections : κ → Option (α × List (Message σ η))
  received : List (Request σ η × α)
  reads : List (Request σ η × α)
  results : List (ℕ × Response × α)

/-- What happens at a transport. -/
inductive TransportAction (α κ σ η : Type*) : Type _ where
  | writeRequest (channel_sd : σ) (kind : RequestKind η) (dest : α)
  | writeResponse (resp : Response) (dest : α)
  /-- `_do_send` has written the first message of a mailbox -/
  | sent (dest : α)
  /-- `add_connection` after the handshake with a peer -/
  | addConnection (c : κ) (peer : α)
  /-- the peer has sent a complete message -/
  | arrive (c : κ) (msg : Message σ η)
  /-- `_do_recv` reads the next message -/
  | doRecv (c : κ)
  | readRequest

namespace Transport

variable {α κ σ η : Type*} [DecidableEq α] [DecidableEq κ] [DecidableEq σ] [DecidableEq η]

def init (addr : α) : Transport α κ σ η where
  addr := addr
  seqno := 1
  responses := fun _ => none
  futures := []
  last_request := fun _ => 0
  requests := []
  mailboxes := fun _ => []
  connections := fun _ => none
  received := []
  reads := []
  results := []

/-- `_handle_recv` of a response -/
def handleResponse (s : Transport α κ σ η) (resp : Response) (addr : α) : Transport α κ σ η :=
  match s.responses resp.seqno with
  | none => s
  | some fut =>
    { s with
      responses := Function.update s.responses resp.seqno none
      results := s.results ++ [(fut, resp, addr)] }

/-- `_handle_recv` of a request -/
def handleRequest (s : Transport α κ σ η) (req : Request σ η) (addr : α) : Transport α κ σ η :=
  if req.seqno ≤ s.last_request addr then { s with received := s.received ++ [(req, addr)] }
  else
    { s with
      received := s.received ++ [(req, addr)]
      last_request := Function.update s.last_request addr req.seqno
      requests := s.requests ++ [(req, addr)] }

/-- The response that a transport makes itself for some return modes. -/
def answer (s : Transport α κ σ η) (modes : List SendReturnMode) (msg : Message σ η) :
    Transport α κ σ η :=
  if ∃ mode ∈ modes, msg.return_mode = some mode then
    s.handleResponse ⟨msg.seqno, .send⟩ s.addr
  else s

def enqueue (s : Transport α κ σ η) (msg : Message σ η) (dest : α) : Transport α κ σ η :=
  { s with mailboxes := Function.update s.mailboxes dest (s.mailboxes dest ++ [msg]) }

/-- `_handle_recv` of what a transport sends to itself -/
def loopback (s : Transport α κ σ η) : Message σ η → Transport α κ σ η
  | .request req => s.handleRequest req s.addr
  | .response resp => s.handleResponse resp s.addr
  | .hello => s

def handleSend (s : Transport α κ σ η) (msg : Message σ η) (dest : α) : Transport α κ σ η :=
  if dest = s.addr then (s.answer [.IMMEDIATELY, .WHEN_BUFFERED] msg).loopback msg
  else (s.answer [.IMMEDIATELY] msg).enqueue msg dest

/-- `_handle_recv` -/
def handleRecv (s : Transport α κ σ η) (msg : Message σ η) (addr : α) : Transport α κ σ η :=
  match msg with
  | .request req => s.handleRequest req addr
  | .response resp => s.handleResponse resp addr
  | .hello => s.handleSend (.response ⟨0, .error notImplemented⟩) addr

def writeRequest (s : Transport α κ σ η) (channel_sd : σ) (kind : RequestKind η) (dest : α) :
    Transport α κ σ η :=
  { s with
    seqno := s.seqno + 1
    responses := Function.update s.responses s.seqno (some s.futures.length)
    futures := s.futures ++ [s.seqno] }.handleSend (.request ⟨s.seqno, channel_sd, kind⟩) dest

/-- `_do_send`, after a write -/
def sent (s : Transport α κ σ η) (dest : α) : Transport α κ σ η :=
  match s.mailboxes dest with
  | [] => s
  | msg :: rest =>
    { s with mailboxes := Function.update s.mailboxes dest rest }.answer [.WHEN_BUFFERED] msg

def exec (s : Transport α κ σ η) : TransportAction α κ σ η → Transport α κ σ η
  | .writeRequest channel_sd kind dest => s.writeRequest channel_sd kind dest
  | .writeResponse resp dest => s.handleSend (.response resp) dest
  | .sent dest => s.sent dest
  | .addConnection c peer =>
    match s.connections c with
    | none => { s with connections := Function.update s.connections c (some (peer, [])) }
    | some _ => s
  | .arrive c msg =>
    match s.connections c with
    | none => s
    | some (peer, msgs) =>
      { s with connections := Function.update s.connections c (some (peer, msgs ++ [msg])) }
  | .doRecv c =>
    match s.connections c with
    | some (peer, msg :: msgs) =>
      { s with connections := Function.update s.connections c (some (peer, msgs)) }.handleRecv
        msg peer
    | _ => s
  | .readRequest =>
    match s.requests with
    | [] => s
    | item :: rest => { s with requests := rest, reads := s.reads ++ [item] }

/-! ## The contract -/

/-- Every request that was received is put on the queue exactly once, and every future is completed
at most once, by a response with the sequence number of its request. -/
structure Delivered (s : Transport α κ σ η) : Prop where
  once : ∀ item ∈ s.received, (s.reads ++ s.requests).count item = 1
  completed : (s.results.map Prod.fst).Nodup
  own : ∀ result ∈ s.results, s.futures[result.1]? = some result.2.1.seqno

/-- The request that a step hands to `_handle_recv`. -/
def incoming (s : Transport α κ σ η) : TransportAction α κ σ η → Option (Request σ η × α)
  | .writeRequest channel_sd kind dest =>
    if dest = s.addr then some (⟨s.seqno, channel_sd, kind⟩, s.addr) else none
  | .doRecv c =>
    match s.connections c with
    | some (peer, .request req :: _) => some (req, peer)
    | _ => none
  | _ => none

/-- The condition for that: a request that was not received before has a larger number than all that
were received from its address. -/
def InOrder (s : Transport α κ σ η) (action : TransportAction α κ σ η) : Prop :=
  ∀ item, s.incoming action = some item → item ∉ s.received →
    0 < item.1.seqno ∧ ∀ earlier ∈ s.received, earlier.2 = item.2 → earlier.1.seqno < item.1.seqno

/-! ## Requests -/

/-- The two states have received, put on the queue and handed out the same requests. -/
structure SameRequests (s s' : Transport α κ σ η) : Prop where
  last_request : s'.last_request = s.last_request
  received : s'.received = s.received
  requests : s'.reads ++ s'.requests = s.reads ++ s.requests

section SameRequests

omit [DecidableEq σ] [DecidableEq η]

variable {s s' : Transport α κ σ η}

section

omit [DecidableEq α] [DecidableEq κ]

theorem SameRequests.refl (s : Transport α κ σ η) : SameRequests s s := ⟨rfl, rfl, rfl⟩

theorem SameRequests.handleResponse (h : SameRequests s s') (resp : Response) (addr : α) :
    SameRequests s (s'.handleResponse resp addr) := by
  unfold Transport.handleResponse
  split
  · exact h
  · exact ⟨h.last_request, h.received, h.requests⟩

theorem SameRequests.answer (h : SameRequests s s') (modes : List SendReturnMode)
    (msg : Message σ η) : SameRequests s (s'.answer modes msg) := by
  unfold Transport.answer
  split
  · exact h.handleResponse _ _
  · exact h

end

omit [DecidableEq κ] in
theorem SameRequests.enqueue (h : SameRequests s s') (msg : Message σ η) (dest : α) :
    SameRequests s (s'.enqueue msg dest) := ⟨h.last_request, h.received, h.requests⟩

omit [DecidableEq κ] in
/-- A request is received in the same way in the two states. -/
theorem SameRequests.handleRequest (h : SameRequests s s') (req : Request σ η) (addr : α) :
    SameRequests (s.handleRequest req addr) (s'.handleRequest req addr) := by
  have hlast := congrFun h.last_request addr
  have hreceived : s'.received ++ [(req, addr)] = s.received ++ [(req, addr)] := by
    rw [h.received]
  by_cases hle : req.seqno ≤ s.last_request addr
  · rw [Transport.handleRequest, Transport.handleRequest, if_pos hle, if_pos (hlast ▸ hle)]
    exact ⟨h.last_request, hreceived, h.requests⟩
  · rw [Transport.handleRequest, Transport.handleRequest, if_neg hle, if_neg (hlast ▸ hle)]
    refine ⟨?_, hreceived, ?_⟩
    · show Function.update s'.last_request _ _ = Function.update s.last_request _ _
      rw [h.last_request]
    · show s'.reads ++ (s'.requests ++ _) = s.reads ++ (s.requests ++ _)
      rw [← List.append_assoc, h.requests, List.append_assoc]

omit [DecidableEq α] [DecidableEq κ] in
theorem addr_answer (s : Transport α κ σ η) (modes : List SendReturnMode) (msg : Message σ η) :
    (s.answer modes msg).addr = s.addr := by
  unfold Transport.answer Transport.handleResponse
  split
  · split <;> rfl
  · rfl

omit [DecidableEq κ] in
theorem SameRequests.handleSend_response (h : SameRequests s s') (resp : Response) (dest : α) :
    SameRequests s (s'.handleSend (.response resp) dest) := by
  unfold Transport.handleSend
  split
  · exact (h.answer _ _).handleResponse _ _
  · exact (h.answer _ _).enqueue _ _

/-- A step that hands no request to `_handle_recv`. -/
theorem sameRequests_exec {action : TransportAction α κ σ η} (h : s.incoming action = none) :
    SameRequests s (s.exec action) := by
  cases action with
  | writeRequest channel_sd kind dest =>
    have hdest : dest ≠ s.addr := by
      intro heq
      rw [incoming, if_pos heq] at h
      exact nomatch h
    show SameRequests s (s.writeRequest channel_sd kind dest)
    rw [Transport.writeRequest, handleSend, if_neg hdest]
    refine SameRequests.enqueue (SameRequests.answer ?_ _ _) _ _
    exact ⟨rfl, rfl, rfl⟩
  | writeResponse resp dest => exact (SameRequests.refl s).handleSend_response resp dest
  | sent dest =>
    show SameRequests s (s.sent dest)
    unfold Transport.sent
    split
    · exact ⟨rfl, rfl, rfl⟩
    · refine SameRequests.answer ?_ _ _
      exact ⟨rfl, rfl, rfl⟩
  | addConnection | arrive =>
    simp only [Transport.exec]
    split <;> exact ⟨rfl, rfl, rfl⟩
  | doRecv c =>
    show SameRequests s (match s.connections c with
      | some (peer, msg :: msgs) =>
        { s with connections := Function.update s.connections c (some (peer, msgs)) }.handleRecv
          msg peer
      | _ => s)
    split
    next peer msg msgs hconn =>
      cases msg with
      | request =>
        simp only [incoming, hconn] at h
        exact nomatch h
      | response resp =>
        show SameRequests s (Transport.handleResponse _ resp peer)
        refine SameRequests.handleResponse ?_ resp peer
        exact ⟨rfl, rfl, rfl⟩
      | hello =>
        show SameRequests s (Transport.handleSend _ (.response _) peer)
        refine SameRequests.handleSend_response ?_ _ peer
        exact ⟨rfl, rfl, rfl⟩
    next => exact ⟨rfl, rfl, rfl⟩
  | readRequest =>
    simp only [Transport.exec]
    split
    next => exact ⟨rfl, rfl, rfl⟩
    next item rest hrequests =>
      refine ⟨rfl, rfl, ?_⟩
      show (s.reads ++ [item]) ++ rest = s.reads ++ s.requests
      rw [hrequests, List.append_assoc, List.singleton_append]

/-- A step that hands a request to `_handle_recv`. -/
theorem sameRequests_exec_incoming {action : TransportAction α κ σ η} {item : Request σ η × α}
    (h : s.incoming action = some item) :
    SameRequests (s.handleRequest item.1 item.2) (s.exec action) := by
  cases action with
  | writeRequest channel_sd kind dest =>
    by_cases hdest : dest = s.addr
    · rw [incoming, if_pos hdest] at h
      obtain rfl := Option.some.inj h
      show SameRequests _ (s.writeRequest channel_sd kind dest)
      rw [Transport.writeRequest, handleSend, if_pos hdest]
      simp only [loopback, addr_answer]
      refine SameRequests.handleRequest (SameRequests.answer ?_ _ _) _ _
      exact ⟨rfl, rfl, rfl⟩
    · rw [incoming, if_neg hdest] at h
      exact nomatch h
  | doRecv c =>
    cases hconn : s.connections c with
    | none =>
      simp only [incoming, hconn] at h
      exact nomatch h
    | some conn =>
      obtain ⟨peer, msgs⟩ := conn
      match msgs with
      | .request req :: msgs =>
        simp only [incoming, hconn] at h
        obtain rfl := Option.some.inj h
        simp only [Transport.exec, hconn]
        show SameRequests _ (Transport.handleRequest _ req peer)
        refine SameRequests.handleRequest ?_ req peer
        exact ⟨rfl, rfl, rfl⟩
      | [] =>
        simp only [incoming, hconn] at h
        exact nomatch h
      | .response resp :: msgs =>
        simp only [incoming, hconn] at h
        exact nomatch h
      | .hello :: msgs =>
        simp only [incoming, hconn] at h
        exact nomatch h
  | writeResponse => exact nomatch h
  | sent => exact nomatch h
  | addConnection => exact nomatch h
  | arrive => exact nomatch h
  | readRequest => exact nomatch h

/-- What every run keeps of the requests. -/
structure Numbered (s : Transport α κ σ η) : Prop where
  mem : ∀ item ∈ s.reads ++ s.requests, item ∈ s.received
  nodup : (s.reads ++ s.requests).Nodup
  le_last : ∀ item ∈ s.received, item.1.seqno ≤ s.last_request item.2
  last_mem : ∀ addr, s.last_request addr = 0 ∨
    ∃ item ∈ s.received, item.2 = addr ∧ item.1.seqno = s.last_request addr

omit [DecidableEq α] [DecidableEq κ] in
theorem Numbered.congr {s' : Transport α κ σ η} (hs : s.Numbered) (h : SameRequests s s') :
    s'.Numbered where
  mem := by
    rw [h.requests, h.received]
    exact hs.mem
  nodup := by
    rw [h.requests]
    exact hs.nodup
  le_last := by
    rw [h.received, h.last_request]
    exact hs.le_last
  last_mem := by
    rw [h.received, h.last_request]
    exact hs.last_mem

omit [DecidableEq κ] in
theorem Numbered.handleRequest (hs : s.Numbered) (req : Request σ η) (addr : α) :
    (s.handleRequest req addr).Numbered := by
  unfold Transport.handleRequest
  split
  next hle =>
    refine ⟨fun item hitem => List.mem_append_left _ (hs.mem item hitem), hs.nodup,
      fun item hitem => ?_, fun a => ?_⟩
    · rcases List.mem_append.mp hitem with hitem | hitem
      · exact hs.le_last item hitem
      · obtain rfl := List.mem_singleton.mp hitem
        exact hle
    · rcases hs.last_mem a with hzero | ⟨item, hitem, hlast⟩
      · exact Or.inl hzero
      · exact Or.inr ⟨item, List.mem_append_left _ hitem, hlast⟩
  next hlt =>
    rw [not_le] at hlt
    have hnew : (req, addr) ∉ s.received := fun hmem =>
      absurd (hs.le_last _ hmem) (not_le.mpr hlt)
    refine ⟨fun item hitem => ?_, ?_, fun item hitem => ?_, fun a => ?_⟩
    · have hitem' : item ∈ s.reads ++ (s.requests ++ [(req, addr)]) := hitem
      rw [← List.append_assoc] at hitem'
      rcases List.mem_append.mp hitem' with hold | hold
      · exact List.mem_append_left _ (hs.mem item hold)
      · exact List.mem_append_right _ hold
    · show (s.reads ++ (s.requests ++ [(req, addr)])).Nodup
      rw [← List.append_assoc, List.nodup_append]
      refine ⟨hs.nodup, List.nodup_singleton _, fun item hitem other hother heq => ?_⟩
      obtain rfl := List.mem_singleton.mp hother
      exact hnew (heq ▸ hs.mem item hitem)
    · show item.1.seqno ≤ Function.update s.last_request addr req.seqno item.2
      rcases List.mem_append.mp hitem with hold | hold
      · have hle := hs.le_last item hold
        rcases eq_or_ne item.2 addr with heq | hne
        · rw [heq, Function.update_self]
          rw [heq] at hle
          exact hle.trans hlt.le
        · rw [Function.update_of_ne hne]
          exact hle
      · obtain rfl := List.mem_singleton.mp hold
        rw [Function.update_self]
    · show Function.update s.last_request addr req.seqno a = 0 ∨
        ∃ item ∈ s.received ++ [(req, addr)],
          item.2 = a ∧ item.1.seqno = Function.update s.last_request addr req.seqno a
      rcases eq_or_ne a addr with rfl | hne
      · rw [Function.update_self]
        exact Or.inr ⟨(req, a), List.mem_append_right _ List.mem_cons_self, rfl, rfl⟩
      · rw [Function.update_of_ne hne]
        rcases hs.last_mem a with hzero | ⟨item, hitem, hlast⟩
        · exact Or.inl hzero
        · exact Or.inr ⟨item, List.mem_append_left _ hitem, hlast⟩

theorem Numbered.exec (hs : s.Numbered) (action : TransportAction α κ σ η) :
    (s.exec action).Numbered := by
  cases h : s.incoming action with
  | none => exact hs.congr (sameRequests_exec h)
  | some item => exact (hs.handleRequest item.1 item.2).congr (sameRequests_exec_incoming h)

end SameRequests

/-- Every request that was received was put on the queue. -/
def AllPut (s : Transport α κ σ η) : Prop := ∀ item ∈ s.received, item ∈ s.reads ++ s.requests

variable {s : Transport α κ σ η}

omit [DecidableEq α] [DecidableEq κ] [DecidableEq σ] [DecidableEq η] in
theorem AllPut.congr_iff {s' : Transport α κ σ η} (h : SameRequests s s') :
    s'.AllPut ↔ s.AllPut := by
  unfold AllPut
  rw [h.received, h.requests]

/-- **Step lemma.**  A step keeps the requests together if and only if it is in order. -/
theorem allPut_exec_iff (hs : s.Numbered) (action : TransportAction α κ σ η) :
    (s.exec action).AllPut ↔ s.AllPut ∧ s.InOrder action := by
  cases h : s.incoming action with
  | none =>
    rw [AllPut.congr_iff (sameRequests_exec h)]
    refine (and_iff_left fun item hitem => ?_).symm
    rw [h] at hitem
    exact nomatch hitem
  | some item =>
    obtain ⟨req, addr⟩ := item
    rw [AllPut.congr_iff (sameRequests_exec_incoming h)]
    have horder : s.InOrder action ↔ ((req, addr) ∉ s.received →
        0 < req.seqno ∧ ∀ earlier ∈ s.received, earlier.2 = addr →
          earlier.1.seqno < req.seqno) := by
      unfold InOrder
      rw [h]
      refine ⟨fun hall => hall _ rfl, fun hone item hitem => ?_⟩
      obtain rfl := Option.some.inj hitem
      exact hone
    rw [horder]
    unfold Transport.handleRequest AllPut
    split
    next hle =>
      -- the request is dropped
      constructor
      · intro hall
        refine ⟨fun item hitem => hall item (List.mem_append_left _ hitem), fun hnew => ?_⟩
        exact absurd (hs.mem _ (hall _ (List.mem_append_right _ List.mem_cons_self))) hnew
      · rintro ⟨hall, hone⟩ item hitem
        rcases List.mem_append.mp hitem with hitem | hitem
        · exact hall item hitem
        · obtain rfl := List.mem_singleton.mp hitem
          by_cases hold : (req, addr) ∈ s.received
          · exact hall _ hold
          · obtain ⟨hpos, hearlier⟩ := hone hold
            exfalso
            rcases hs.last_mem addr with hzero | ⟨last, hlast, haddr, hseqno⟩
            · simp only [hzero] at hle
              omega
            · have := hearlier last hlast haddr
              simp only at hle
              omega
    next hlt =>
      rw [not_le] at hlt
      show (∀ item ∈ s.received ++ [(req, addr)],
        item ∈ s.reads ++ (s.requests ++ [(req, addr)])) ↔ _
      rw [← List.append_assoc]
      constructor
      · intro hall
        refine ⟨fun item hitem => ?_, fun _ =>
          ⟨Nat.zero_lt_of_lt hlt, fun earlier hearlier haddr => ?_⟩⟩
        · rcases List.mem_append.mp (hall item (List.mem_append_left _ hitem)) with hput | hput
          · exact hput
          · obtain rfl := List.mem_singleton.mp hput
            exact absurd (hs.le_last _ hitem) (not_le.mpr hlt)
        · have hle := hs.le_last earlier hearlier
          rw [haddr] at hle
          exact hle.trans_lt hlt
      · rintro ⟨hall, -⟩ item hitem
        rcases List.mem_append.mp hitem with hitem | hitem
        · exact List.mem_append_left _ (hall item hitem)
        · exact List.mem_append_right _ hitem

/-! ## Responses -/

/-- What every run keeps of the futures. -/
structure Futures (s : Transport α κ σ η) : Prop where
  waiting : ∀ n fut, s.responses n = some fut → s.futures[fut]? = some n
  pending : ∀ n fut, s.responses n = some fut → fut ∉ s.results.map Prod.fst
  own : ∀ result ∈ s.results, s.futures[result.1]? = some result.2.1.seqno
  completed : (s.results.map Prod.fst).Nodup

namespace Futures

omit [DecidableEq σ] [DecidableEq η]

variable {s s' : Transport α κ σ η}

section

omit [DecidableEq α] [DecidableEq κ]

theorem congr (hs : s.Futures) (hresponses : s'.responses = s.responses)
    (hfutures : s'.futures = s.futures) (hresults : s'.results = s.results) : s'.Futures where
  waiting := by
    rw [hresponses, hfutures]
    exact hs.waiting
  pending := by
    rw [hresponses, hresults]
    exact hs.pending
  own := by
    rw [hfutures, hresults]
    exact hs.own
  completed := by
    rw [hresults]
    exact hs.completed

/-- A future that is completed is taken out of the futures that wait. -/
theorem handleResponse (hs : s.Futures) (resp : Response) (addr : α) :
    (s.handleResponse resp addr).Futures := by
  unfold Transport.handleResponse
  split
  next => exact hs
  next fut hfut =>
    have hseqno := hs.waiting _ _ hfut
    refine ⟨fun n other hother => ?_, fun n other hother => ?_, fun result hresult => ?_, ?_⟩
    · rcases eq_or_ne n resp.seqno with rfl | hne
      · simp only [Function.update_self] at hother
        exact nomatch hother
      · simp only [Function.update_of_ne hne] at hother
        exact hs.waiting n other hother
    · rcases eq_or_ne n resp.seqno with rfl | hne
      · simp only [Function.update_self] at hother
        exact nomatch hother
      · simp only [Function.update_of_ne hne] at hother
        rw [List.map_append, List.mem_append, not_or]
        refine ⟨hs.pending n other hother, fun hmem => ?_⟩
        obtain rfl : other = fut := List.mem_singleton.mp hmem
        rw [hs.waiting n other hother] at hseqno
        exact hne (Option.some.inj hseqno)
    · rcases List.mem_append.mp hresult with hresult | hresult
      · exact hs.own result hresult
      · obtain rfl := List.mem_singleton.mp hresult
        exact hseqno
    · rw [List.map_append, List.nodup_append]
      refine ⟨hs.completed, List.nodup_singleton _, fun a ha b hb heq => ?_⟩
      obtain rfl : b = fut := List.mem_singleton.mp hb
      exact hs.pending _ _ hfut (heq ▸ ha)

theorem answer (hs : s.Futures) (modes : List SendReturnMode) (msg : Message σ η) :
    (s.answer modes msg).Futures := by
  unfold Transport.answer
  split
  · exact hs.handleResponse _ _
  · exact hs

end

section

omit [DecidableEq κ]

theorem handleRequest (hs : s.Futures) (req : Request σ η) (addr : α) :
    (s.handleRequest req addr).Futures := by
  unfold Transport.handleRequest
  split <;> exact hs.congr rfl rfl rfl

theorem handleSend (hs : s.Futures) (msg : Message σ η) (dest : α) :
    (s.handleSend msg dest).Futures := by
  unfold Transport.handleSend
  split
  · cases msg with
    | request => exact (hs.answer _ _).handleRequest _ _
    | response => exact (hs.answer _ _).handleResponse _ _
    | hello => exact hs.answer _ _
  · exact (hs.answer _ _).congr rfl rfl rfl

theorem handleRecv (hs : s.Futures) (msg : Message σ η) (addr : α) :
    (s.handleRecv msg addr).Futures := by
  cases msg with
  | request req => exact hs.handleRequest req addr
  | response resp => exact hs.handleResponse resp addr
  | hello => exact hs.handleSend _ addr

theorem writeRequest (hs : s.Futures) (channel_sd : σ) (kind : RequestKind η) (dest : α) :
    (s.writeRequest channel_sd kind dest).Futures := by
  refine Futures.handleSend ?_ _ dest
  -- the new future is none of those that are completed, as these are in the list
  have hold : ∀ fut n : ℕ, s.futures[fut]? = some n → (s.futures ++ [s.seqno])[fut]? = some n := by
    intro fut n hn
    have hlt : fut < s.futures.length := (List.getElem?_eq_some_iff.mp hn).1
    rw [List.getElem?_append_left hlt]
    exact hn
  have hnew : s.futures.length ∉ s.results.map Prod.fst := by
    intro hmem
    obtain ⟨result, hresult, heq⟩ := List.mem_map.mp hmem
    have hown := hs.own result hresult
    rw [heq, List.getElem?_eq_none le_rfl] at hown
    exact nomatch hown
  refine ⟨fun n fut hfut => ?_, fun n fut hfut => ?_, fun result hresult => ?_, hs.completed⟩
  · rcases eq_or_ne n s.seqno with rfl | hne
    · simp only [Function.update_self, Option.some.injEq] at hfut
      rw [← hfut]
      exact List.getElem?_concat_length
    · simp only [Function.update_of_ne hne] at hfut
      exact hold _ _ (hs.waiting n fut hfut)
  · rcases eq_or_ne n s.seqno with rfl | hne
    · simp only [Function.update_self, Option.some.injEq] at hfut
      rw [← hfut]
      exact hnew
    · simp only [Function.update_of_ne hne] at hfut
      exact hs.pending n fut hfut
  · exact hold _ _ (hs.own result hresult)

end

theorem exec (hs : s.Futures) (action : TransportAction α κ σ η) : (s.exec action).Futures := by
  cases action with
  | writeRequest channel_sd kind dest => exact hs.writeRequest channel_sd kind dest
  | writeResponse _ dest => exact hs.handleSend _ dest
  | sent dest =>
    show (s.sent dest).Futures
    unfold Transport.sent
    split
    · exact hs
    · refine Futures.answer ?_ _ _
      exact hs.congr rfl rfl rfl
  | addConnection =>
    simp only [Transport.exec]
    split
    · exact hs.congr rfl rfl rfl
    · exact hs
  | arrive =>
    simp only [Transport.exec]
    split
    · exact hs
    · exact hs.congr rfl rfl rfl
  | doRecv =>
    simp only [Transport.exec]
    split
    · refine Futures.handleRecv ?_ _ _
      exact hs.congr rfl rfl rfl
    · exact hs
  | readRequest =>
    simp only [Transport.exec]
    split
    · exact hs
    · exact hs.congr rfl rfl rfl

end Futures

/-! ## Main statement -/

section

omit [DecidableEq α] [DecidableEq κ] [DecidableEq σ] [DecidableEq η]

theorem numbered_init (addr : α) : (init addr : Transport α κ σ η).Numbered where
  mem := nofun
  nodup := List.nodup_nil
  le_last := nofun
  last_mem := fun _ => Or.inl rfl

theorem futures_init (addr : α) : (init addr : Transport α κ σ η).Futures where
  waiting := nofun
  pending := nofun
  own := nofun
  completed := List.nodup_nil

end

omit [DecidableEq κ] in
theorem delivered_iff_allPut (hnumbered : s.Numbered) (hfutures : s.Futures) :
    s.Delivered ↔ s.AllPut := by
  constructor
  · intro hs item hitem
    have hcount := hs.once item hitem
    exact List.count_pos_iff.mp (by omega)
  · intro hs
    exact ⟨fun item hitem => List.count_eq_one_of_mem hnumbered.nodup (hs item hitem),
      hfutures.completed, hfutures.own⟩

/-- What a run of any steps has delivered is all, if and only if its requests have arrived in
order. -/
theorem delivered_iff_inOrder (addr : α) (actions : List (TransportAction α κ σ η)) :
    (actions.foldl exec (init addr : Transport α κ σ η)).Delivered ↔
      Runs.Legal exec InOrder (init addr : Transport α κ σ η) actions := by
  have hall : ∀ (s : Transport α κ σ η), s.Numbered → s.Futures →
      ((actions.foldl exec s).Delivered ↔ s.AllPut ∧ Runs.Legal exec InOrder s actions) := by
    induction actions with
    | nil =>
      intro s hnumbered hfutures
      rw [and_iff_left (Runs.legal_nil _ _ _)]
      exact delivered_iff_allPut hnumbered hfutures
    | cons action actions ih =>
      intro s hnumbered hfutures
      rw [List.foldl_cons, ih _ (hnumbered.exec action) (hfutures.exec action),
        allPut_exec_iff hnumbered action, Runs.legal_cons, and_assoc]
  rw [hall _ (numbered_init addr) (futures_init addr)]
  exact and_iff_right fun item hitem => nomatch hitem

/-- The peer has sent a request over a connection, and the next one over a new connection, which is
read first: the request with the smaller number is dropped. -/
theorem dropped_over_old_connection :
    ¬ ([.addConnection 0 1, .arrive 0 (.request ⟨1, (), .recv⟩), .addConnection 1 1,
        .arrive 1 (.request ⟨2, (), .recv⟩), .doRecv 1, .doRecv 0].foldl exec
      (init 0 : Transport ℕ ℕ Unit Unit)).Delivered := by
  intro hdelivered
  have hone := hdelivered.once (⟨1, (), .recv⟩, 1) (by decide)
  exact absurd hone (by decide)

end Transport

end TcpTransport
