/-
# The FIFO lock (`src/lib/shared_lock.c`)

Processes share a lock, each through a handle that it has attached.  To lock it, a process takes
the thread lock of its handle, draws one of the 16 nodes in turn, takes the ticket lock of the node
and waits until the node is served.  `dragon_fifo_try_lock` takes the same three locks without
waiting, the last one by a compare-and-swap of the ticket counter.

Conventions:

* each access to a shared word is a step;
* the words that are only ever incremented are kept as the numbers of their increments, and what
  the code sees of such a number is its `wordOf`;
* the lock stays initialised, and a handle is used by one thread at a time;
* the ticket of a process at its node is kept in its handle after the wait, when it is a dead local
  variable of the source.
-/
import DragonRuntime.Runs

/-! ## Tickets -/

/-- Numbers of a `dragonLockType_t`. -/
def wordSize : ℕ := 2 ^ 64

/-- What a word holds after so many increments. -/
def wordOf (n : ℕ) : ℕ := n % wordSize

/-- `DRAGON_LOCK_NODE_FANOUT` -/
def lockNodeFanout : ℕ := 16

/-- The words of a `dragonFIFOLiteLock_t`, or of a node. -/
structure FIFOLiteLock where
  now_serving : ℕ
  ticket_counter : ℕ
  deriving DecidableEq

namespace FIFOLiteLock

/-- A ticket is drawn, the present value of the counter. -/
def draw (l : FIFOLiteLock) : FIFOLiteLock := { l with ticket_counter := l.ticket_counter + 1 }

def release (l : FIFOLiteLock) : FIFOLiteLock := { l with now_serving := l.now_serving + 1 }

/-- The test of the waiting loops. -/
def Waits (l : FIFOLiteLock) (my_ticket : ℕ) : Prop := wordOf l.now_serving < wordOf my_ticket

instance (l : FIFOLiteLock) (my_ticket : ℕ) : Decidable (l.Waits my_ticket) :=
  inferInstanceAs (Decidable (_ < _))

end FIFOLiteLock

/-- Words that have gone round equally often are in the order of their increments. -/
theorem word_lt_word {m n : ℕ} (hround : m / wordSize = n / wordSize) (h : m < n) :
    wordOf m < wordOf n := by
  have hm := Nat.div_add_mod m wordSize
  have hn := Nat.div_add_mod n wordSize
  rw [← hround] at hn
  rw [wordOf, wordOf]
  omega

theorem eq_of_word_eq {m n : ℕ} (hround : m / wordSize = n / wordSize) (h : wordOf m = wordOf n) :
    m = n := by
  have hm := Nat.div_add_mod m wordSize
  have hn := Nat.div_add_mod n wordSize
  rw [← hround] at hn
  rw [wordOf, wordOf] at h
  omega

/-- Between two numbers that have gone round equally often all others have, too. -/
theorem div_eq_of_between {m l n : ℕ} (hround : n / wordSize = m / wordSize) (hml : m ≤ l)
    (hln : l ≤ n) : n / wordSize = l / wordSize := by
  have h := Nat.div_le_div_right (c := wordSize) hml
  have h' := Nat.div_le_div_right (c := wordSize) hln
  omega

/-! ## The processes -/

/-- Where a process is. -/
inductive FIFOPhase : Type where
  /-- in no call, and without the lock -/
  | idle
  /-- in `dragon_fifo_lock`: the thread lock, the node, its lock, and the main lock -/
  | lockThr
  | lockThrWait (my_ticket : ℕ)
  | lockNode
  | lockTicket
  | lockWait
  | lockStore
  | lockServe
  /-- in `dragon_fifo_try_lock`: before each of the loads and compare-and-swaps, with what the
  loads before it have found -/
  | tryThr
  | tryThrLoaded (cticket : ℕ)
  | tryThrCas (now_serve : ℕ)
  | tryNode
  | tryTicket
  | tryTicketLoaded (cticket : ℕ)
  | tryTicketCas (now_serve : ℕ)
  | tryMain
  | tryMainLoaded (cticket : ℕ)
  | tryMainCas (now_serve : ℕ)
  | tryUnlock
  /-- in no call, and with the lock -/
  | held
  /-- in `dragon_fifo_unlock` -/
  | unlockMain
  | unlockNode
  | unlockThr
  deriving DecidableEq

/-- How far a process has come: it has a ticket of its node (1), the lock of its node (2), the
lock (3). -/
def FIFOPhase.level : FIFOPhase → ℕ
  | .lockWait => 1
  | .lockStore | .lockServe | .tryMain | .tryMainLoaded _ | .tryMainCas _ => 2
  | .tryUnlock | .unlockNode => 2
  | .held | .unlockMain => 3
  | _ => 0

/-- A `dragonFIFOLock_t`, with the process that uses it. -/
structure FIFOHandle where
  thr_lock : FIFOLiteLock
  my_node : ℕ
  my_ticket : ℕ
  phase : FIFOPhase
  deriving DecidableEq

structure FIFOLock (π : Type*) where
  now_serving : ℕ
  ticket_counter : ℕ
  node_counter : ℕ
  nodes : ℕ → FIFOLiteLock
  handle : π → FIFOHandle

inductive FIFOAction : Type where
  | lock
  | tryLock
  | unlock
  /-- the next step of a call -/
  | advance
  deriving DecidableEq

namespace FIFOLock

variable {π : Type*} [DecidableEq π]

/-- A lock that was just initialised, with the handles that are going to be used. -/
def init : FIFOLock π where
  now_serving := 0
  ticket_counter := 0
  node_counter := 0
  nodes := fun _ => ⟨0, 0⟩
  handle := fun _ => ⟨⟨0, 0⟩, 0, 0, .idle⟩

def setHandle (s : FIFOLock π) (p : π) (h : FIFOHandle) : FIFOLock π :=
  { s with handle := Function.update s.handle p h }

def goTo (s : FIFOLock π) (p : π) (phase : FIFOPhase) : FIFOLock π :=
  s.setHandle p { s.handle p with phase := phase }

/-- The node of a process. -/
def node (s : FIFOLock π) (p : π) : FIFOLiteLock := s.nodes (s.handle p).my_node

def setNode (s : FIFOLock π) (p : π) (l : FIFOLiteLock) : FIFOLock π :=
  { s with nodes := Function.update s.nodes (s.handle p).my_node l }

/-- The node behind a node. -/
def nextNode (my_node : ℕ) : ℕ :=
  if lockNodeFanout ≤ my_node + 1 then my_node + 1 - lockNodeFanout else my_node + 1

/-- The node that `_dragon_get_node` is going to draw. -/
def drawnNode (s : FIFOLock π) : ℕ := wordOf s.node_counter % lockNodeFanout

/-- `_dragon_get_node` -/
def getNode (s : FIFOLock π) (p : π) (phase : FIFOPhase) : FIFOLock π :=
  { s with node_counter := s.node_counter + 1 }.setHandle p
    { s.handle p with my_node := s.drawnNode, phase := phase }

/-- A ticket of the own node is drawn. -/
def drawTicket (s : FIFOLock π) (p : π) (phase : FIFOPhase) : FIFOLock π :=
  (s.setNode p (s.node p).draw).setHandle p
    { s.handle p with my_ticket := (s.node p).ticket_counter, phase := phase }

/-- `_dragon_node_unlock` -/
def nodeUnlock (s : FIFOLock π) (p : π) (phase : FIFOPhase) : FIFOLock π :=
  (s.setNode p (s.node p).release).goTo p phase

/-- The thread lock of the handle changes. -/
def setThr (s : FIFOLock π) (p : π) (l : FIFOLiteLock) (phase : FIFOPhase) : FIFOLock π :=
  s.setHandle p { s.handle p with thr_lock := l, phase := phase }

/-- The next step of `dragon_fifo_lock`, `dragon_fifo_try_lock` or `dragon_fifo_unlock`. -/
def advance (s : FIFOLock π) (p : π) : FIFOLock π :=
  match (s.handle p).phase with
  | .idle => s
  | .held => s
  -- `dragon_fifolite_lock` of the thread lock
  | .lockThr =>
    s.setThr p (s.handle p).thr_lock.draw (.lockThrWait (s.handle p).thr_lock.ticket_counter)
  | .lockThrWait my_ticket =>
    if (s.handle p).thr_lock.Waits my_ticket then s else s.goTo p .lockNode
  | .lockNode => s.getNode p .lockTicket
  -- `_dragon_node_lock`
  | .lockTicket => s.drawTicket p .lockWait
  | .lockWait => if (s.node p).Waits (s.handle p).my_ticket then s else s.goTo p .lockStore
  | .lockStore => { s with ticket_counter := nextNode (s.handle p).my_node }.goTo p .lockServe
  | .lockServe => if (s.handle p).my_node ≠ s.now_serving then s else s.goTo p .held
  -- `dragon_fifolite_try_lock` of the thread lock
  | .tryThr => s.goTo p (.tryThrLoaded (s.handle p).thr_lock.ticket_counter)
  | .tryThrLoaded cticket =>
    if wordOf cticket = wordOf (s.handle p).thr_lock.now_serving then
      s.goTo p (.tryThrCas (s.handle p).thr_lock.now_serving)
    else s.goTo p .idle
  | .tryThrCas now_serve =>
    if wordOf (s.handle p).thr_lock.ticket_counter = wordOf now_serve then
      s.setThr p (s.handle p).thr_lock.draw .tryNode
    else s.goTo p .idle
  | .tryNode => s.getNode p .tryTicket
  -- `_dragon_node_try_lock`
  | .tryTicket => s.goTo p (.tryTicketLoaded (s.node p).ticket_counter)
  | .tryTicketLoaded cticket =>
    if wordOf cticket = wordOf (s.node p).now_serving then
      s.goTo p (.tryTicketCas (s.node p).now_serving)
    else s.goTo p .idle
  | .tryTicketCas now_serve =>
    if wordOf (s.node p).ticket_counter = wordOf now_serve then s.drawTicket p .tryMain
    else s.goTo p .idle
  | .tryMain => s.goTo p (.tryMainLoaded s.ticket_counter)
  | .tryMainLoaded cticket =>
    if cticket = s.now_serving then s.goTo p (.tryMainCas s.now_serving)
    else s.goTo p .tryUnlock
  | .tryMainCas now_serve =>
    if s.ticket_counter = now_serve then
      { s with ticket_counter := now_serve + 1 }.goTo p .held
    else s.goTo p .tryUnlock
  -- the lock of the node is given back, and the thread lock is not
  | .tryUnlock => s.nodeUnlock p .idle
  | .unlockMain => { s with now_serving := nextNode (s.handle p).my_node }.goTo p .unlockNode
  | .unlockNode => s.nodeUnlock p .unlockThr
  | .unlockThr => s.setThr p (s.handle p).thr_lock.release .idle

/-- A process in no call begins one: the lock is released by its holder only. -/
def exec (s : FIFOLock π) (a : π × FIFOAction) : FIFOLock π :=
  match a.2 with
  | .lock => if (s.handle a.1).phase = .idle then s.goTo a.1 .lockThr else s
  | .tryLock => if (s.handle a.1).phase = .idle then s.goTo a.1 .tryThr else s
  | .unlock => if (s.handle a.1).phase = .held then s.goTo a.1 .unlockMain else s
  | .advance => s.advance a.1

/-- A process is between its acquisition of the lock and the release. -/
def Holds (s : FIFOLock π) (p : π) : Prop := 3 ≤ (s.handle p).phase.level

instance (s : FIFOLock π) (p : π) : Decidable (s.Holds p) := inferInstanceAs (Decidable (_ ≤ _))

/-- At most one process holds the lock. -/
def MutuallyExclusive (s : FIFOLock π) : Prop := ∀ p q, s.Holds p → s.Holds q → p = q

/-! ## What makes the lock exclusive -/

/-- No ticket counter has gone round between the ticket that is served and the one that is drawn,
or between the load and the compare-and-swap. -/
def InStep (s : FIFOLock π) (p : π) : FIFOPhase → Prop
  | .lockTicket => (s.node p).ticket_counter / wordSize = (s.node p).now_serving / wordSize
  | .tryTicketCas now_serve => wordOf (s.node p).ticket_counter = wordOf now_serve →
      (s.node p).ticket_counter / wordSize = now_serve / wordSize
  | _ => True

/-- A compare-and-swap of the ticket counter succeeds only for the node that is served. -/
def Rightful (s : FIFOLock π) (p : π) : FIFOPhase → Prop
  | .tryMainCas now_serve => s.ticket_counter = now_serve → (s.handle p).my_node = s.now_serving
  | _ => True

/-- The condition on a step. -/
def Orderly (s : FIFOLock π) (a : π × FIFOAction) : Prop :=
  a.2 = .advance → s.InStep a.1 (s.handle a.1).phase ∧ s.Rightful a.1 (s.handle a.1).phase

instance (s : FIFOLock π) (p : π) (phase : FIFOPhase) : Decidable (s.InStep p phase) := by
  cases phase
  case lockTicket => exact inferInstanceAs (Decidable (_ = _))
  case tryTicketCas => exact inferInstanceAs (Decidable (_ → _))
  all_goals exact isTrue trivial

instance (s : FIFOLock π) (p : π) (phase : FIFOPhase) : Decidable (s.Rightful p phase) := by
  cases phase
  case tryMainCas => exact inferInstanceAs (Decidable (_ → _))
  all_goals exact isTrue trivial

instance (s : FIFOLock π) (a : π × FIFOAction) : Decidable (s.Orderly a) :=
  inferInstanceAs (Decidable (_ → _))

/-- The tickets of each node, and who has the lock of a node and the lock. -/
structure Exclusive (s : FIFOLock π) : Prop where
  le : ∀ k, (s.nodes k).now_serving ≤ (s.nodes k).ticket_counter
  ticket : ∀ p, 1 ≤ (s.handle p).phase.level → (s.node p).now_serving ≤ (s.handle p).my_ticket ∧
    (s.handle p).my_ticket < (s.node p).ticket_counter
  round : ∀ p, 1 ≤ (s.handle p).phase.level →
    (s.handle p).my_ticket / wordSize = (s.node p).now_serving / wordSize
  distinct : ∀ p q, 1 ≤ (s.handle p).phase.level → 1 ≤ (s.handle q).phase.level →
    (s.handle p).my_node = (s.handle q).my_node →
    (s.handle p).my_ticket = (s.handle q).my_ticket → p = q
  /-- each ticket that is not served to the end is in someone's hand -/
  owned : ∀ k t, (s.nodes k).now_serving ≤ t → t < (s.nodes k).ticket_counter →
    ∃ p, 1 ≤ (s.handle p).phase.level ∧ (s.handle p).my_node = k ∧ (s.handle p).my_ticket = t
  served : ∀ p, 2 ≤ (s.handle p).phase.level → (s.handle p).my_ticket = (s.node p).now_serving
  main : ∀ p, 3 ≤ (s.handle p).phase.level → (s.handle p).my_node = s.now_serving
  loaded : ∀ p now_serve, (s.handle p).phase = .tryTicketCas now_serve →
    now_serve ≤ (s.node p).now_serving

namespace Exclusive

variable {s : FIFOLock π}

variable {p : π} {s' : FIFOLock π} {phase : FIFOPhase}

omit [DecidableEq π] in
/-- Two processes with the lock of one node are the same. -/
theorem eq_of_node (h : s.Exclusive) {q : π} (hp : 2 ≤ (s.handle p).phase.level)
    (hq : 2 ≤ (s.handle q).phase.level) (hnode : (s.handle p).my_node = (s.handle q).my_node) :
    p = q := by
  refine h.distinct p q (Nat.le_of_succ_le hp) (Nat.le_of_succ_le hq) hnode ?_
  rw [h.served p hp, h.served q hq, node, node, hnode]

omit [DecidableEq π] in
theorem mutuallyExclusive (h : s.Exclusive) : s.MutuallyExclusive := by
  intro p q hp hq
  refine h.eq_of_node (Nat.le_of_succ_le hp) (Nat.le_of_succ_le hq) ?_
  rw [h.main p hp, h.main q hq]

omit [DecidableEq π] in
theorem init : (FIFOLock.init : FIFOLock π).Exclusive where
  le := fun _ => Nat.le_refl 0
  ticket := fun _ h => absurd h (Nat.not_succ_le_zero 0)
  round := fun _ h => absurd h (Nat.not_succ_le_zero 0)
  distinct := fun _ _ h => absurd h (Nat.not_succ_le_zero 0)
  owned := fun _ t _ h => absurd h (Nat.not_lt_zero t)
  served := fun _ h => absurd h (Nat.not_succ_le_zero 1)
  main := fun _ h => absurd h (Nat.not_succ_le_zero 2)
  loaded := nofun

/-- A process goes to another phase without a change at the locks of the nodes. -/
theorem goes (h : s.Exclusive) {handle : FIFOHandle} (hnodes : s'.nodes = s.nodes)
    (hhandle : s'.handle = Function.update s.handle p handle)
    (hlevel : 1 ≤ handle.phase.level ↔ 1 ≤ (s.handle p).phase.level)
    (hsame : 1 ≤ handle.phase.level → handle.my_node = (s.handle p).my_node ∧
      handle.my_ticket = (s.handle p).my_ticket)
    (hserved : 2 ≤ handle.phase.level → (s.handle p).my_ticket = (s.node p).now_serving)
    (hmain : 3 ≤ handle.phase.level → (s.handle p).my_node = s'.now_serving)
    (hothers : ∀ q, q ≠ p → 3 ≤ (s.handle q).phase.level → (s.handle q).my_node = s'.now_serving)
    (hloaded : ∀ now_serve, handle.phase = .tryTicketCas now_serve →
      now_serve ≤ (s.nodes handle.my_node).now_serving) : s'.Exclusive := by
  have hp : s'.handle p = handle := by
    rw [hhandle, Function.update_self]
  have hother : ∀ q, q ≠ p → s'.handle q = s.handle q := by
    intro q hq
    rw [hhandle, Function.update_of_ne hq]
  -- a process that has a ticket has the same one as before
  have hkept : ∀ q, 1 ≤ (s'.handle q).phase.level → 1 ≤ (s.handle q).phase.level ∧
      (s'.handle q).my_node = (s.handle q).my_node ∧
      (s'.handle q).my_ticket = (s.handle q).my_ticket ∧ s'.node q = s.node q := by
    intro q hq
    by_cases hqp : q = p
    · rw [hqp, hp] at hq
      obtain ⟨hnode, hticket⟩ := hsame hq
      rw [hqp, node, node, hnodes, hp]
      exact ⟨hlevel.1 hq, hnode, hticket, congrArg s.nodes hnode⟩
    · rw [hother q hqp] at hq
      rw [node, node, hnodes, hother q hqp]
      exact ⟨hq, rfl, rfl, rfl⟩
  constructor
  · rw [hnodes]
    exact h.le
  · intro q hq
    obtain ⟨hq', -, hticket, hnode⟩ := hkept q hq
    rw [hnode, hticket]
    exact h.ticket q hq'
  · intro q hq
    obtain ⟨hq', -, hticket, hnode⟩ := hkept q hq
    rw [hnode, hticket]
    exact h.round q hq'
  · intro q r hq hr
    obtain ⟨hq', hqn, hqt, -⟩ := hkept q hq
    obtain ⟨hr', hrn, hrt, -⟩ := hkept r hr
    rw [hqn, hqt, hrn, hrt]
    exact h.distinct q r hq' hr'
  · intro k t hle hlt
    rw [hnodes] at hle hlt
    obtain ⟨q, hq, hk, ht⟩ := h.owned k t hle hlt
    have hq' : 1 ≤ (s'.handle q).phase.level := by
      by_cases hqp : q = p
      · rw [hqp, hp]
        exact hlevel.2 (hqp ▸ hq)
      · rw [hother q hqp]
        exact hq
    obtain ⟨-, hqn, hqt, -⟩ := hkept q hq'
    exact ⟨q, hq', hqn.trans hk, hqt.trans ht⟩
  · intro q hq
    obtain ⟨-, -, hticket, hnode⟩ := hkept q (Nat.le_of_succ_le hq)
    rw [hnode, hticket]
    by_cases hqp : q = p
    · rw [hqp, hp] at hq
      rw [hqp]
      exact hserved hq
    · rw [hother q hqp] at hq
      exact h.served q hq
  · intro q hq
    obtain ⟨-, hnode, -, -⟩ := hkept q (Nat.le_of_succ_le (Nat.le_of_succ_le hq))
    rw [hnode]
    by_cases hqp : q = p
    · rw [hqp, hp] at hq
      rw [hqp]
      exact hmain hq
    · rw [hother q hqp] at hq
      exact hothers q hqp hq
  · intro q now_serve hq
    rw [node, hnodes]
    by_cases hqp : q = p
    · rw [hqp, hp] at hq ⊢
      exact hloaded now_serve hq
    · rw [hother q hqp] at hq ⊢
      exact h.loaded q now_serve hq

/-- A process that has no ticket draws one, and it is served or has to wait. -/
theorem drawTicket (h : s.Exclusive) (hold : (s.handle p).phase.level = 0)
    (hround : (s.node p).ticket_counter / wordSize = (s.node p).now_serving / wordSize)
    (hlevel : phase.level = 1 ∨
      phase.level = 2 ∧ (s.node p).ticket_counter = (s.node p).now_serving) :
    (s.drawTicket p phase).Exclusive := by
  have hp : (s.drawTicket p phase).handle p = { s.handle p with
      my_ticket := (s.node p).ticket_counter, phase := phase } := Function.update_self ..
  have hother : ∀ q, q ≠ p → (s.drawTicket p phase).handle q = s.handle q :=
    fun q hq => Function.update_of_ne hq ..
  have hserving : ∀ k, ((s.drawTicket p phase).nodes k).now_serving = (s.nodes k).now_serving := by
    intro k
    show (Function.update s.nodes (s.handle p).my_node (s.node p).draw k).now_serving = _
    by_cases hk : k = (s.handle p).my_node
    · rw [hk, Function.update_self]
      rfl
    · rw [Function.update_of_ne hk]
  have hcounter : ((s.drawTicket p phase).nodes (s.handle p).my_node).ticket_counter
      = (s.node p).ticket_counter + 1 := by
    show (Function.update s.nodes (s.handle p).my_node (s.node p).draw _).ticket_counter = _
    rw [Function.update_self]
    rfl
  have hcounter' : ∀ k, k ≠ (s.handle p).my_node →
      (s.drawTicket p phase).nodes k = s.nodes k := fun k hk => Function.update_of_ne hk ..
  have hmono : ∀ k, (s.nodes k).ticket_counter
      ≤ ((s.drawTicket p phase).nodes k).ticket_counter := by
    intro k
    by_cases hk : k = (s.handle p).my_node
    · rw [hk, hcounter]
      exact Nat.le_succ _
    · rw [hcounter' k hk]
  have hle : (s.node p).now_serving ≤ (s.node p).ticket_counter := h.le _
  -- the others' tickets of the node are below the one that is drawn
  have hbelow : ∀ q, 1 ≤ (s.handle q).phase.level → (s.handle q).my_node = (s.handle p).my_node →
      (s.handle q).my_ticket ≠ (s.node p).ticket_counter := by
    intro q hq hnode
    have hlt := (h.ticket q hq).2
    rw [node, hnode] at hlt
    exact Nat.ne_of_lt hlt
  have hnode : ∀ q, ((s.drawTicket p phase).handle q).my_node = (s.handle q).my_node := by
    intro q
    by_cases hqp : q = p
    · rw [hqp, hp]
    · rw [hother q hqp]
  have hnow : ∀ q, ((s.drawTicket p phase).node q).now_serving = (s.node q).now_serving := by
    intro q
    rw [node, hserving, hnode, node]
  constructor
  · intro k
    rw [hserving]
    exact (h.le k).trans (hmono k)
  · intro q hq
    rw [hnow]
    by_cases hqp : q = p
    · have hdrawn : ((s.drawTicket p phase).node p).ticket_counter
          = (s.node p).ticket_counter + 1 := by
        rw [node, hnode, hcounter]
      rw [hqp, hp, hdrawn]
      exact ⟨hle, Nat.lt_succ_self _⟩
    · rw [hother q hqp] at hq
      rw [node, node, hother q hqp]
      exact ⟨(h.ticket q hq).1, lt_of_lt_of_le (h.ticket q hq).2 (hmono _)⟩
  · intro q hq
    rw [hnow]
    by_cases hqp : q = p
    · rw [hqp, hp]
      exact hround
    · rw [hother q hqp] at hq ⊢
      exact h.round q hq
  · intro q r hq hr hnodes htickets
    by_cases hqp : q = p
    · by_cases hrp : r = p
      · rw [hqp, hrp]
      · subst hqp
        rw [hother r hrp] at hr hnodes htickets
        rw [hp] at hnodes htickets
        exact absurd htickets.symm (hbelow r hr hnodes.symm)
    · rw [hother q hqp] at hq hnodes htickets
      by_cases hrp : r = p
      · subst hrp
        rw [hp] at hnodes htickets
        exact absurd htickets (hbelow q hq hnodes)
      · rw [hother r hrp] at hr hnodes htickets
        exact h.distinct q r hq hr hnodes htickets
  · intro k t hkt htk
    rw [hserving] at hkt
    by_cases ht : t < (s.nodes k).ticket_counter
    · obtain ⟨q, hq, hk, htq⟩ := h.owned k t hkt ht
      have hqp : q ≠ p := by
        rintro rfl
        omega
      exact ⟨q, by rw [hother q hqp]; exact ⟨hq, hk, htq⟩⟩
    · -- the ticket that was just drawn
      by_cases hk : k = (s.handle p).my_node
      · subst hk
        rw [hcounter] at htk
        refine ⟨p, ?_, ?_, ?_⟩
        · rw [hp]
          show 1 ≤ phase.level
          omega
        · rw [hp]
        · rw [hp]
          show (s.nodes (s.handle p).my_node).ticket_counter = t
          exact Nat.le_antisymm (Nat.le_of_not_lt ht) (Nat.le_of_lt_succ htk)
      · rw [hcounter' k hk] at htk
        exact absurd htk ht
  · intro q hq
    rw [hnow]
    by_cases hqp : q = p
    · rw [hqp, hp] at hq ⊢
      replace hq : 2 ≤ phase.level := hq
      rcases hlevel with hlevel | ⟨-, hserved⟩
      · omega
      · exact hserved
    · rw [hother q hqp] at hq ⊢
      exact h.served q hq
  · intro q hq
    by_cases hqp : q = p
    · rw [hqp, hp] at hq
      replace hq : 3 ≤ phase.level := hq
      omega
    · rw [hother q hqp] at hq ⊢
      exact h.main q hq
  · intro q now_serve hq
    rw [hnow]
    by_cases hqp : q = p
    · rw [hqp, hp] at hq
      replace hq : phase = .tryTicketCas now_serve := hq
      rw [hq, show (FIFOPhase.tryTicketCas now_serve).level = 0 from rfl] at hlevel
      omega
    · rw [hother q hqp] at hq
      exact h.loaded q now_serve hq

/-- A process gives back the lock of its node. -/
theorem nodeUnlock (h : s.Exclusive) (hold : 2 ≤ (s.handle p).phase.level)
    (hlevel : phase.level = 0) (hphase : ∀ now_serve, phase ≠ .tryTicketCas now_serve) :
    (s.nodeUnlock p phase).Exclusive := by
  have hp : (s.nodeUnlock p phase).handle p = { s.handle p with phase := phase } :=
    Function.update_self ..
  have hother : ∀ q, q ≠ p → (s.nodeUnlock p phase).handle q = s.handle q :=
    fun q hq => Function.update_of_ne hq ..
  have hcounter : ∀ k, ((s.nodeUnlock p phase).nodes k).ticket_counter
      = (s.nodes k).ticket_counter := by
    intro k
    show (Function.update s.nodes (s.handle p).my_node (s.node p).release k).ticket_counter = _
    by_cases hk : k = (s.handle p).my_node
    · rw [hk, Function.update_self]
      rfl
    · rw [Function.update_of_ne hk]
  have hserving : ((s.nodeUnlock p phase).nodes (s.handle p).my_node).now_serving
      = (s.node p).now_serving + 1 := by
    show (Function.update s.nodes (s.handle p).my_node (s.node p).release _).now_serving = _
    rw [Function.update_self]
    rfl
  have hserving' : ∀ k, k ≠ (s.handle p).my_node →
      (s.nodeUnlock p phase).nodes k = s.nodes k := fun k hk => Function.update_of_ne hk ..
  have hmono : ∀ k, (s.nodes k).now_serving
      ≤ ((s.nodeUnlock p phase).nodes k).now_serving := by
    intro k
    by_cases hk : k = (s.handle p).my_node
    · rw [hk, hserving]
      exact Nat.le_succ _
    · rw [hserving' k hk]
  have hnode : ∀ q, ((s.nodeUnlock p phase).handle q).my_node = (s.handle q).my_node := by
    intro q
    by_cases hqp : q = p
    · rw [hqp, hp]
    · rw [hother q hqp]
  -- who has a ticket afterwards is another process, and one of the same node is not served before
  have hne : ∀ q, 1 ≤ ((s.nodeUnlock p phase).handle q).phase.level → q ≠ p := by
    rintro q hq rfl
    rw [hp] at hq
    replace hq : 1 ≤ phase.level := hq
    omega
  have hticket : ∀ q, q ≠ p → 1 ≤ (s.handle q).phase.level →
      ((s.nodeUnlock p phase).node q).now_serving ≤ (s.handle q).my_ticket := by
    intro q hqp hq
    have hle := (h.ticket q hq).1
    rw [node, hnode]
    by_cases hk : (s.handle q).my_node = (s.handle p).my_node
    · have hneq : (s.handle q).my_ticket ≠ (s.handle p).my_ticket :=
        fun heq => hqp (h.distinct q p hq (Nat.le_of_succ_le hold) hk heq)
      rw [h.served p hold] at hneq
      rw [hk, hserving]
      rw [node, hk] at hle
      exact lt_of_le_of_ne hle hneq.symm
    · rw [hserving' _ hk]
      exact hle
  constructor
  · intro k
    rw [hcounter]
    by_cases hk : k = (s.handle p).my_node
    · rw [hk, hserving]
      have hlt := (h.ticket p (Nat.le_of_succ_le hold)).2
      rw [h.served p hold] at hlt
      exact hlt
    · rw [hserving' k hk]
      exact h.le k
  · intro q hq
    have hqp := hne q hq
    rw [hother q hqp] at hq
    refine ⟨?_, ?_⟩
    · rw [hother q hqp]
      exact hticket q hqp hq
    · rw [node, hcounter, hnode, hother q hqp]
      exact (h.ticket q hq).2
  · intro q hq
    have hqp := hne q hq
    rw [hother q hqp] at hq
    have hle := hticket q hqp hq
    have hround := h.round q hq
    rw [hother q hqp]
    refine div_eq_of_between hround ?_ hle
    rw [node, node, hnode]
    exact hmono _
  · intro q r hq hr
    have hqp := hne q hq
    have hrp := hne r hr
    rw [hother q hqp] at hq ⊢
    rw [hother r hrp] at hr ⊢
    exact h.distinct q r hq hr
  · intro k t hkt htk
    rw [hcounter] at htk
    obtain ⟨q, hq, hk, htq⟩ := h.owned k t ((hmono k).trans hkt) htk
    have hqp : q ≠ p := by
      rintro rfl
      have hserved := h.served q hold
      rw [← hk, hserving, ← hserved, htq] at hkt
      exact Nat.not_succ_le_self t hkt
    exact ⟨q, by rw [hother q hqp]; exact ⟨hq, hk, htq⟩⟩
  · intro q hq
    have hqp := hne q (Nat.le_of_succ_le hq)
    rw [hother q hqp] at hq
    have hnodes : (s.handle q).my_node ≠ (s.handle p).my_node :=
      fun heq => hqp (h.eq_of_node hq hold heq)
    rw [node, hnode, hserving' _ hnodes, hother q hqp]
    exact h.served q hq
  · intro q hq
    have hqp := hne q (Nat.le_of_succ_le (Nat.le_of_succ_le hq))
    rw [hother q hqp] at hq ⊢
    exact h.main q hq
  · intro q now_serve hq
    by_cases hqp : q = p
    · rw [hqp, hp] at hq
      exact absurd hq (hphase now_serve)
    · rw [hother q hqp] at hq
      refine (h.loaded q now_serve hq).trans ?_
      rw [node, node, hnode]
      exact hmono _

/-- A step within a level, of a process that stays at its node. -/
theorem moves (h : s.Exclusive) {old : FIFOPhase} {thr_lock : FIFOLiteLock}
    (hold : (s.handle p).phase = old) (hnodes : s'.nodes = s.nodes)
    (hserving : s'.now_serving = s.now_serving) (hhandle : s'.handle = Function.update s.handle p
      { s.handle p with thr_lock := thr_lock, phase := phase }) (hlevel : phase.level = old.level)
    (hloaded : ∀ now_serve, phase = .tryTicketCas now_serve →
      now_serve ≤ (s.node p).now_serving) : s'.Exclusive := by
  rw [← hold] at hlevel
  refine h.goes hnodes hhandle (by rw [hlevel]) (fun _ => ⟨rfl, rfl⟩) ?_ ?_ ?_ hloaded
  · intro hle
    exact h.served p (hlevel ▸ hle)
  · intro hle
    rw [hserving]
    exact h.main p (hlevel ▸ hle)
  · intro q _ hq
    rw [hserving]
    exact h.main q hq

/-- A process without a ticket draws its node. -/
theorem getNode (h : s.Exclusive) (hold : (s.handle p).phase.level = 0) (hlevel : phase.level = 0)
    (hphase : ∀ now_serve, phase ≠ .tryTicketCas now_serve) : (s.getNode p phase).Exclusive := by
  refine h.goes rfl rfl ?_ ?_ ?_ ?_ (fun q _ hq => h.main q hq) ?_
  · show 1 ≤ phase.level ↔ _
    omega
  · intro (hle : 1 ≤ phase.level)
    omega
  · intro (hle : 2 ≤ phase.level)
    omega
  · intro (hle : 3 ≤ phase.level)
    omega
  · exact fun now_serve heq => absurd heq (hphase now_serve)

/-- A process whose node is served takes the lock. -/
theorem acquire (h : s.Exclusive) (hnodes : s'.nodes = s.nodes)
    (hserving : s'.now_serving = s.now_serving)
    (hhandle : s'.handle = Function.update s.handle p { s.handle p with phase := .held })
    (hold : (s.handle p).phase.level = 2) (hmain : (s.handle p).my_node = s.now_serving) :
    s'.Exclusive := by
  refine h.goes hnodes hhandle ?_ (fun _ => ⟨rfl, rfl⟩) (fun _ => h.served p hold.ge) ?_ ?_ ?_
  · rw [hold]
    show 1 ≤ 3 ↔ 1 ≤ 2
    decide
  · exact fun _ => hmain.trans hserving.symm
  · intro q _ hq
    rw [hserving]
    exact h.main q hq
  · exact fun now_serve heq => nomatch heq

/-- The holder lets the next node go first: nobody else holds the lock. -/
theorem unlockMain (h : s.Exclusive) (hnodes : s'.nodes = s.nodes)
    (hhandle : s'.handle = Function.update s.handle p { s.handle p with phase := .unlockNode })
    (hold : (s.handle p).phase.level = 3) : s'.Exclusive := by
  refine h.goes hnodes hhandle ?_ (fun _ => ⟨rfl, rfl⟩) ?_ ?_ ?_ ?_
  · rw [hold]
    show 1 ≤ 2 ↔ 1 ≤ 3
    decide
  · intro _
    exact h.served p (hold ▸ by decide)
  · intro (hle : 3 ≤ 2)
    omega
  · intro q hqp hq
    exact absurd (h.mutuallyExclusive q p hq hold.ge) hqp
  · exact fun now_serve heq => nomatch heq

theorem advance (h : s.Exclusive) (hstep : s.InStep p (s.handle p).phase)
    (hright : s.Rightful p (s.handle p).phase) : (s.advance p).Exclusive := by
  rw [FIFOLock.advance]
  cases hphase : (s.handle p).phase with
  | idle => exact h
  | held => exact h
  | lockThr => exact h.moves hphase rfl rfl rfl rfl nofun
  | lockThrWait =>
    show (ite _ _ _ : FIFOLock π).Exclusive
    split
    · exact h
    · exact h.moves hphase rfl rfl rfl rfl nofun
  | lockNode => exact h.getNode (by rw [hphase]; rfl) rfl nofun
  | lockTicket =>
    rw [hphase] at hstep
    exact h.drawTicket (by rw [hphase]; rfl) hstep (Or.inl rfl)
  | lockWait =>
    have hlevel : 1 ≤ (s.handle p).phase.level := by
      rw [hphase]
      decide
    show (ite _ _ _ : FIFOLock π).Exclusive
    by_cases hwait : (s.node p).Waits (s.handle p).my_ticket
    · rw [if_pos hwait]
      exact h
    · rw [if_neg hwait]
      -- a ticket that does not wait is the one that is served
      have hserved : (s.handle p).my_ticket = (s.node p).now_serving := by
        refine ((h.ticket p hlevel).1.eq_or_lt.resolve_right fun hlt => hwait ?_).symm
        exact word_lt_word (h.round p hlevel).symm hlt
      refine h.goes rfl rfl ?_ (fun _ => ⟨rfl, rfl⟩) (fun _ => hserved) ?_
        (fun q _ hq => h.main q hq) nofun
      · rw [hphase]
        show 1 ≤ 2 ↔ 1 ≤ 1
        decide
      · intro (hle : 3 ≤ 2)
        exact absurd hle (by decide)
  | lockStore => exact h.moves hphase rfl rfl rfl rfl nofun
  | lockServe =>
    show (ite _ _ _ : FIFOLock π).Exclusive
    by_cases hserve : (s.handle p).my_node = s.now_serving
    · rw [if_neg (not_not_intro hserve)]
      exact h.acquire rfl rfl rfl (by rw [hphase]; rfl) hserve
    · rw [if_pos hserve]
      exact h
  | tryThr => exact h.moves hphase rfl rfl rfl rfl nofun
  | tryThrLoaded | tryThrCas =>
    show (ite _ _ _ : FIFOLock π).Exclusive
    split
    · exact h.moves hphase rfl rfl rfl rfl nofun
    · exact h.moves hphase rfl rfl rfl rfl nofun
  | tryNode => exact h.getNode (by rw [hphase]; rfl) rfl nofun
  | tryTicket => exact h.moves hphase rfl rfl rfl rfl nofun
  | tryTicketLoaded =>
    show (ite _ _ _ : FIFOLock π).Exclusive
    split
    · refine h.moves hphase rfl rfl rfl rfl ?_
      rintro _ ⟨⟩
      exact Nat.le_refl _
    · exact h.moves hphase rfl rfl rfl rfl nofun
  | tryTicketCas now_serve =>
    rw [hphase] at hstep
    show (ite _ _ _ : FIFOLock π).Exclusive
    by_cases hcas : wordOf (s.node p).ticket_counter = wordOf now_serve
    · rw [if_pos hcas]
      -- the counter is what was loaded, and the ticket served has not passed it
      have hloaded := h.loaded p now_serve hphase
      have heq := eq_of_word_eq (hstep hcas) hcas
      have hle : (s.node p).now_serving ≤ (s.node p).ticket_counter := h.le _
      have hserved := Nat.le_antisymm (heq ▸ hloaded) hle
      refine h.drawTicket (by rw [hphase]; rfl) ?_ (Or.inr ⟨rfl, hserved⟩)
      rw [hserved]
    · rw [if_neg hcas]
      exact h.moves hphase rfl rfl rfl rfl nofun
  | tryMain => exact h.moves hphase rfl rfl rfl rfl nofun
  | tryMainLoaded =>
    show (ite _ _ _ : FIFOLock π).Exclusive
    split
    · exact h.moves hphase rfl rfl rfl rfl nofun
    · exact h.moves hphase rfl rfl rfl rfl nofun
  | tryMainCas now_serve =>
    rw [hphase] at hright
    show (ite _ _ _ : FIFOLock π).Exclusive
    by_cases hcas : s.ticket_counter = now_serve
    · rw [if_pos hcas]
      exact h.acquire rfl rfl rfl (by rw [hphase]; rfl) (hright hcas)
    · rw [if_neg hcas]
      exact h.moves hphase rfl rfl rfl rfl nofun
  | tryUnlock =>
    exact h.nodeUnlock (by rw [hphase]; decide) rfl nofun
  | unlockMain => exact h.unlockMain rfl rfl (by rw [hphase]; rfl)
  | unlockNode =>
    exact h.nodeUnlock (by rw [hphase]; decide) rfl nofun
  | unlockThr => exact h.moves hphase rfl rfl rfl rfl nofun

theorem exec (h : s.Exclusive) (a : π × FIFOAction) (hok : s.Orderly a) : (s.exec a).Exclusive := by
  obtain ⟨p, a⟩ := a
  cases a with
  | lock | tryLock | unlock =>
    show (ite _ _ _ : FIFOLock π).Exclusive
    split
    next hphase => exact h.moves hphase rfl rfl rfl rfl nofun
    next => exact h
  | advance =>
    obtain ⟨hstep, hright⟩ := hok rfl
    exact h.advance hstep hright

theorem run {actions : List (π × FIFOAction)}
    (hactions : Runs.Legal FIFOLock.exec Orderly FIFOLock.init actions) :
    (actions.foldl FIFOLock.exec FIFOLock.init).Exclusive :=
  hactions.invariant (fun _ a h hok => h.exec a hok) .init

end Exclusive

/-- **Mutual exclusion.**  It is kept in every run in which a compare-and-swap of the ticket counter
succeeds only for the node that is served, and no counter goes round under a ticket. -/
theorem mutuallyExclusive_of_orderly (actions : List (π × FIFOAction))
    (hactions : Runs.Legal exec Orderly init actions) :
    (actions.foldl exec init).MutuallyExclusive :=
  (Exclusive.run hactions).mutuallyExclusive

/-- A try of the free lock comes through, with node 0 drawn and served; another one comes too late.
-/
theorem mutuallyExclusive_of_orderly_tried :
    (((false, .tryLock) :: List.replicate 10 (false, .advance) ++
        [(true, .tryLock), (true, .advance)] : List (Bool × FIFOAction)).foldl exec init).Holds false ∧
      (((false, .tryLock) :: List.replicate 10 (false, .advance) ++
        [(true, .tryLock), (true, .advance)] : List (Bool × FIFOAction)).foldl exec
          init).MutuallyExclusive :=
  ⟨by decide +kernel, mutuallyExclusive_of_orderly _ (by decide +kernel)⟩

/-- The run in which a process draws node 0 to lock, and another one draws node 1, finds the ticket
counter at the node that is served, and takes the lock, before the first one finds node 0 served. -/
def overtaken : List (Bool × FIFOAction) :=
  [(true, .lock), (true, .advance), (true, .advance), (true, .advance),
    (false, .tryLock), (false, .advance), (false, .advance), (false, .advance), (false, .advance),
    (false, .advance), (false, .advance), (false, .advance), (false, .advance), (false, .advance),
    (false, .advance),
    (true, .advance), (true, .advance), (true, .advance), (true, .advance)]

theorem not_mutuallyExclusive_overtaken :
    ¬ ∀ actions : List (Bool × FIFOAction), (actions.foldl exec init).MutuallyExclusive := by
  intro h
  have hheld : (overtaken.foldl exec init).Holds true ∧ (overtaken.foldl exec init).Holds false := by
    decide +kernel
  exact Bool.noConfusion (h overtaken true false hheld.1 hheld.2)

end FIFOLock
