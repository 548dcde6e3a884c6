/-
# The rotation of a FIFO lock (`src/lib/shared_lock.c`)

The nodes are drawn and served in turn.  As long as each process that has drawn a node also
releases the lock for it, the node that is served is the one of the oldest draw that is not
released; then a lock that nobody has or waits for is ready for the next process, whoever it is.

`dragon_fifo_try_lock` draws a node before it knows whether it gets the lock, and when it does not
get it, it keeps the thread lock of the handle and the draw.
-/
import DragonRuntime.FifoLock

/-- A process has drawn a node and not yet let the next one go first. -/
def FIFOPhase.Drawn : FIFOPhase → Bool
  | .lockTicket | .lockWait | .lockStore | .lockServe => true
  | .tryTicket | .tryTicketLoaded _ | .tryTicketCas _ => true
  | .tryMain | .tryMainLoaded _ | .tryMainCas _ | .tryUnlock => true
  | .held | .unlockMain => true
  | _ => false

/-- The thread lock of the handle is taken, and going to be released. -/
def FIFOPhase.HasThr : FIFOPhase → Bool
  | .idle | .lockThr | .tryThr | .tryThrLoaded _ | .tryThrCas _ => false
  | _ => true

namespace FIFOLock

variable {π : Type*} [DecidableEq π]

/-- All calls are completed, and no one holds the lock. -/
def Quiescent (s : FIFOLock π) : Prop := ∀ p, (s.handle p).phase = .idle

/-- The acquisition conditions of the next `dragon_fifo_lock` of a process hold. -/
structure Ready (s : FIFOLock π) (p : π) : Prop where
  thr : ¬ (s.handle p).thr_lock.Waits (s.handle p).thr_lock.ticket_counter
  node : ¬ (s.nodes s.drawnNode).Waits (s.nodes s.drawnNode).ticket_counter
  main : s.drawnNode = s.now_serving

/-- The lock can be used: whenever no one holds it, the next call of any process returns. -/
def Usable (s : FIFOLock π) : Prop := s.Quiescent → ∀ p, s.Ready p

/-- A `dragon_fifo_try_lock` that has its thread lock gets the other locks, too. -/
def Prompt (s : FIFOLock π) (p : π) : FIFOPhase → Prop
  | .tryTicketLoaded cticket => wordOf cticket = wordOf (s.node p).now_serving
  | .tryTicketCas now_serve => wordOf (s.node p).ticket_counter = wordOf now_serve
  | .tryMainLoaded cticket => cticket = s.now_serving
  | .tryMainCas now_serve => s.ticket_counter = now_serve
  | _ => True

/-- The condition on a step. -/
def Smooth (s : FIFOLock π) (a : π × FIFOAction) : Prop :=
  s.Orderly a ∧ (a.2 = .advance → s.Prompt a.1 (s.handle a.1).phase)

instance (s : FIFOLock π) (p : π) : (phase : FIFOPhase) → Decidable (s.Prompt p phase)
  | .tryTicketLoaded _ | .tryTicketCas _ | .tryMainLoaded _ | .tryMainCas _ =>
    inferInstanceAs (Decidable (_ = _))
  | .idle | .lockThr | .lockThrWait _ | .lockNode | .lockTicket | .lockWait | .lockStore
  | .lockServe | .tryThr | .tryThrLoaded _ | .tryThrCas _ | .tryNode | .tryTicket | .tryMain
  | .tryUnlock | .held | .unlockMain | .unlockNode | .unlockThr => isTrue trivial

instance (s : FIFOLock π) (a : π × FIFOAction) : Decidable (s.Smooth a) :=
  inferInstanceAs (Decidable (_ ∧ (_ → _)))

/-- The draws and the releases are in step, and so are the thread locks. -/
structure Rotates (s : FIFOLock π) : Prop where
  /-- each draw that is not released is that of a process on its way -/
  drawn : ∃ (released : ℕ) (drawn : List π), s.now_serving = released % lockNodeFanout ∧
    s.node_counter = released + drawn.length ∧ drawn.Nodup ∧
    ∀ p, p ∈ drawn ↔ (s.handle p).phase.Drawn = true
  thr : ∀ p, (s.handle p).thr_lock.ticket_counter
    = (s.handle p).thr_lock.now_serving + ((s.handle p).phase.HasThr).toNat
  tried : ∀ p, (s.handle p).phase ≠ .tryUnlock

theorem nextNode_mod (n : ℕ) : nextNode (n % lockNodeFanout) = (n + 1) % lockNodeFanout := by
  rw [nextNode, lockNodeFanout]
  split <;> omega

theorem word_mod_fanout (n : ℕ) : wordOf n % lockNodeFanout = n % lockNodeFanout :=
  Nat.mod_mod_of_dvd n (by decide)

namespace Rotates

variable {s : FIFOLock π}

omit [DecidableEq π] in
theorem init : (FIFOLock.init : FIFOLock π).Rotates where
  drawn := ⟨0, [], rfl, rfl, List.nodup_nil, fun _ => by
    show _ ↔ false = true
    simp⟩
  thr := fun _ => rfl
  tried := nofun

variable {p : π} {s' : FIFOLock π}

/-- A process goes to another phase without a draw or a release. -/
theorem goes (h : s.Rotates) {handle : FIFOHandle} (hserving : s'.now_serving = s.now_serving)
    (hcounter : s'.node_counter = s.node_counter)
    (hhandle : s'.handle = Function.update s.handle p handle)
    (hdrawn : handle.phase.Drawn = (s.handle p).phase.Drawn) (hthr : handle.thr_lock.ticket_counter
      = handle.thr_lock.now_serving + (handle.phase.HasThr).toNat)
    (htried : handle.phase ≠ .tryUnlock) : s'.Rotates := by
  have hp : s'.handle p = handle := by
    rw [hhandle, Function.update_self]
  have hother : ∀ q, q ≠ p → s'.handle q = s.handle q := by
    intro q hq
    rw [hhandle, Function.update_of_ne hq]
  obtain ⟨released, drawn, hnow, hlength, hnodup, hmem⟩ := h.drawn
  refine ⟨⟨released, drawn, hserving.trans hnow, hcounter.trans hlength, hnodup, ?_⟩, ?_, ?_⟩
  · intro q
    rw [hmem q]
    by_cases hqp : q = p
    · rw [hqp, hp, hdrawn]
    · rw [hother q hqp]
  · intro q
    by_cases hqp : q = p
    · rw [hqp, hp]
      exact hthr
    · rw [hother q hqp]
      exact h.thr q
  · intro q
    by_cases hqp : q = p
    · rw [hqp, hp]
      exact htried
    · rw [hother q hqp]
      exact h.tried q

/-- The thread lock is not touched. -/
theorem goTo (h : s.Rotates) {old : FIFOPhase} {handle : FIFOHandle}
    (hold : (s.handle p).phase = old) (hserving : s'.now_serving = s.now_serving)
    (hcounter : s'.node_counter = s.node_counter)
    (hhandle : s'.handle = Function.update s.handle p handle)
    (hdrawn : handle.phase.Drawn = old.Drawn) (hlock : handle.thr_lock = (s.handle p).thr_lock)
    (hthr : handle.phase.HasThr = old.HasThr) (htried : handle.phase ≠ .tryUnlock) :
    s'.Rotates := by
  rw [← hold] at hdrawn hthr
  refine h.goes hserving hcounter hhandle hdrawn ?_ htried
  rw [hlock, hthr]
  exact h.thr p

/-- A process draws a node, and is the last one on its way. -/
theorem getNode (h : s.Rotates) {phase : FIFOPhase} (hold : (s.handle p).phase.Drawn = false)
    (hdrawn : phase.Drawn = true) (hthr : phase.HasThr = (s.handle p).phase.HasThr)
    (htried : phase ≠ .tryUnlock) : (s.getNode p phase).Rotates := by
  have hp : (s.getNode p phase).handle p
      = { s.handle p with my_node := s.drawnNode, phase := phase } := Function.update_self ..
  have hother : ∀ q, q ≠ p → (s.getNode p phase).handle q = s.handle q :=
    fun q hq => Function.update_of_ne hq ..
  obtain ⟨released, drawn, hnow, hlength, hnodup, hmem⟩ := h.drawn
  have hnot : p ∉ drawn := by
    rw [hmem, hold]
    decide
  refine ⟨⟨released, p :: drawn, hnow, congrArg (· + 1) hlength, List.nodup_cons.2 ⟨hnot, hnodup⟩,
    ?_⟩, ?_, ?_⟩
  · intro q
    by_cases hqp : q = p
    · rw [hqp, hp]
      exact iff_of_true List.mem_cons_self hdrawn
    · rw [hother q hqp, List.mem_cons, hmem q]
      exact or_iff_right hqp
  · intro q
    by_cases hqp : q = p
    · rw [hqp, hp]
      show _ = _ + (phase.HasThr).toNat
      rw [hthr]
      exact h.thr p
    · rw [hother q hqp]
      exact h.thr q
  · intro q
    by_cases hqp : q = p
    · rw [hqp, hp]
      exact htried
    · rw [hother q hqp]
      exact h.tried q

/-- The holder lets the next node go first: one draw more is released. -/
theorem unlockMain (h : s.Rotates) (hserving : s'.now_serving = nextNode (s.handle p).my_node)
    (hcounter : s'.node_counter = s.node_counter)
    (hhandle : s'.handle = Function.update s.handle p { s.handle p with phase := .unlockNode })
    (hold : (s.handle p).phase = .unlockMain) (hmain : (s.handle p).my_node = s.now_serving) :
    s'.Rotates := by
  have hp : s'.handle p = { s.handle p with phase := .unlockNode } := by
    rw [hhandle, Function.update_self]
  have hother : ∀ q, q ≠ p → s'.handle q = s.handle q := by
    intro q hq
    rw [hhandle, Function.update_of_ne hq]
  obtain ⟨released, drawn, hnow, hlength, hnodup, hmem⟩ := h.drawn
  have hin : p ∈ drawn := by
    rw [hmem, hold]
    rfl
  refine ⟨⟨released + 1, drawn.erase p, ?_, ?_, hnodup.erase p, ?_⟩, ?_, ?_⟩
  · rw [hserving, hmain, hnow, nextNode_mod]
  · have hpos := List.length_pos_of_mem hin
    rw [hcounter, hlength, List.length_erase_of_mem hin]
    omega
  · intro q
    rw [hnodup.mem_erase_iff, hmem q]
    by_cases hqp : q = p
    · rw [hqp, hp]
      exact iff_of_false (fun h => h.1 rfl) Bool.false_ne_true
    · rw [hother q hqp]
      exact and_iff_right hqp
  · intro q
    by_cases hqp : q = p
    · have hthr := h.thr p
      rw [hold] at hthr
      rw [hqp, hp]
      exact hthr
    · rw [hother q hqp]
      exact h.thr q
  · intro q
    by_cases hqp : q = p
    · rw [hqp, hp]
      exact nofun
    · rw [hother q hqp]
      exact h.tried q

omit [DecidableEq π] in
/-- Where the thread lock is free, its ticket is the one that is served. -/
theorem thr_eq (h : s.Rotates) (hphase : (s.handle p).phase.HasThr = false) :
    (s.handle p).thr_lock.ticket_counter = (s.handle p).thr_lock.now_serving := by
  have hthr := h.thr p
  rw [hphase] at hthr
  exact hthr

theorem advance (h : s.Rotates) (hex : s.Exclusive) (hprompt : s.Prompt p (s.handle p).phase) :
    (s.advance p).Rotates := by
  rw [FIFOLock.advance]
  cases hphase : (s.handle p).phase with
  | idle => exact h
  | held => exact h
  | lockThr =>
    have hthr := h.thr_eq (p := p) (hphase ▸ rfl)
    refine h.goes rfl rfl rfl (by rw [hphase]; rfl) ?_ (by simp)
    exact congrArg (· + 1) hthr
  | lockThrWait | lockWait | lockServe =>
    show (ite _ _ _ : FIFOLock π).Rotates
    split
    · exact h
    · exact h.goTo hphase rfl rfl rfl rfl rfl rfl (by simp)
  | lockNode => exact h.getNode (by rw [hphase]; rfl) rfl (by rw [hphase]; rfl) (by simp)
  | lockTicket | lockStore | tryThr | tryTicket | tryMain | unlockNode =>
    exact h.goTo hphase rfl rfl rfl rfl rfl rfl (by simp)
  | tryThrLoaded =>
    show (ite _ _ _ : FIFOLock π).Rotates
    split
    · exact h.goTo hphase rfl rfl rfl rfl rfl rfl (by simp)
    · exact h.goTo hphase rfl rfl rfl rfl rfl rfl (by simp)
  | tryThrCas =>
    have hthr := h.thr_eq (p := p) (hphase ▸ rfl)
    show (ite _ _ _ : FIFOLock π).Rotates
    split
    · refine h.goes rfl rfl rfl (by rw [hphase]; rfl) ?_ (by simp)
      exact congrArg (· + 1) hthr
    · exact h.goTo hphase rfl rfl rfl rfl rfl rfl (by simp)
  | tryNode => exact h.getNode (by rw [hphase]; rfl) rfl (by rw [hphase]; rfl) (by simp)
  | tryTicketLoaded cticket =>
    have hsame : wordOf cticket = wordOf (s.node p).now_serving := by
      rw [hphase] at hprompt
      exact hprompt
    show (ite _ _ _ : FIFOLock π).Rotates
    rw [if_pos hsame]
    exact h.goTo hphase rfl rfl rfl rfl rfl rfl (by simp)
  | tryTicketCas now_serve =>
    have hsame : wordOf (s.node p).ticket_counter = wordOf now_serve := by
      rw [hphase] at hprompt
      exact hprompt
    show (ite _ _ _ : FIFOLock π).Rotates
    rw [if_pos hsame]
    exact h.goTo hphase rfl rfl rfl rfl rfl rfl (by simp)
  | tryMainLoaded cticket =>
    have hsame : cticket = s.now_serving := by
      rw [hphase] at hprompt
      exact hprompt
    show (ite _ _ _ : FIFOLock π).Rotates
    rw [if_pos hsame]
    exact h.goTo hphase rfl rfl rfl rfl rfl rfl (by simp)
  | tryMainCas now_serve =>
    have hsame : s.ticket_counter = now_serve := by
      rw [hphase] at hprompt
      exact hprompt
    show (ite _ _ _ : FIFOLock π).Rotates
    rw [if_pos hsame]
    exact h.goTo hphase rfl rfl rfl rfl rfl rfl (by simp)
  | tryUnlock => exact absurd hphase (h.tried p)
  | unlockMain => exact h.unlockMain rfl rfl rfl hphase (hex.main p (hphase ▸ by decide))
  | unlockThr =>
    have hthr := h.thr p
    rw [hphase] at hthr
    exact h.goes rfl rfl rfl (by rw [hphase]; rfl) hthr (by simp)

theorem exec (h : s.Rotates) (hex : s.Exclusive) (a : π × FIFOAction) (hok : s.Smooth a) :
    (s.exec a).Rotates := by
  obtain ⟨p, a⟩ := a
  have hprompt := hok.2
  cases a with
  | lock | tryLock | unlock =>
    show (ite _ _ _ : FIFOLock π).Rotates
    split
    next hphase =>
      exact h.goTo hphase rfl rfl rfl rfl rfl rfl nofun
    next => exact h
  | advance => exact h.advance hex (hprompt rfl)

omit [DecidableEq π] in
/-- In a quiescent state nothing is drawn, and no ticket is out. -/
theorem ready (h : s.Rotates) (hex : s.Exclusive) (hidle : s.Quiescent) (p : π) : s.Ready p := by
  obtain ⟨released, drawn, hnow, hlength, -, hmem⟩ := h.drawn
  have hnil : drawn = [] := by
    refine List.eq_nil_iff_forall_not_mem.2 fun q hq => ?_
    rw [hmem, hidle] at hq
    exact Bool.false_ne_true hq
  have hnode : (s.nodes s.drawnNode).ticket_counter = (s.nodes s.drawnNode).now_serving := by
    refine Nat.le_antisymm (Nat.le_of_not_lt fun hlt => ?_) (hex.le _)
    obtain ⟨q, hq, -, -⟩ := hex.owned s.drawnNode _ (Nat.le_refl _) hlt
    rw [hidle] at hq
    exact absurd hq (by decide)
  have hthr := h.thr_eq (p := p) (hidle p ▸ rfl)
  refine ⟨?_, ?_, ?_⟩
  · rw [hthr]
    exact Nat.lt_irrefl _
  · rw [hnode]
    exact Nat.lt_irrefl _
  · rw [hnil] at hlength
    rw [drawnNode, word_mod_fanout, hlength, hnow]
    rfl

end Rotates

/-! ### The call returns -/

/-- How many steps of a `dragon_fifo_lock` are left, if none of them waits. -/
def stepsLeft : FIFOPhase → ℕ
  | .lockThr => 7
  | .lockThrWait _ => 6
  | .lockNode => 5
  | .lockTicket => 4
  | .lockWait => 3
  | .lockStore => 2
  | .lockServe => 1
  | _ => 0

/-- What is left of the acquisition conditions in the call. -/
def Free (s : FIFOLock π) (p : π) : FIFOPhase → Prop
  | .lockThr => s.Ready p
  | .lockThrWait my_ticket => ¬ (s.handle p).thr_lock.Waits my_ticket ∧
      ¬ (s.nodes s.drawnNode).Waits (s.nodes s.drawnNode).ticket_counter ∧
      s.drawnNode = s.now_serving
  | .lockNode => ¬ (s.nodes s.drawnNode).Waits (s.nodes s.drawnNode).ticket_counter ∧
      s.drawnNode = s.now_serving
  | .lockTicket => ¬ (s.node p).Waits (s.node p).ticket_counter ∧
      (s.handle p).my_node = s.now_serving
  | .lockWait => ¬ (s.node p).Waits (s.handle p).my_ticket ∧ (s.handle p).my_node = s.now_serving
  | .lockStore => (s.handle p).my_node = s.now_serving
  | .lockServe => (s.handle p).my_node = s.now_serving
  | .held => True
  | _ => False

variable {n : ℕ} {p : π} {s : FIFOLock π}

omit [DecidableEq π] in
/-- A step of the call, when the process goes to a phase with a handle. -/
theorem Free.of_handle {s' : FIFOLock π} {handle : FIFOHandle} (hp : s'.handle p = handle)
    (hfree : s'.Free p handle.phase) (hleft : stepsLeft handle.phase = n) :
    s'.Free p (s'.handle p).phase ∧ stepsLeft (s'.handle p).phase = n := by
  rw [hp]
  exact ⟨hfree, hleft⟩

theorem Free.advance (h : s.Free p (s.handle p).phase)
    (hleft : stepsLeft (s.handle p).phase = n + 1) :
    (s.advance p).Free p ((s.advance p).handle p).phase ∧
      stepsLeft ((s.advance p).handle p).phase = n := by
  rw [FIFOLock.advance]
  cases hphase : (s.handle p).phase <;> rw [hphase] at h hleft
  case lockThr =>
    have hself : ∀ phase, (s.setThr p (s.handle p).thr_lock.draw phase).handle p
        = { s.handle p with thr_lock := (s.handle p).thr_lock.draw, phase := phase } :=
      fun _ => Function.update_self ..
    refine Free.of_handle (hself _) ?_ (Nat.succ.inj hleft)
    show ¬ (FIFOLiteLock.Waits _ _) ∧ _
    rw [hself]
    exact ⟨h.thr, h.node, h.main⟩
  case lockThrWait my_ticket =>
    obtain ⟨hthr, hnode, hmain⟩ := h
    show (ite _ _ _ : FIFOLock π).Free p _ ∧ _
    simp only [if_neg hthr]
    exact Free.of_handle (Function.update_self ..) ⟨hnode, hmain⟩ (Nat.succ.inj hleft)
  case lockNode =>
    have hself : (s.getNode p .lockTicket).handle p
        = { s.handle p with my_node := s.drawnNode, phase := .lockTicket } :=
      Function.update_self ..
    refine Free.of_handle hself ?_ (Nat.succ.inj hleft)
    show ¬ FIFOLiteLock.Waits (s.nodes _) (s.nodes _).ticket_counter ∧ _
    rw [hself]
    exact h
  case lockTicket =>
    have hself : (s.drawTicket p .lockWait).handle p
        = { s.handle p with my_ticket := (s.node p).ticket_counter, phase := .lockWait } :=
      Function.update_self ..
    have hdrawn : (s.drawTicket p .lockWait).node p = (s.node p).draw := by
      rw [node, hself]
      exact Function.update_self ..
    refine Free.of_handle hself ?_ (Nat.succ.inj hleft)
    show ¬ FIFOLiteLock.Waits _ _ ∧ _
    rw [hdrawn, hself]
    exact h
  case lockWait =>
    obtain ⟨hnode, hmain⟩ := h
    have hself : (s.goTo p .lockStore).handle p = { s.handle p with phase := .lockStore } :=
      Function.update_self ..
    simp only [if_neg hnode]
    refine Free.of_handle hself ?_ (Nat.succ.inj hleft)
    show ((s.goTo p .lockStore).handle p).my_node = _
    rw [hself]
    exact hmain
  case lockStore =>
    refine Free.of_handle (Function.update_self ..) ?_ (Nat.succ.inj hleft)
    show (Function.update s.handle p _ p).my_node = _
    rw [Function.update_self]
    exact h
  case lockServe =>
    have hmain : (s.handle p).my_node = s.now_serving := h
    simp only [if_neg (not_not_intro hmain)]
    exact Free.of_handle (Function.update_self ..) trivial (Nat.succ.inj hleft)
  all_goals exact absurd hleft (Nat.succ_ne_zero n).symm

theorem Free.returns (h : s.Free p (s.handle p).phase) (hleft : stepsLeft (s.handle p).phase = n) :
    ((List.replicate n (p, FIFOAction.advance)).foldl exec s).Holds p := by
  induction n generalizing s with
  | zero =>
    show 3 ≤ (s.handle p).phase.level
    cases hphase : (s.handle p).phase <;> rw [hphase] at h hleft
    case held => decide
    case lockThr => exact absurd hleft (by decide)
    case lockThrWait => exact absurd hleft (Nat.succ_ne_zero 5)
    case lockNode => exact absurd hleft (by decide)
    case lockTicket => exact absurd hleft (by decide)
    case lockWait => exact absurd hleft (by decide)
    case lockStore => exact absurd hleft (by decide)
    case lockServe => exact absurd hleft (by decide)
    all_goals exact h.elim
  | succ n ih =>
    obtain ⟨hfree, hleft'⟩ := h.advance hleft
    exact ih hfree hleft'

/-- The acquisition conditions are enough: the call goes through without a wait. -/
theorem Ready.lock_returns (h : s.Ready p) (hidle : (s.handle p).phase = .idle) :
    (((p, FIFOAction.lock) :: List.replicate 7 (p, FIFOAction.advance)).foldl exec s).Holds p := by
  have hbegin : s.exec (p, .lock) = s.goTo p .lockThr := if_pos hidle
  have hself : (s.goTo p .lockThr).handle p = { s.handle p with phase := .lockThr } :=
    Function.update_self ..
  have hready : (s.goTo p .lockThr).Ready p := by
    refine ⟨?_, h.node, h.main⟩
    rw [hself]
    exact h.thr
  rw [List.foldl_cons, hbegin]
  refine Free.returns ?_ ?_
  · rw [hself]
    exact hready
  · rw [hself]
    rfl

/-- The lock can be used in every state: whenever no one holds it, the next call of any process
returns. -/
theorem usable_of_smooth (actions : List (π × FIFOAction))
    (hactions : Runs.Legal exec Smooth init actions) :
    let s := actions.foldl exec init
    s.Usable ∧ (s.Quiescent → ∀ p,
      (((p, FIFOAction.lock) :: List.replicate 7 (p, FIFOAction.advance)).foldl exec s).Holds p) := by
  have hinv : (actions.foldl exec init).Exclusive ∧ (actions.foldl exec init).Rotates := by
    refine hactions.invariant (I := fun s => s.Exclusive ∧ s.Rotates) ?_
      ⟨Exclusive.init, Rotates.init⟩
    rintro s a ⟨hex, hrot⟩ hok
    exact ⟨hex.exec a hok.1, hrot.exec hex a hok⟩
  obtain ⟨hex, hrot⟩ := hinv
  have husable : (actions.foldl exec init).Usable := fun hidle p => hrot.ready hex hidle p
  exact ⟨husable, fun hidle p => (husable hidle p).lock_returns (hidle p)⟩

/-- A process locks and unlocks, and another one tries the lock, gets it and unlocks. -/
theorem usable_of_smooth_tried :
    let s := ((((true, FIFOAction.lock) :: List.replicate 7 (true, FIFOAction.advance)) ++
      ((true, FIFOAction.unlock) :: List.replicate 3 (true, FIFOAction.advance)) ++
      ((false, FIFOAction.tryLock) :: List.replicate 10 (false, FIFOAction.advance)) ++
      ((false, FIFOAction.unlock) :: List.replicate 3 (false, FIFOAction.advance)) :
        List (Bool × FIFOAction)).foldl exec init)
    s.Usable ∧ (s.Quiescent → ∀ p,
      (((p, FIFOAction.lock) :: List.replicate 7 (p, FIFOAction.advance)).foldl exec s).Holds p) :=
  usable_of_smooth _ (by decide +kernel)

/-- The run in which a process holds the lock, another one tries it in vain, and the first one
releases it. -/
def triedInVain : List (Bool × FIFOAction) :=
  ((true, FIFOAction.lock) :: List.replicate 7 (true, FIFOAction.advance)) ++
    ((false, FIFOAction.tryLock) :: List.replicate 10 (false, FIFOAction.advance)) ++
    ((true, FIFOAction.unlock) :: List.replicate 3 (true, FIFOAction.advance))

/-- The thread lock of the second process is never released, and the node that is served is not the
next one to be drawn. -/
theorem not_usable_triedInVain :
    ¬ ∀ actions : List (Bool × FIFOAction), (actions.foldl exec init).Usable := by
  intro h
  have hidle : (triedInVain.foldl exec init).Quiescent := by
    unfold Quiescent
    decide +kernel
  have hwaits : ((triedInVain.foldl exec init).handle false).thr_lock.Waits
      ((triedInVain.foldl exec init).handle false).thr_lock.ticket_counter := by
    decide +kernel
  exact (h triedInVain hidle false).thr hwaits

end FIFOLock
