/-
# The event records of a channel (`src/lib/channels.c`)

A channel set registers a BCast in an event record of each of its channels, with the event it waits
for.  A send triggers the records that wait for a message, a receive or a pop those that wait for a
free block.  A record that was triggered and reached a waiter is not triggered again until the
other side has moved: two flags of the record say so.

Conventions:

* a call that locks the channel is a step, and so are a send, a receive and a pop as wholes;
* a record is *notified* if its BCast could be attached and had a waiter: an argument of the calls,
  for each record;
* the log of the channel is not in the source: what was done, the latest first.  A record is armed
  when it is registered and when its mask is updated.
-/
import DragonRuntime.Runs

/-- The events that a record may wait for. -/
inductive EventMask : Type where
  | pollnothing
  | pollin
  | pollout
  | pollinout
  | pollempty
  | pollfull
  deriving DecidableEq

/-- A message is waited for. -/
def EventMask.In : EventMask → Prop
  | .pollin | .pollinout => True
  | _ => False

/-- A free block is waited for. -/
def EventMask.Out : EventMask → Prop
  | .pollout | .pollinout => True
  | _ => False

instance : (m : EventMask) → Decidable m.In
  | .pollin | .pollinout => isTrue trivial
  | .pollnothing | .pollout | .pollempty | .pollfull => isFalse id

instance : (m : EventMask) → Decidable m.Out
  | .pollout | .pollinout => isTrue trivial
  | .pollnothing | .pollin | .pollempty | .pollfull => isFalse id

structure EventRec (β : Type*) where
  eventMask : EventMask
  triggeredSinceLastRecv : Bool
  triggeredSinceLastSend : Bool
  serializedBcast : β
  userToken : ℕ
  channelToken : ℕ
  deriving DecidableEq

/-- The `num_event_bcasts` records that are in use. -/
structure EventRecords (β : Type*) where
  records : List (EventRec β)
  maxEventBcasts : ℕ
  nextBcastToken : ℕ
  deriving DecidableEq

namespace EventRecords

variable {β : Type*} (t : EventRecords β)

/-- `dragon_channel_add_event_bcast`, with the channel token; `none` if there are as many records
as there may be. -/
def addEventBcast (serBcast : β) (eventMask : EventMask) (userToken : ℕ) :
    Option (EventRecords β × ℕ) :=
  if t.records.length = t.maxEventBcasts then none
  else some ({ t with
    records := t.records ++ [⟨eventMask, false, false, serBcast, userToken, t.nextBcastToken⟩]
    nextBcastToken := t.nextBcastToken + 1 }, t.nextBcastToken)

/-- `dragon_channel_remove_event_bcast`: the last record takes the place of the one removed. -/
def removeEventBcast (channelToken : ℕ) : Option (EventRecords β) :=
  match t.records.findIdx? fun r => r.channelToken = channelToken, t.records.getLast? with
  | some idx, some last => some { t with records := (t.records.set idx last).dropLast }
  | _, _ => none

/-- `dragon_channel_update_event_mask` -/
def updateEventMask (channelToken : ℕ) (eventMask : EventMask) : Option (EventRecords β) :=
  match t.records.findIdx? fun r => r.channelToken = channelToken with
  | some idx => some { t with
      records := t.records.modify idx fun r =>
        { r with
          eventMask := eventMask
          triggeredSinceLastRecv := false
          triggeredSinceLastSend := false } }
  | none => none

end EventRecords

/-- A trigger of the BCast of a record, and whether it has reached a waiter. -/
structure Notification where
  channelToken : ℕ
  userToken : ℕ
  revent : EventMask
  reached : Bool
  deriving DecidableEq

namespace EventRec

variable {β : Type*} (r : EventRec β)

/-- The trigger of a record, if the code comes to it. -/
def notify (reaches : ℕ → Bool) (revent : EventMask) (condition : Bool) : List Notification :=
  if condition then [⟨r.channelToken, r.userToken, revent, reaches r.channelToken⟩] else []

/-- The body of the loop of `_send_msg` over the records. -/
def afterSend (reaches : ℕ → Bool) (channelFull : Bool) : EventRec β × List Notification :=
  let triggers := decide r.eventMask.In && !r.triggeredSinceLastRecv
  ({ r with
    triggeredSinceLastRecv :=
      r.triggeredSinceLastRecv || triggers && reaches r.channelToken
    triggeredSinceLastSend := !decide r.eventMask.Out && r.triggeredSinceLastSend },
    r.notify reaches .pollin triggers ++
      r.notify reaches .pollfull (decide (r.eventMask = .pollfull) && channelFull))

/-- The body of the loop of `_release_message_block_and_trigger_bcasts` over the records.  The flag
of the records that wait for a message is set, not cleared. -/
def afterRelease (reaches : ℕ → Bool) (channelEmpty : Bool) : EventRec β × List Notification :=
  let triggers := decide r.eventMask.Out && !r.triggeredSinceLastSend
  ({ r with
    triggeredSinceLastRecv := decide r.eventMask.In || r.triggeredSinceLastRecv
    triggeredSinceLastSend :=
      r.triggeredSinceLastSend || triggers && reaches r.channelToken },
    r.notify reaches .pollout triggers ++
      r.notify reaches .pollempty (decide (r.eventMask = .pollempty) && channelEmpty))

end EventRec

/-- What was done on a channel. -/
inductive ChannelLog : Type where
  | sent
  | received
  | notified (channelToken : ℕ)
  | armed (channelToken : ℕ)
  deriving DecidableEq

namespace ChannelLog

/-- What the notifications of one call leave in the log. -/
def ofNotifications (notifications : List Notification) : List ChannelLog :=
  (notifications.filter Notification.reached).map fun n => .notified n.channelToken

/-- The record was notified after the last entry of this kind. -/
def notifiedSince (mark : ChannelLog) (channelToken : ℕ) : List ChannelLog → Bool
  | [] => false
  | e :: log =>
    if e = mark then false
    else decide (e = .notified channelToken) || notifiedSince mark channelToken log

/-- There was a receive after the record was armed. -/
def receivedSinceArmed (channelToken : ℕ) : List ChannelLog → Bool
  | [] => false
  | e :: log =>
    if e = .armed channelToken then false
    else decide (e = .received) || receivedSinceArmed channelToken log

end ChannelLog

/-- A channel, as far as its event records are concerned. -/
structure EventChannel (β : Type*) where
  capacity : ℕ
  availableMsgs : ℕ
  availableBlocks : ℕ
  events : EventRecords β
  log : List ChannelLog
  deriving DecidableEq

/-- A call on a channel. -/
inductive EventCall (β : Type*) : Type _ where
  | send (reaches : ℕ → Bool)
  | receive (reaches : ℕ → Bool)
  | pop (reaches : ℕ → Bool)
  | addEventBcast (serBcast : β) (eventMask : EventMask) (userToken : ℕ)
  | removeEventBcast (channelToken : ℕ)
  | updateEventMask (channelToken : ℕ) (eventMask : EventMask)

namespace EventChannel

variable {β : Type*}

/-- A new channel. -/
def init (capacity maxEventBcasts : ℕ) : EventChannel β where
  capacity := capacity
  availableMsgs := 0
  availableBlocks := capacity
  events := ⟨[], maxEventBcasts, 1⟩
  log := []

variable (c : EventChannel β)

/-- The loop over the records, with what it triggers. -/
def forRecords (body : EventRec β → EventRec β × List Notification) (mark : ChannelLog) :
    EventChannel β × List Notification :=
  let notifications := c.events.records.flatMap fun r => (body r).2
  ({ c with
    events := { c.events with records := c.events.records.map fun r => (body r).1 }
    log := mark :: (ChannelLog.ofNotifications notifications ++ c.log) }, notifications)

/-- `_send_msg` -/
def sendMsg (reaches : ℕ → Bool) : EventChannel β × List Notification :=
  if c.availableBlocks = 0 then (c, [])
  else
    let c := { c with
      availableBlocks := c.availableBlocks - 1
      availableMsgs := c.availableMsgs + 1 }
    c.forRecords (fun r => r.afterSend reaches (c.availableMsgs == c.capacity)) .sent

/-- `_release_message_block_and_trigger_bcasts` -/
def releaseMessageBlockAndTriggerBcasts (reaches : ℕ → Bool) :
    EventChannel β × List Notification :=
  let c := { c with availableBlocks := c.availableBlocks + 1 }
  c.forRecords (fun r => r.afterRelease reaches (c.availableBlocks == c.capacity)) .received

/-- `_get_msg` -/
def getMsg (reaches : ℕ → Bool) : EventChannel β × List Notification :=
  if c.availableMsgs = 0 then (c, [])
  else { c with availableMsgs := c.availableMsgs - 1 }.releaseMessageBlockAndTriggerBcasts reaches

/-- `_pop` -/
def pop (reaches : ℕ → Bool) : EventChannel β × List Notification :=
  if c.availableMsgs = 0 then (c, [])
  else { c with availableMsgs := c.availableMsgs - 1 }.releaseMessageBlockAndTriggerBcasts reaches

/-- A call, and what it triggers. -/
def call : EventCall β → EventChannel β × List Notification
  | .send reaches => c.sendMsg reaches
  | .receive reaches => c.getMsg reaches
  | .pop reaches => c.pop reaches
  | .addEventBcast serBcast eventMask userToken =>
    match c.events.addEventBcast serBcast eventMask userToken with
    | some (events, channelToken) =>
      ({ c with events := events, log := .armed channelToken :: c.log }, [])
    | none => (c, [])
  | .removeEventBcast channelToken =>
    match c.events.removeEventBcast channelToken with
    | some events => ({ c with events := events }, [])
    | none => (c, [])
  | .updateEventMask channelToken eventMask =>
    match c.events.updateEventMask channelToken eventMask with
    | some events => ({ c with events := events, log := .armed channelToken :: c.log }, [])
    | none => (c, [])

def step (cl : EventCall β) : EventChannel β := (c.call cl).1

end EventChannel

/-! ## The log -/

namespace ChannelLog

variable {tok : ℕ} {log : List ChannelLog}

theorem notified_mem_ofNotifications {ns : List Notification} :
    .notified tok ∈ ofNotifications ns ↔ ∃ n ∈ ns, n.reached ∧ n.channelToken = tok := by
  simp only [ofNotifications, List.mem_map, List.mem_filter, notified.injEq, and_assoc]

theorem notifiedSince_notifications {mark : ChannelLog} (hmark : ∀ t, mark ≠ .notified t)
    (ns : List Notification) :
    notifiedSince mark tok (ofNotifications ns ++ log) =
      (decide (.notified tok ∈ ofNotifications ns) || notifiedSince mark tok log) := by
  unfold ofNotifications
  induction ns.filter Notification.reached with
  | nil => simp
  | cons n ns ih =>
    have hne : (.notified n.channelToken : ChannelLog) ≠ mark := fun h => hmark _ h.symm
    simp only [List.map_cons, List.cons_append, notifiedSince, if_neg hne, ih, List.mem_cons,
      Bool.decide_or, notified.injEq, eq_comm (a := tok), Bool.or_assoc]

@[simp] theorem receivedSinceArmed_notifications (ns : List Notification) :
    receivedSinceArmed tok (ofNotifications ns ++ log) = receivedSinceArmed tok log := by
  unfold ofNotifications
  induction ns.filter Notification.reached with
  | nil => rfl
  | cons n ns ih => simpa [receivedSinceArmed] using ih

end ChannelLog

/-! ## The records -/

namespace EventRec

variable {β : Type*} {r : EventRec β} {reaches : ℕ → Bool} {flag : Bool} {n : Notification}

variable {revent : EventMask} {log : List ChannelLog}

theorem mem_notify {condition : Bool} :
    n ∈ r.notify reaches revent condition ↔
      condition ∧ n = ⟨r.channelToken, r.userToken, revent, reaches r.channelToken⟩ := by
  unfold notify
  cases condition <;> simp

theorem token_of_mem_afterSend (h : n ∈ (r.afterSend reaches flag).2) :
    n.channelToken = r.channelToken := by
  rcases List.mem_append.mp h with h | h
  · rw [(mem_notify.mp h).2]
  · rw [(mem_notify.mp h).2]

theorem token_of_mem_afterRelease (h : n ∈ (r.afterRelease reaches flag).2) :
    n.channelToken = r.channelToken := by
  rcases List.mem_append.mp h with h | h
  · rw [(mem_notify.mp h).2]
  · rw [(mem_notify.mp h).2]

theorem notify_triggers {first second : EventMask} {b c : Bool} :
    (∃ n ∈ r.notify reaches first b ++ r.notify reaches second c, n.revent = revent) ↔
      (revent = first ∧ b) ∨ (revent = second ∧ c) := by
  simp only [List.mem_append, mem_notify]
  constructor
  · rintro ⟨n, ⟨h, rfl⟩ | ⟨h, rfl⟩, rfl⟩
    · exact .inl ⟨rfl, h⟩
    · exact .inr ⟨rfl, h⟩
  · rintro (⟨rfl, h⟩ | ⟨rfl, h⟩)
    · exact ⟨_, .inl ⟨h, rfl⟩, rfl⟩
    · exact ⟨_, .inr ⟨h, rfl⟩, rfl⟩

theorem afterSend_triggers (reaches : ℕ → Bool) :
    (∃ n ∈ (r.afterSend reaches flag).2, n.revent = revent) ↔
      (revent = .pollin ∧ r.eventMask.In ∧ r.triggeredSinceLastRecv = false) ∨
        (revent = .pollfull ∧ r.eventMask = .pollfull ∧ flag) := by
  simp only [afterSend, notify_triggers, Bool.and_eq_true, decide_eq_true_eq, Bool.not_eq_true']

/-- What a receive or a pop triggers on a record. -/
theorem afterRelease_triggers (reaches : ℕ → Bool) :
    (∃ n ∈ (r.afterRelease reaches flag).2, n.revent = revent) ↔
      (revent = .pollout ∧ r.eventMask.Out ∧ r.triggeredSinceLastSend = false) ∨
        (revent = .pollempty ∧ r.eventMask = .pollempty ∧ flag) := by
  simp only [afterRelease, notify_triggers, Bool.and_eq_true, decide_eq_true_eq,
    Bool.not_eq_true']

/-- What the flags of a record say about the log. -/
structure FlagsMeet (r : EventRec β) (log : List ChannelLog) : Prop where
  /-- The record was notified, or the flag was set by a receive. -/
  ofRecv : r.eventMask.In → r.triggeredSinceLastRecv →
    ChannelLog.receivedSinceArmed r.channelToken log ∨
      ChannelLog.notifiedSince .received r.channelToken log
  /-- After a receive the record is not notified any more. -/
  afterReceived : r.eventMask.In → ChannelLog.receivedSinceArmed r.channelToken log →
    r.triggeredSinceLastRecv ∧ ¬ ChannelLog.notifiedSince .received r.channelToken log
  ofSend : r.eventMask.Out → r.triggeredSinceLastSend →
    ChannelLog.notifiedSince .sent r.channelToken log

theorem flagsMeet_armed (hrecv : r.triggeredSinceLastRecv = false)
    (hsend : r.triggeredSinceLastSend = false) : r.FlagsMeet (.armed r.channelToken :: log) := by
  constructor
  · intro _ h
    exact absurd h (by simp [hrecv])
  · intro _ h
    simp [ChannelLog.receivedSinceArmed] at h
  · intro _ h
    exact absurd h (by simp [hsend])

theorem FlagsMeet.armed {tok : ℕ} (h : r.FlagsMeet log) (hne : r.channelToken ≠ tok) :
    r.FlagsMeet (.armed tok :: log) := by
  have hrecv : ChannelLog.receivedSinceArmed r.channelToken (.armed tok :: log) =
      ChannelLog.receivedSinceArmed r.channelToken log := by
    simp [ChannelLog.receivedSinceArmed, Ne.symm hne]
  have hnotified : ∀ mark : ChannelLog, mark ≠ .armed tok →
      ChannelLog.notifiedSince mark r.channelToken (.armed tok :: log) =
        ChannelLog.notifiedSince mark r.channelToken log := by
    intro mark hmark
    simp [ChannelLog.notifiedSince, Ne.symm hmark]
  constructor
  · rw [hrecv, hnotified _ (by simp)]
    exact h.ofRecv
  · rw [hrecv, hnotified _ (by simp)]
    exact h.afterReceived
  · rw [hnotified _ (by simp)]
    exact h.ofSend

/-- **Step lemma**, a send: `ns` are the notifications of all records, and those with the token of
this record are its own. -/
theorem FlagsMeet.send (h : r.FlagsMeet log) {ns : List Notification}
    (hown : ∀ n, n.channelToken = r.channelToken → (n ∈ ns ↔ n ∈ (r.afterSend reaches flag).2)) :
    (r.afterSend reaches flag).1.FlagsMeet
      (.sent :: (ChannelLog.ofNotifications ns ++ log)) := by
  have hrecv : ChannelLog.receivedSinceArmed r.channelToken
      (.sent :: (ChannelLog.ofNotifications ns ++ log)) =
        ChannelLog.receivedSinceArmed r.channelToken log := by
    simp [ChannelLog.receivedSinceArmed]
  have hnotified : ChannelLog.notifiedSince .received r.channelToken
      (.sent :: (ChannelLog.ofNotifications ns ++ log)) =
        (decide (.notified r.channelToken ∈ ChannelLog.ofNotifications ns) ||
          ChannelLog.notifiedSince .received r.channelToken log) := by
    rw [← ChannelLog.notifiedSince_notifications (by simp)]
    simp [ChannelLog.notifiedSince]
  have hmem : ChannelLog.notified r.channelToken ∈ ChannelLog.ofNotifications ns ↔
      ∃ n ∈ (r.afterSend reaches flag).2, n.reached ∧ n.channelToken = r.channelToken := by
    rw [ChannelLog.notified_mem_ofNotifications]
    constructor
    · rintro ⟨n, hn, hr, ht⟩
      exact ⟨n, (hown n ht).mp hn, hr, ht⟩
    · rintro ⟨n, hn, hr, ht⟩
      exact ⟨n, (hown n ht).mpr hn, hr, ht⟩
  constructor
  · intro hin hflag
    change ChannelLog.receivedSinceArmed r.channelToken _ ∨
      ChannelLog.notifiedSince .received r.channelToken _
    rw [hrecv, hnotified]
    by_cases hold : r.triggeredSinceLastRecv = true
    · rcases h.ofRecv hin hold with h | h
      · exact .inl h
      · exact .inr (by simp [h])
    · -- the record is triggered now, and the trigger reaches a waiter
      refine .inr ?_
      simp only [afterSend, Bool.or_eq_true, Bool.and_eq_true, decide_eq_true_eq] at hflag
      obtain ⟨htrig, hreach⟩ := hflag.resolve_left hold
      have : ChannelLog.notified r.channelToken ∈ ChannelLog.ofNotifications ns := by
        refine hmem.mpr ⟨⟨r.channelToken, r.userToken, .pollin, _⟩, ?_, hreach, rfl⟩
        exact List.mem_append_left _ (mem_notify.mpr ⟨by simpa using htrig, rfl⟩)
      simp [this]
  · intro hin hre
    change ChannelLog.receivedSinceArmed r.channelToken _ at hre
    change _ ∧ ¬ ChannelLog.notifiedSince .received r.channelToken _
    rw [hrecv] at hre
    obtain ⟨hflag, hnot⟩ := h.afterReceived hin hre
    refine ⟨by simp [afterSend, hflag], ?_⟩
    have hno : ChannelLog.notified r.channelToken ∉ ChannelLog.ofNotifications ns := by
      rw [hmem]
      rintro ⟨n, hn, -, -⟩
      have hin' : r.eventMask.In := hin
      rcases (afterSend_triggers reaches).mp ⟨n, hn, rfl⟩ with ⟨-, -, h⟩ | ⟨-, h, -⟩
      · exact absurd hflag (by simp [h])
      · exact absurd hin' (by simp [h, EventMask.In])
    rw [hnotified]
    simpa [hno] using hnot
  · intro hout hflag
    have hout' : r.eventMask.Out := hout
    exact absurd hflag (by simp [afterSend, hout'])

/-- **Step lemma**, a receive or a pop. -/
theorem FlagsMeet.release (h : r.FlagsMeet log) {ns : List Notification}
    (hown : ∀ n, n ∈ (r.afterRelease reaches flag).2 → n ∈ ns) :
    (r.afterRelease reaches flag).1.FlagsMeet
      (.received :: (ChannelLog.ofNotifications ns ++ log)) := by
  have hnotified : ChannelLog.notifiedSince .sent r.channelToken
      (.received :: (ChannelLog.ofNotifications ns ++ log)) =
        (decide (.notified r.channelToken ∈ ChannelLog.ofNotifications ns) ||
          ChannelLog.notifiedSince .sent r.channelToken log) := by
    rw [← ChannelLog.notifiedSince_notifications (by simp)]
    simp [ChannelLog.notifiedSince]
  constructor
  · intro _ _
    exact .inl (by simp [ChannelLog.receivedSinceArmed])
  · intro hin _
    have hin' : r.eventMask.In := hin
    exact ⟨by simp [afterRelease, hin'], by simp [ChannelLog.notifiedSince]⟩
  · intro hout hflag
    change ChannelLog.notifiedSince .sent r.channelToken _
    rw [hnotified]
    by_cases hold : r.triggeredSinceLastSend = true
    · simp [h.ofSend hout hold]
    · simp only [afterRelease, Bool.or_eq_true, Bool.and_eq_true, decide_eq_true_eq] at hflag
      obtain ⟨htrig, hreach⟩ := hflag.resolve_left hold
      have : ChannelLog.notified r.channelToken ∈ ChannelLog.ofNotifications ns := by
        refine ChannelLog.notified_mem_ofNotifications.mpr
          ⟨⟨r.channelToken, r.userToken, .pollout, _⟩, hown _ ?_, hreach, rfl⟩
        exact List.mem_append_left _ (mem_notify.mpr ⟨by simpa using htrig, rfl⟩)
      simp [this]

end EventRec

/-! ## The invariant -/

namespace EventRecords

variable {β : Type*} {t t' : EventRecords β}

/-- Two records have two tokens, which were given out. -/
structure Distinct (t : EventRecords β) : Prop where
  nodup : (t.records.map EventRec.channelToken).Nodup
  given : ∀ r ∈ t.records, r.channelToken < t.nextBcastToken

theorem Distinct.eq_of_token (h : t.Distinct) {r r' : EventRec β} (hr : r ∈ t.records)
    (hr' : r' ∈ t.records) (htok : r.channelToken = r'.channelToken) : r = r' :=
  List.inj_on_of_nodup_map h.nodup hr hr' htok

/-- A pass over the records that keeps their tokens. -/
theorem Distinct.map (h : t.Distinct) {f : EventRec β → EventRec β}
    (hf : ∀ r, (f r).channelToken = r.channelToken) :
    ({ t with records := t.records.map f } : EventRecords β).Distinct := by
  constructor
  · have hmap : (t.records.map f).map EventRec.channelToken =
        t.records.map EventRec.channelToken := by
      rw [List.map_map]
      exact List.map_congr_left fun r _ => hf r
    rw [hmap]
    exact h.nodup
  · intro r' hr'
    obtain ⟨r, hr, rfl⟩ := List.mem_map.mp hr'
    rw [hf]
    exact h.given r hr

variable {eventMask : EventMask} {tok : ℕ}

theorem addEventBcast_eq_some {serBcast : β} {userToken : ℕ}
    (h : t.addEventBcast serBcast eventMask userToken = some (t', tok)) :
    tok = t.nextBcastToken ∧ t' = { t with
      records := t.records ++ [⟨eventMask, false, false, serBcast, userToken, t.nextBcastToken⟩]
      nextBcastToken := t.nextBcastToken + 1 } := by
  unfold addEventBcast at h
  split at h
  · cases h
  · obtain ⟨rfl, rfl⟩ := Prod.mk.inj (Option.some.inj h)
    exact ⟨rfl, rfl⟩

theorem Distinct.addEventBcast {serBcast : β} {userToken : ℕ} (h : t.Distinct)
    (hadd : t.addEventBcast serBcast eventMask userToken = some (t', tok)) : t'.Distinct := by
  obtain ⟨rfl, rfl⟩ := addEventBcast_eq_some hadd
  constructor
  · rw [List.map_append, List.nodup_append]
    refine ⟨h.nodup, List.nodup_singleton _, ?_⟩
    intro a ha b hb hab
    obtain ⟨r, hr, rfl⟩ := List.mem_map.mp ha
    have hlt := h.given r hr
    simp only [List.map_cons, List.map_nil, List.mem_singleton] at hb
    omega
  · intro r hr
    rcases List.mem_append.mp hr with hr | hr
    · exact Nat.lt_succ_of_lt (h.given r hr)
    · rw [List.mem_singleton.mp hr]
      exact Nat.lt_succ_self _

/-- The records that stay are those that were there, without the one with this token. -/
theorem removeEventBcast_perm (h : t.removeEventBcast tok = some t') :
    ∃ r ∈ t.records, r.channelToken = tok ∧ (r :: t'.records).Perm t.records ∧
      t'.nextBcastToken = t.nextBcastToken := by
  unfold removeEventBcast at h
  split at h
  · rename_i idx last hidx hlast
    obtain rfl := Option.some.inj h
    obtain ⟨hlt, hp, -⟩ := List.findIdx?_eq_some_iff_getElem.mp hidx
    obtain ⟨front, hfront⟩ := List.getLast?_eq_some_iff.mp hlast
    refine ⟨t.records[idx], List.getElem_mem hlt, by simpa using hp, ?_, rfl⟩
    have hset : (t.records.set idx last).dropLast ++ [last] = t.records.set idx last := by
      have hlen : 0 < t.records.length := by omega
      have hne : t.records.set idx last ≠ [] := by
        simpa [← List.length_pos_iff] using hlen
      have hlast' : (t.records.set idx last).getLast hne = last := by
        rw [List.getLast_eq_getElem, List.getElem_set]
        split
        · rfl
        · simp [hfront]
      conv_rhs => rw [← List.dropLast_append_getLast hne, hlast']
    have hperm : ((t.records.set idx last).dropLast ++ [last]).Perm
        (last :: t.records.eraseIdx idx) := by
      rw [hset]
      exact List.set_perm_cons_eraseIdx hlt last
    have hrest : (t.records.set idx last).dropLast.Perm (t.records.eraseIdx idx) :=
      ((List.perm_append_singleton last _).symm.trans hperm).cons_inv
    exact (hrest.cons _).trans (List.getElem_cons_eraseIdx_perm hlt)
  · cases h

theorem Distinct.removeEventBcast (h : t.Distinct) (hrem : t.removeEventBcast tok = some t') :
    t'.Distinct := by
  obtain ⟨r, -, -, hperm, hnext⟩ := removeEventBcast_perm hrem
  have hnodup := ((hperm.map EventRec.channelToken).nodup_iff).mpr h.nodup
  refine ⟨(List.nodup_cons.mp hnodup).2, fun r' hr' => ?_⟩
  rw [hnext]
  exact h.given r' (hperm.mem_iff.mp (List.mem_cons_of_mem _ hr'))

theorem updateEventMask_eq_some (h : t.Distinct) (hup : t.updateEventMask tok eventMask = some t') :
    t' = { t with records := t.records.map fun r =>
      if r.channelToken = tok then
        { r with
          eventMask := eventMask
          triggeredSinceLastRecv := false
          triggeredSinceLastSend := false }
      else r } := by
  unfold updateEventMask at hup
  split at hup
  · rename_i idx hidx
    obtain rfl := Option.some.inj hup
    obtain ⟨hlt, hp, -⟩ := List.findIdx?_eq_some_iff_getElem.mp hidx
    congr 1
    apply List.ext_getElem
    · simp
    · intro i hi hi'
      rw [List.getElem_modify, List.getElem_map]
      have hlen : i < t.records.length := by simpa using hi
      by_cases hidx' : idx = i
      · subst hidx'
        rw [if_pos rfl, if_pos (by simpa using hp)]
      · rw [if_neg hidx', if_neg]
        intro htok
        have hsame : t.records[idx] = t.records[i] := by
          refine h.eq_of_token (List.getElem_mem hlt) (List.getElem_mem hlen) ?_
          rw [htok]
          exact of_decide_eq_true hp
        exact hidx' ((List.Nodup.getElem_inj_iff (h.nodup.of_map _)).mp hsame)
  · cases hup

end EventRecords

namespace EventChannel

variable {β : Type*} {c : EventChannel β}

structure Inv (c : EventChannel β) : Prop where
  blocks : c.availableMsgs + c.availableBlocks = c.capacity
  distinct : c.events.Distinct
  flags : ∀ r ∈ c.events.records, r.FlagsMeet c.log

theorem inv_init (capacity maxEventBcasts : ℕ) :
    (init capacity maxEventBcasts : EventChannel β).Inv := by
  refine ⟨Nat.zero_add _, ⟨List.nodup_nil, ?_⟩, ?_⟩
  · intro r hr
    cases hr
  · intro r hr
    cases hr

variable {r : EventRec β} {reaches : ℕ → Bool}

/-- The notifications with the token of a record are its own. -/
theorem mem_forRecords {body : EventRec β → EventRec β × List Notification} (mark : ChannelLog)
    (hc : c.events.Distinct) (hbody : ∀ r, ∀ n ∈ (body r).2, n.channelToken = r.channelToken)
    (hr : r ∈ c.events.records) {n : Notification} (hn : n.channelToken = r.channelToken) :
    n ∈ (c.forRecords body mark).2 ↔ n ∈ (body r).2 := by
  change n ∈ c.events.records.flatMap _ ↔ _
  rw [List.mem_flatMap]
  constructor
  · rintro ⟨r', hr', hn'⟩
    have htok : r'.channelToken = r.channelToken := (hbody r' n hn').symm.trans hn
    rwa [← hc.eq_of_token hr' hr htok]
  · intro h
    exact ⟨r, hr, h⟩

/-- **Step lemma**, for a loop over the records. -/
theorem Inv.forRecords {body : EventRec β → EventRec β × List Notification} {mark : ChannelLog}
    (hc : c.Inv) (htok : ∀ r, (body r).1.channelToken = r.channelToken)
    (hflags : ∀ r ∈ c.events.records,
      (body r).1.FlagsMeet
        (mark :: (ChannelLog.ofNotifications (c.forRecords body mark).2 ++ c.log))) :
    (c.forRecords body mark).1.Inv := by
  refine ⟨hc.blocks, hc.distinct.map htok, ?_⟩
  intro r hr
  obtain ⟨r, hr', rfl⟩ := List.mem_map.mp hr
  exact hflags r hr'

theorem Inv.sendMsg (hc : c.Inv) (reaches : ℕ → Bool) : (c.sendMsg reaches).1.Inv := by
  unfold EventChannel.sendMsg
  split
  · exact hc
  · rename_i hblocks
    have hc' : { c with
        availableBlocks := c.availableBlocks - 1
        availableMsgs := c.availableMsgs + 1 }.Inv := by
      refine ⟨?_, hc.distinct, hc.flags⟩
      have := hc.blocks
      change c.availableMsgs + 1 + (c.availableBlocks - 1) = c.capacity
      omega
    refine hc'.forRecords (fun _ => rfl) fun r hr => ?_
    exact (hc.flags r hr).send fun n hn =>
      mem_forRecords .sent hc.distinct (fun r n => EventRec.token_of_mem_afterSend) hr hn

theorem Inv.release (reaches : ℕ → Bool) (hc : c.events.Distinct)
    (hflags : ∀ r ∈ c.events.records, r.FlagsMeet c.log)
    (hblocks : c.availableMsgs + (c.availableBlocks + 1) = c.capacity) :
    (c.releaseMessageBlockAndTriggerBcasts reaches).1.Inv := by
  have hc' : { c with availableBlocks := c.availableBlocks + 1 }.Inv := ⟨hblocks, hc, hflags⟩
  refine hc'.forRecords (fun _ => rfl) fun r hr => ?_
  refine (hflags r hr).release fun n hn => ?_
  exact (mem_forRecords .received hc (fun r n => EventRec.token_of_mem_afterRelease) hr
    (EventRec.token_of_mem_afterRelease hn)).mpr hn

theorem Inv.pop (hc : c.Inv) (reaches : ℕ → Bool) : (c.pop reaches).1.Inv := by
  unfold EventChannel.pop
  split
  · exact hc
  · rename_i hmsgs
    refine Inv.release reaches hc.distinct hc.flags ?_
    have := hc.blocks
    change c.availableMsgs - 1 + (c.availableBlocks + 1) = c.capacity
    omega

/-- **Step lemma.** -/
theorem Inv.step (hc : c.Inv) (cl : EventCall β) : (c.step cl).Inv := by
  unfold EventChannel.step
  cases cl with
  | send reaches => exact hc.sendMsg reaches
  | receive reaches => exact hc.pop reaches
  | pop reaches => exact hc.pop reaches
  | addEventBcast serBcast eventMask userToken =>
    simp only [call]
    split
    · rename_i events tok hadd
      refine ⟨hc.blocks, hc.distinct.addEventBcast hadd, ?_⟩
      obtain ⟨rfl, rfl⟩ := EventRecords.addEventBcast_eq_some hadd
      intro r hr
      rcases List.mem_append.mp hr with hr | hr
      · have hlt := hc.distinct.given r hr
        exact (hc.flags r hr).armed (Nat.ne_of_lt hlt)
      · obtain rfl := List.mem_singleton.mp hr
        exact EventRec.flagsMeet_armed rfl rfl
    · exact hc
  | removeEventBcast tok =>
    simp only [call]
    split
    · rename_i events hrem
      refine ⟨hc.blocks, hc.distinct.removeEventBcast hrem, ?_⟩
      obtain ⟨r₀, -, -, hperm, -⟩ := EventRecords.removeEventBcast_perm hrem
      intro r hr
      exact hc.flags r (hperm.mem_iff.mp (List.mem_cons_of_mem _ hr))
    · exact hc
  | updateEventMask tok eventMask =>
    simp only [call]
    split
    · rename_i events hup
      obtain rfl := EventRecords.updateEventMask_eq_some hc.distinct hup
      refine ⟨hc.blocks, hc.distinct.map fun r => ?_, ?_⟩
      · split
        · rfl
        · rfl
      · intro r hr
        obtain ⟨r, hr', rfl⟩ := List.mem_map.mp hr
        by_cases htok : r.channelToken = tok
        · subst htok
          rw [if_pos rfl]
          exact EventRec.flagsMeet_armed rfl rfl
        · rw [if_neg htok]
          exact (hc.flags r hr').armed htok
    · exact hc

/-! ## What a run promises to the records -/

/-- The call puts a message into the channel. -/
def Sends (c : EventChannel β) : EventCall β → Prop
  | .send _ => 0 < c.availableBlocks
  | _ => False

/-- The call takes a message out of the channel. -/
def Receives (c : EventChannel β) : EventCall β → Prop
  | .receive _ | .pop _ => 0 < c.availableMsgs
  | _ => False

def BecomesFull (c : EventChannel β) (cl : EventCall β) : Prop :=
  c.availableMsgs ≠ c.capacity ∧ (c.step cl).availableMsgs = c.capacity

def BecomesEmpty (c : EventChannel β) (cl : EventCall β) : Prop :=
  c.availableMsgs ≠ 0 ∧ (c.step cl).availableMsgs = 0

/-- The call triggers the BCast of the record with this event. -/
def Triggers (c : EventChannel β) (cl : EventCall β) (r : EventRec β) (revent : EventMask) : Prop :=
  ∃ n ∈ (c.call cl).2, n.channelToken = r.channelToken ∧ n.revent = revent

/-- Who waits for a message hears of the first one after each receive, who waits for a block of the
first one after each send, and the channel becoming full or empty is told exactly then. -/
structure Promise (c : EventChannel β) (cl : EventCall β) : Prop where
  pollin : c.Sends cl → ∀ r ∈ c.events.records, r.eventMask.In →
    ¬ ChannelLog.notifiedSince .received r.channelToken c.log → c.Triggers cl r .pollin
  pollout : c.Receives cl → ∀ r ∈ c.events.records, r.eventMask.Out →
    ¬ ChannelLog.notifiedSince .sent r.channelToken c.log → c.Triggers cl r .pollout
  pollfull : ∀ r ∈ c.events.records,
    c.Triggers cl r .pollfull ↔ r.eventMask = .pollfull ∧ c.BecomesFull cl
  pollempty : ∀ r ∈ c.events.records,
    c.Triggers cl r .pollempty ↔ r.eventMask = .pollempty ∧ c.BecomesEmpty cl

/-- When a message is sent, the records that wait for one were armed after the last receive. -/
def Careful (c : EventChannel β) (cl : EventCall β) : Prop :=
  c.Sends cl → ∀ r ∈ c.events.records, r.eventMask.In →
    ¬ ChannelLog.receivedSinceArmed r.channelToken c.log

theorem triggers_send (hc : c.Inv) (hblocks : 0 < c.availableBlocks) (hr : r ∈ c.events.records)
    {revent : EventMask} :
    c.Triggers (.send reaches) r revent ↔
      (revent = .pollin ∧ r.eventMask.In ∧ r.triggeredSinceLastRecv = false) ∨
        (revent = .pollfull ∧ r.eventMask = .pollfull ∧ c.availableMsgs + 1 = c.capacity) := by
  have hown : ∀ n : Notification, n.channelToken = r.channelToken →
      (n ∈ (c.sendMsg reaches).2 ↔
        n ∈ (r.afterSend reaches (c.availableMsgs + 1 == c.capacity)).2) := by
    intro n hn
    unfold EventChannel.sendMsg
    rw [if_neg (Nat.ne_of_gt hblocks)]
    exact mem_forRecords .sent hc.distinct (fun r n => EventRec.token_of_mem_afterSend) hr hn
  rw [← beq_iff_eq (a := c.availableMsgs + 1), ← EventRec.afterSend_triggers reaches]
  constructor
  · rintro ⟨n, hn, htok, hev⟩
    exact ⟨n, (hown n htok).mp hn, hev⟩
  · rintro ⟨n, hn, hev⟩
    have htok := EventRec.token_of_mem_afterSend hn
    exact ⟨n, (hown n htok).mpr hn, htok, hev⟩

theorem triggers_pop (hc : c.Inv) (hmsgs : 0 < c.availableMsgs) (hr : r ∈ c.events.records)
    {revent : EventMask} :
    c.Triggers (.pop reaches) r revent ↔
      (revent = .pollout ∧ r.eventMask.Out ∧ r.triggeredSinceLastSend = false) ∨
        (revent = .pollempty ∧ r.eventMask = .pollempty ∧ c.availableMsgs = 1) := by
  have hflag : (c.availableBlocks + 1 == c.capacity) = true ↔ c.availableMsgs = 1 := by
    have := hc.blocks
    rw [beq_iff_eq]
    omega
  have hown : ∀ n : Notification, n.channelToken = r.channelToken →
      (n ∈ (c.pop reaches).2 ↔
        n ∈ (r.afterRelease reaches (c.availableBlocks + 1 == c.capacity)).2) := by
    intro n hn
    unfold EventChannel.pop
    rw [if_neg (Nat.ne_of_gt hmsgs)]
    exact mem_forRecords .received hc.distinct (fun r n => EventRec.token_of_mem_afterRelease) hr hn
  rw [← hflag, ← EventRec.afterRelease_triggers reaches]
  constructor
  · rintro ⟨n, hn, htok, hev⟩
    exact ⟨n, (hown n htok).mp hn, hev⟩
  · rintro ⟨n, hn, hev⟩
    have htok := EventRec.token_of_mem_afterRelease hn
    exact ⟨n, (hown n htok).mpr hn, htok, hev⟩

theorem not_triggers_of_forall_eq_nil {cl : EventCall β} (h : (c.call cl).2 = []) (r : EventRec β)
    (revent : EventMask) : ¬ c.Triggers cl r revent := by
  rintro ⟨n, hn, -⟩
  rw [h] at hn
  cases hn

/-- A call that changes neither the messages nor triggers anything keeps the promise. -/
theorem promise_of_idle {cl : EventCall β} (hsends : ¬ c.Sends cl) (hreceives : ¬ c.Receives cl)
    (hnil : (c.call cl).2 = []) (hmsgs : (c.step cl).availableMsgs = c.availableMsgs) :
    c.Promise cl := by
  constructor
  · intro h
    exact absurd h hsends
  · intro h
    exact absurd h hreceives
  · intro r _
    refine iff_of_false (not_triggers_of_forall_eq_nil hnil r _) ?_
    rintro ⟨-, hne, heq⟩
    exact hne (hmsgs.symm.trans heq)
  · intro r _
    refine iff_of_false (not_triggers_of_forall_eq_nil hnil r _) ?_
    rintro ⟨-, hne, heq⟩
    exact hne (hmsgs.symm.trans heq)

theorem promise_send (hc : c.Inv) (hblocks : 0 < c.availableBlocks) :
    c.Promise (.send reaches) ↔ c.Careful (.send reaches) := by
  have hmsgs : (c.step (.send reaches)).availableMsgs = c.availableMsgs + 1 := by
    change (c.sendMsg reaches).1.availableMsgs = _
    unfold EventChannel.sendMsg
    rw [if_neg (Nat.ne_of_gt hblocks)]
    rfl
  have hroom := hc.blocks
  constructor
  · intro h _ r hr hin hreceived
    -- the flag that the receive has set keeps the record from being triggered
    obtain ⟨hflag, hnot⟩ := (hc.flags r hr).afterReceived hin hreceived
    rcases (triggers_send hc hblocks hr).mp (h.pollin hblocks r hr hin hnot) with
      ⟨-, -, hclear⟩ | ⟨hev, -⟩
    · exact absurd hflag (by simp [hclear])
    · cases hev
  · intro h
    constructor
    · intro _ r hr hin hnot
      refine (triggers_send hc hblocks hr).mpr (.inl ⟨rfl, hin, ?_⟩)
      rw [← Bool.not_eq_true]
      intro hflag
      rcases (hc.flags r hr).ofRecv hin hflag with hrec | hnotified
      · exact h hblocks r hr hin hrec
      · exact hnot hnotified
    · intro hrec
      exact hrec.elim
    · intro r hr
      rw [triggers_send hc hblocks hr, BecomesFull, hmsgs]
      constructor
      · rintro (⟨hev, -⟩ | ⟨-, hmask, hfull⟩)
        · cases hev
        · exact ⟨hmask, by omega, hfull⟩
      · rintro ⟨hmask, -, hfull⟩
        exact .inr ⟨rfl, hmask, hfull⟩
    · intro r hr
      rw [triggers_send hc hblocks hr, BecomesEmpty, hmsgs]
      constructor
      · rintro (⟨hev, -⟩ | ⟨hev, -⟩)
        · cases hev
        · cases hev
      · rintro ⟨-, -, hempty⟩
        cases hempty

theorem promise_pop_of_pos (hc : c.Inv) (hmsgs : 0 < c.availableMsgs) :
    c.Promise (.pop reaches) := by
  have hafter : (c.step (.pop reaches)).availableMsgs = c.availableMsgs - 1 := by
    change (c.pop reaches).1.availableMsgs = _
    unfold EventChannel.pop
    rw [if_neg (Nat.ne_of_gt hmsgs)]
    rfl
  have hroom := hc.blocks
  constructor
  · intro hsends
    exact hsends.elim
  · intro _ r hr hout hnot
    refine (triggers_pop hc hmsgs hr).mpr (.inl ⟨rfl, hout, ?_⟩)
    rw [← Bool.not_eq_true]
    intro hflag
    exact hnot ((hc.flags r hr).ofSend hout hflag)
  · intro r hr
    rw [triggers_pop hc hmsgs hr, BecomesFull, hafter]
    constructor
    · rintro (⟨hev, -⟩ | ⟨hev, -⟩)
      · cases hev
      · cases hev
    · rintro ⟨-, -, hfull⟩
      omega
  · intro r hr
    rw [triggers_pop hc hmsgs hr, BecomesEmpty, hafter]
    constructor
    · rintro (⟨hev, -⟩ | ⟨-, hmask, hone⟩)
      · cases hev
      · exact ⟨hmask, by omega, by omega⟩
    · rintro ⟨hmask, hne, hempty⟩
      exact .inr ⟨rfl, hmask, by omega⟩

theorem promise_receive_iff : c.Promise (.receive reaches) ↔ c.Promise (.pop reaches) := by
  constructor
  · intro h
    exact ⟨fun hs => hs.elim, h.pollout, h.pollfull, h.pollempty⟩
  · intro h
    exact ⟨fun hs => hs.elim, h.pollout, h.pollfull, h.pollempty⟩

theorem promise_pop (hc : c.Inv) (reaches : ℕ → Bool) : c.Promise (.pop reaches) := by
  by_cases hmsgs : c.availableMsgs = 0
  · have hidle : c.pop reaches = (c, []) := if_pos hmsgs
    refine promise_of_idle id (Nat.not_lt.mpr (Nat.le_of_eq hmsgs)) ?_ ?_
    · exact congrArg Prod.snd hidle
    · exact congrArg (fun p => p.1.availableMsgs) hidle
  · exact promise_pop_of_pos hc (Nat.pos_of_ne_zero hmsgs)

theorem promise_iff_careful (hc : c.Inv) (cl : EventCall β) : c.Promise cl ↔ c.Careful cl := by
  cases cl with
  | send reaches =>
    by_cases hblocks : c.availableBlocks = 0
    · have hidle : c.sendMsg reaches = (c, []) := if_pos hblocks
      have hsends : ¬ c.Sends (.send reaches) := Nat.not_lt.mpr (Nat.le_of_eq hblocks)
      refine iff_of_true (promise_of_idle hsends id ?_ ?_) fun h => absurd h hsends
      · exact congrArg Prod.snd hidle
      · exact congrArg (fun p => p.1.availableMsgs) hidle
    · exact promise_send hc (Nat.pos_of_ne_zero hblocks)
  | receive reaches =>
    exact iff_of_true (promise_receive_iff.mpr (promise_pop hc reaches)) fun h => h.elim
  | pop reaches => exact iff_of_true (promise_pop hc reaches) fun h => h.elim
  | addEventBcast | removeEventBcast | updateEventMask =>
    refine iff_of_true (promise_of_idle id id ?_ ?_) fun h => h.elim
    · simp only [call]
      split <;> rfl
    · simp only [step, call]
      split <;> rfl

/-- In a run every call keeps the promise iff no message is sent while there is a record that waits
for one and was not armed since the last receive. -/
theorem promise_run_iff (capacity maxEventBcasts : ℕ) (calls : List (EventCall β)) :
    (∀ before cl after, calls = before ++ cl :: after →
      (before.foldl step (init capacity maxEventBcasts)).Promise cl) ↔
      Runs.Legal step Careful (init capacity maxEventBcasts) calls := by
  have hcareful : Runs.Legal step Promise (init capacity maxEventBcasts) calls ↔
      Runs.Legal step Careful (init capacity maxEventBcasts) calls :=
    Runs.legal_congr (fun c cl (hc : c.Inv) => promise_iff_careful hc cl)
      (fun c cl hc _ => hc.step cl) (inv_init capacity maxEventBcasts) calls
  exact Runs.legal_iff_forall.symm.trans hcareful

/-- A poller waits, hears of the first message and waits again; the message is received, and of the
second one it does not hear. -/
theorem second_message_not_told :
    ¬ ∀ before cl after,
      [.addEventBcast () .pollin 0, .send fun _ => true, .receive fun _ => true,
        .send fun _ => true] = before ++ cl :: after →
      (before.foldl step (init 2 1)).Promise cl := by
  intro h
  have hlast := h [.addEventBcast () .pollin 0, .send fun _ => true, .receive fun _ => true]
    (.send fun _ => true) [] rfl
  obtain ⟨n, hn, -⟩ := hlast.pollin (by change 0 < 2; decide) _ (List.mem_singleton.mpr rfl) trivial
    (by decide)
  cases hn

end EventChannel
