/-
# The members of a channel set (`src/lib/channelsets.c`)

A channel set puts an event record with its BCast into each of its channels.  The channel and the
token of the record are kept in an array of `dragonChannelSetChannel_t`, of which
`dragon_channelset_get_channels` copies the front into an array of `dragonChannelDescr_t`.

Conventions:

* a descriptor and an element of the array are the 64-bit words that they consist of, in the order
  of the fields;
* what the calls of other modules give back (memory, the BCast, the map of the channel sets) is an
  argument;
* a channel is locked whole for each registration, with `locks` the outcome of it.
-/
import DragonRuntime.ChannelEvents
import DragonRuntime.ReturnCodes

structure ChannelDescr where
  rtIdx : ℕ
  idx : ℕ
  deriving DecidableEq

/-- `dragonChannelSetChannel_t` -/
structure ChannelSetChannel where
  token : ℕ
  descr : ChannelDescr
  deriving DecidableEq

/-- The words of a descriptor in memory. -/
def ChannelDescr.words (d : ChannelDescr) : List ℕ := [d.rtIdx, d.idx]

def ChannelSetChannel.words (c : ChannelSetChannel) : List ℕ := c.token :: c.descr.words

/-- The array of descriptors in these words. -/
def ChannelDescr.ofWords : List ℕ → List ChannelDescr
  | rtIdx :: idx :: words => ⟨rtIdx, idx⟩ :: ofWords words
  | _ => []

/-- `memcpy(*descr_list, chset->channels, sizeof(dragonChannelDescr_t) * chset->num_channels)` -/
def memcpyDescrs (channels : List ChannelSetChannel) (numChannels : ℕ) : List ChannelDescr :=
  ChannelDescr.ofWords ((channels.flatMap ChannelSetChannel.words).take (2 * numChannels))

/-- `DRAGON_BCAST_MAX_SERIALIZED_LEN`, of `DRAGON_MEMORY_MAX_POOL_NAME_ENTRY_LENGTH` and the words
of the descriptors of a pool, a memory and a BCast. -/
def bcastMaxSerializedLen : ℕ := 256 + 5 * 8 + 4 * 8 + 2 * 8

/-- The mask that a `short` stands for; a channel triggers nothing for any other value. -/
def EventMask.ofShort : ℤ → EventMask
  | 1 => .pollin
  | 2 => .pollout
  | 3 => .pollinout
  | 4 => .pollempty
  | 5 => .pollfull
  | _ => .pollnothing

/-- A channel in the map of a process. -/
structure AttachedChannel where
  isLocal : Bool
  locks : Except DragonError Unit
  events : EventRecords (List UInt8)

/-- The channels of a process, by their descriptors. -/
abbrev AttachedChannels := ChannelDescr → Option AttachedChannel

/-- `dragon_channel_add_event_bcast` -/
def dragonChannelAddEventBcast (channels : AttachedChannels) (ch : ChannelDescr)
    (serBcast : List UInt8) (eventMask : ℤ) (userToken : ℕ) :
    Except DragonError (AttachedChannels × ℕ) :=
  if serBcast.length = 0 then .error .invalidArgument
  else if serBcast.length > bcastMaxSerializedLen then .error .invalidArgument
  else
    match channels ch with
    | none => .error .mapKeyNotFound
    | some channel =>
      if !channel.isLocal then .error .channelOperationUnsupportedRemotely
      else
        match channel.locks with
        | .error e => .error e
        | .ok () =>
          match channel.events.addEventBcast serBcast (.ofShort eventMask) userToken with
          | none => .error .channelEventCapacityExceeded
          | some (events, channelToken) =>
            .ok (Function.update channels ch (some { channel with events := events }), channelToken)

structure ChannelSet where
  channels : List ChannelSetChannel
  numChannels : ℕ

/-- The channels and the channel sets of a process. -/
structure ChannelSets where
  dgChannels : AttachedChannels
  dgChannelsets : ℕ → Option ChannelSet

/-- The arguments of `dragon_channelset_create`; a null pointer is `none`. -/
structure ChannelSetCreate where
  descrList : Option (List ChannelDescr)
  eventMask : ℤ
  /-- The pool, by whether it is local. -/
  pool : Option Bool
  /-- The `sync_type` of the attributes. -/
  attrs : Option ℕ

/-- What the calls inside of `dragon_channelset_create` give back. -/
structure ChannelSetCreateOutcomes where
  mallocChannelSet : Bool
  mallocChannels : Bool
  bcastCreate : Except DragonError Unit
  bcastSerialize : Except DragonError (List UInt8)
  /-- The key in the map of the channel sets. -/
  addItem : Except DragonError ℕ

namespace ChannelSets

/-- The loop of `dragon_channelset_create` from the position `k` on. -/
def addEventBcasts (serBcast : List UInt8) (eventMask : ℤ) : ℕ → AttachedChannels →
    List ChannelDescr → AttachedChannels × Except DragonError (List ChannelSetChannel)
  | _, channels, [] => (channels, .ok [])
  | k, channels, descr :: descrList =>
    match dragonChannelAddEventBcast channels descr serBcast eventMask k with
    | .error e => (channels, .error e)
    | .ok (channels, token) =>
      let (channels, added) := addEventBcasts serBcast eventMask (k + 1) channels descrList
      (channels, added.map (⟨token, descr⟩ :: ·))

/-- The checks of the arguments: the list of channels. -/
def checkArguments (args : ChannelSetCreate) : Except DragonError (List ChannelDescr) :=
  match args.descrList with
  | none => .error .invalidArgument
  | some descrList =>
    if descrList = [] then .error .invalidArgument
    else if args.pool = none then .error .invalidArgument
    else if args.eventMask > 5 then .error .invalidArgument
    else if args.pool = some false then .error .invalidArgument
    else
      -- `_validate_channelset_attrs`: `DRAGON_NO_SYNC` or `DRAGON_SYNC`
      match args.attrs with
      | none => .ok descrList
      | some syncType => if syncType > 1 then .error .invalidArgument else .ok descrList

/-- What happens before the first channel is touched: the list of channels and the serialized
BCast. -/
def prepare (args : ChannelSetCreate) (o : ChannelSetCreateOutcomes) :
    Except DragonError (List ChannelDescr × List UInt8) :=
  match checkArguments args with
  | .error e => .error e
  | .ok descrList =>
    if !o.mallocChannelSet then .error .internalMallocFail
    else if !o.mallocChannels then .error .internalMallocFail
    else
      match o.bcastCreate with
      | .error e => .error e
      | .ok () =>
        match o.bcastSerialize with
        | .error e => .error e
        | .ok serBcast => .ok (descrList, serBcast)

/-- `dragon_channelset_create` -/
def dragonChannelsetCreate (s : ChannelSets) (args : ChannelSetCreate)
    (o : ChannelSetCreateOutcomes) : ChannelSets × Except DragonError ℕ :=
  match prepare args o with
  | .error e => (s, .error e)
  | .ok (descrList, serBcast) =>
    match addEventBcasts serBcast args.eventMask 0 s.dgChannels descrList with
    | (channels, .error e) => ({ s with dgChannels := channels }, .error e)
    | (channels, .ok newchset) =>
      match o.addItem with
      -- the BCast is destroyed, the records of it stay
      | .error e => ({ s with dgChannels := channels }, .error e)
      | .ok key =>
        (⟨channels, Function.update s.dgChannelsets key (some ⟨newchset, descrList.length⟩)⟩,
          .ok key)

/-- `dragon_channelset_get_channels` -/
def dragonChannelsetGetChannels (s : ChannelSets) (chsetDescr : ℕ) (mallocList : Bool) :
    Except DragonError (List ChannelDescr × ℕ) :=
  match s.dgChannelsets chsetDescr with
  | none => .error .mapKeyNotFound
  | some chset =>
    if !mallocList then .error .internalMallocFail
    else .ok (memcpyDescrs chset.channels chset.numChannels, chset.numChannels)

end ChannelSets

/-! ## The words of the array -/

theorem ofWords_eq_iff {words : List ℕ} {descrList : List ChannelDescr} :
    ChannelDescr.ofWords words = descrList ↔
      words.length / 2 = descrList.length ∧
        ∀ k (hk : k < descrList.length), words[2 * k]? = some descrList[k].rtIdx ∧
          words[2 * k + 1]? = some descrList[k].idx := by
  induction words using ChannelDescr.ofWords.induct generalizing descrList with
  | case1 _ _ _ ih =>
    cases descrList with
    | nil =>
      refine iff_of_false (List.cons_ne_nil _ _) ?_
      rintro ⟨hlen, -⟩
      simp only [List.length_cons, List.length_nil] at hlen
      omega
    | cons d descrList =>
      rw [ChannelDescr.ofWords, List.cons.injEq, ih]
      constructor
      · rintro ⟨rfl, hlen, hwords⟩
        refine ⟨by simp only [List.length_cons]; omega, fun k hk => ?_⟩
        cases k with
        | zero => exact ⟨rfl, rfl⟩
        | succ k => exact hwords k (Nat.lt_of_succ_lt_succ hk)
      · rintro ⟨hlen, hwords⟩
        simp only [List.length_cons] at hlen
        refine ⟨?_, by omega, fun k hk => hwords (k + 1) (Nat.succ_lt_succ hk)⟩
        obtain ⟨hrt, hidx⟩ := hwords 0 (Nat.succ_pos _)
        simp only [Nat.mul_zero, Nat.zero_add, List.getElem?_cons_zero, List.getElem?_cons_succ,
          List.getElem_cons_zero, Option.some.injEq] at hrt hidx
        rw [hrt, hidx]
  | case2 words hwords =>
    have hshort : words.length / 2 = 0 := by
      rcases words with _ | ⟨a, _ | ⟨b, rest⟩⟩
      · rfl
      · simp
      · exact absurd rfl (hwords a b rest)
    have hnil : ChannelDescr.ofWords words = [] := by
      rcases words with _ | ⟨a, _ | ⟨b, rest⟩⟩
      · rfl
      · rfl
      · exact absurd rfl (hwords a b rest)
    rw [hnil, hshort]
    cases descrList with
    | nil => exact iff_of_true rfl ⟨rfl, fun k hk => absurd hk (Nat.not_lt_zero k)⟩
    | cons d descrList => exact iff_of_false (List.cons_ne_nil _ _).symm (by simp)

/-- The word `j` of the array of a channel set is one of the three words of its element `j / 3`. -/
theorem getElem?_flatMap_words (channels : List ChannelSetChannel) (j : ℕ) :
    (channels.flatMap ChannelSetChannel.words)[j]? =
      channels[j / 3]?.map fun c =>
        match j % 3 with
        | 0 => c.token
        | 1 => c.descr.rtIdx
        | _ => c.descr.idx := by
  induction channels generalizing j with
  | nil => simp
  | cons c channels ih =>
    match j with
    | 0 => rfl
    | 1 => rfl
    | 2 => rfl
    | j + 3 =>
      have hdiv : (j + 3) / 3 = j / 3 + 1 := Nat.add_div_right j (by decide)
      have hmod : (j + 3) % 3 = j % 3 := Nat.add_mod_right j 3
      rw [hdiv, hmod, List.getElem?_cons_succ, ← ih]
      rfl

@[simp] theorem length_flatMap_words (channels : List ChannelSetChannel) :
    (channels.flatMap ChannelSetChannel.words).length = 3 * channels.length := by
  induction channels with
  | nil => rfl
  | cons c channels ih =>
    rw [List.flatMap_cons, List.length_append, ih, List.length_cons]
    change 3 + _ = _
    omega

/-! ## The registrations -/

section Registrations

variable {channels channels' : AttachedChannels} {serBcast : List UInt8} {eventMask : ℤ}
  {userToken token : ℕ} {before : List ChannelDescr} {d e : ChannelDescr}

/-- The records of a channel, with the number of them. -/
def recordsOf (channels : AttachedChannels) (d : ChannelDescr) :
    Option (List (EventRec (List UInt8))) :=
  (channels d).map fun ch => ch.events.records

/-- The channel takes a record after those that the channels `before` have taken. -/
def Admits (channels : AttachedChannels) (serBcast : List UInt8) (before : List ChannelDescr)
    (d : ChannelDescr) : Prop :=
  serBcast.length ≠ 0 ∧ serBcast.length ≤ bcastMaxSerializedLen ∧
    ∃ ch, channels d = some ch ∧ ch.isLocal ∧ ch.locks = .ok () ∧
      ch.events.records.length + before.count d ≠ ch.events.maxEventBcasts

/-- The token of that record. -/
def tokenAfter (channels : AttachedChannels) (before : List ChannelDescr) (d : ChannelDescr) : ℕ :=
  match channels d with
  | some ch => ch.events.nextBcastToken + before.count d
  | none => 0

/-- The channel with one more record. -/
def AttachedChannel.withRecord (ch : AttachedChannel) (serBcast : List UInt8) (eventMask : ℤ)
    (userToken : ℕ) : AttachedChannel :=
  { ch with events := { ch.events with
      records := ch.events.records ++
        [⟨.ofShort eventMask, false, false, serBcast, userToken, ch.events.nextBcastToken⟩]
      nextBcastToken := ch.events.nextBcastToken + 1 } }

/-- **Step lemma**: what a registration does. -/
theorem dragonChannelAddEventBcast_of_admits (h : Admits channels serBcast [] d) (eventMask : ℤ)
    (userToken : ℕ) :
    ∃ ch, channels d = some ch ∧
      dragonChannelAddEventBcast channels d serBcast eventMask userToken =
        .ok (Function.update channels d (some (ch.withRecord serBcast eventMask userToken)),
          tokenAfter channels [] d) := by
  obtain ⟨hlen, hmax, ch, hch, hlocal, hlocks, hroom⟩ := h
  refine ⟨ch, hch, ?_⟩
  have htoken : tokenAfter channels [] d = ch.events.nextBcastToken := by
    simp only [tokenAfter, hch, List.count_nil, Nat.add_zero]
  have hadd : ch.events.addEventBcast serBcast (.ofShort eventMask) userToken =
      some ((ch.withRecord serBcast eventMask userToken).events, ch.events.nextBcastToken) := by
    unfold EventRecords.addEventBcast
    rw [if_neg (by simpa using hroom)]
    rfl
  unfold dragonChannelAddEventBcast
  rw [if_neg hlen, if_neg (Nat.not_lt.mpr hmax), hch, htoken]
  simp only [hlocal, Bool.not_true, Bool.false_eq_true, if_false, hlocks, hadd,
    AttachedChannel.withRecord]

theorem dragonChannelAddEventBcast_of_not_admits (h : ¬ Admits channels serBcast [] d)
    (eventMask : ℤ) (userToken : ℕ) :
    ∃ err, dragonChannelAddEventBcast channels d serBcast eventMask userToken = .error err := by
  unfold dragonChannelAddEventBcast
  split
  · exact ⟨_, rfl⟩
  · rename_i hlen
    split
    · exact ⟨_, rfl⟩
    · rename_i hmax
      split
      · exact ⟨_, rfl⟩
      · rename_i ch hch
        split
        · exact ⟨_, rfl⟩
        · rename_i hlocal
          split
          · exact ⟨_, rfl⟩
          · rename_i hlocks
            split
            · exact ⟨_, rfl⟩
            · rename_i events tok hadd
              refine absurd ⟨hlen, Nat.not_lt.mp hmax, ch, hch, by simpa using hlocal, hlocks, ?_⟩ h
              intro hfull
              unfold EventRecords.addEventBcast at hadd
              rw [if_pos (by simpa using hfull)] at hadd
              cases hadd

variable {ch : AttachedChannel}

theorem admits_withRecord (hch : channels d = some ch) :
    Admits (Function.update channels d (some (ch.withRecord serBcast eventMask userToken)))
        serBcast before e ↔
      Admits channels serBcast (d :: before) e := by
  unfold Admits
  refine and_congr_right fun _ => and_congr_right fun _ => ?_
  by_cases hde : e = d
  · subst hde
    have hroom : (ch.withRecord serBcast eventMask userToken).events.records.length +
        before.count e = ch.events.records.length + (before.count e + 1) := by
      simp only [AttachedChannel.withRecord, List.length_append, List.length_singleton]
      omega
    rw [Function.update_self, hch, List.count_cons_self]
    constructor
    · rintro ⟨ch', hch', hlocal, hlocks, hne⟩
      obtain rfl := Option.some.inj hch'
      exact ⟨ch, rfl, hlocal, hlocks, fun heq => hne (hroom.trans heq)⟩
    · rintro ⟨ch', hch', hlocal, hlocks, hne⟩
      obtain rfl := Option.some.inj hch'
      exact ⟨_, rfl, hlocal, hlocks, fun heq => hne (hroom.symm.trans heq)⟩
  · rw [Function.update_of_ne hde, List.count_cons_of_ne (Ne.symm hde)]

theorem tokenAfter_withRecord (hch : channels d = some ch) :
    tokenAfter (Function.update channels d (some (ch.withRecord serBcast eventMask userToken)))
        before e =
      tokenAfter channels (d :: before) e := by
  unfold tokenAfter
  by_cases hde : e = d
  · subst hde
    rw [Function.update_self, hch, List.count_cons_self]
    simp only [AttachedChannel.withRecord]
    omega
  · rw [Function.update_of_ne hde, List.count_cons_of_ne (Ne.symm hde)]

/-- No channel loses a record. -/
def Grows (channels channels' : AttachedChannels) : Prop :=
  ∀ d rs, recordsOf channels d = some rs → ∃ added, recordsOf channels' d = some (rs ++ added)

theorem Grows.refl (channels : AttachedChannels) : Grows channels channels :=
  fun _ rs h => ⟨[], by rw [h, List.append_nil]⟩

theorem Grows.trans {channels'' : AttachedChannels} (h : Grows channels channels')
    (h' : Grows channels' channels'') : Grows channels channels'' := by
  intro d rs hrs
  obtain ⟨added, hadded⟩ := h d rs hrs
  obtain ⟨added', hadded'⟩ := h' d _ hadded
  exact ⟨added ++ added', by rw [hadded', List.append_assoc]⟩

theorem grows_withRecord (hch : channels d = some ch) :
    Grows channels
      (Function.update channels d (some (ch.withRecord serBcast eventMask userToken))) := by
  intro e rs hrs
  by_cases hde : e = d
  · subst hde
    obtain rfl : ch.events.records = rs := by simpa [recordsOf, hch] using hrs
    exact ⟨_, by simp only [recordsOf, Function.update_self, Option.map_some]; rfl⟩
  · refine ⟨[], ?_⟩
    rw [List.append_nil, ← hrs]
    simp only [recordsOf, Function.update_of_ne hde]

/-- **Run lemma**, where every channel takes a record. -/
theorem addEventBcasts_of_admits {descrList : List ChannelDescr}
    (h : ∀ k (hk : k < descrList.length),
      Admits channels serBcast (descrList.take k) descrList[k]) (eventMask : ℤ) (i : ℕ) :
    (ChannelSets.addEventBcasts serBcast eventMask i channels descrList).2 =
      .ok (descrList.mapIdx fun k d => ⟨tokenAfter channels (descrList.take k) d, d⟩) := by
  induction descrList generalizing channels i with
  | nil => rfl
  | cons d descrList ih =>
    have hfirst : Admits channels serBcast [] d := h 0 (Nat.succ_pos _)
    obtain ⟨ch, hch, hadd⟩ := dragonChannelAddEventBcast_of_admits hfirst eventMask i
    rw [ChannelSets.addEventBcasts, hadd]
    have hrest : ∀ k (hk : k < descrList.length),
        Admits (Function.update channels d (some (ch.withRecord serBcast eventMask i))) serBcast
          (descrList.take k) descrList[k] := by
      intro k hk
      rw [admits_withRecord hch]
      exact h (k + 1) (Nat.succ_lt_succ hk)
    simp only [ih hrest (i + 1), Except.map, List.mapIdx_cons, tokenAfter_withRecord hch,
      List.take_succ_cons, List.take_zero]

/-- **Run lemma**, where one of the channels takes none. -/
theorem addEventBcasts_of_not_admits {descrList : List ChannelDescr} {k : ℕ}
    (hk : k < descrList.length) (h : ¬ Admits channels serBcast (descrList.take k) descrList[k])
    (eventMask : ℤ) (i : ℕ) :
    ∃ err, (ChannelSets.addEventBcasts serBcast eventMask i channels descrList).2 =
      .error err := by
  induction descrList generalizing channels i k with
  | nil => cases hk
  | cons d descrList ih =>
    rw [ChannelSets.addEventBcasts]
    by_cases hfirst : Admits channels serBcast [] d
    · obtain ⟨ch, hch, hadd⟩ := dragonChannelAddEventBcast_of_admits hfirst eventMask i
      rw [hadd]
      cases k with
      | zero => exact absurd hfirst h
      | succ k =>
        have hk' : k < descrList.length := Nat.lt_of_succ_lt_succ hk
        have h' : ¬ Admits (Function.update channels d
            (some (ch.withRecord serBcast eventMask i))) serBcast (descrList.take k)
              descrList[k] := by
          rw [admits_withRecord hch]
          exact h
        obtain ⟨err, herr⟩ := ih hk' h' (i + 1)
        refine ⟨err, ?_⟩
        simp only [herr, Except.map]
    · obtain ⟨err, herr⟩ := dragonChannelAddEventBcast_of_not_admits hfirst eventMask i
      rw [herr]
      exact ⟨err, rfl⟩

theorem addEventBcasts_grows (serBcast : List UInt8) (eventMask : ℤ)
    (descrList : List ChannelDescr) (channels : AttachedChannels) (i : ℕ) :
    Grows channels (ChannelSets.addEventBcasts serBcast eventMask i channels descrList).1 := by
  induction descrList generalizing channels i with
  | nil => exact Grows.refl channels
  | cons d descrList ih =>
    rw [ChannelSets.addEventBcasts]
    by_cases hfirst : Admits channels serBcast [] d
    · obtain ⟨ch, hch, hadd⟩ := dragonChannelAddEventBcast_of_admits hfirst eventMask i
      rw [hadd]
      exact (grows_withRecord hch).trans (ih _ (i + 1))
    · obtain ⟨err, herr⟩ := dragonChannelAddEventBcast_of_not_admits hfirst eventMask i
      rw [herr]
      exact Grows.refl channels

/-- If the first channel takes a record, it has more of them afterwards. -/
theorem recordsOf_head_ne (h : Admits channels serBcast [] d) (descrList : List ChannelDescr)
    (eventMask : ℤ) (i : ℕ) :
    recordsOf (ChannelSets.addEventBcasts serBcast eventMask i channels (d :: descrList)).1 d ≠
      recordsOf channels d := by
  obtain ⟨ch, hch, hadd⟩ := dragonChannelAddEventBcast_of_admits h eventMask i
  rw [ChannelSets.addEventBcasts, hadd]
  have hone : recordsOf (Function.update channels d
      (some (ch.withRecord serBcast eventMask i))) d =
        some (ch.withRecord serBcast eventMask i).events.records := by
    simp only [recordsOf, Function.update_self, Option.map_some]
  obtain ⟨added, hadded⟩ := addEventBcasts_grows serBcast eventMask descrList _ (i + 1) d _ hone
  intro heq
  have hsame := hadded.symm.trans (heq.trans (congrArg (Option.map _) hch))
  have hlen := congrArg List.length (Option.some.inj hsame)
  simp only [AttachedChannel.withRecord, List.length_append, List.length_singleton] at hlen
  omega

/-- If the first channel takes none, nothing changes. -/
theorem addEventBcasts_of_not_admits_head (h : ¬ Admits channels serBcast [] d)
    (descrList : List ChannelDescr) (eventMask : ℤ) (i : ℕ) :
    (ChannelSets.addEventBcasts serBcast eventMask i channels (d :: descrList)).1 = channels := by
  obtain ⟨err, herr⟩ := dragonChannelAddEventBcast_of_not_admits h eventMask i
  rw [ChannelSets.addEventBcasts, herr]

end Registrations

/-! ## Membership -/

namespace ChannelSets

/-- The word `j` of the array of a channel set with these channels. -/
def arrayWord (channels : AttachedChannels) (descrList : List ChannelDescr) (j : ℕ) : Option ℕ :=
  descrList[j / 3]?.map fun d =>
    match j % 3 with
    | 0 => tokenAfter channels (descrList.take (j / 3)) d
    | 1 => d.rtIdx
    | _ => d.idx

/-- The identifiers of the channels are the words that stand, by two, at the front of the array:
tokens at every third place. -/
def Regroups (channels : AttachedChannels) (descrList : List ChannelDescr) : Prop :=
  ∀ k (hk : k < descrList.length),
    arrayWord channels descrList (2 * k) = some descrList[k].rtIdx ∧
      arrayWord channels descrList (2 * k + 1) = some descrList[k].idx

variable {descrList : List ChannelDescr}

theorem memcpyDescrs_eq_iff {channels : AttachedChannels} :
    memcpyDescrs (descrList.mapIdx fun k d => ⟨tokenAfter channels (descrList.take k) d, d⟩)
        descrList.length = descrList ↔
      Regroups channels descrList := by
  have hword : ∀ j < 2 * descrList.length,
      (((descrList.mapIdx fun k d =>
        (⟨tokenAfter channels (descrList.take k) d, d⟩ : ChannelSetChannel)).flatMap
          ChannelSetChannel.words).take (2 * descrList.length))[j]? =
        arrayWord channels descrList j := by
    intro j hj
    rw [List.getElem?_take_of_lt hj, getElem?_flatMap_words, List.getElem?_mapIdx, Option.map_map]
    rfl
  unfold memcpyDescrs
  rw [ofWords_eq_iff]
  constructor
  · rintro ⟨-, h⟩ k hk
    rw [← hword _ (by omega), ← hword _ (by omega)]
    exact h k hk
  · intro h
    refine ⟨?_, fun k hk => ?_⟩
    · rw [List.length_take, length_flatMap_words, List.length_mapIdx]
      omega
    · rw [hword _ (by omega), hword _ (by omega)]
      exact h k hk

/-- The first channel would come out as the words before its identifiers, moved by one. -/
theorem Regroups.head {channels : AttachedChannels} {d : ChannelDescr}
    (h : Regroups channels (d :: descrList)) :
    d.rtIdx = tokenAfter channels [] d ∧ d.idx = d.rtIdx := by
  obtain ⟨hrt, hidx⟩ := h 0 (Nat.succ_pos _)
  exact ⟨(Option.some.inj hrt).symm, (Option.some.inj hidx).symm⟩

/-- After a creation the channels of the set are its list, and a creation that fails changes the
records of no channel of the list. -/
structure Membership (s : ChannelSets) (args : ChannelSetCreate) (o : ChannelSetCreateOutcomes) :
    Prop where
  created : ∀ key, (dragonChannelsetCreate s args o).2 = .ok key →
    ∀ descrList, args.descrList = some descrList →
      dragonChannelsetGetChannels (dragonChannelsetCreate s args o).1 key true =
        .ok (descrList, descrList.length)
  failed : ∀ err, (dragonChannelsetCreate s args o).2 = .error err →
    ∀ descrList, args.descrList = some descrList → ∀ d ∈ descrList,
      recordsOf (dragonChannelsetCreate s args o).1.dgChannels d = recordsOf s.dgChannels d

/-- Each channel of the list takes a record, and the set is entered in the map. -/
def GoesThrough (s : ChannelSets) (o : ChannelSetCreateOutcomes) (descrList : List ChannelDescr)
    (serBcast : List UInt8) : Prop :=
  (∀ k (hk : k < descrList.length),
    Admits s.dgChannels serBcast (descrList.take k) descrList[k]) ∧ Succeeds o.addItem

/-- If the loop is come to: where all goes through, the identifiers stand at the front of the array,
and where not, it is the first channel that takes no record. -/
def Clean (s : ChannelSets) (args : ChannelSetCreate) (o : ChannelSetCreateOutcomes) : Prop :=
  ∀ descrList serBcast, prepare args o = .ok (descrList, serBcast) →
    (GoesThrough s o descrList serBcast → Regroups s.dgChannels descrList) ∧
      (¬ GoesThrough s o descrList serBcast →
        ∀ d ∈ descrList.head?, ¬ Admits s.dgChannels serBcast [] d)

theorem checkArguments_eq_ok {args : ChannelSetCreate} (h : checkArguments args = .ok descrList) :
    args.descrList = some descrList ∧ descrList ≠ [] := by
  unfold checkArguments at h
  split at h
  · cases h
  · rename_i descrList' hlist
    rw [hlist]
    split_ifs at h with hempty
    split at h
    · exact ⟨congrArg some (Except.ok.inj h), Except.ok.inj h ▸ hempty⟩
    · split_ifs at h
      exact ⟨congrArg some (Except.ok.inj h), Except.ok.inj h ▸ hempty⟩

theorem prepare_eq_ok {args : ChannelSetCreate} {o : ChannelSetCreateOutcomes}
    {serBcast : List UInt8} (h : prepare args o = .ok (descrList, serBcast)) :
    args.descrList = some descrList ∧ descrList ≠ [] := by
  unfold prepare at h
  split at h
  · cases h
  · rename_i descrList' hargs
    split_ifs at h
    split at h
    · cases h
    · split at h
      · cases h
      · obtain ⟨rfl, -⟩ := Prod.mk.inj (Except.ok.inj h)
        exact checkArguments_eq_ok hargs

variable {s : ChannelSets} {args : ChannelSetCreate} {o : ChannelSetCreateOutcomes}
  {descrList : List ChannelDescr} {serBcast : List UInt8}

theorem dragonChannelsetCreate_of_goesThrough (hprep : prepare args o = .ok (descrList, serBcast))
    (h : GoesThrough s o descrList serBcast) :
    ∃ key, (dragonChannelsetCreate s args o).2 = .ok key ∧
      (dragonChannelsetCreate s args o).1.dgChannelsets key =
        some ⟨descrList.mapIdx fun k d => ⟨tokenAfter s.dgChannels (descrList.take k) d, d⟩,
          descrList.length⟩ := by
  obtain ⟨hadmits, hitem⟩ := h
  have hadd := addEventBcasts_of_admits hadmits args.eventMask 0
  unfold dragonChannelsetCreate
  rw [hprep]
  cases hkey : o.addItem with
  | error err =>
    rw [hkey] at hitem
    exact hitem.elim
  | ok key =>
    cases hres : addEventBcasts serBcast args.eventMask 0 s.dgChannels descrList with
    | mk channels result =>
      rw [hres] at hadd
      obtain rfl : result = _ := hadd
      simp only [hres]
      exact ⟨key, rfl, Function.update_self ..⟩

theorem dragonChannelsetCreate_of_not_goesThrough
    (hprep : prepare args o = .ok (descrList, serBcast)) (h : ¬ GoesThrough s o descrList serBcast) :
    (∃ err, (dragonChannelsetCreate s args o).2 = .error err) ∧
      (dragonChannelsetCreate s args o).1.dgChannels =
        (addEventBcasts serBcast args.eventMask 0 s.dgChannels descrList).1 := by
  unfold dragonChannelsetCreate
  rw [hprep]
  cases hres : addEventBcasts serBcast args.eventMask 0 s.dgChannels descrList with
  | mk channels result =>
    cases result with
    | error err =>
      simp only [hres]
      exact ⟨⟨err, rfl⟩, trivial⟩
    | ok added =>
      simp only [hres]
      cases hkey : o.addItem with
      | error err => exact ⟨⟨err, rfl⟩, rfl⟩
      | ok key =>
        refine absurd ⟨fun k hk => ?_, by rw [hkey]; trivial⟩ h
        by_contra hnot
        obtain ⟨err, herr⟩ := addEventBcasts_of_not_admits hk hnot args.eventMask 0
        rw [hres] at herr
        cases herr

theorem dragonChannelsetCreate_of_prepare_error {err : DragonError}
    (hprep : prepare args o = .error err) : dragonChannelsetCreate s args o = (s, .error err) := by
  unfold dragonChannelsetCreate
  rw [hprep]

theorem Membership.regroups (h : Membership s args o)
    (hprep : prepare args o = .ok (descrList, serBcast))
    (hthrough : GoesThrough s o descrList serBcast) : Regroups s.dgChannels descrList := by
  obtain ⟨hlist, -⟩ := prepare_eq_ok hprep
  obtain ⟨key, hkey, hset⟩ := dragonChannelsetCreate_of_goesThrough hprep hthrough
  have hget := h.created key hkey descrList hlist
  rw [dragonChannelsetGetChannels, hset] at hget
  exact memcpyDescrs_eq_iff.mp (Prod.mk.inj (Except.ok.inj hget)).1

theorem Membership.not_admits (h : Membership s args o)
    (hprep : prepare args o = .ok (descrList, serBcast))
    (hthrough : ¬ GoesThrough s o descrList serBcast) {d : ChannelDescr}
    (hd : d ∈ descrList.head?) : ¬ Admits s.dgChannels serBcast [] d := by
  intro hadmits
  obtain ⟨hlist, -⟩ := prepare_eq_ok hprep
  obtain ⟨⟨err, herr⟩, hchannels⟩ := dragonChannelsetCreate_of_not_goesThrough hprep hthrough
  obtain ⟨rest, rfl⟩ := List.head?_eq_some_iff.mp hd
  have hsame := h.failed err herr _ hlist d List.mem_cons_self
  rw [hchannels] at hsame
  exact recordsOf_head_ne hadmits rest args.eventMask 0 hsame

theorem Clean.membership (h : Clean s args o) : Membership s args o := by
  cases hprep : prepare args o with
  | error err =>
    have hcreate := dragonChannelsetCreate_of_prepare_error (s := s) hprep
    constructor
    · intro key hkey
      rw [hcreate] at hkey
      cases hkey
    · intro _ _ _ _ d _
      rw [hcreate]
  | ok p =>
    obtain ⟨descrList, serBcast⟩ := p
    obtain ⟨hlist, hne⟩ := prepare_eq_ok hprep
    obtain ⟨hclean, hfailed⟩ := h descrList serBcast hprep
    by_cases hthrough : GoesThrough s o descrList serBcast
    · obtain ⟨key, hkey, hset⟩ := dragonChannelsetCreate_of_goesThrough hprep hthrough
      constructor
      · intro key' hkey' descrList' hlist'
        obtain rfl := Except.ok.inj (hkey.symm.trans hkey')
        obtain rfl := Option.some.inj (hlist.symm.trans hlist')
        rw [dragonChannelsetGetChannels, hset]
        simp only [Bool.not_true, Bool.false_eq_true, if_false]
        rw [memcpyDescrs_eq_iff.mpr (hclean hthrough)]
      · intro err herr
        rw [hkey] at herr
        cases herr
    · obtain ⟨⟨err, herr⟩, hchannels⟩ := dragonChannelsetCreate_of_not_goesThrough hprep hthrough
      constructor
      · intro key hkey
        rw [herr] at hkey
        cases hkey
      · intro _ _ _ _ d _
        cases descrList with
        | nil => exact absurd rfl hne
        | cons d' rest =>
          rw [hchannels, addEventBcasts_of_not_admits_head (hfailed hthrough d' rfl)]

/-- A channel set has the channels of its list, and a creation that fails leaves no trace, exactly
where the creation is clean. -/
theorem membership_iff_clean (s : ChannelSets) (args : ChannelSetCreate)
    (o : ChannelSetCreateOutcomes) : Membership s args o ↔ Clean s args o := by
  constructor
  · intro h descrList serBcast hprep
    exact ⟨h.regroups hprep, fun hthrough d hd => h.not_admits hprep hthrough hd⟩
  · exact Clean.membership

/-- A process with two channels, the second of them with no place for a record. -/
def twoChannels : ChannelSets where
  dgChannels d :=
    if d = ⟨7, 9⟩ then some ⟨true, .ok (), ⟨[], 1, 1⟩⟩
    else if d = ⟨7, 10⟩ then
      some ⟨true, .ok (), ⟨[⟨.pollin, false, false, [0], 0, 1⟩], 1, 2⟩⟩
    else none
  dgChannelsets _ := none

/-- The set of the first channel has the channel of the words `1` and `7`; the set of both fails and
leaves a record in the first. -/
theorem twoChannels_not_membership :
    ¬ Membership twoChannels ⟨some [⟨7, 9⟩], 1, some true, none⟩
        ⟨true, true, .ok (), .ok [0], .ok 0⟩ ∧
      ¬ Membership twoChannels ⟨some [⟨7, 9⟩, ⟨7, 10⟩], 1, some true, none⟩
        ⟨true, true, .ok (), .ok [0], .ok 0⟩ := by
  have hfirst : Admits twoChannels.dgChannels [0] [] ⟨7, 9⟩ :=
    ⟨by decide, by decide, ⟨true, .ok (), ⟨[], 1, 1⟩⟩, rfl, rfl, rfl, by decide⟩
  constructor
  · intro h
    have hthrough : GoesThrough twoChannels ⟨true, true, .ok (), .ok [0], .ok 0⟩ [⟨7, 9⟩] [0] := by
      refine ⟨fun k hk => ?_, trivial⟩
      obtain rfl : k = 0 := by simpa using hk
      exact hfirst
    exact absurd (h.regroups rfl hthrough).head (by decide)
  · intro h
    have hprep : prepare ⟨some [⟨7, 9⟩, ⟨7, 10⟩], 1, some true, none⟩
        ⟨true, true, .ok (), .ok [0], .ok 0⟩ = .ok ([⟨7, 9⟩, ⟨7, 10⟩], [0]) := rfl
    refine h.not_admits hprep ?_ rfl hfirst
    rintro ⟨hadmits, -⟩
    obtain ⟨-, -, ch, hch, -, -, hroom⟩ := hadmits 1 (by decide)
    obtain rfl := Option.some.inj hch
    exact hroom rfl

end ChannelSets
