import OpenFix.Step

/-!
# What is sent

`send` stamps the header of a message with the sender number and the time, keeps
the text under that number, moves the number and transmits.  `Stamped` relates
the message that was given to the one that was sent.  A message without a
callback changes nothing else of what the handlers look at, which is what
`Sent` says.
-/

namespace OpenFix

open Effect

/-- The tags that `populateMessage` writes. -/
def stampedTags : List Int :=
  [Field.beginString, Field.senderCompID, Field.targetCompID, Field.sendingTime, Field.msgSeqNum]

namespace FieldMap

/-- `k` more owned strings fit into the slots of the map. -/
def Room (k : Nat) (m : FieldMap) : Prop := m.owned.length + k ≤ m.reserved

/-- An insertion without order replaces the stored view. -/
@[simp] theorem keepsView_unordered (m : FieldMap) (tag : Int) : m.keepsView tag false = false := by
  unfold keepsView
  split
  · simp
  · rfl

theorem storeField_of_room {m : FieldMap} (h : Room 1 m) (tag : Int) (value : Bytes) :
    m.storeField tag value false = .ok (m.setField tag value false) := by
  have hfull : m.storageFull tag = false := by
    have : ¬m.reserved ≤ m.owned.length := by
      unfold Room at h
      omega
    simp [storageFull, this]
  have hstrands : m.strands tag value false = false := by simp [strands]
  rw [storeField, hfull, hstrands, if_neg (by decide), if_neg (by decide)]

theorem capacity_le_reserved (m : FieldMap) : m.capacity ≤ m.reserved := by
  unfold reserved
  split
  · exact le_max_left _ _
  · exact le_refl _

theorem Room.mono {k l : Nat} {m : FieldMap} (h : Room l m) (hle : k ≤ l) : Room k m := by
  unfold Room at *
  omega

theorem Room.setFieldView {k : Nat} {m : FieldMap} (h : Room k m) (tag : Int) (value : Bytes)
    (order : Bool) : Room k (m.setFieldView tag value order) := by
  unfold Room FieldMap.setFieldView reserved at *
  rwa [owned_insertFieldView, capacity_insertFieldView]

theorem Room.setField {k : Nat} {m : FieldMap} (h : Room (k + 1) m) (tag : Int) (value : Bytes)
    (order : Bool) : Room k (m.setField tag value order) := by
  unfold Room at *
  have hlen : (m.setField tag value order).owned.length ≤ m.owned.length + 1 := by
    unfold FieldMap.setField
    rw [owned_insertFieldView]
    exact AssocList.length_set_le _ _ _
  have hcap : m.reserved ≤ (m.setField tag value order).reserved :=
    calc m.reserved = (m.setField tag value order).capacity := by
          unfold FieldMap.setField
          rw [capacity_insertFieldView]
      _ ≤ (m.setField tag value order).reserved := capacity_le_reserved _
  omega

end FieldMap

namespace Session

/-- What a stamped header holds. -/
structure StampedHeader (settings : SessionSettings) (seqnum epochMs : Int)
    (header header' : FieldMap) : Prop where
  beginString : header'.field? Field.beginString = some settings.beginString
  senderCompID : header'.field? Field.senderCompID = some settings.senderCompID
  targetCompID : header'.field? Field.targetCompID = some settings.targetCompID
  sendingTime : header'.field? Field.sendingTime = some (writeUTCTimestamp epochMs)
  msgSeqNum : header'.field? Field.msgSeqNum = some (toChars seqnum)
  msgSeqNumView : AssocList.find? Field.msgSeqNum header'.fields = some (.owned (toChars seqnum).length)
  other : ∀ tag, tag ∉ stampedTags → header'.field? tag = header.field? tag

theorem stampHeader_ok {settings : SessionSettings} {seqnum epochMs : Int}
    {header header' : FieldMap} (h : stampHeader settings seqnum epochMs header = .ok header') :
    StampedHeader settings seqnum epochMs header header' := by
  simp only [stampHeader, bind, Except.bind] at h
  split at h
  next => cases h
  next h₁ htime =>
    have htime := FieldMap.storeField_ok htime
    have hseq := FieldMap.storeField_ok h
    subst htime
    subst hseq
    constructor
    · rw [FieldMap.field?_setField_ne (by decide), FieldMap.field?_setField_ne (by decide),
        FieldMap.field?_setFieldView_ne (by decide), FieldMap.field?_setFieldView_ne (by decide),
        FieldMap.field?_setFieldView_self]
    · rw [FieldMap.field?_setField_ne (by decide), FieldMap.field?_setField_ne (by decide),
        FieldMap.field?_setFieldView_ne (by decide), FieldMap.field?_setFieldView_self]
    · rw [FieldMap.field?_setField_ne (by decide), FieldMap.field?_setField_ne (by decide),
        FieldMap.field?_setFieldView_self]
    · rw [FieldMap.field?_setField_ne (by decide),
        FieldMap.field?_setField_self _ _ _ _ (.inl rfl)]
    · rw [FieldMap.field?_setField_self _ _ _ _ (.inl rfl)]
    · rcases FieldMap.find?_insertFieldView_self _ Field.msgSeqNum
        (.owned (toChars seqnum).length) false with hview | ⟨hfalse, -⟩
      · exact hview
      · cases hfalse
    · intro tag htag
      simp only [stampedTags, List.mem_cons, List.not_mem_nil, or_false, not_or] at htag
      rw [FieldMap.field?_setField_ne htag.2.2.2.2, FieldMap.field?_setField_ne htag.2.2.2.1,
        FieldMap.field?_setFieldView_ne htag.2.2.1, FieldMap.field?_setFieldView_ne htag.2.1,
        FieldMap.field?_setFieldView_ne htag.1]

/-- A header with two free slots can be stamped. -/
theorem stampHeader_of_room (settings : SessionSettings) (seqnum epochMs : Int) {header : FieldMap}
    (h : header.Room 2) : ∃ header', stampHeader settings seqnum epochMs header = .ok header' := by
  have hviews := ((h.setFieldView Field.beginString settings.beginString false).setFieldView
    Field.senderCompID settings.senderCompID false).setFieldView
    Field.targetCompID settings.targetCompID false
  have htime := FieldMap.storeField_of_room (hviews.mono (by decide)) Field.sendingTime
    (writeUTCTimestamp epochMs)
  have hseq := FieldMap.storeField_of_room (hviews.setField Field.sendingTime
    (writeUTCTimestamp epochMs) false) Field.msgSeqNum (toChars seqnum)
  simp only [stampHeader, bind, Except.bind, htime, hseq]
  exact ⟨_, rfl⟩

/-- `m` is `msg` with a header stamped with the number. -/
def Stamped (env : Env) (seqnum : Int) (msg m : Message) : Prop :=
  ∃ epochMs header, stampHeader env.settings seqnum epochMs msg.header = .ok header ∧
    m = { msg with header := header }

theorem Stamped.hasSeqNum {env : Env} {seqnum : Int} {msg m : Message}
    (h : Stamped env seqnum msg m) (h₀ : -2147483648 ≤ seqnum) (h₁ : seqnum < 2147483648) :
    m.HasSeqNum seqnum := by
  obtain ⟨epochMs, header, hstamp, rfl⟩ := h
  exact FieldMap.getIntField_eq.mpr
    ⟨_, (stampHeader_ok hstamp).msgSeqNum, FieldMap.intOf_toChars h₀ h₁⟩

theorem Stamped.hasType {env : Env} {seqnum : Int} {msg m : Message}
    (h : Stamped env seqnum msg m) (t : Bytes) : m.HasType t ↔ msg.HasType t := by
  obtain ⟨epochMs, header, hstamp, rfl⟩ := h
  unfold Message.HasType
  rw [FieldMap.getField_eq, FieldMap.getField_eq,
    (stampHeader_ok hstamp).other Field.msgType (by decide)]

/-! ## The outcome of a send -/

/-- The events of handing a message to the network. -/
def transmission (s : Session) (m : Message) : List Event :=
  if s.network.connected then (s.network.connection.map fun fd => .transmit fd m).toList else []

/-- The fields that only sending may write, and a send may not. -/
structure SameControl (s t : Session) : Prop where
  state : t.state = s.state
  network : t.network = s.network
  heartbeatInterval : t.heartbeatInterval = s.heartbeatInterval
  testReqID : t.testReqID = s.testReqID
  cachedEpochUs : t.cachedEpochUs = s.cachedEpochUs

instance : Std.Refl SameControl := ⟨fun _ => ⟨rfl, rfl, rfl, rfl, rfl⟩⟩

theorem SameControl.trans {s t u : Session} (h : SameControl s t) (h' : SameControl t u) :
    SameControl s u :=
  ⟨h'.state.trans h.state, h'.network.trans h.network,
    h'.heartbeatInterval.trans h.heartbeatInterval, h'.testReqID.trans h.testReqID,
    h'.cachedEpochUs.trans h.cachedEpochUs⟩

/-- A step that reads the clock at most. -/
structure Idle (s t : Session) : Prop extends SameControl s t where
  cache : t.cache = s.cache
  events : t.events = s.events

instance : Std.Refl Idle := ⟨fun s => ⟨Std.Refl.refl s, rfl, rfl⟩⟩

instance : IsTrans Session Idle where
  trans _ _ _ h h' := ⟨h.toSameControl.trans h'.toSameControl, h'.cache.trans h.cache,
    h'.events.trans h.events⟩

/-- A message was transmitted, if the session is connected, and nothing else. -/
structure Transmitted (m : Message) (s t : Session) : Prop extends SameControl s t where
  cache : t.cache = s.cache
  events : t.events = s.events ++ transmission s m

/-- A message was sent under the next number. -/
structure Sent (env : Env) (msg : Message) (s t : Session) : Prop extends SameControl s t where
  sent : ∃ m, Stamped env s.cache.senderSeqNum msg m ∧
    t.cache = (s.cache.cache s.cache.senderSeqNum (m.toString true)).nextSenderSeqNum ∧
    t.events = s.events ++ transmission s m

theorem idle_getEpochMicros (env : Env) : Keeps Idle (getEpochMicros env) := by
  unfold getEpochMicros
  refine keeps_bind keeps_get fun s => ?_
  refine keeps_bind (keeps_modify fun s => ?_) fun _ => keeps_pure _
  exact ⟨⟨rfl, rfl, rfl, rfl, rfl⟩, rfl, rfl⟩

theorem idle_getEpochMillis (env : Env) : Keeps Idle (getEpochMillis env) :=
  keeps_bind (idle_getEpochMicros env) fun _ => keeps_pure _

theorem currentEpochUs_ends (env : Env) (s : Session) :
    Ends (currentEpochUs env) s (fun _ t => Idle s t) fun _ _ => False := by
  unfold currentEpochUs
  rw [ends_bind, ends_get]
  split
  · exact Std.Refl.refl (r := Idle) s
  · exact ⟨⟨rfl, rfl, rfl, rfl, rfl⟩, rfl, rfl⟩

theorem getUTCTimestamp_ends (env : Env) (s : Session) :
    Ends (getUTCTimestamp env) s
      (fun now t => Idle s t ∧ ∃ n, writeUTCTimestamp ((env.clock n).tdiv 1000) = now)
      fun _ _ => False :=
  ⟨⟨⟨rfl, rfl, rfl, rfl, rfl⟩, rfl, rfl⟩, _, rfl⟩

/-- Without a callback the network only takes the text. -/
theorem internalSend_ends (env : Env) (m : Message) (epochUs : Int) (s : Session) :
    Ends (internalSend env m none epochUs) s (fun _ => Transmitted m s) fun _ _ => False := by
  unfold internalSend
  rw [ends_bind, ends_get]
  split
  next hconn =>
    obtain ⟨hsome, hvalid⟩ := s.network.wf hconn
    obtain ⟨fd, hfd⟩ := Option.isSome_iff_exists.mp hsome
    refine Ends.bind (P := fun _ t => t = { s with events := s.events ++ [.transmit fd m] }) ?_ ?_
    · unfold networkSend
      rw [ends_bind, ends_get, hfd]
      simp only [hvalid, Bool.true_eq_false, dite_false]
      rw [ends_bind, ends_record]
      split
      · rfl
      · rfl
    · rintro _ _ rfl
      refine ⟨⟨rfl, rfl, rfl, rfl, rfl⟩, rfl, ?_⟩
      simp [transmission, hconn, hfd]
  next hconn =>
    refine ⟨⟨rfl, rfl, rfl, rfl, rfl⟩, rfl, ?_⟩
    simp [transmission, hconn]

/-- `populateMessage` stamps the message or raises. -/
theorem populateMessage_ends (env : Env) (msg : Message) (epochMs : Int) (s : Session) :
    Ends (populateMessage env msg epochMs) s
      (fun p t => Idle s t ∧ Stamped env s.cache.senderSeqNum msg p.1 ∧
        p.2 = s.cache.senderSeqNum)
      fun e t => Idle s t ∧ ∃ ms, stampHeader env.settings s.cache.senderSeqNum ms msg.header =
        .error e := by
  unfold populateMessage
  have htime : Ends (if epochMs = 0 then getEpochMillis env else pure epochMs) s
      (fun _ t => Idle s t) fun _ _ => False := by
    split
    · exact ⟨⟨rfl, rfl, rfl, rfl, rfl⟩, rfl, rfl⟩
    · exact Std.Refl.refl (r := Idle) s
  refine Ends.bind (htime.mono (fun _ _ h => h) fun _ _ h => h.elim) ?_
  intro ms t ht
  rw [ends_bind, ends_getSenderSeqNum, ht.cache]
  refine Ends.bind (ends_liftExcept (Q := fun header u =>
    stampHeader env.settings s.cache.senderSeqNum ms msg.header = .ok header ∧ u = t)
    (fun header h => ⟨h, rfl⟩) fun e h => ⟨ht, ms, h⟩) ?_
  rintro header u ⟨h, rfl⟩
  exact ⟨ht, ⟨ms, header, h, rfl⟩, rfl⟩

/-- A send without a callback sends the stamped message, or raises and does nothing. -/
theorem send_ends (env : Env) (msg : Message) (s : Session) :
    Ends (send env msg none) s (fun _ t => Sent env msg s t)
      fun e t => Idle s t ∧ ∃ ms, stampHeader env.settings s.cache.senderSeqNum ms msg.header =
        .error e := by
  unfold send
  refine Ends.bind ((currentEpochUs_ends env s).mono (fun _ _ h => h) fun _ _ h => h.elim) ?_
  intro epochUs t ht
  refine Ends.bind ((populateMessage_ends env msg (epochUs.tdiv 1000) t).mono (fun _ _ h => h) ?_) ?_
  · rintro e u ⟨hu, ms, he⟩
    exact ⟨IsTrans.trans s t u ht hu, ms, by rwa [← ht.cache]⟩
  · rintro ⟨m, seqnum⟩ u ⟨hu, hstamped, rfl⟩
    have hidle : Idle s u := IsTrans.trans s t u ht hu
    rw [ht.cache] at hstamped
    rw [ends_bind, ends_modifyCache]
    refine (internalSend_ends env m epochUs _).mono (fun _ v hv => ?_) fun _ _ h => h.elim
    refine ⟨hidle.toSameControl.trans ?_, m, hstamped, ?_, ?_⟩
    · exact ⟨hv.state, hv.network, hv.heartbeatInterval, hv.testReqID, hv.cachedEpochUs⟩
    · rw [hv.cache, ht.cache, hidle.cache]
    · rw [hv.events]
      simp only [transmission, hidle.events, hidle.network]

/-! ## Sends that do not raise -/

/-- Handing a text to the network does not raise and leaves the cache alone. -/
theorem internalSend_cache (env : Env) (m : Message) (callback : Option Bytes) (epochUs : Int)
    (s : Session) :
    Ends (internalSend env m callback epochUs) s (fun _ t => t.cache = s.cache)
      fun _ _ => False := by
  unfold internalSend
  rw [ends_bind, ends_get]
  split
  · refine Ends.bind (P := fun _ t => t.cache = s.cache) ?_ fun _ t ht => (ends_modify _).mpr ht
    unfold networkSend
    rw [ends_bind, ends_get]
    cases s.network.connection with
    | none => rfl
    | some fd =>
        dsimp only
        split
        · rfl
        · rw [ends_bind, ends_record]
          split
          · cases callback with
            | none => rfl
            | some reason => exact (terminate_ends reason _).mono (fun _ _ h => h.2.1) fun _ _ h => h
          · rfl
  · rfl

/-- A send keeps the stamped text under the sender number and moves the number, whether
the text can be transmitted or not.  A send that raises could not stamp the header and
leaves the cache alone. -/
theorem send_cache (env : Env) (msg : Message) (callback : Option Bytes) (s : Session) :
    Ends (send env msg callback) s
      (fun _ t => ∃ m, Stamped env s.cache.senderSeqNum msg m ∧
        t.cache = (s.cache.cache s.cache.senderSeqNum (m.toString true)).nextSenderSeqNum)
      fun e t => t.cache = s.cache ∧
        ∃ ms, stampHeader env.settings s.cache.senderSeqNum ms msg.header = .error e := by
  unfold send
  refine Ends.bind ((currentEpochUs_ends env s).mono (fun _ _ h => h) fun _ _ h => h.elim) ?_
  intro epochUs t ht
  refine Ends.bind ((populateMessage_ends env msg _ t).mono (fun _ _ h => h) ?_) ?_
  · rintro e u ⟨hu, ms, he⟩
    exact ⟨hu.cache.trans ht.cache, ms, by rwa [← ht.cache]⟩
  · rintro ⟨m, seqnum⟩ u ⟨hu, hstamped, rfl⟩
    rw [ends_bind, ends_modifyCache]
    refine (internalSend_cache env m callback epochUs _).mono (fun _ v hv => ?_) fun _ _ h => h.elim
    rw [ht.cache] at hstamped
    refine ⟨m, hstamped, ?_⟩
    rw [hv, ← ht.cache, ← hu.cache]

/-- A send whose header has room moves the sender number and does not raise. -/
theorem send_sender (env : Env) {msg : Message} (hroom : msg.header.Room 2)
    (callback : Option Bytes) (s : Session) :
    Ends (send env msg callback) s
      (fun _ t => t.cache.senderSeqNum = i32 (s.cache.senderSeqNum + 1)) fun _ _ => False := by
  refine (send_cache env msg callback s).mono ?_ ?_
  · rintro _ t ⟨m, -, ht⟩
    rw [ht]
    rfl
  · rintro e t ⟨-, ms, he⟩
    obtain ⟨header, hok⟩ := stampHeader_of_room env.settings s.cache.senderSeqNum ms hroom
    rw [hok] at he
    cases he

/-- The dictionary has a message type. -/
def Knows (env : Env) (msgType : Bytes) : Prop := ∃ msg, env.dictionary.create msgType = .ok msg

/-- Most slots of the header of a new message are free. -/
theorem create_room {dict : Dictionary} {msgType : Bytes} {msg : Message}
    (h : dict.create msgType = .ok msg) : msg.header.Room 4 := by
  unfold Dictionary.create at h
  split at h
  · cases h
  · cases h
    have hroom : (FieldMap.new.setSpec (some dict.headerSpec)).Room 5 := by
      change 0 + 5 ≤ max 0 ownedStorageCapacity
      decide
    exact hroom.setField _ _ _

/-- A new message has its type and no other field. -/
theorem create_hasType {dict : Dictionary} {msgType : Bytes} {msg : Message}
    (h : dict.create msgType = .ok msg) : msg.HasType msgType ∧ msg.body.fields = [] := by
  unfold Dictionary.create at h
  split at h
  · cases h
  · cases h
    refine ⟨FieldMap.getField_eq.mpr ?_, rfl⟩
    exact FieldMap.field?_setField_self _ _ _ _ (.inr fun _ hv => by cases hv)

/-- The header of a new message has the type only. -/
theorem create_header {dict : Dictionary} {msgType : Bytes} {msg : Message}
    (h : dict.create msgType = .ok msg) {tag : Int} (htag : tag ≠ Field.msgType) :
    msg.header.field? tag = none := by
  unfold Dictionary.create at h
  split at h
  · cases h
  · cases h
    exact FieldMap.field?_setField_ne htag _ _ _

/-! ### The types of what is built -/

theorem buildReject_hasType {env : Env} {msg m : Message} {reason : SessionRejectReason} {text : Bytes}
    (h : buildReject env msg reason text = .ok m) :
    m.HasType MsgType.reject ∧ m.header.Room 2 := by
  simp only [buildReject, bind, Except.bind] at h
  cases hcreate : env.dictionary.create MsgType.reject with
  | error e => simp [hcreate] at h
  | ok created =>
      cases hseq : msg.header.getField Field.msgSeqNum with
      | error e => simp [hcreate, hseq] at h
      | ok refSeqNum =>
          simp only [hcreate, hseq] at h
          cases h
          split
          · exact ⟨(create_hasType hcreate).1, (create_room hcreate).mono (by decide)⟩
          · exact ⟨(create_hasType hcreate).1, (create_room hcreate).mono (by decide)⟩

theorem buildLogout_hasType {env : Env} {m : Message} {reason : Bytes} (h : buildLogout env reason = .ok m) :
    m.HasType MsgType.logout := by
  simp only [buildLogout, bind, Except.bind] at h
  cases hcreate : env.dictionary.create MsgType.logout with
  | error e => simp [hcreate] at h
  | ok created =>
      simp only [hcreate] at h
      cases h
      split
      · exact (create_hasType hcreate).1
      · exact (create_hasType hcreate).1

theorem buildHeartbeat_hasType {env : Env} {m : Message} {testReqID : Bytes}
    (h : buildHeartbeat env testReqID = .ok m) : m.HasType MsgType.heartbeat := by
  simp only [buildHeartbeat, bind, Except.bind] at h
  cases hcreate : env.dictionary.create MsgType.heartbeat with
  | error e => simp [hcreate] at h
  | ok created =>
      simp only [hcreate] at h
      cases h
      split
      · exact (create_hasType hcreate).1
      · exact (create_hasType hcreate).1

/-! ### What uses up a number -/

theorem sendLogout_sender {env : Env} (hknows : Knows env MsgType.logout) (reason : Bytes)
    (term : Bool) (s : Session) :
    Ends (sendLogout env reason term) s
      (fun _ t => t.cache.senderSeqNum = i32 (s.cache.senderSeqNum + 1)) fun _ _ => False := by
  obtain ⟨m, hm⟩ := hknows
  have hbuilt : buildLogout env reason =
      .ok (if reason ≠ [] then m.setBody Field.text reason else m) := by
    simp only [buildLogout, hm]
    rfl
  have hroom : (if reason ≠ [] then m.setBody Field.text reason else m).header.Room 2 := by
    split
    · exact (create_room hm).mono (by decide)
    · exact (create_room hm).mono (by decide)
  unfold sendLogout
  rw [hbuilt]
  exact send_sender env hroom _ s

/-- A logout uses up a sender number. -/
theorem logout_sender {env : Env} (hknows : Knows env MsgType.logout) (reason : Bytes)
    (term : Bool) (s : Session) :
    Ends (logout env reason term) s
      (fun _ t => t.cache.senderSeqNum = i32 (s.cache.senderSeqNum + 1)) fun _ _ => False := by
  unfold logout
  refine Ends.bind (P := fun _ t => t.cache = s.cache) ?_ fun _ t ht => ?_
  · unfold leave
    cases term with
    | true => rfl
    | false => rfl
  · rw [← ht]
    exact sendLogout_sender hknows reason term t

/-- A reject uses up a sender number. -/
theorem sendReject_sender {env : Env} (hknows : Knows env MsgType.reject) {msg : Message}
    (hseq : msg.header.has Field.msgSeqNum = true) (reason : SessionRejectReason) (text : Bytes)
    (s : Session) :
    Ends (sendReject env msg reason text) s
      (fun _ t => t.cache.senderSeqNum = i32 (s.cache.senderSeqNum + 1)) fun _ _ => False := by
  obtain ⟨m, hm⟩ := hknows
  rw [FieldMap.has_eq, Option.isSome_iff_exists] at hseq
  obtain ⟨v, hv⟩ := hseq
  have hget : msg.header.getField Field.msgSeqNum = .ok v := FieldMap.getField_eq.mpr hv
  have hbuilt : ∃ built, buildReject env msg reason text = .ok built ∧ built.header.Room 2 := by
    simp only [buildReject, hm, hget, bind, Except.bind]
    refine ⟨_, rfl, ?_⟩
    split
    · exact (create_room hm).mono (by decide)
    · exact (create_room hm).mono (by decide)
  obtain ⟨built, hbuilt, hroom⟩ := hbuilt
  unfold sendReject
  rw [hbuilt]
  exact send_sender env hroom _ s

/-- A logon uses up a sender number. -/
theorem sendLogon_sender {env : Env} (hknows : Knows env MsgType.logon) (shouldReset : Bool)
    (s : Session) :
    Ends (sendLogon env shouldReset) s
      (fun _ t => t.cache.senderSeqNum = i32 (s.cache.senderSeqNum + 1)) fun _ _ => False := by
  obtain ⟨m, hm⟩ := hknows
  have hbuilt : ∃ built, buildLogon env s shouldReset = .ok built ∧ built.header.Room 2 := by
    have hset : ∀ {k : Nat} {msg : Message} {p : Prop} [Decidable p] (tag : Int) (v : Bytes),
        msg.header.Room (k + 1) → (if p then msg.setHeader tag v else msg).header.Room k := by
      intro k msg p _ tag v h
      split
      · exact h.setField tag v true
      · exact h.mono (Nat.le_succ k)
    simp only [buildLogon, hm, bind, Except.bind]
    have hroom : m.header.Room 4 := create_room hm
    have hbody : ((m.setBody Field.heartBtInt (toChars (i32 (s.heartbeatInterval.tdiv 1000)))).setBody
        Field.encryptMethod (ascii "0")).header.Room 4 := hroom
    exact ⟨_, rfl, hset _ _ (hset _ _ hbody)⟩
  obtain ⟨built, hbuilt, hroom⟩ := hbuilt
  unfold sendLogon
  rw [ends_bind, ends_get, hbuilt]
  change Ends (do
    send env built none
    let now ← getEpochMillis env
    modify fun s => { s with lastLogon := now }) s _ _
  refine Ends.bind (send_sender env hroom none s) fun _ t ht => ?_
  rw [ends_bind]
  exact ht

/-! ## Reading what was transmitted -/

end Session

/-- The message of an event that transmits one. -/
def Event.transmitted? : Event → Option Message
  | .transmit _ msg => some msg
  | _ => none

/-- The messages transmitted by events, in order. -/
def transmittedOf (ev : List Event) : List Message := ev.filterMap Event.transmitted?

/-- What was transmitted from `s` to a later state `t`, in order. -/
def transmittedBetween (s t : Session) : List Message :=
  transmittedOf (t.events.drop s.events.length)

theorem transmittedBetween_eq {s t : Session} {ev : List Event} (h : t.events = s.events ++ ev) :
    transmittedBetween s t = transmittedOf ev := by
  rw [transmittedBetween, h, List.drop_left]

namespace Session

theorem eq_transmit_of_mem {s : Session} {m : Message} {e : Event} (h : e ∈ transmission s m) :
    ∃ fd, e = .transmit fd m := by
  unfold transmission at h
  split at h
  · cases hc : s.network.connection with
    | none => simp [hc] at h
    | some fd => exact ⟨fd, by simpa [hc] using h⟩
  · cases h

theorem transmittedOf_transmission {s : Session} {m m' : Message}
    (h : m' ∈ transmittedOf (transmission s m)) : m' = m := by
  obtain ⟨e, he, hm⟩ := List.mem_filterMap.mp h
  obtain ⟨fd, rfl⟩ := eq_transmit_of_mem he
  exact (Option.some.inj hm).symm

/-- A connected session transmits the message, once. -/
theorem transmittedOf_connected {s : Session} (h : s.network.connected = true) (m : Message) :
    transmittedOf (transmission s m) = [m] := by
  obtain ⟨fd, hfd⟩ := Option.isSome_iff_exists.mp (s.network.wf h).1
  unfold transmission
  rw [if_pos h, hfd]
  rfl

theorem transmittedOf_disconnected {s : Session} (h : s.network.connected = false) (m : Message) :
    transmittedOf (transmission s m) = [] := by
  unfold transmission
  rw [if_neg (by rw [h]; exact Bool.false_ne_true)]
  rfl

end Session

/-- A message of the dictionary of the tests. -/
def testMessage (msgType : Bytes) : Message :=
  (testDictionary.create msgType).toOption.getD Message.new

end OpenFix
