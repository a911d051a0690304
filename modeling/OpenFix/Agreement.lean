import OpenFix.Inbound
import OpenFix.Lib.Run
import OpenFix.Sending

/-!
# Two sessions that agree on their numbers

Two sessions are joined by a link in each direction that keeps the order.  While
both are logged on and nothing is lost, each of them expects the number of the
oldest message of its peer that is still under way.

A row of messages under numbers that follow each other is a `Series`.  `Speaks`
says what a step does that does not log out: what it transmits is such a row,
from its own sender number on, and the peer will accept it.
-/

namespace OpenFix

open Effect

namespace Message

/-- The types whose messages set numbers or end a session. -/
def controlTypes : List Bytes :=
  [MsgType.resendRequest, MsgType.sequenceReset, MsgType.logout, MsgType.logon]

/-- A possible duplicate says when it was first sent. -/
def DatesDuplicate (msg : Message) : Prop :=
  msg.header.tryGetBool Field.possDupFlag = true → msg.header.has Field.origSendingTime = true

/-- A message that a session which stays logged on may send. -/
structure Utterable (msg : Message) : Prop where
  type : ∃ t, msg.HasType t ∧ t ∉ controlTypes
  duplicate : msg.DatesDuplicate

/-- A message of the application that the peer does not reject. -/
def Fine (msg : Message) : Prop := msg.IsApplication ∧ msg.DatesDuplicate

instance (msg : Message) : Decidable msg.DatesDuplicate :=
  inferInstanceAs (Decidable (_ → _))

instance (msg : Message) : Decidable msg.Fine := inferInstanceAs (Decidable (_ ∧ _))

theorem Fine.utterable {msg : Message} (h : msg.Fine) : msg.Utterable := by
  obtain ⟨⟨t, ht, hreplay⟩, hdup⟩ := h
  refine ⟨⟨t, ht, fun hmem => hreplay ?_⟩, hdup⟩
  simp only [controlTypes, List.mem_cons, List.not_mem_nil, or_false] at hmem
  rcases hmem with rfl | rfl | rfl | rfl
  · decide
  · decide
  · decide
  · decide

/-- What holds of the fields that are read holds of a message that has the same. -/
theorem Utterable.of_header {msg m : Message} (h : msg.Utterable)
    (htype : m.header.field? Field.msgType = msg.header.field? Field.msgType)
    (hdup : m.header.field? Field.possDupFlag = msg.header.field? Field.possDupFlag)
    (horig : m.header.field? Field.origSendingTime = msg.header.field? Field.origSendingTime) :
    m.Utterable := by
  obtain ⟨⟨t, ht, hcontrol⟩, hdates⟩ := h
  refine ⟨⟨t, ?_, hcontrol⟩, fun hflag => ?_⟩
  · unfold HasType at ht ⊢
    rw [FieldMap.getField_eq] at ht ⊢
    rw [htype, ht]
  · rw [FieldMap.has_eq, horig, ← FieldMap.has_eq]
    apply hdates
    unfold FieldMap.tryGetBool at hflag ⊢
    rwa [hdup] at hflag

end Message

/-! ## Rows of messages -/

/-- The messages have the numbers from `k` on, and `l` comes next. -/
inductive Series : Int → List Message → Int → Prop where
  | nil {k : Int} : Series k [] k
  | cons {k l : Int} {m : Message} {ms : List Message}
      (hm : m.header.field? Field.msgSeqNum = some (toChars k)) (h : Series (i32 (k + 1)) ms l) :
      Series k (m :: ms) l

namespace Series

variable {k l n : Int} {ms ms' : List Message}

theorem single {m : Message} (hm : m.header.field? Field.msgSeqNum = some (toChars k)) :
    Series k [m] (i32 (k + 1)) := .cons hm .nil

theorem append (h : Series k ms l) (h' : Series l ms' n) : Series k (ms ++ ms') n := by
  induction h with
  | nil => exact h'
  | cons hm _ ih => exact .cons hm (ih h')

theorem i32_add (k : Int) (n : Nat) : i32 (i32 (k + 1) + n) = i32 (k + (n + 1 : Nat)) := by
  unfold i32
  omega

theorem last_eq (h : Series k ms l) (h₀ : -2147483648 ≤ k) (h₁ : k < 2147483648) :
    l = i32 (k + ms.length) := by
  induction h with
  | nil =>
      rw [List.length_nil, Nat.cast_zero, add_zero]
      exact (i32_of_range h₀ h₁).symm
  | @cons k l m ms _ _ ih =>
      rw [ih (i32_range _).1 (i32_range _).2, List.length_cons]
      exact i32_add k ms.length

theorem hasSeqNum (h : Series k ms l) (h₀ : -2147483648 ≤ k) (h₁ : k < 2147483648) {i : Nat}
    {m : Message} (hm : ms[i]? = some m) : m.HasSeqNum (i32 (k + i)) := by
  induction h generalizing i with
  | nil => cases hm
  | @cons k l m' ms hfirst _ ih =>
      cases i with
      | zero =>
          rw [List.getElem?_cons_zero] at hm
          cases hm
          rw [Nat.cast_zero, add_zero, i32_of_range h₀ h₁]
          exact FieldMap.getIntField_eq.mpr ⟨_, hfirst, FieldMap.intOf_toChars h₀ h₁⟩
      | succ i =>
          rw [List.getElem?_cons_succ] at hm
          rw [← i32_add]
          exact ih (i32_range _).1 (i32_range _).2 hm

end Series

/-! ## What a session says -/

/-- The tags that the checks of a message read from its header. -/
def checkedTags : List Int :=
  [Field.beginString, Field.msgType, Field.senderCompID, Field.targetCompID, Field.msgSeqNum,
    Field.sendingTime, Field.possDupFlag, Field.origSendingTime]

/-- Each of the two sessions has the other for its peer. -/
structure Mirrored (a b : SessionSettings) : Prop where
  beginString : a.beginString = b.beginString
  senderCompID : a.senderCompID = b.targetCompID
  targetCompID : a.targetCompID = b.senderCompID

/-- An event that transmits nothing. -/
def Event.IsSilent (e : Event) : Prop := e.transmitted? = none

namespace Session

/-- The session is logged on. -/
def Talking (s : Session) : Prop := s.state = .ready ∨ s.state = .testRequest

instance (s : Session) : Decidable s.Talking := inferInstanceAs (Decidable (_ ∨ _))

/-- A message with the header of the session, which it may send. -/
structure Outgoing (env : Env) (m : Message) : Prop where
  beginString : m.header.field? Field.beginString = some env.settings.beginString
  senderCompID : m.header.field? Field.senderCompID = some env.settings.senderCompID
  targetCompID : m.header.field? Field.targetCompID = some env.settings.targetCompID
  utterable : m.Utterable

theorem Stamped.outgoing {env : Env} {seqnum : Int} {msg m : Message}
    (h : Stamped env seqnum msg m) (hmsg : msg.Utterable) : Outgoing env m := by
  obtain ⟨epochMs, header, hstamp, rfl⟩ := h
  have hheader := stampHeader_ok hstamp
  refine ⟨hheader.beginString, hheader.senderCompID, hheader.targetCompID, hmsg.of_header ?_ ?_ ?_⟩
  · exact hheader.other Field.msgType (by decide)
  · exact hheader.other Field.possDupFlag (by decide)
  · exact hheader.other Field.origSendingTime (by decide)

/-- The messages were transmitted from `s` to `t`. -/
def Said (s : Session) (ms : List Message) (t : Session) : Prop :=
  ∃ ev, t.events = s.events ++ ev ∧ transmittedOf ev = ms

theorem Said.trans {s t u : Session} {ms ms' : List Message} (h : Said s ms t)
    (h' : Said t ms' u) : Said s (ms ++ ms') u := by
  obtain ⟨ev, hev, rfl⟩ := h
  obtain ⟨ev', hev', rfl⟩ := h'
  exact ⟨ev ++ ev', by rw [hev', hev, List.append_assoc], List.filterMap_append⟩

theorem Said.transmittedBetween {s t : Session} {ms : List Message} (h : Said s ms t) :
    transmittedBetween s t = ms := by
  obtain ⟨ev, hev, rfl⟩ := h
  exact transmittedBetween_eq hev

theorem Records.said {s t : Session} (h : Records Event.IsSilent s t) : Said s [] t := by
  obtain ⟨ev, hev, hall⟩ := h
  exact ⟨ev, hev, List.filterMap_eq_nil_iff.mpr hall⟩

/-- The target number and the queue stay, no connection is opened and, while there is
one, the session stays logged on and transmits what it numbers. -/
structure Speaks (env : Env) (s t : Session) : Prop where
  target : t.cache.targetSeqNum = s.cache.targetSeqNum
  queue : t.cache.inboundQueue = s.cache.inboundQueue
  connected : t.network.connected = true → s.network.connected = true
  talking : t.network.connected = true → s.Talking → t.Talking
  said : ∃ ms, Said s ms t ∧ (∀ m ∈ ms, Outgoing env m) ∧
    (t.network.connected = true → Series s.cache.senderSeqNum ms t.cache.senderSeqNum)

variable {env : Env}

/-- A step that transmits nothing and leaves the numbers. -/
theorem Speaks.of_silent {s t : Session} (hrec : Records Event.IsSilent s t)
    (htarget : t.cache.targetSeqNum = s.cache.targetSeqNum)
    (hqueue : t.cache.inboundQueue = s.cache.inboundQueue)
    (hsender : t.cache.senderSeqNum = s.cache.senderSeqNum)
    (hconn : t.network.connected = true → s.network.connected = true)
    (htalk : t.network.connected = true → s.Talking → t.Talking) : Speaks env s t where
  target := htarget
  queue := hqueue
  connected := hconn
  talking := htalk
  said := ⟨[], hrec.said, fun _ hm => absurd hm List.not_mem_nil, fun _ => hsender ▸ .nil⟩

instance : Std.Refl (Speaks env) :=
  ⟨fun s => .of_silent (Std.Refl.refl s) rfl rfl rfl (fun h => h) fun _ h => h⟩

instance : IsTrans Session (Speaks env) where
  trans s t u := by
    intro h h'
    obtain ⟨ms, hsaid, hout, hseries⟩ := h.said
    obtain ⟨ms', hsaid', hout', hseries'⟩ := h'.said
    refine ⟨h'.target.trans h.target, h'.queue.trans h.queue, fun hu => h.connected (h'.connected hu),
      fun hu hs => h'.talking hu (h.talking (h'.connected hu) hs), ms ++ ms', hsaid.trans hsaid',
      fun m hm => ?_, fun hu => (hseries (h'.connected hu)).append (hseries' hu)⟩
    rcases List.mem_append.mp hm with hm | hm
    · exact hout m hm
    · exact hout' m hm

theorem Idle.speaks {s t : Session} (h : Idle s t) : Speaks env s t :=
  .of_silent (.of_eq h.events) (by rw [h.cache]) (by rw [h.cache]) (by rw [h.cache])
    (fun ht => h.network ▸ ht) fun _ hs => by rwa [Talking, h.state]

theorem Booked.speaks {s t : Session} (h : Booked s t) : Speaks env s t :=
  .of_silent (.of_eq h.events) (by rw [h.cache]) (by rw [h.cache]) (by rw [h.cache])
    (fun ht => h.network ▸ ht) fun _ hs => by rwa [Talking, h.state]

theorem speaks_record {e : Event} (he : e.IsSilent) (s : Session) :
    Speaks env s { s with events := s.events ++ [e] } :=
  .of_silent (records_event he s) rfl rfl rfl (fun h => h) fun _ h => h

theorem Sent.speaks {msg : Message} (hmsg : msg.Utterable) {s t : Session}
    (h : Sent env msg s t) : Speaks env s t := by
  obtain ⟨m, hstamped, hcache, hevents⟩ := h.sent
  have hout := hstamped.outgoing hmsg
  refine ⟨by rw [hcache]; rfl, by rw [hcache]; rfl, fun ht => h.network ▸ ht,
    fun _ hs => by rwa [Talking, h.state], transmittedOf (transmission s m), ⟨_, hevents, rfl⟩,
    fun m' hm' => transmittedOf_transmission hm' ▸ hout, fun ht => ?_⟩
  rw [transmittedOf_connected (h.network ▸ ht) m, hcache]
  obtain ⟨epochMs, header, hstamp, rfl⟩ := hstamped
  exact Series.single (stampHeader_ok hstamp).msgSeqNum

theorem speaks_send {msg : Message} (hmsg : msg.Utterable) :
    Keeps (Speaks env) (send env msg none) := by
  intro s
  exact after_eq_of_ends ((send_ends env msg s).mono (fun _ _ ht => ht.speaks hmsg)
    fun _ _ ht => ht.1.speaks)

/-- A message of the session itself is built from a new one of its type. -/
theorem utterable_of_create {msgType : Bytes} {msg : Message}
    (h : env.dictionary.create msgType = .ok msg) (htype : msgType ∉ Message.controlTypes)
    (body : FieldMap) : Message.Utterable { msg with body := body } := by
  refine ⟨⟨msgType, (create_hasType h).1, htype⟩, fun hflag => ?_⟩
  have hnone : msg.header.field? Field.possDupFlag = none := create_header h (by decide)
  change decide (msg.header.field? Field.possDupFlag = some [89]) = true at hflag
  rw [hnone] at hflag
  cases hflag

theorem speaks_sendHeartbeat (testReqID : Bytes) :
    Keeps (Speaks env) (sendHeartbeat env testReqID) := by
  unfold sendHeartbeat
  refine keeps_liftExcept_bind fun msg hmsg => speaks_send ?_
  unfold buildHeartbeat at hmsg
  cases hcreate : env.dictionary.create MsgType.heartbeat with
  | error e =>
      rw [hcreate] at hmsg
      cases hmsg
  | ok m =>
      rw [hcreate] at hmsg
      cases hmsg
      split
      · exact utterable_of_create hcreate (by decide) _
      · exact utterable_of_create hcreate (by decide) m.body

theorem speaks_sendTestRequest : Keeps (Speaks env) (sendTestRequest env) := by
  unfold sendTestRequest
  refine keeps_liftExcept_bind fun msg hcreate => keeps_bind (keeps_modify fun s => ?_) fun _ =>
    keeps_bind keeps_get fun s => speaks_send ?_
  · exact Booked.speaks ⟨rfl, rfl, rfl, rfl⟩
  · exact utterable_of_create hcreate (by decide) _

/-! ## Closing the connection -/

theorem silent_disconnect : Keeps (Records Event.IsSilent) networkDisconnect := by
  unfold networkDisconnect
  refine keeps_bind keeps_get fun s => keeps_bind (keeps_modify fun s => .of_eq rfl) fun _ => ?_
  cases s.network.connection with
  | none => exact keeps_pure _
  | some fd =>
      exact keeps_ite (fun _ => keeps_modify (records_event (e := .disconnect fd) rfl)) fun _ =>
        keeps_pure _

theorem silent_terminate (reason : Bytes) : Keeps (Records Event.IsSilent) (terminate reason) := by
  unfold terminate
  refine keeps_bind (keeps_modify (records_event (e := .terminate reason) rfl)) fun _ => ?_
  exact keeps_bind silent_disconnect fun _ => keeps_modify fun s => .of_eq rfl

/-- Where the connection ends, nothing is said and nothing is promised. -/
theorem Speaks.of_closed {s t : Session} (hrec : Records Event.IsSilent s t)
    (hcache : t.cache = s.cache) (hconn : t.network.connected = false) : Speaks env s t := by
  have hno : ∀ {p : Prop}, t.network.connected = true → p := by
    intro p ht
    rw [hconn] at ht
    cases ht
  exact .of_silent hrec (by rw [hcache]) (by rw [hcache]) (by rw [hcache]) hno fun ht _ => hno ht

theorem speaks_disconnect : Keeps (Speaks env) networkDisconnect := by
  intro s
  refine after_eq_of_ends (((networkDisconnect_ends s).keeps silent_disconnect).mono
    (fun _ t ht => ?_) fun _ _ hf => hf.1.elim)
  obtain ⟨⟨-, hcache, hnet⟩, hrec⟩ := ht
  exact .of_closed hrec hcache (by rw [hnet]; rfl)

theorem speaks_terminate (reason : Bytes) : Keeps (Speaks env) (terminate reason) := by
  intro s
  refine after_eq_of_ends (((terminate_ends reason s).keeps (silent_terminate reason)).mono
    (fun _ t ht => ?_) fun _ _ hf => hf.1.elim)
  obtain ⟨⟨-, hcache, hnet⟩, hrec⟩ := ht
  exact .of_closed hrec hcache hnet

theorem speaks_flush (s : Session) :
    Speaks env s { s with cache := s.cache.flushSeqNums } := by
  obtain ⟨hsender, htarget, -, hqueue⟩ := s.cache.flushSeqNums_keeps
  exact .of_silent (.of_eq rfl) htarget hqueue hsender (fun h => h) fun _ h => h

theorem speaks_stop : Keeps (Speaks env) stop := by
  have hnet : Keeps (Speaks env) networkStop := by
    unfold networkStop
    refine keeps_bind keeps_get fun s => keeps_ite (fun _ => keeps_pure _) fun _ => ?_
    refine keeps_bind (keeps_modify fun s => ?_) fun _ => speaks_disconnect
    exact .of_silent (.of_eq rfl) rfl rfl rfl (fun h => h) fun _ h => h
  unfold stop
  refine keeps_bind (keeps_modify fun s => Booked.speaks ⟨rfl, rfl, rfl, rfl⟩) fun _ => ?_
  exact keeps_bind (keeps_modify speaks_flush) fun _ => hnet

/-! ## The delegate -/

end Session

/-- A call that sends a message with `fine`, or sets no number. -/
def DelegateCall.Polite (fine : Message → Prop) : DelegateCall → Prop
  | .send msg => fine msg
  | .setSenderSeqNum _ | .setTargetSeqNum _ => False
  | .start | .stop | .throw => True

/-- A delegate that only makes such calls. -/
def Env.Polite (env : Env) (fine : Message → Prop) : Prop :=
  ∀ call, env.Makes call → call.Polite fine

theorem testEnv_polite (settings : SessionSettings) (fine : Message → Prop) :
    (testEnv settings).Polite fine := by
  intro call ⟨d, hd, _⟩
  cases hd

namespace Session

variable {env : Env} (henv : env.Polite Message.Fine)

include henv

theorem speaks_delegateCalls {calls : List DelegateCall} (hcalls : ∀ c ∈ calls, env.Makes c) :
    Keeps (Speaks env) (delegateCalls env calls) := by
  induction calls with
  | nil => exact keeps_pure _
  | cons call calls ih =>
      refine keeps_bind ?_ fun _ => ih fun c hc => hcalls c (List.mem_cons_of_mem _ hc)
      have hpolite := henv call (hcalls call (List.mem_cons_self ..))
      cases call with
      | send msg => exact speaks_send hpolite.utterable
      | setSenderSeqNum num => exact hpolite.elim
      | setTargetSeqNum num => exact hpolite.elim
      | start => exact keeps_modify fun s => Booked.speaks ⟨rfl, rfl, rfl, rfl⟩
      | stop => exact speaks_stop
      | throw => exact keeps_throw _

theorem speaks_callDelegate {event : Session → Event}
    {callback : Delegate → Session → List DelegateCall}
    (hcallback : ∀ d u, env.delegate = some d → ∀ call ∈ callback d u, env.Makes call)
    (hevent : ∀ u, (event u).IsSilent) : Keeps (Speaks env) (callDelegate env event callback) := by
  unfold callDelegate
  cases hd : env.delegate with
  | none => exact keeps_pure _
  | some d =>
      refine keeps_bind keeps_get fun u => ?_
      refine keeps_bind (keeps_modify fun s => speaks_record (hevent u) s) fun _ => ?_
      exact keeps_bind keeps_get fun u => speaks_delegateCalls henv (hcallback d u hd)

/-! ## What is heard -/

/-- A message after its number was checked, unless it is a logout. -/
theorem speaks_handleSequenced (msg : Message) {msgType : Bytes} (htype : msgType ≠ MsgType.logout) :
    Keeps (Speaks env) (handleSequenced env msg msgType) := by
  have hend : Keeps (Speaks env) (endTestRequest msg) := by
    unfold endTestRequest
    refine keeps_bind keeps_get fun s => keeps_ite (fun _ => ?_) fun _ => keeps_pure _
    refine keeps_bind (keeps_liftExcept _) fun id => keeps_ite (fun _ => ?_) fun _ => keeps_pure _
    exact keeps_modify fun s =>
      .of_silent (.of_eq rfl) rfl rfl rfl (fun h => h) fun _ _ => .inl rfl
  unfold handleSequenced
  rw [if_neg htype]
  refine keeps_ite (fun _ => ?_) fun _ => keeps_ite (fun _ => ?_) fun _ =>
    keeps_ite (fun _ => keeps_pure _) fun _ => ?_
  · exact keeps_bind hend fun _ => speaks_callDelegate henv
      (fun d u hd _ hc => ⟨d, hd, .inr (.inl ⟨u, msg, hc⟩)⟩) fun _ => rfl
  · exact keeps_bind (keeps_liftExcept _) fun id => speaks_sendHeartbeat id
  · exact speaks_callDelegate henv (fun d u hd _ hc => ⟨d, hd, .inl ⟨u, msg, hc⟩⟩) fun _ => rfl

/-- A message with the next number is consumed, and the session speaks. -/
theorem processMessage_speaks {msg : Message} {msgType : Bytes} {time : Int} {s : Session}
    (hvalid : Valid env s.state msg time) (hseq : msg.HasSeqNum s.cache.targetSeqNum)
    (htype : msg.HasType msgType)
    (hcontrol : msgType ∉ Message.controlTypes) :
    Ends (processMessage env msg time) s
      (fun _ => Speaks env { s with cache := s.cache.nextTargetSeqNum })
      fun _ => Speaks env { s with cache := s.cache.nextTargetSeqNum } := by
  simp only [Message.controlTypes, List.mem_cons, List.not_mem_nil, or_false, not_or] at hcontrol
  obtain ⟨hresend, hreset, hlogout, hlogon⟩ := hcontrol
  have hsilent : (Event.process msg s.cache.targetSeqNum).IsSilent := rfl
  have hprocess : Speaks env _ _ :=
    speaks_record hsilent { s with cache := s.cache.nextTargetSeqNum }
  let t : Session := { s with events := s.events ++ [.process msg s.cache.targetSeqNum] }
  have hchecks : Ends (validateMessage env msg msgType time) t (fun ok u => ok = true ∧ u = t)
      fun _ _ => False := validateMessage_passes htype hvalid hseq
  have haccepts : Ends (validateSeqNum env msg) t
      (fun ok u => ok = true ∧ u = { t with cache := t.cache.nextTargetSeqNum })
      fun _ _ => False := validateSeqNum_accepts hseq
  unfold processMessage
  rw [ends_bind, ends_getTargetSeqNum, ends_bind, ends_record, ends_liftExcept_ok htype]
  refine Ends.bind (hchecks.mono (fun _ _ h => h) fun _ _ hf => hf.elim) ?_
  rintro _ _ ⟨rfl, rfl⟩
  rw [if_pos rfl]
  unfold dispatchMessage
  rw [if_neg hreset, if_neg hlogon, if_neg hresend]
  refine Ends.bind (haccepts.mono (fun _ _ h => h) fun _ _ hf => hf.elim) ?_
  rintro _ _ ⟨rfl, rfl⟩
  rw [if_pos rfl]
  exact ((speaks_handleSequenced henv msg hlogout).ends _).mono
    (fun _ t ht => IsTrans.trans (r := Speaks env) _ _ t hprocess ht)
    fun _ t ht => IsTrans.trans (r := Speaks env) _ _ t hprocess ht

omit henv

/-- Parsing the text of a message gives back the fields that the checks read. -/
def Faithful (env : Env) (m : Message) : Prop :=
  ∃ m' ∈ (env.dictionary.parse env.settings (m.toString true)).toOption,
    ∀ tag ∈ checkedTags, m'.header.field? tag = m.header.field? tag

/-- A message that arrives now arrives within the threshold of its SendingTime. -/
def InTime (env : Env) (s : Session) (m : Message) : Prop :=
  ∃ v ∈ m.header.field? Field.sendingTime,
    |nextMillis env s - parseUTCTimestamp v| ≤ env.settings.sendingTimeThreshold * 1000

instance (m : Message) : Decidable (Faithful env m) :=
  inferInstanceAs (Decidable (∃ m' ∈ (env.dictionary.parse env.settings (m.toString true)).toOption,
    ∀ tag ∈ checkedTags, m'.header.field? tag = m.header.field? tag))

instance (s : Session) (m : Message) : Decidable (InTime env s m) :=
  inferInstanceAs (Decidable (∃ v ∈ m.header.field? Field.sendingTime,
    |nextMillis env s - parseUTCTimestamp v| ≤ env.settings.sendingTimeThreshold * 1000))

theorem Faithful.parse {m : Message} (h : Faithful env m) :
    ∃ m', env.dictionary.parse env.settings (m.toString true) = .ok m' ∧
      ∀ tag ∈ checkedTags, m'.header.field? tag = m.header.field? tag := by
  obtain ⟨m', hparse, hfields⟩ := h
  refine ⟨m', ?_, hfields⟩
  cases hresult : env.dictionary.parse env.settings (m.toString true) with
  | error e =>
      rw [hresult] at hparse
      cases hparse
  | ok parsed =>
      rw [hresult] at hparse
      cases hparse
      rfl

/-- What the peer said arrives as a message that passes the checks. -/
theorem Outgoing.arrives {peer : Env} {m : Message} (hout : Outgoing peer m)
    (hmirror : Mirrored peer.settings env.settings) {s : Session} (htalk : s.Talking)
    (hseq : m.header.field? Field.msgSeqNum = some (toChars s.cache.targetSeqNum))
    (h₀ : -2147483648 ≤ s.cache.targetSeqNum) (h₁ : s.cache.targetSeqNum < 2147483648)
    (hfaithful : Faithful env m) (hintime : InTime env s m) :
    ∃ m' msgType, env.dictionary.parse env.settings (m.toString true) = .ok m' ∧
      Valid env s.state m' (nextMillis env s) ∧ m'.HasSeqNum s.cache.targetSeqNum ∧
      m'.HasType msgType ∧ msgType ∉ Message.controlTypes := by
  obtain ⟨m', hparse, hfields⟩ := hfaithful.parse
  obtain ⟨v, hv, htime⟩ := hintime
  have hsame : ∀ {tag : Int} {w : Bytes}, tag ∈ checkedTags → m.header.field? tag = some w →
      m'.header.getField tag = .ok w := fun htag hw =>
    FieldMap.getField_eq.mpr ((hfields _ htag).trans hw)
  have hutter : m'.Utterable := hout.utterable.of_header (hfields _ (by decide))
    (hfields _ (by decide)) (hfields _ (by decide))
  obtain ⟨⟨msgType, htype, hcontrol⟩, hdup⟩ := hutter
  have hpeer : FromPeer env m' := by
    constructor
    · rw [← hmirror.beginString]
      exact hsame (by decide) hout.beginString
    · rw [← hmirror.senderCompID]
      exact hsame (by decide) hout.senderCompID
    · rw [← hmirror.targetCompID]
      exact hsame (by decide) hout.targetCompID
  have hstate : s.state ≠ .logon ∧ s.state ≠ .logout := by
    rcases htalk with hs | hs
    · rw [hs]
      decide
    · rw [hs]
      decide
  refine ⟨m', msgType, hparse, ⟨hpeer, ⟨v, hsame (by decide) hv, htime⟩, hdup,
    fun hs => (hstate.1 hs).elim, fun hs => (hstate.2 hs).elim⟩, ?_, htype, hcontrol⟩
  exact FieldMap.getIntField_eq.mpr
    ⟨_, (hfields _ (by decide)).trans hseq, FieldMap.intOf_toChars h₀ h₁⟩

/-- The loop over an empty queue does nothing. -/
theorem drainQueue_empty (time : Int) (fuel : Nat) {t : Session}
    (hqueue : t.cache.inboundQueue = .empty) :
    Ends (drainQueue env time (fuel + 1)) t (fun _ u => u = t) fun _ _ => False := by
  unfold drainQueue
  rw [ends_bind, ends_get, hqueue, SortedMap.min?_empty]
  rfl

include henv

/-- The next message of the peer is consumed, and the session speaks. -/
theorem onNetworkMessage_speaks {peer : Env} (hmirror : Mirrored peer.settings env.settings)
    {s : Session} (htalk : s.Talking) (hqueue : s.cache.inboundQueue = .empty) {m : Message}
    (hout : Outgoing peer m)
    (hseq : m.header.field? Field.msgSeqNum = some (toChars s.cache.targetSeqNum))
    (h₀ : -2147483648 ≤ s.cache.targetSeqNum) (h₁ : s.cache.targetSeqNum < 2147483648)
    (hfaithful : Faithful env m) (hintime : InTime env s m) :
    Speaks env { s with cache := s.cache.nextTargetSeqNum }
      (after (onNetworkMessage env (m.toString true)) s) := by
  obtain ⟨m', msgType, hparse, hvalid, hnumber, htype, hcontrol⟩ :=
    hout.arrives hmirror htalk hseq h₀ h₁ hfaithful hintime
  have hnot : s.state ≠ .killing := by
    rcases htalk with hs | hs
    · rw [hs]
      decide
    · rw [hs]
      decide
  have hentered : Speaks env { s with cache := s.cache.nextTargetSeqNum }
      { entered env s with cache := s.cache.nextTargetSeqNum } :=
    Booked.speaks ⟨rfl, rfl, rfl, rfl⟩
  have hclear : ∀ t : Session, Speaks env t { t with cachedEpochUs := 0 } := fun t =>
    Booked.speaks ⟨rfl, rfl, rfl, rfl⟩
  have hprocess : Ends (processMessage env m' (nextMillis env s)) (entered env s)
      (fun _ => Speaks env { entered env s with cache := s.cache.nextTargetSeqNum })
      fun _ => Speaks env { entered env s with cache := s.cache.nextTargetSeqNum } :=
    processMessage_speaks henv hvalid hnumber htype hcontrol
  have hcatch : ∀ e, Keeps (Speaks env) (catchAll e) := by
    intro e
    cases e with
    | undefined what => exact keeps_throw _
    | _ => exact keeps_modify hclear
  apply after_eq_of_ends
  unfold onNetworkMessage
  rw [ends_bind, ends_get, if_neg hnot]
  refine Ends.tryCatch (F := fun _ => Speaks env { s with cache := s.cache.nextTargetSeqNum }) ?_
    fun e t ht => ((hcatch e).ends t).mono (fun _ u hu => IsTrans.trans _ t u ht hu)
      fun _ u hu => IsTrans.trans _ t u ht hu
  rw [ends_liftExcept_ok hparse]
  refine handleParsed_ends (hprocess.mono (fun _ t ht => ?_) fun _ t ht => ?_)
  · have hempty : t.cache.inboundQueue = .empty := ht.queue.trans hqueue
    refine (drainQueue_empty _ _ hempty).mono (fun _ u hu => ?_) fun _ _ hf => hf.elim
    rw [hu]
    exact IsTrans.trans _ t _ (IsTrans.trans _ _ t hentered ht) (hclear t)
  · exact IsTrans.trans _ _ t hentered ht

omit henv

/-! ## The tick -/

theorem internalUpdate_speaks {s : Session} (htalk : s.Talking)
    (hconn : s.network.connected = true) :
    Ends (internalUpdate env) s (fun _ => Speaks env s) fun _ => Speaks env s := by
  have hclose : ∀ {p : Prop} [Decidable p] (reason : Bytes),
      Keeps (Speaks env) (if p then terminate reason else pure ()) := fun reason =>
    keeps_ite (fun _ => speaks_terminate reason) fun _ => keeps_pure _
  have hsent : ∀ time, Keeps (Speaks env) (updateSent env time) := fun time =>
    keeps_bind keeps_get fun _ => keeps_ite (fun _ => speaks_sendHeartbeat []) fun _ => keeps_pure _
  have hreceived : ∀ time, Keeps (Speaks env) (updateReceived env time) := by
    intro time
    refine keeps_bind keeps_get fun _ => keeps_ite (fun _ => ?_) fun _ => keeps_pure _
    refine keeps_bind speaks_sendTestRequest fun _ => keeps_modify fun s => ?_
    exact .of_silent (.of_eq rfl) rfl rfl rfl (fun h => h) fun _ _ => .inr rfl
  have hbeat : ∀ time, Keeps (Speaks env) (updateHeartbeats env time) := by
    intro time
    refine keeps_bind keeps_get fun _ => keeps_ite (fun _ => ?_) fun _ => keeps_pure _
    exact keeps_bind (hsent time) fun _ => hreceived time
  have htimeouts : ∀ time, Keeps (Speaks env) (do
      updateTestRequest env time
      updateLogout time
      updateHeartbeats env time) := fun time =>
    keeps_bind (keeps_bind keeps_get fun _ => hclose _) fun _ =>
      keeps_bind (keeps_bind keeps_get fun _ => hclose _) fun _ => hbeat time
  unfold internalUpdate
  refine Ends.bind (((idle_getEpochMillis env).ends s).mono (fun _ _ h => h) fun _ _ h => h.speaks) ?_
  intro time t ht
  have hspeaks : Speaks env s t := ht.speaks
  rw [ends_bind, ends_get, ht.network, hconn]
  change Ends (do
    let sessionType ← liftExcept env.settings.getSessionType
    if sessionType = .initiator ∧ t.state = .logon ∧ t.logonInterval ≤ time - t.lastLogon then
      updateLogon env
    else do
      updateTestRequest env time
      updateLogout time
      updateHeartbeats env time) t _ _
  cases htype : env.settings.getSessionType with
  | error e => exact hspeaks
  | ok sessionType =>
      rw [ends_liftExcept_ok rfl, if_neg]
      · exact ((htimeouts time).ends t).mono (fun _ u hu => IsTrans.trans s t u hspeaks hu)
          fun _ u hu => IsTrans.trans s t u hspeaks hu
      · intro ⟨_, hlogon, _⟩
        rw [ht.state] at hlogon
        rcases htalk with hs | hs
        · exact SessionState.noConfusion (hs.symm.trans hlogon)
        · exact SessionState.noConfusion (hs.symm.trans hlogon)

/-- The tick of a session that is logged on. -/
theorem onNetworkUpdate_speaks {s : Session} (htalk : s.Talking)
    (hconn : s.network.connected = true) : Speaks env s (after (onNetworkUpdate env) s) := by
  apply after_eq_of_ends
  unfold onNetworkUpdate
  rw [ends_bind, ends_get]
  split
  next => exact Std.Refl.refl (r := Speaks env) s
  next =>
    refine Ends.bind (((idle_getEpochMillis env).ends s).mono (fun _ _ h => h)
      fun _ _ h => h.speaks) ?_
    intro now t ht
    rw [ends_bind, ends_get]
    split
    next => exact ht.speaks
    next =>
      let u : Session := { t with lastUpdate := now, cache := t.cache.flushSeqNums }
      have hu : Speaks env s u :=
        IsTrans.trans s t u ht.speaks (IsTrans.trans t { t with lastUpdate := now } u
          (Booked.speaks ⟨rfl, rfl, rfl, rfl⟩) (speaks_flush _))
      have htick : Ends (internalUpdate env) u (fun _ => Speaks env u) fun _ => Speaks env u :=
        internalUpdate_speaks (by rwa [Talking, ht.state]) (by rwa [ht.network])
      rw [ends_bind, ends_modify]
      refine Ends.tryCatch (F := fun _ => Speaks env s) ?_ fun e v hv => ?_
      · rw [ends_bind, ends_modifyCache]
        exact htick.mono (fun _ v hv => IsTrans.trans s u v hu hv)
          fun _ v hv => IsTrans.trans s u v hu hv
      · cases e with
        | undefined what => exact hv
        | _ => exact hv

end Session

/-! ## Two sessions and their links -/

/-- A session and the messages that it transmitted and its peer has not read. -/
structure Party where
  session : Session
  inFlight : List Message

/-- What the session transmits goes to the link. -/
def Party.advance (x : Party) (t : Session) : Party :=
  ⟨t, x.inFlight ++ transmittedBetween x.session t⟩

structure Peers where
  here : Party
  there : Party

/-- What a session does. -/
inductive Turn where
  /-- The application sends a message. -/
  | send (msg : Message)
  | tick
  /-- The oldest message under way is read. -/
  | deliver

inductive Side where
  | here
  | there

namespace Peers

def swap (p : Peers) : Peers := ⟨p.there, p.here⟩

/-- A turn of the session `here`. -/
def turn (env : Env) : Turn → Peers → Peers
  | .send msg, p => ⟨p.here.advance (after (Session.send env msg none) p.here.session), p.there⟩
  | .tick, p => ⟨p.here.advance (after (Session.onNetworkUpdate env) p.here.session), p.there⟩
  | .deliver, p =>
      match p.there.inFlight with
      | [] => p
      | m :: rest =>
          ⟨p.here.advance (after (Session.onNetworkMessage env (m.toString true)) p.here.session),
            ⟨p.there.session, rest⟩⟩

/-- One of the two takes a turn. -/
def next (a b : Env) : Side × Turn → Peers → Peers
  | (.here, t), p => p.turn a t
  | (.there, t), p => (p.swap.turn b t).swap

/-- Neither side closed the connection. -/
def Open (p : Peers) : Prop :=
  p.here.session.network.connected = true ∧ p.there.session.network.connected = true

/-- The application sends messages with `fine`, and a message arrives as it was sent and
in time. -/
def Permits (env : Env) (fine : Message → Prop) (p : Peers) : Turn → Prop
  | .send msg => fine msg
  | .tick => True
  | .deliver => ∀ m ∈ p.there.inFlight.head?,
      Session.Faithful env m ∧ Session.InTime env p.here.session m

def Allowed (a b : Env) (fine : Message → Prop) (p : Peers) : Side × Turn → Prop
  | (.here, t) => p.Open ∧ p.Permits a fine t
  | (.there, t) => p.Open ∧ p.swap.Permits b fine t

instance (p : Peers) : Decidable p.Open := inferInstanceAs (Decidable (_ ∧ _))

instance (env : Env) (fine : Message → Prop) [DecidablePred fine] (p : Peers) :
    (t : Turn) → Decidable (p.Permits env fine t)
  | .send msg => inferInstanceAs (Decidable (fine msg))
  | .tick => .isTrue True.intro
  | .deliver => inferInstanceAs (Decidable (∀ m ∈ p.there.inFlight.head?,
      Session.Faithful env m ∧ Session.InTime env p.here.session m))

instance (a b : Env) (fine : Message → Prop) [DecidablePred fine] (p : Peers) :
    (i : Side × Turn) → Decidable (p.Allowed a b fine i)
  | (.here, _) => inferInstanceAs (Decidable (_ ∧ _))
  | (.there, _) => inferInstanceAs (Decidable (_ ∧ _))

end Peers

namespace Party

/-- Nothing is under way from `x` to `y`, and `y` expects the next number of `x`. -/
structure Fresh (x y : Party) : Prop where
  ready : x.session.state = .ready
  connected : x.session.network.connected = true
  queue : x.session.cache.inboundQueue = .empty
  inFlight : x.inFlight = []
  sender : x.session.cache.senderSeqNum = y.session.cache.targetSeqNum
  isInt : -2147483648 ≤ x.session.cache.targetSeqNum ∧ x.session.cache.targetSeqNum < 2147483648

/-- What is under way from `x` to `y` leads from the number that `y` expects to the next
number of `x`, as `int`s. -/
structure Agreed (x y : Party) : Prop where
  sender : x.session.cache.senderSeqNum = i32 (y.session.cache.targetSeqNum + x.inFlight.length)
  consecutive : ∀ (i : Nat) (m : Message), x.inFlight[i]? = some m →
    m.HasSeqNum (i32 (y.session.cache.targetSeqNum + i))

/-- What holds of a side while the connection is open. -/
structure Half (env : Env) (x y : Party) : Prop where
  talking : x.session.Talking
  queue : x.session.cache.inboundQueue = .empty
  isInt : -2147483648 ≤ x.session.cache.targetSeqNum ∧ x.session.cache.targetSeqNum < 2147483648
  series : Series y.session.cache.targetSeqNum x.inFlight x.session.cache.senderSeqNum
  outgoing : ∀ m ∈ x.inFlight, Session.Outgoing env m

theorem Fresh.half {env : Env} {x y : Party} (h : Fresh x y) : Half env x y where
  talking := .inl h.ready
  queue := h.queue
  isInt := h.isInt
  series := by
    rw [h.inFlight, h.sender]
    exact .nil
  outgoing := by
    rw [h.inFlight]
    exact fun _ hm => absurd hm List.not_mem_nil

theorem Half.agreed {env env' : Env} {x y : Party} (h : Half env x y) (h' : Half env' y x) :
    Agreed x y where
  sender := h.series.last_eq h'.isInt.1 h'.isInt.2
  consecutive _ _ hm := h.series.hasSeqNum h'.isInt.1 h'.isInt.2 hm

/-- The side speaks. -/
theorem Half.speak {env env' : Env} {x y : Party} (h : Half env x y) (h' : Half env' y x)
    {t : Session} (ht : Session.Speaks env x.session t) (hconn : t.network.connected = true) :
    Half env (x.advance t) y ∧ Half env' y (x.advance t) := by
  obtain ⟨ms, hsaid, hout, hseries⟩ := ht.said
  constructor
  · refine ⟨ht.talking hconn h.talking, ht.queue.trans h.queue, ?_, ?_, fun m hm => ?_⟩
    · change -2147483648 ≤ t.cache.targetSeqNum ∧ t.cache.targetSeqNum < 2147483648
      rw [ht.target]
      exact h.isInt
    · change Series _ (x.inFlight ++ transmittedBetween x.session t) t.cache.senderSeqNum
      rw [hsaid.transmittedBetween]
      exact h.series.append (hseries hconn)
    · change m ∈ x.inFlight ++ transmittedBetween x.session t at hm
      rw [hsaid.transmittedBetween] at hm
      rcases List.mem_append.mp hm with hm | hm
      · exact h.outgoing m hm
      · exact hout m hm
  · refine ⟨h'.talking, h'.queue, h'.isInt, ?_, h'.outgoing⟩
    change Series t.cache.targetSeqNum _ _
    rw [ht.target]
    exact h'.series

/-- The side consumes the oldest message of its peer, and speaks. -/
theorem Half.hear {env env' : Env} {x y : Party} (h : Half env x y) (h' : Half env' y x)
    {m : Message} {rest : List Message} (hflight : y.inFlight = m :: rest) {t : Session}
    (ht : Session.Speaks env { x.session with cache := x.session.cache.nextTargetSeqNum } t)
    (hconn : t.network.connected = true) :
    Half env (x.advance t) ⟨y.session, rest⟩ ∧ Half env' ⟨y.session, rest⟩ (x.advance t) := by
  let x' : Party :=
    ⟨{ x.session with cache := x.session.cache.nextTargetSeqNum }, x.inFlight⟩
  have hx' : Half env x' ⟨y.session, rest⟩ :=
    ⟨h.talking, h.queue, i32_range _, h.series, h.outgoing⟩
  have hy' : Half env' ⟨y.session, rest⟩ x' := by
    refine ⟨h'.talking, h'.queue, h'.isInt, ?_, fun m hm => ?_⟩
    · have hseries := h'.series
      rw [hflight] at hseries
      cases hseries with
      | cons _ hrest => exact hrest
    · exact h'.outgoing m (hflight ▸ List.mem_cons_of_mem _ hm)
  exact hx'.speak hy' ht hconn

end Party

namespace Session

/-- Whatever was transmitted from `s` to `t` was a message that the session may send. -/
def SaysOnly (env : Env) (s t : Session) : Prop :=
  ∃ ms, Said s ms t ∧ ∀ m ∈ ms, Outgoing env m

theorem Speaks.saysOnly {env : Env} {s t : Session} (h : Speaks env s t) : SaysOnly env s t := by
  obtain ⟨ms, hsaid, hout, -⟩ := h.said
  exact ⟨ms, hsaid, hout⟩

theorem SaysOnly.refl (env : Env) (s : Session) : SaysOnly env s s :=
  (Std.Refl.refl (r := Speaks env) s).saysOnly

theorem SaysOnly.trans {env : Env} {s t u : Session} (h : SaysOnly env s t)
    (h' : SaysOnly env t u) : SaysOnly env s u := by
  obtain ⟨ms, hsaid, hout⟩ := h
  obtain ⟨ms', hsaid', hout'⟩ := h'
  refine ⟨ms ++ ms', hsaid.trans hsaid', fun m hm => ?_⟩
  rcases List.mem_append.mp hm with hm | hm
  · exact hout m hm
  · exact hout' m hm

/-- Nothing that was transmitted from `s` to `t` asks for a resend, resets the sequence
or logs out. -/
def NeverCorrects (s t : Session) : Prop :=
  ∀ m ∈ transmittedBetween s t, ¬m.HasType MsgType.resendRequest ∧
    ¬m.HasType MsgType.sequenceReset ∧ ¬m.HasType MsgType.logout

theorem SaysOnly.neverCorrects {env : Env} {s t : Session} (h : SaysOnly env s t) :
    NeverCorrects s t := by
  obtain ⟨ms, hsaid, hout⟩ := h
  intro m hm
  rw [hsaid.transmittedBetween] at hm
  obtain ⟨msgType, htype, hcontrol⟩ := (hout m hm).utterable.type
  simp only [Message.controlTypes, List.mem_cons, List.not_mem_nil, or_false, not_or] at hcontrol
  exact ⟨fun ht => hcontrol.1 (htype.unique ht), fun ht => hcontrol.2.1 (htype.unique ht),
    fun ht => hcontrol.2.2.1 (htype.unique ht)⟩

end Session

theorem Mirrored.symm {a b : SessionSettings} (h : Mirrored a b) : Mirrored b a :=
  ⟨h.beginString.symm, h.targetCompID.symm, h.senderCompID.symm⟩

namespace Peers

open Session

/-- Two sessions that are logged on and agree, with nothing under way. -/
def Start (p : Peers) : Prop := Party.Fresh p.here p.there ∧ Party.Fresh p.there p.here

/-- What holds of both sides while the connection is open. -/
def Halves (a b : Env) (p : Peers) : Prop :=
  Party.Half a p.here p.there ∧ Party.Half b p.there p.here

theorem Halves.swap {a b : Env} {p : Peers} (h : Halves a b p) : Halves b a p.swap := ⟨h.2, h.1⟩

/-- What a turn of the session `here` leads to. -/
structure Turned (a b : Env) (p q : Peers) : Prop where
  halves : q.Open → Halves a b q
  here : SaysOnly a p.here.session q.here.session
  there : q.there.session = p.there.session

variable {a b : Env}

theorem turned_speaks {p : Peers} (h : Halves a b p) {t : Session}
    (ht : Speaks a p.here.session t) : Turned a b p ⟨p.here.advance t, p.there⟩ where
  halves hopen := h.1.speak h.2 ht hopen.1
  here := ht.saysOnly
  there := rfl

theorem turn_turned (hmirror : Mirrored b.settings a.settings) (ha : a.Polite Message.Fine)
    {p : Peers} (h : Halves a b p) (hopen : p.Open) {t : Turn}
    (ht : p.Permits a Message.Fine t) : Turned a b p (p.turn a t) := by
  cases t with
  | send msg => exact turned_speaks h (speaks_send (Message.Fine.utterable ht) p.here.session)
  | tick => exact turned_speaks h (onNetworkUpdate_speaks h.1.talking hopen.1)
  | deliver =>
      cases hflight : p.there.inFlight with
      | nil =>
          have hstay : p.turn a .deliver = p := by
            simp only [turn, hflight]
          rw [hstay]
          exact ⟨fun _ => h, .refl a _, rfl⟩
      | cons m rest =>
          have hturn : p.turn a .deliver =
              ⟨p.here.advance (after (onNetworkMessage a (m.toString true)) p.here.session),
                ⟨p.there.session, rest⟩⟩ := by
            simp only [turn, hflight]
          obtain ⟨hfaithful, hintime⟩ := ht m (by rw [hflight]; rfl)
          have hseries := h.2.series
          rw [hflight] at hseries
          cases hseries with
          | cons hseq _ =>
              have hout := h.2.outgoing m (hflight ▸ List.mem_cons_self ..)
              have hspeaks := onNetworkMessage_speaks ha hmirror h.1.talking h.1.queue hout hseq
                h.1.isInt.1 h.1.isInt.2 hfaithful hintime
              rw [hturn]
              exact ⟨fun hopen => h.1.hear h.2 hflight hspeaks hopen.1, hspeaks.saysOnly, rfl⟩

/-- What holds in every state of a run. -/
structure Inv (a b : Env) (start p : Peers) : Prop where
  halves : p.Open → Halves a b p
  here : SaysOnly a start.here.session p.here.session
  there : SaysOnly b start.there.session p.there.session

theorem Inv.next (hmirror : Mirrored a.settings b.settings) (ha : a.Polite Message.Fine)
    (hb : b.Polite Message.Fine) {start p : Peers} (h : Inv a b start p) {i : Side × Turn}
    (hi : p.Allowed a b Message.Fine i) : Inv a b start (next a b i p) := by
  obtain ⟨side, t⟩ := i
  cases side with
  | here =>
      obtain ⟨hopen, ht⟩ := hi
      have hturned := turn_turned hmirror.symm ha (h.halves hopen) hopen ht
      refine ⟨hturned.halves, h.here.trans hturned.here, ?_⟩
      change SaysOnly b start.there.session (p.turn a t).there.session
      rw [hturned.there]
      exact h.there
  | there =>
      obtain ⟨hopen, ht⟩ := hi
      have hturned := turn_turned hmirror hb (h.halves hopen).swap ⟨hopen.2, hopen.1⟩ ht
      refine ⟨fun hopen' => (hturned.halves ⟨hopen'.2, hopen'.1⟩).swap, ?_,
        h.there.trans hturned.here⟩
      change SaysOnly a start.here.session (p.swap.turn b t).there.session
      rw [hturned.there]
      exact h.here

/-- Whatever the order of sends, ticks and deliveries, the two sessions agree on their
numbers while the connection is open, and never correct them. -/
theorem run_agrees (hmirror : Mirrored a.settings b.settings) (ha : a.Polite Message.Fine)
    (hb : b.Polite Message.Fine) {start p : Peers} (hstart : start.Start)
    (h : Run.Reached start (next a b) (Allowed a b Message.Fine) p) :
    (p.Open → Party.Agreed p.here p.there ∧ Party.Agreed p.there p.here) ∧
      NeverCorrects start.here.session p.here.session ∧
      NeverCorrects start.there.session p.there.session := by
  have hinv : Inv a b start p := by
    refine h.invariant (P := Inv a b start) ?_ fun s i hi hs => hs.next hmirror ha hb hi
    exact ⟨fun _ => ⟨hstart.1.half, hstart.2.half⟩, .refl a _, .refl b _⟩
  refine ⟨fun hopen => ?_, hinv.here.neverCorrects, hinv.there.neverCorrects⟩
  obtain ⟨hhere, hthere⟩ := hinv.halves hopen
  exact ⟨hhere.agreed hthere, hthere.agreed hhere⟩

/-! ## The sessions of the tests -/

/-- A session of the tests that is logged on, with both numbers at `num`. -/
def readySession (settings : SessionSettings) (num : Int) : Session :=
  let s := connectedSession settings
  { s with state := .ready, cache := { s.cache with senderSeqNum := num, targetSeqNum := num } }

/-- The two sessions of the tests, with all numbers at `num`. -/
def ready (num : Int) : Peers :=
  ⟨⟨readySession acceptorSettings num, []⟩, ⟨readySession initiatorSettings num, []⟩⟩

theorem ready_start {num : Int} (h₀ : -2147483648 ≤ num) (h₁ : num < 2147483648) :
    (ready num).Start :=
  ⟨⟨rfl, rfl, rfl, rfl, rfl, h₀, h₁⟩, ⟨rfl, rfl, rfl, rfl, rfl, h₀, h₁⟩⟩

theorem mirrored_test : Mirrored acceptorSettings initiatorSettings := ⟨rfl, rfl, rfl⟩

/-- A turn of one of the two sessions of the tests. -/
abbrev testNext : Side × Turn → Peers → Peers :=
  next (testEnv acceptorSettings) (testEnv initiatorSettings)

/-- The acceptor sends an order and a test request, which is answered. -/
theorem run_agrees_test :
    let p := Run.runOf testNext (ready 1)
      [(.here, .send (testMessage (ascii "D"))), (.here, .tick), (.there, .deliver),
        (.there, .deliver), (.here, .deliver), (.there, .send (testMessage (ascii "D")))]
    p.Open ∧ Party.Agreed p.here p.there ∧ Party.Agreed p.there p.here := by
  have hopen : (Run.runOf testNext (ready 1)
      [(.here, .send (testMessage (ascii "D"))), (.here, .tick), (.there, .deliver),
        (.there, .deliver), (.here, .deliver), (.there, .send (testMessage (ascii "D")))]).Open := by
    decide +kernel
  refine ⟨hopen, (run_agrees mirrored_test (testEnv_polite _ _) (testEnv_polite _ _)
    (ready_start (by decide) (by decide)) (Run.Reached.init.along ?_)).1 hopen⟩
  decide +kernel

/-- The numbers agree in every run in which the applications send messages with `fine`. -/
def AlwaysAgree (fine : Message → Prop) : Prop :=
  ∀ (a b : Env) (start p : Peers), Mirrored a.settings b.settings → a.Polite fine →
    b.Polite fine → start.Start → Run.Reached start (next a b) (Allowed a b fine) p → p.Open →
    p.here.session.cache.senderSeqNum =
      p.there.session.cache.targetSeqNum + p.here.inFlight.length

/-- A possible duplicate without OrigSendingTime is rejected and does not use up its
number, and the sender number wraps. -/
theorem not_run_agrees : ¬AlwaysAgree Message.IsApplication ∧ ¬AlwaysAgree Message.Fine := by
  constructor
  · intro hall
    have hagree := hall (testEnv acceptorSettings) (testEnv initiatorSettings) (ready 1)
      (Run.runOf testNext (ready 1)
        [(.here, .send ((testMessage (ascii "D")).setHeader Field.possDupFlag (ascii "Y"))),
          (.there, .deliver)])
      mirrored_test (testEnv_polite _ _) (testEnv_polite _ _)
      (ready_start (by decide) (by decide)) (Run.Reached.init.along (by decide +kernel))
      (by decide +kernel)
    exact absurd hagree (by decide +kernel)
  · intro hall
    have hagree := hall (testEnv acceptorSettings) (testEnv initiatorSettings) (ready 2147483647)
      (Run.runOf testNext (ready 2147483647) [(.here, .send (testMessage (ascii "D")))])
      mirrored_test (testEnv_polite _ _) (testEnv_polite _ _)
      (ready_start (by decide) (by decide)) (Run.Reached.init.along (by decide +kernel))
      (by decide +kernel)
    exact absurd hagree (by decide +kernel)

end Peers

end OpenFix
