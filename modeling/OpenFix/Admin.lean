import OpenFix.Logons

/-!
# The messages of the session itself

A session sends seven kinds of messages of its own, each by a function that builds the
message, stamps it and sends it.  A call of one of them transmits one message
(`AdminCall.run_sends`), whose header has the stamp and the marks of the call, and its body
the fields.  The marks of a logon stand in front of the stamp.  A SequenceReset sets
MsgSeqNum over the number that it was stamped with: the ordered insertion keeps the view
that is there, and with it the length of the old number.
-/

namespace OpenFix

open Effect Loop

namespace Session

/-! ## The calls -/

/-- A call of one of the functions that send a message of the session itself. -/
inductive AdminCall where
  | logon (shouldReset : Bool)
  | logout (reason : Bytes) (term : Bool)
  | heartbeat (testReqID : Bytes)
  | testRequest
  | resendRequest (fromSeqNo toSeqNo : Int)
  | reject (rejectedMsg : Message) (reason : SessionRejectReason) (text : Bytes)
  | sequenceReset (seqno newSeqno : Int) (gapfill : Bool)

namespace AdminCall

def run (env : Env) : AdminCall → SessionM Unit
  | logon shouldReset => sendLogon env shouldReset
  | logout reason term => sendLogout env reason term
  | heartbeat testReqID => sendHeartbeat env testReqID
  | testRequest => sendTestRequest env
  | resendRequest fromSeqNo toSeqNo => sendResendRequest env fromSeqNo toSeqNo
  | reject rejectedMsg reason text => sendReject env rejectedMsg reason text
  | sequenceReset seqno newSeqno gapfill => sendSequenceReset env seqno newSeqno gapfill

def msgType : AdminCall → Bytes
  | logon _ => MsgType.logon
  | logout _ _ => MsgType.logout
  | heartbeat _ => MsgType.heartbeat
  | testRequest => MsgType.testRequest
  | resendRequest _ _ => MsgType.resendRequest
  | reject _ _ _ => MsgType.reject
  | sequenceReset _ _ _ => MsgType.sequenceReset

/-- The number that the call gives its message. -/
def seqNum (s : Session) : AdminCall → Int
  | sequenceReset seqno _ _ => seqno
  | _ => s.cache.senderSeqNum

/-- The time that the call stamps. -/
def millis (env : Env) (s : Session) : AdminCall → Int
  | sequenceReset _ _ _ => nextMillis env s
  | _ => sendMillis env s

/-- The header that the call sets, as every message has it. -/
def stamp (env : Env) (s : Session) (call : AdminCall) : List (Int × Bytes) :=
  stampedFields env.settings call.msgType (call.seqNum s) (call.millis env s)

/-- The other fields that the call sets in the header. -/
def marks (env : Env) (s : Session) : AdminCall → List (Int × Bytes)
  | logon shouldReset =>
      (if env.settings.sendNextExpectedMsgSeqNum then
        [(Field.nextExpectedMsgSeqNum, toChars s.cache.targetSeqNum)] else []) ++
      if shouldReset then [(Field.resetSeqNumFlag, ascii "Y")] else []
  | sequenceReset _ _ _ =>
      [(Field.origSendingTime, writeUTCTimestamp ((env.clock (s.clockReads + 1)).tdiv 1000)),
        (Field.possDupFlag, ascii "Y")]
  | _ => []

/-- The fields that the call sets in the body. -/
def fields (s : Session) : AdminCall → List (Int × Bytes)
  | logon _ => logonFields (s.heartbeatInterval.tdiv 1000)
  | logout reason _ => if reason ≠ [] then [(Field.text, reason)] else []
  | heartbeat testReqID => if testReqID ≠ [] then [(Field.testReqID, testReqID)] else []
  | testRequest => [(Field.testReqID, toChars (i32 (s.testReqID + 1)))]
  | resendRequest fromSeqNo toSeqNo =>
      [(Field.beginSeqNo, toChars fromSeqNo), (Field.endSeqNo, toChars toSeqNo)]
  | reject rejectedMsg reason text =>
      [(Field.refSeqNum, (rejectedMsg.header.field? Field.msgSeqNum).getD []),
        (Field.sessionRejectReason, toChars reason.code)] ++
      if text ≠ [] then [(Field.text, text)] else []
  | sequenceReset _ newSeqno gapfill =>
      (Field.newSeqNo, toChars newSeqno) ::
        if gapfill then [(Field.gapFillFlag, ascii "Y")] else []

/-- All that the call sets. -/
def said (env : Env) (s : Session) (call : AdminCall) : List (Int × Bytes) :=
  call.stamp env s ++ call.marks env s ++ call.fields s

end AdminCall

variable {env : Env}

/-! ## What the calls transmit -/

/-- A connected session transmits what it sends, and nothing else. -/
theorem internalSend_said (env : Env) (m : Message) (callback : Option Bytes) (epochUs : Int)
    {s : Session} (hconn : s.network.connected = true) :
    Ends (internalSend env m callback epochUs) s (fun _ t => Said s [m] t) fun _ _ => False := by
  obtain ⟨hsome, hvalid⟩ := s.network.wf hconn
  obtain ⟨fd, hfd⟩ := Option.isSome_iff_exists.mp hsome
  unfold internalSend
  rw [ends_bind, ends_get, if_pos hconn]
  refine Ends.bind (P := fun _ t => Said s [m] t) ?_ fun _ t ht => (ends_modify _).mpr ht
  have htransmits : Said s [m] { s with events := s.events ++ [.transmit fd m] } := ⟨_, rfl, rfl⟩
  unfold networkSend
  rw [ends_bind, ends_get, hfd]
  simp only [hvalid, Bool.true_eq_false, dite_false]
  rw [ends_bind, ends_record]
  split
  next =>
    cases callback with
    | none => exact htransmits
    | some reason =>
        refine ((terminate_ends reason _).and ((silent_terminate reason).ends _)).mono ?_
          fun _ _ h => h.1
        exact fun _ t ht => htransmits.trans ht.2.said
  next => exact htransmits

theorem send_said (env : Env) {msg : Message} (hroom : msg.header.Room 2) (callback : Option Bytes)
    {s : Session} (hconn : s.network.connected = true) :
    Ends (send env msg callback) s
      (fun _ t => ∃ header, stampHeader env.settings s.cache.senderSeqNum (sendMillis env s)
          msg.header = .ok header ∧ Said s [{ msg with header := header }] t)
      fun _ _ => False := by
  unfold send
  refine Ends.bind ((currentEpochUs_reads env s).mono (fun _ _ h => h) fun _ _ h => h.elim) ?_
  rintro _ t ⟨rfl, ht, hreads⟩
  refine Ends.bind ((populateMessage_reads env msg _ t).mono (fun _ _ h => h) ?_) ?_
  · rintro e u ⟨-, ms, he⟩
    obtain ⟨header, hok⟩ := stampHeader_of_room env.settings t.cache.senderSeqNum ms hroom
    rw [hok] at he
    cases he
  · rintro ⟨_, _⟩ u ⟨hu, rfl, -, header, hheader, rfl⟩
    have hmillis : (if (sendMicros env s).tdiv 1000 = 0 then nextMillis env t
        else (sendMicros env s).tdiv 1000) = sendMillis env s := by
      rw [sendMillis, ← hreads]
      rfl
    rw [hmillis, ht.cache] at hheader
    have hidle : Idle s u := IsTrans.trans s t u ht hu
    rw [ends_bind, ends_modifyCache]
    refine (internalSend_said env _ callback _ (by rw [hidle.network]; exact hconn)).mono ?_
      fun _ _ h => h
    rintro _ v ⟨ev, hev, hsaid⟩
    exact ⟨header, hheader, ev, by rw [hev, hidle.events], hsaid⟩

namespace AdminCall

variable {call : AdminCall} {created : Message}

/-- The message that the call sends, before it is stamped. -/
def filled (env : Env) (s : Session) (created : Message) (call : AdminCall) : Message :=
  { created with
    header := created.header.fillWith (call.marks env s)
    body := created.body.fillWith (call.fields s) }

theorem room_filled (hcreate : env.dictionary.create call.msgType = .ok created) (s : Session) :
    (call.filled env s created).header.Room 2 := by
  have hroom := create_room hcreate
  have hfill : ∀ {k : Nat} {m : FieldMap} {fields : List (Int × Bytes)},
      m.Room (fields.length + k) → (m.fillWith fields).Room k := by
    intro k m fields h
    induction fields generalizing m with
    | nil => exact h.mono (by simp)
    | cons f fields ih =>
        exact ih ((h.mono (by rw [List.length_cons]; omega)).setField f.1 f.2 true)
  have hmarks : (call.marks env s).length ≤ 2 := by
    cases call with
    | logon shouldReset =>
        rw [marks]
        cases env.settings.sendNextExpectedMsgSeqNum with
        | false => cases shouldReset with
          | false => exact Nat.zero_le 2
          | true => exact Nat.le_succ 1
        | true => cases shouldReset with
          | false => exact Nat.le_succ 1
          | true => exact Nat.le_refl 2
    | sequenceReset seqno newSeqno gapfill => exact Nat.le_refl 2
    | logout reason term => exact Nat.zero_le 2
    | heartbeat testReqID => exact Nat.zero_le 2
    | testRequest => exact Nat.zero_le 2
    | resendRequest fromSeqNo toSeqNo => exact Nat.zero_le 2
    | reject rejectedMsg reason text => exact Nat.zero_le 2
  exact hfill (hroom.mono (by omega))

/-- A call sends the message that it has filled, with the stamp of the session; a Reject of a
message without a number raises instead. -/
theorem run_said (hcreate : env.dictionary.create call.msgType = .ok created) {s : Session}
    (hconn : s.network.connected = true)
    (hcall : ∀ seqno newSeqno gapfill, call ≠ sequenceReset seqno newSeqno gapfill) :
    Ends (call.run env) s
      (fun _ t => ∃ header, stampHeader env.settings s.cache.senderSeqNum (sendMillis env s)
          (created.header.fillWith (call.marks env s)) = .ok header ∧
        Said s [{ call.filled env s created with header := header }] t)
      fun _ t => Said s [] t ∧
        ∃ rejectedMsg reason text, call = reject rejectedMsg reason text := by
  have hsend := fun callback =>
    send_said env (call.room_filled hcreate s) callback hconn
  have hbuilt : ∀ {x : Except Exn Message}, x = .ok (call.filled env s created) →
      ∀ callback : Option Bytes, Ends (do
          let msg ← liftExcept x
          send env msg callback) s
        (fun _ t => ∃ header, stampHeader env.settings s.cache.senderSeqNum (sendMillis env s)
          (created.header.fillWith (call.marks env s)) = .ok header ∧
          Said s [{ call.filled env s created with header := header }] t)
        fun _ t => Said s [] t ∧
          ∃ rejectedMsg reason text, call = reject rejectedMsg reason text := by
    intro x hx callback
    rw [ends_liftExcept_ok hx]
    exact (hsend callback).mono (fun _ _ h => h) fun _ _ h => h.elim
  cases call with
  | logon shouldReset =>
      have hbuild : buildLogon env s shouldReset =
          .ok ((logon shouldReset).filled env s created) := by
        unfold buildLogon filled marks fields
        rw [show env.dictionary.create MsgType.logon = .ok created from hcreate]
        cases env.settings.sendNextExpectedMsgSeqNum with
        | false => cases shouldReset with
          | false => rfl
          | true => rfl
        | true => cases shouldReset with
          | false => rfl
          | true => rfl
      rw [run, sendLogon, ends_bind, ends_get, ends_liftExcept_ok hbuild]
      refine Ends.bind ((hsend none).mono (fun _ _ h => h) fun _ _ h => h.elim) fun _ t ht => ?_
      exact ht
  | logout reason term =>
      refine hbuilt ?_ _
      rw [filled, fields, buildLogout,
        show env.dictionary.create MsgType.logout = .ok created from hcreate]
      show Except.ok (if _ then _ else _) = _
      by_cases hreason : reason ≠ []
      · rw [if_pos hreason, if_pos hreason]
        rfl
      · rw [if_neg hreason, if_neg hreason]
        rfl
  | heartbeat testReqID =>
      refine hbuilt ?_ _
      rw [filled, fields, buildHeartbeat,
        show env.dictionary.create MsgType.heartbeat = .ok created from hcreate]
      show Except.ok (if _ then _ else _) = _
      by_cases hreqid : testReqID ≠ []
      · rw [if_pos hreqid, if_pos hreqid]
        rfl
      · rw [if_neg hreqid, if_neg hreqid]
        rfl
  | testRequest =>
      have hcreate' : env.dictionary.create MsgType.testRequest = .ok created := hcreate
      rw [run, sendTestRequest, ends_liftExcept_ok hcreate', ends_bind, ends_modify, ends_bind,
        ends_get]
      exact (send_said env (s := { s with testReqID := s.testReqID + 1 })
        (testRequest.room_filled hcreate s) none hconn).mono (fun _ _ h => h) fun _ _ h => h.elim
  | resendRequest fromSeqNo toSeqNo =>
      refine hbuilt ?_ _
      unfold buildResendRequest
      rw [show env.dictionary.create MsgType.resendRequest = .ok created from hcreate]
      rfl
  | reject rejectedMsg reason text =>
      have hcreate' : env.dictionary.create MsgType.reject = .ok created := hcreate
      rw [run, sendReject]
      cases hnumber : rejectedMsg.header.getField Field.msgSeqNum with
      | error e =>
          have hbuild : buildReject env rejectedMsg reason text = .error e := by
            unfold buildReject
            rw [hcreate', hnumber]
            rfl
          rw [hbuild]
          exact ⟨⟨[], by simp, rfl⟩, _, _, _, rfl⟩
      | ok number =>
          refine hbuilt ?_ _
          rw [filled, fields, buildReject, hcreate', hnumber, FieldMap.getField_eq.mp hnumber]
          show Except.ok (if _ then _ else _) = _
          by_cases htext : text ≠ []
          · rw [if_pos htext, if_pos htext]
            rfl
          · rw [if_neg htext, if_neg htext]
            rfl
  | sequenceReset seqno newSeqno gapfill => exact absurd rfl (hcall seqno newSeqno gapfill)

/-- A SequenceReset is stamped first, and marked then. -/
theorem sequenceReset_said {seqno newSeqno : Int} {gapfill : Bool}
    (hcreate : env.dictionary.create MsgType.sequenceReset = .ok created) {s : Session}
    (hconn : s.network.connected = true) :
    Ends (sendSequenceReset env seqno newSeqno gapfill) s
      (fun _ t => ∃ header, stampHeader env.settings s.cache.senderSeqNum (nextMillis env s)
          created.header = .ok header ∧
        Said s [fillSequenceReset { created with header := header }
          (writeUTCTimestamp ((env.clock (s.clockReads + 1)).tdiv 1000)) seqno newSeqno gapfill] t)
      fun _ _ => False := by
  unfold sendSequenceReset
  rw [ends_liftExcept_ok hcreate]
  refine Ends.bind ((populateMessage_reads env created 0 s).mono (fun _ _ h => h) ?_) ?_
  · rintro e t ⟨-, ms, he⟩
    obtain ⟨header, hok⟩ := stampHeader_of_room env.settings s.cache.senderSeqNum ms
      ((create_room hcreate).mono (by decide))
    rw [hok] at he
    cases he
  · rintro ⟨_, _⟩ t ⟨ht, -, hreads, header, hheader, rfl⟩
    refine Ends.bind (P := fun now u => now =
        writeUTCTimestamp ((env.clock (s.clockReads + 1)).tdiv 1000) ∧ Idle t u) ?_ ?_
    · rw [← hreads rfl]
      exact ⟨rfl, ⟨rfl, rfl, rfl, rfl, rfl⟩, rfl, rfl⟩
    · rintro _ u ⟨rfl, hu⟩
      refine Ends.bind (currentEpochUs_ends env u) fun epochUs v hv => ?_
      have hidle : Idle s v := IsTrans.trans s t v ht (IsTrans.trans t u v hu hv)
      refine (internalSend_said env _ none epochUs (by rw [hidle.network]; exact hconn)).mono ?_
        fun _ _ h => h
      rintro _ w ⟨ev, hev, hsaid⟩
      exact ⟨header, hheader, ev, by rw [hev, hidle.events], hsaid⟩

end AdminCall

end Session

/-! ## Dictionaries that define the messages -/

namespace Dictionary

/-- A message of the type has these fields always, and these besides. -/
def Defines (settings : SessionSettings) (dict : Dictionary) (msgType : Bytes)
    (always sometimes : List Int) : Prop :=
  ∃ spec, dict.Lists settings msgType spec always ∧
    ∀ tag ∈ sometimes, dict.Plain spec tag ∧ refusedBy [dict.headerSpec] tag = true

/-- The dictionary has the standard header in its order, and defines the messages that a session
sends of itself. -/
structure Administers (settings : SessionSettings) (dict : Dictionary) : Prop
    extends dict.Standard settings where
  marks : ∀ tag ∈ [Field.origSendingTime, Field.possDupFlag], dict.Plain dict.headerSpec tag
  ordered : dict.headerSpec.ordered = true
  order : ∃ rest, dict.headerSpec.fieldOrder =
      Field.beginString :: Field.bodyLength :: Field.msgType :: rest ∧
    Field.beginString ∉ rest ∧ Field.msgSeqNum ∈ rest
  /-- The fields of a logon, which are in no standard header. -/
  notInHeader : ∀ tag ∈ [Field.nextExpectedMsgSeqNum, Field.resetSeqNumFlag],
    refusedBy [dict.headerSpec] tag = true
  logon : dict.Defines settings MsgType.logon logonTags []
  logout : dict.Defines settings MsgType.logout [] [Field.text]
  heartbeat : dict.Defines settings MsgType.heartbeat [] [Field.testReqID]
  testRequest : dict.Defines settings MsgType.testRequest [Field.testReqID] []
  resendRequest : dict.Defines settings MsgType.resendRequest [Field.beginSeqNo, Field.endSeqNo] []
  reject : dict.Defines settings MsgType.reject [Field.refSeqNum, Field.sessionRejectReason]
    [Field.text]
  sequenceReset : dict.Defines settings MsgType.sequenceReset [Field.newSeqNo] [Field.gapFillFlag]

variable {settings : SessionSettings} {dict : Dictionary} {msgType : Bytes}
  {always sometimes tags : List Int}

theorem Defines.lists (h : dict.Defines settings msgType always sometimes)
    (halways : ∀ tag ∈ always, tag ∈ tags)
    (htags : ∀ tag ∈ tags, tag ∈ always ∨ tag ∈ sometimes) :
    ∃ spec, dict.Lists settings msgType spec tags := by
  obtain ⟨spec, hlists, hsometimes⟩ := h
  refine ⟨spec, hlists.listed, fun tag htag => ?_, fun hvalidate field hfield hreq => ?_,
    hlists.behind⟩
  · rcases htags tag htag with hmem | hmem
    · exact hlists.fields tag hmem
    · exact hsometimes tag hmem
  · exact halways _ (hlists.required hvalidate field hfield hreq)

end Dictionary

namespace Session.AdminCall

variable {env : Env} {settings : SessionSettings} {s : Session} {call : AdminCall}

/-- The dictionary lists what a call sets in the body. -/
theorem lists_fields (hdict : env.dictionary.Administers settings) (s : Session)
    (call : AdminCall) :
    ∃ spec, env.dictionary.Lists settings call.msgType spec (AssocList.keys (call.fields s)) := by
  cases call with
  | logon shouldReset => exact hdict.logon.lists (fun _ h => h) fun _ h => .inl h
  | logout reason term =>
      refine hdict.logout.lists (fun _ h => absurd h List.not_mem_nil) fun tag htag => .inr ?_
      rw [fields] at htag
      split at htag
      next => exact htag
      next => cases htag
  | heartbeat testReqID =>
      refine hdict.heartbeat.lists (fun _ h => absurd h List.not_mem_nil) fun tag htag => .inr ?_
      rw [fields] at htag
      split at htag
      next => exact htag
      next => cases htag
  | testRequest => exact hdict.testRequest.lists (fun _ h => h) fun _ h => .inl h
  | resendRequest fromSeqNo toSeqNo =>
      exact hdict.resendRequest.lists (fun _ h => h) fun _ h => .inl h
  | reject rejectedMsg reason text =>
      rw [fields]
      split
      next =>
        refine hdict.reject.lists (fun _ h => List.mem_append_left [Field.text] h)
          fun tag htag => ?_
        exact List.mem_append.mp (show tag ∈ [Field.refSeqNum, Field.sessionRejectReason] ++
          [Field.text] from htag)
      next => exact hdict.reject.lists (fun _ h => h) fun _ h => .inl h
  | sequenceReset seqno newSeqno gapfill =>
      cases gapfill with
      | false => exact hdict.sequenceReset.lists (fun _ h => h) fun _ h => .inl h
      | true =>
          refine hdict.sequenceReset.lists (fun _ h => List.mem_append_left [Field.gapFillFlag] h)
            fun tag htag => ?_
          exact List.mem_append.mp (show tag ∈ [Field.newSeqNo] ++ [Field.gapFillFlag] from htag)

theorem nodup_fields (s : Session) (call : AdminCall) :
    (AssocList.keys (call.fields s)).Nodup := by
  cases call with
  | logon shouldReset => simp [fields, logonFields, AssocList.keys]
  | logout reason term =>
      rw [fields]
      split
      next => exact List.nodup_singleton _
      next => exact List.nodup_nil
  | heartbeat testReqID =>
      rw [fields]
      split
      next => exact List.nodup_singleton _
      next => exact List.nodup_nil
  | testRequest => exact List.nodup_singleton _
  | resendRequest fromSeqNo toSeqNo => simp [fields, AssocList.keys]
  | reject rejectedMsg reason text =>
      rw [fields]
      split
      next => simp [AssocList.keys]
      next => simp [AssocList.keys]
  | sequenceReset seqno newSeqno gapfill =>
      cases gapfill with
      | false => exact List.nodup_singleton _
      | true => simp [fields, AssocList.keys]

/-- The tags that a call marks the header with. -/
theorem mem_marks {f : Int × Bytes} (hf : f ∈ call.marks env s) :
    f.1 ∈ [Field.nextExpectedMsgSeqNum, Field.resetSeqNumFlag, Field.origSendingTime,
      Field.possDupFlag] := by
  cases call with
  | logon shouldReset =>
      rcases List.mem_append.mp hf with hf | hf
      · split at hf
        next =>
          rw [List.mem_singleton.mp hf]
          exact List.mem_cons_self ..
        next => cases hf
      · split at hf
        next =>
          rw [List.mem_singleton.mp hf]
          decide
        next => cases hf
  | sequenceReset seqno newSeqno gapfill =>
      rcases List.mem_cons.mp hf with rfl | hf
      · simp
      · rw [List.mem_singleton.mp hf]
        decide
  | logout reason term => cases hf
  | heartbeat testReqID => cases hf
  | testRequest => cases hf
  | resendRequest fromSeqNo toSeqNo => cases hf
  | reject rejectedMsg reason text => cases hf

theorem nodup_marks (env : Env) (s : Session) (call : AdminCall) :
    (AssocList.keys (call.marks env s)).Nodup := by
  cases call with
  | logon shouldReset =>
      rw [marks]
      cases env.settings.sendNextExpectedMsgSeqNum with
      | false => cases shouldReset with
        | false => exact List.nodup_nil
        | true => exact List.nodup_singleton _
      | true => cases shouldReset with
        | false => exact List.nodup_singleton _
        | true => simp [AssocList.keys]
  | sequenceReset seqno newSeqno gapfill => simp [marks, AssocList.keys]
  | logout reason term => exact List.nodup_nil
  | heartbeat testReqID => exact List.nodup_nil
  | testRequest => exact List.nodup_nil
  | resendRequest fromSeqNo toSeqNo => exact List.nodup_nil
  | reject rejectedMsg reason text => exact List.nodup_nil

/-- The text of MsgSeqNum as it is sent.  That of a SequenceReset has the length of the number
that the message was stamped with. -/
def number (s : Session) : AdminCall → Bytes
  | sequenceReset seqno _ _ =>
      (assignBuffer (newBuffer (toChars s.cache.senderSeqNum)) (toChars seqno)).take
        (toChars s.cache.senderSeqNum).length
  | _ => toChars s.cache.senderSeqNum

/-- The header of the message as it is sent. -/
def header (env : Env) (s : Session) (call : AdminCall) : List (Int × Bytes) :=
  AssocList.set Field.msgSeqNum (call.number s) (call.stamp env s) ++ call.marks env s

/-- All calls but that of a SequenceReset send the number of the session. -/
theorem sequenceReset_or (env : Env) (s : Session) (call : AdminCall) :
    (∃ seqno newSeqno gapfill, call = sequenceReset seqno newSeqno gapfill) ∨
      (call.number s = toChars s.cache.senderSeqNum ∧ call.seqNum s = s.cache.senderSeqNum ∧
        call.millis env s = sendMillis env s ∧
        ∀ seqno newSeqno gapfill, call ≠ sequenceReset seqno newSeqno gapfill) := by
  cases call with
  | sequenceReset seqno newSeqno gapfill => exact .inl ⟨_, _, _, rfl⟩
  | logon shouldReset => exact .inr ⟨rfl, rfl, rfl, fun _ _ _ h => by cases h⟩
  | logout reason term => exact .inr ⟨rfl, rfl, rfl, fun _ _ _ h => by cases h⟩
  | heartbeat testReqID => exact .inr ⟨rfl, rfl, rfl, fun _ _ _ h => by cases h⟩
  | testRequest => exact .inr ⟨rfl, rfl, rfl, fun _ _ _ h => by cases h⟩
  | resendRequest fromSeqNo toSeqNo => exact .inr ⟨rfl, rfl, rfl, fun _ _ _ h => by cases h⟩
  | reject rejectedMsg reason text => exact .inr ⟨rfl, rfl, rfl, fun _ _ _ h => by cases h⟩

/-- The shown number is the one that was set, if the lengths agree. -/
theorem number_eq_iff {seqno newSeqno : Int} {gapfill : Bool} :
    (sequenceReset seqno newSeqno gapfill).number s = toChars seqno ↔
      (toChars seqno).length = (toChars s.cache.senderSeqNum).length := by
  obtain ⟨rest, hrest⟩ : ∃ rest, assignBuffer (newBuffer (toChars s.cache.senderSeqNum))
      (toChars seqno) = toChars seqno ++ 0 :: rest := by
    unfold assignBuffer
    split
    · exact ⟨_, rfl⟩
    · exact ⟨_, rfl⟩
  rw [number, hrest]
  constructor
  · intro h
    have hlength := congrArg List.length h
    rw [List.length_take, List.length_append, List.length_cons] at hlength
    rcases Nat.lt_or_ge (toChars seqno).length (toChars s.cache.senderSeqNum).length with hlt | hge
    · omega
    · omega
  · intro h
    rw [← h, List.take_left]

theorem newBuffer_clean {v : Bytes} (h : internalSohChar ∉ v) : internalSohChar ∉ newBuffer v := by
  rw [newBuffer, List.mem_append, List.mem_cons, List.mem_replicate]
  rintro (hmem | hmem | ⟨-, hmem⟩)
  · exact h hmem
  · exact absurd hmem (by decide)
  · exact absurd hmem (by decide)

theorem assignBuffer_clean {buf v : Bytes} (hbuf : internalSohChar ∉ buf)
    (h : internalSohChar ∉ v) : internalSohChar ∉ assignBuffer buf v := by
  unfold assignBuffer
  split
  · rw [List.mem_append, List.mem_cons]
    rintro (hmem | hmem | hmem)
    · exact h hmem
    · exact absurd hmem (by decide)
    · exact hbuf (List.mem_of_mem_drop hmem)
  · rw [List.mem_append, List.mem_cons, List.mem_replicate]
    rintro (hmem | hmem | ⟨-, hmem⟩)
    · exact h hmem
    · exact absurd hmem (by decide)
    · exact absurd hmem (by decide)

theorem number_clean (env : Env) (s : Session) (call : AdminCall) :
    internalSohChar ∉ call.number s := by
  have hchars : ∀ n : Int, internalSohChar ∉ toChars n := fun n hmem => (toChars_clean hmem).1 rfl
  rcases call.sequenceReset_or env s with ⟨seqno, newSeqno, gapfill, rfl⟩ | ⟨h, -, -, -⟩
  · exact fun hmem => assignBuffer_clean (newBuffer_clean (hchars _)) (hchars _)
      (List.mem_of_mem_take hmem)
  · rw [h]
    exact hchars _

theorem length_number_le (env : Env) (hrange : -2147483648 ≤ s.cache.senderSeqNum ∧
    s.cache.senderSeqNum < 2147483648) (call : AdminCall) : (call.number s).length ≤ 11 := by
  have hchars := length_toChars_le hrange
  rcases call.sequenceReset_or env s with ⟨seqno, newSeqno, gapfill, rfl⟩ | ⟨h, -, -, -⟩
  · exact (List.length_take_le _ _).trans hchars
  · rw [h]
    exact hchars

/-! ## What a call says -/

variable {created : Message} {header : FieldMap}

theorem create_ok (hdict : env.dictionary.Administers settings) (call : AdminCall) (s : Session) :
    ∃ created, env.dictionary.create call.msgType = .ok created := by
  obtain ⟨spec, hlists⟩ := lists_fields hdict s call
  rw [Dictionary.create, hlists.listed]
  exact ⟨_, rfl⟩

/-- A new message has its type in a header of the dictionary, and is empty otherwise. -/
structure Created (dict : Dictionary) (msgType : Bytes) (created : Message) : Prop where
  header : created.header.Filled [(Field.msgType, msgType)]
  fronted : created.header.Fronted dict.headerSpec
  owned : AssocList.keys created.header.owned = [Field.msgType]
  body : created.body.Filled []
  trailer : created.trailer.content = .nil

theorem created_of_create {dict : Dictionary} {msgType : Bytes}
    (h : dict.create msgType = .ok created) : Created dict msgType created := by
  unfold Dictionary.create at h
  split at h
  · cases h
  · cases h
    have hnew : (FieldMap.new.setSpec (some dict.headerSpec)).Filled [] := .new _
    have htype := hnew.setField (t := Field.msgType) (by decide) msgType true
    exact {
      header := htype
      fronted := by
        refine ⟨?_, [], List.perm_singleton.mp htype.keys⟩
        unfold FieldMap.setField
        rw [FieldMap.spec_insertFieldView]
        rfl
      owned := by
        unfold FieldMap.setField
        rw [FieldMap.owned_insertFieldView]
        rfl
      body := .new _
      trailer := rfl }

/-- The tags of the marks are neither those of the frame nor those of the stamp. -/
theorem marks_new {f : Int × Bytes} (hf : f ∈ call.marks env s) :
    f.1 ∉ [Field.beginString, Field.bodyLength, Field.msgType] ∧ f.1 ∉ stampedTags := by
  have hmem := mem_marks hf
  simp only [List.mem_cons, List.not_mem_nil, or_false] at hmem
  rcases hmem with hmem | hmem | hmem | hmem
  · rw [hmem]
    exact ⟨by decide, by decide⟩
  · rw [hmem]
    exact ⟨by decide, by decide⟩
  · rw [hmem]
    exact ⟨by decide, by decide⟩
  · rw [hmem]
    exact ⟨by decide, by decide⟩

/-- The header that the call has filled, before it is stamped. -/
theorem filled_header (hcreate : env.dictionary.create call.msgType = .ok created) (s : Session) :
    (created.header.fillWith (call.marks env s)).Filled
      ([(Field.msgType, call.msgType)] ++ call.marks env s) := by
  refine (created_of_create hcreate).header.fillWith
    (List.nodup_cons.mpr ⟨fun hmem => ?_, nodup_marks env s call⟩)
  obtain ⟨f, hf, heq⟩ := List.mem_map.mp hmem
  refine (marks_new hf).1 ?_
  rw [heq]
  exact List.mem_cons_of_mem _ (List.mem_cons_of_mem _ (List.mem_cons_self ..))

theorem fronted_filled (hdict : env.dictionary.Administers settings)
    (hcreate : env.dictionary.create call.msgType = .ok created) (s : Session) :
    (created.header.fillWith (call.marks env s)).Fronted env.dictionary.headerSpec := by
  obtain ⟨rest, horder, -, -⟩ := hdict.order
  exact .fillWith hdict.ordered horder (call.marks env s) (created_of_create hcreate).fronted
    fun f hf => (marks_new hf).1

theorem stampedTags_new {tag : Int} (htag : tag ∈ stampedTags) :
    tag ∉ AssocList.keys ([(Field.msgType, call.msgType)] ++ call.marks env s) := by
  intro hmem
  rcases List.mem_cons.mp hmem with rfl | hmem
  · exact absurd htag (show Field.msgType ∉ stampedTags by decide)
  · obtain ⟨f, hf, rfl⟩ := List.mem_map.mp hmem
    exact (marks_new hf).2 htag

/-- The marks are set, and then the stamp. -/
theorem says_of_stamped (hdict : env.dictionary.Administers settings)
    (hcreate : env.dictionary.create call.msgType = .ok created)
    (hnumber : call.number s = toChars s.cache.senderSeqNum)
    (hseqNum : call.seqNum s = s.cache.senderSeqNum)
    (hmillis : call.millis env s = sendMillis env s)
    (hstamp : stampHeader env.settings s.cache.senderSeqNum (sendMillis env s)
      (created.header.fillWith (call.marks env s)) = .ok header) :
    Message.Says (call.header env s) (call.fields s)
      { call.filled env s created with header := header } := by
  have hcreated := created_of_create hcreate
  have hfilled := filled_header hcreate s
  exact {
    header := by
      refine (hfilled.stamped (fun tag => stampedTags_new) hstamp).perm ?_
      have hset : AssocList.set Field.msgSeqNum (call.number s) (call.stamp env s) =
          (Field.msgType, call.msgType) :: stampFields env.settings s.cache.senderSeqNum
            (sendMillis env s) := by
        rw [stamp, hnumber, hseqNum, hmillis]
        rfl
      rw [AdminCall.header, hset, List.append_assoc]
      have hcomm : (call.marks env s ++ stampFields env.settings s.cache.senderSeqNum
          (sendMillis env s)).Perm (stampFields env.settings s.cache.senderSeqNum
            (sendMillis env s) ++ call.marks env s) := List.perm_append_comm
      exact hcomm.cons _
    front := ((fronted_filled hdict hcreate s).stamped
      (fun tag htag => hfilled.not_mem (stampedTags_new htag)) hstamp).plainKeys
    body := hcreated.body.fillWith (nodup_fields s call)
    trailer := hcreated.trailer }

section

variable {n ms : Int} {m : FieldMap}

/-- Stamped, the header has the number in a string of its own. -/
theorem stampHeader_number (hstamp : stampHeader env.settings n ms m = .ok header)
    (hfree : Field.msgSeqNum ∉ AssocList.keys m.owned) :
    AssocList.find? Field.msgSeqNum header.fields = some (.owned (toChars n).length) ∧
      AssocList.find? Field.msgSeqNum header.owned = some (newBuffer (toChars n)) := by
  have hnone : ∀ m' : FieldMap, AssocList.find? Field.msgSeqNum m'.owned = none →
      AssocList.find? Field.msgSeqNum (m'.setField Field.msgSeqNum (toChars n) false).fields =
        some (.owned (toChars n).length) ∧
      AssocList.find? Field.msgSeqNum (m'.setField Field.msgSeqNum (toChars n) false).owned =
        some (newBuffer (toChars n)) := by
    intro m' hm'
    unfold FieldMap.setField
    rw [hm']
    dsimp only
    refine ⟨?_, by rw [FieldMap.owned_insertFieldView, AssocList.find?_set_self]⟩
    exact FieldMap.find?_insertFieldView_of_not_keepsView _ (by simp)
  rw [stampHeader_eq hstamp]
  refine hnone _ ?_
  unfold FieldMap.setField FieldMap.setFieldView
  rw [FieldMap.owned_insertFieldView, AssocList.find?_set_ne (by decide)]
  simp only [FieldMap.owned_insertFieldView]
  exact AssocList.find?_eq_none_iff.mpr hfree

end

/-- In a stamped header the ordered insertion of the number ends in front of BeginString, and
keeps the view of the number that is there. -/
theorem keepsView_number (hdict : env.dictionary.Administers settings) {m : FieldMap}
    (hnodup : (AssocList.keys m.fields).Nodup) (hfronted : m.Fronted env.dictionary.headerSpec)
    (hkeys : [Field.msgType, Field.beginString, Field.msgSeqNum].Sublist
      (AssocList.keys m.fields)) : m.keepsView Field.msgSeqNum true = true := by
  obtain ⟨rest, horder, hfree, hseqNum⟩ := hdict.order
  refine (FieldMap.keepsView_iff hnodup _ _).mpr ⟨rfl, _, hfronted.spec, hdict.ordered, ?_⟩
  have hnot : ¬[Field.msgType, Field.beginString].Sublist env.dictionary.headerSpec.fieldOrder := by
    rw [horder]
    intro hsub
    have hbehind := (FieldMap.cons_sublist_append_iff
      (show Field.msgType ∉ [Field.beginString, Field.bodyLength] by decide)).mp hsub
    exact hfree (List.singleton_sublist.mp (List.cons_sublist_cons.mp hbehind))
  refine FieldMap.hidden_of_sublist hnodup hkeys ?_ hnot
  rw [horder]
  exact List.mem_cons_of_mem _ (List.mem_cons_of_mem _ (List.mem_cons_of_mem _ hseqNum))

/-- The stamp is set, and then the marks and the number that the call was given. -/
theorem says_of_reset (hdict : env.dictionary.Administers settings) {seqno newSeqno : Int}
    {gapfill : Bool} (hcreate : env.dictionary.create MsgType.sequenceReset = .ok created)
    (hstamp : stampHeader env.settings s.cache.senderSeqNum (nextMillis env s) created.header =
      .ok header) :
    Message.Says ((sequenceReset seqno newSeqno gapfill).header env s)
      ((sequenceReset seqno newSeqno gapfill).fields s)
      (fillSequenceReset { created with header := header }
        (writeUTCTimestamp ((env.clock (s.clockReads + 1)).tdiv 1000)) seqno newSeqno gapfill) := by
  have hcreated := created_of_create hcreate
  obtain ⟨rest, horder, -, -⟩ := hdict.order
  generalize htime : writeUTCTimestamp ((env.clock (s.clockReads + 1)).tdiv 1000) = time
  have hnew : ∀ tag ∈ stampedTags,
      tag ∉ AssocList.keys [(Field.msgType, MsgType.sequenceReset)] := by
    simp [stampedTags, AssocList.keys]
  -- The stamp.
  have hstamped := hcreated.header.stamped hnew hstamp
  have hstampedFront := hcreated.fronted.stamped
    (fun tag htag => hcreated.header.not_mem (hnew tag htag)) hstamp
  obtain ⟨hview, hbuf⟩ := stampHeader_number hstamp (by rw [hcreated.owned]; decide)
  have hkeys := stampHeader_keys (List.perm_singleton.mp hcreated.header.keys)
    (by simp [stampedTags]) hstamp
  -- The original time.
  have hsub := FieldMap.keys_setField_sublist header Field.origSendingTime time true
  have hmarked := hstamped.setField (t := Field.origSendingTime) (by
    simp [stampFields, AssocList.keys]) time true
  have hmarkedFront := hstampedFront.setField hdict.ordered horder (t := Field.origSendingTime)
    (by decide) time
  rw [hkeys] at hsub
  rw [← FieldMap.find?_fields_setField_ne (t := Field.origSendingTime) (by decide) time true]
    at hview
  rw [← FieldMap.find?_owned_setField_ne (t := Field.origSendingTime) (by decide) time true]
    at hbuf
  -- The number, over the view of the one that was stamped.
  have hkeeps := keepsView_number hdict (hmarked.keys.nodup_iff.mpr hmarked.nodup) hmarkedFront
    (List.Sublist.trans (by decide) hsub)
  have hnumbered := hmarked.overwrite (t := Field.msgSeqNum) (by
    simp [stampFields, AssocList.keys])
    (FieldMap.field?_setField_kept hkeeps hview hbuf (toChars seqno))
  have hnumberedFront := hmarkedFront.setField hdict.ordered horder (t := Field.msgSeqNum)
    (by decide) (toChars seqno)
  -- The flag.
  have hflagged := hnumbered.setField (t := Field.possDupFlag) (by
    simp [stampFields, AssocList.keys, AssocList.set]) (ascii "Y") true
  have hflaggedFront := hnumberedFront.setField hdict.ordered horder (t := Field.possDupFlag)
    (by decide) (ascii "Y")
  have hfill : fillSequenceReset { created with header := header } time seqno newSeqno gapfill =
      { created with
        header := ((header.setField Field.origSendingTime time true).setField Field.msgSeqNum
          (toChars seqno) true).setField Field.possDupFlag (ascii "Y") true
        body := created.body.fillWith ((sequenceReset seqno newSeqno gapfill).fields s) } := by
    cases gapfill with
    | false => rfl
    | true => rfl
  rw [hfill]
  exact {
    header := by
      refine hflagged.perm (List.Perm.of_eq ?_)
      rw [AdminCall.header, marks, htime]
      rfl
    front := hflaggedFront.plainKeys
    body := hcreated.body.fillWith (nodup_fields s (sequenceReset seqno newSeqno gapfill))
    trailer := hcreated.trailer }

/-- The message of a call, with the marks right behind the type unless the stamp was set first. -/
structure Sends (env : Env) (s : Session) (call : AdminCall) (m : Message) : Prop
    extends m.Says (call.header env s) (call.fields s) where
  marked : (∃ seqno newSeqno gapfill, call = sequenceReset seqno newSeqno gapfill) ∨
    ∃ tags, tags.Perm (AssocList.keys (call.marks env s)) ∧
      AssocList.keys m.header.fields = Field.msgType :: tags ++ stampedTags

theorem run_sends (hdict : env.dictionary.Administers settings) (hconn : s.network.connected = true)
    (call : AdminCall) :
    Ends (call.run env) s (fun _ t => ∃ m, Said s [m] t ∧ call.Sends env s m)
      fun _ t => Said s [] t ∧
        ∃ rejectedMsg reason text, call = reject rejectedMsg reason text := by
  obtain ⟨created, hcreate⟩ := create_ok hdict call s
  rcases call.sequenceReset_or env s with ⟨seqno, newSeqno, gapfill, rfl⟩ |
    ⟨hnumber, hseqNum, hmillis, hne⟩
  · refine (sequenceReset_said hcreate hconn).mono ?_ fun _ _ h => h.elim
    rintro _ t ⟨header, hstamp, hsaid⟩
    exact ⟨_, hsaid, says_of_reset hdict hcreate hstamp, .inl ⟨_, _, _, rfl⟩⟩
  · refine (run_said hcreate hconn hne).mono ?_ fun _ _ h => h
    rintro _ t ⟨header, hstamp, hsaid⟩
    refine ⟨_, hsaid, says_of_stamped hdict hcreate hnumber hseqNum hmillis hstamp, .inr ?_⟩
    obtain ⟨tags, htags⟩ := (fronted_filled hdict hcreate s).front
    refine ⟨tags, ?_, stampHeader_keys htags (fun tag htag => ?_) hstamp⟩
    · have hperm := (filled_header hcreate s).keys
      rw [htags] at hperm
      exact List.Perm.cons_inv hperm
    · rw [← htags]
      exact (filled_header hcreate s).not_mem (stampedTags_new htag)

end Session.AdminCall

end OpenFix
