import OpenFix.Quiet

/-!
# What one processed message does

`processMessage` is the only place where the target number moves.  `Move` says
in which ways it may, one constructor for each: the message was refused, or was
queued because it came early, or had the target number, or was a SequenceReset
that sets it, or was a Logon that resets the session.  Every later statement
about a run looks at these cases and not at the handlers.
-/

namespace OpenFix

open Effect

/-- An event that neither starts a message nor hands one to `onMessage`. -/
def Event.IsNote : Event → Prop
  | .process _ _ | .onMessage _ _ => False
  | _ => True

theorem Event.IsOutput.isNote {e : Event} (h : e.IsOutput) : e.IsNote := by
  cases e with
  | process msg target => exact h
  | onMessage msg target => exact h
  | _ => trivial

namespace Message

/-- The MsgType of a message is `t`. -/
def HasType (msg : Message) (t : Bytes) : Prop := msg.header.getField Field.msgType = .ok t

/-- The type of the message is one that a resend replays. -/
def IsApplication (msg : Message) : Prop := ∃ t, msg.HasType t ∧ MsgType.Replayable t

instance (msg : Message) : Decidable msg.IsApplication :=
  match h : msg.header.getField Field.msgType with
  | .ok t =>
      if ht : MsgType.Replayable t then .isTrue ⟨t, h, ht⟩
      else .isFalse fun ⟨_, h', ht'⟩ => ht (Except.ok.inj (h.symm.trans h') ▸ ht')
  | .error _ => .isFalse fun ⟨_, h', _⟩ => nomatch h.symm.trans h'

/-- The MsgSeqNum of a message is `k`. -/
def HasSeqNum (msg : Message) (k : Int) : Prop := msg.header.getIntField Field.msgSeqNum = .ok k

/-- The message is a SequenceReset with NewSeqNo `n`. -/
def Resets (msg : Message) (n : Int) : Prop :=
  msg.HasType MsgType.sequenceReset ∧ msg.body.getIntField Field.newSeqNo = .ok n

/-- The message is a Logon with ResetSeqNumFlag. -/
def IsResetLogon (msg : Message) : Prop :=
  msg.HasType MsgType.logon ∧ msg.body.tryGetBool Field.resetSeqNumFlag = true

theorem HasSeqNum.unique {msg : Message} {k l : Int} (h : msg.HasSeqNum k) (h' : msg.HasSeqNum l) :
    k = l := by
  unfold HasSeqNum at h h'
  rw [h] at h'
  cases h'
  rfl

theorem HasType.unique {msg : Message} {t u : Bytes} (h : msg.HasType t) (h' : msg.HasType u) :
    t = u := by
  unfold HasType at h h'
  rw [h] at h'
  cases h'
  rfl

end Message

namespace Session

/-- BeginString and the CompIDs of a message are as expected. -/
structure FromPeer (env : Env) (msg : Message) : Prop where
  beginString : msg.header.getField Field.beginString = .ok env.settings.beginString
  senderCompID : msg.header.getField Field.senderCompID = .ok env.settings.targetCompID
  targetCompID : msg.header.getField Field.targetCompID = .ok env.settings.senderCompID

/-- The checks of `validateMessage`, for a message that is processed in this state at
this time. -/
structure Valid (env : Env) (state : SessionState) (msg : Message) (time : Int) : Prop where
  peer : FromPeer env msg
  sendingTime : ∃ v, msg.header.getField Field.sendingTime = .ok v ∧
    |time - parseUTCTimestamp v| ≤ env.settings.sendingTimeThreshold * 1000
  duplicate : msg.header.tryGetBool Field.possDupFlag = true →
    msg.header.has Field.origSendingTime = true
  logon : state = .logon → msg.HasType MsgType.logon
  logout : state = .logout → msg.HasType MsgType.logout ∨ msg.HasType MsgType.resendRequest

/-- What is known of a message in the queue, under its number. -/
structure Queueable (env : Env) (k : Int) (msg : Message) : Prop where
  seqNum : msg.HasSeqNum k
  peer : FromPeer env msg
  sendingTime : msg.header.has Field.sendingTime = true
  type : ∃ t, msg.HasType t ∧ t ≠ MsgType.logon ∧ t ≠ MsgType.resendRequest
  newSeqNo : msg.HasType MsgType.sequenceReset →
    msg.body.tryGetBool Field.gapFillFlag = true ∧ ∃ n, msg.Resets n ∧ k < n

/-- How the handling of a message at this time may move the target number and the queue. -/
inductive Move (env : Env) (time : Int) (msg : Message) (s t : Session) : Prop where
  /-- Refused, or of no consequence for the numbers. -/
  | stay (h : Frame Event.IsNote s t)
  /-- Too early: queued under its number. -/
  | queue (k : Int) (hmsg : Queueable env k msg) (hlt : s.cache.targetSeqNum < k)
      (h : Change Event.IsOutput s.cache.targetSeqNum (s.cache.inboundQueue.insert k msg.copy) s t)
  /-- It had the target number. -/
  | consume (hvalid : Valid env s.state msg time) (hseq : msg.HasSeqNum s.cache.targetSeqNum)
      (htype : ¬msg.HasType MsgType.sequenceReset)
      (h : Change Event.IsNote (i32 (s.cache.targetSeqNum + 1)) s.cache.inboundQueue s t)
  /-- It had the target number and went to `onMessage`. -/
  | deliver (hvalid : Valid env s.state msg time) (hseq : msg.HasSeqNum s.cache.targetSeqNum)
      (htype : ¬msg.HasType MsgType.sequenceReset) (u : Session)
      (h : Change Event.IsOutput (i32 (s.cache.targetSeqNum + 1)) s.cache.inboundQueue s u)
      (h' : Quiet { u with events := u.events ++ [.onMessage msg u.cache.targetSeqNum] } t)
  /-- A SequenceReset set the target number, which a gap fill has. -/
  | jump (hvalid : Valid env s.state msg time) (k n : Int) (hseq : msg.HasSeqNum k)
      (hreset : msg.Resets n) (hlt : k < n) (hle : s.cache.targetSeqNum ≤ n)
      (hfill : msg.body.tryGetBool Field.gapFillFlag = true → k = s.cache.targetSeqNum)
      (h : Change Event.IsNote n s.cache.inboundQueue s t)
  /-- A Logon reset the session. -/
  | reset (hmsg : msg.IsResetLogon) (hset : env.settings.resetSeqNumOnLogon = true)
      (target : Int) (htarget : target = 0 ∨ target = 1) (u : Session) (h : Quiet s u)
      (h' : Change Event.IsNote target .empty { u with events := u.events ++ [.reset] } t)

/-! ## Rules -/

section

variable {α : Type} {E : Exn → Session → Prop} {s : Session}

@[simp] theorem ends_modifyCache {Q : Unit → Session → Prop} (f : MemoryCache → MemoryCache) :
    Ends (modifyCache f) s Q E ↔ Q () { s with cache := f s.cache } := Iff.rfl

@[simp] theorem ends_record {Q : Unit → Session → Prop} (e : Event) :
    Ends (record e) s Q E ↔ Q () { s with events := s.events ++ [e] } := Iff.rfl

@[simp] theorem ends_setState {Q : Unit → Session → Prop} (state : SessionState) :
    Ends (setState state) s Q E ↔ Q () { s with state := state } := Iff.rfl

@[simp] theorem ends_getTargetSeqNum {Q : Int → Session → Prop} :
    Ends getTargetSeqNum s Q E ↔ Q s.cache.targetSeqNum s := Iff.rfl

@[simp] theorem ends_getSenderSeqNum {Q : Int → Session → Prop} :
    Ends getSenderSeqNum s Q E ↔ Q s.cache.senderSeqNum s := Iff.rfl

theorem ends_liftExcept {x : Except Exn α} {Q : α → Session → Prop}
    (hok : ∀ a, x = .ok a → Q a s) (herr : ∀ e, x = .error e → E e s) :
    Ends (liftExcept x) s Q E := by
  cases x with
  | ok a => exact hok a rfl
  | error e => exact herr e rfl

/-- What is found is handed on. -/
theorem ends_liftExcept_ok {β : Type} {x : Except Exn α} {a : α} (h : x = .ok a)
    (f : α → SessionM β) {Q : β → Session → Prop} :
    Ends (liftExcept x >>= f) s Q E ↔ Ends (f a) s Q E := by
  subst h
  exact Iff.rfl

/-- A quiet step leaves a message refused. -/
theorem stay_of_quiet {env : Env} {time : Int} {msg : Message} {x : SessionM α}
    (h : Keeps Quiet x) :
    Ends x s (fun _ => Move env time msg s) fun _ => Move env time msg s :=
  (h.ends s).mono (fun _ _ hq => .stay (hq.mono fun _ => Event.IsOutput.isNote))
    fun _ _ hq => .stay (hq.mono fun _ => Event.IsOutput.isNote)

end

/-! ## Validation -/

/-- BeginString and the CompIDs: a field is missing, or the session fails, or all
are as expected and nothing happened. -/
theorem validateCompIDs_ends {env : Env} {msg : Message} {s : Session}
    {Q : Bool → Session → Prop} {E : Exn → Session → Prop}
    (hfail : ∀ reason, Ends (fail env reason) s (fun _ t => Q false t) E)
    (hmissing : ∀ tag e, msg.header.getField tag = .error e → E e s)
    (hpass : FromPeer env msg → Q true s) : Ends (validateCompIDs env msg) s Q E := by
  have hrefuse : ∀ reason, Ends (do fail env reason; return false) s Q E := fun reason =>
    Ends.bind (hfail reason) fun _ _ h => h
  have hfield : ∀ tag, Ends (liftExcept (msg.header.getField tag)) s
      (fun v t => msg.header.getField tag = .ok v ∧ t = s) E := fun tag =>
    ends_liftExcept (fun v hv => ⟨hv, rfl⟩) (hmissing tag)
  unfold validateCompIDs
  refine Ends.bind (hfield Field.beginString) ?_
  rintro beginString t ⟨hbegin, rfl⟩
  split
  next => exact hrefuse _
  next hb =>
    refine Ends.bind (hfield Field.senderCompID) ?_
    rintro senderCompID u ⟨hsender, rfl⟩
    split
    next => exact hrefuse _
    next hs =>
      refine Ends.bind (hfield Field.targetCompID) ?_
      rintro targetCompID t ⟨htarget, rfl⟩
      split
      next => exact hrefuse _
      next ht =>
        rw [not_not] at hb hs ht
        rw [hb] at hbegin
        rw [hs] at hsender
        rw [ht] at htarget
        exact hpass ⟨hbegin, hsender, htarget⟩

/-- A refusal answers `false`, whatever it does. -/
theorem refuse_ends {Q : Session → Prop} (x : SessionM Unit) (s : Session) :
    Ends (do x; return false) s (fun ok t => ok = true → Q t) fun _ _ => True :=
  Ends.bind (Ends.trivial x s) fun _ _ _ h => Bool.noConfusion h

theorem validateTimes_valid {env : Env} {msg : Message} {time : Int} (s : Session) :
    Ends (validateTimes env msg time) s
      (fun ok t => ok = true → t = s ∧
        (∃ v, msg.header.getField Field.sendingTime = .ok v ∧
          |time - parseUTCTimestamp v| ≤ env.settings.sendingTimeThreshold * 1000) ∧
        (msg.header.tryGetBool Field.possDupFlag = true →
          msg.header.has Field.origSendingTime = true)) fun _ _ => True := by
  unfold validateTimes
  refine Ends.bind (ends_liftExcept (Q := fun v t => msg.header.getField Field.sendingTime = .ok v ∧
    t = s) (fun v hv => ⟨hv, rfl⟩) fun _ _ => trivial) ?_
  rintro v t ⟨hv, rfl⟩
  split
  next =>
    exact Ends.bind (Ends.trivial _ t) fun _ u _ =>
      refuse_ends (logout env (ascii "SendingTime(52) outside of threshold") false) u
  next hthreshold =>
    split
    next => exact refuse_ends (sendReject env msg .requiredTagMissing []) t
    next hdup =>
      refine fun _ => ⟨rfl, ⟨v, hv, not_lt.mp hthreshold⟩, fun hflag => ?_⟩
      simpa [hflag] using hdup

theorem validateState_valid {env : Env} {msg : Message} {msgType : Bytes}
    (htype : msg.HasType msgType) (s : Session) :
    Ends (validateState env msgType) s
      (fun ok t => ok = true → t = s ∧ (s.state = .logon → msg.HasType MsgType.logon) ∧
        (s.state = .logout → msg.HasType MsgType.logout ∨ msg.HasType MsgType.resendRequest))
      fun _ _ => True := by
  unfold validateState
  rw [ends_bind, ends_get]
  split
  next => exact refuse_ends (logout env _ true) s
  next hlogon =>
    split
    next => exact refuse_ends (logout env _ true) s
    next hlogout =>
      refine fun _ => ⟨rfl, fun hs => ?_, fun hs => ?_⟩
      · rw [not_and, not_not] at hlogon
        exact hlogon hs ▸ htype
      · rw [not_and, not_and, not_not] at hlogout
        by_cases hout : msgType = MsgType.logout
        · exact .inl (hout ▸ htype)
        · exact .inr (hlogout hs hout ▸ htype)

/-- A message that passes finds the session as it was. -/
theorem validateMessage_valid {env : Env} {msg : Message} {msgType : Bytes}
    (htype : msg.HasType msgType) (time : Int) (s : Session) :
    Ends (validateMessage env msg msgType time) s
      (fun ok t => Quiet s t ∧ (ok = true → t = s ∧ Valid env s.state msg time))
      fun _ t => Quiet s t := by
  have hends : Ends (validateMessage env msg msgType time) s
      (fun ok t => ok = true → t = s ∧ Valid env s.state msg time) fun _ _ => True := by
    unfold validateMessage
    split
    next => exact refuse_ends (logout env _ true) s
    next =>
      refine Ends.bind (validateCompIDs_ends
        (Q := fun ok t => ok = true → FromPeer env msg ∧ t = s) (fun reason => ?_)
        (fun _ _ _ => trivial) fun hpeer _ => ⟨hpeer, rfl⟩) ?_
      · exact (Ends.trivial _ s).mono (fun _ _ _ h => Bool.noConfusion h) fun _ _ h => h
      intro ok t hok
      cases ok with
      | false => exact fun h => Bool.noConfusion h
      | true =>
          obtain ⟨hpeer, rfl⟩ := hok rfl
          refine Ends.bind (validateTimes_valid t) fun ok u hok => ?_
          cases ok with
          | false => exact fun h => Bool.noConfusion h
          | true =>
              obtain ⟨rfl, htime, hdup⟩ := hok rfl
              refine (validateState_valid htype u).mono (fun ok v hok hpass => ?_) fun _ _ h => h
              obtain ⟨rfl, hlogon, hlogout⟩ := hok hpass
              exact ⟨rfl, hpeer, htime, hdup, hlogon, hlogout⟩
  exact (hends.keeps (quiet_validateMessage env msg msgType time)).mono
    (fun _ _ h => ⟨h.2, h.1⟩) fun _ _ h => h.2

/-- A message with the right header passes the checks, and nothing happens. -/
theorem validateMessage_passes {env : Env} {msg : Message} {msgType : Bytes} {time k : Int}
    {s : Session} (htype : msg.HasType msgType) (hvalid : Valid env s.state msg time)
    (hseq : msg.HasSeqNum k) :
    Ends (validateMessage env msg msgType time) s (fun ok t => ok = true ∧ t = s)
      fun _ _ => False := by
  have hhas : msg.header.has Field.msgSeqNum = true := by
    obtain ⟨v, hv, -⟩ := FieldMap.getIntField_eq.mp hseq
    rw [FieldMap.has_eq, hv]
    rfl
  have hpeer : Ends (validateCompIDs env msg) s (fun ok t => ok = true ∧ t = s)
      fun _ _ => False := by
    unfold validateCompIDs
    rw [ends_liftExcept_ok hvalid.peer.beginString, if_neg (not_not.mpr rfl),
      ends_liftExcept_ok hvalid.peer.senderCompID, if_neg (not_not.mpr rfl),
      ends_liftExcept_ok hvalid.peer.targetCompID, if_neg (not_not.mpr rfl)]
    exact ⟨rfl, rfl⟩
  have htimes : Ends (validateTimes env msg time) s (fun ok t => ok = true ∧ t = s)
      fun _ _ => False := by
    obtain ⟨v, hv, hle⟩ := hvalid.sendingTime
    unfold validateTimes
    rw [ends_liftExcept_ok hv, if_neg (not_lt.mpr hle), if_neg]
    · exact ⟨rfl, rfl⟩
    · intro hdup
      rw [Bool.and_eq_true] at hdup
      rw [hvalid.duplicate hdup.1] at hdup
      exact Bool.noConfusion hdup.2
  have hstate : Ends (validateState env msgType) s (fun ok t => ok = true ∧ t = s)
      fun _ _ => False := by
    unfold validateState
    rw [ends_bind, ends_get, if_neg, if_neg]
    · exact ⟨rfl, rfl⟩
    · rintro ⟨hs, hlogout, hresend⟩
      rcases hvalid.logout hs with h | h
      · exact hlogout (htype.unique h)
      · exact hresend (htype.unique h)
    · rintro ⟨hs, hlogon⟩
      exact hlogon (htype.unique (hvalid.logon hs))
  unfold validateMessage
  rw [hhas]
  refine Ends.bind hpeer ?_
  rintro _ _ ⟨rfl, rfl⟩
  refine Ends.bind htimes ?_
  rintro _ _ ⟨rfl, rfl⟩
  exact hstate

/-! ## The end of a connection -/

/-- Closing the connection changes nothing else and does not raise. -/
theorem networkDisconnect_ends (s : Session) :
    Ends networkDisconnect s
      (fun _ t => t.state = s.state ∧ t.cache = s.cache ∧ t.network = s.network.disconnect)
      fun _ _ => False := by
  unfold networkDisconnect
  rw [ends_bind, ends_get, ends_bind, ends_modify]
  cases s.network.connection with
  | none => exact ⟨rfl, rfl, rfl⟩
  | some fd =>
      dsimp only
      split
      · exact ⟨rfl, rfl, rfl⟩
      · exact ⟨rfl, rfl, rfl⟩

/-- `terminate` leaves the state LOGON and no connection, and does not raise. -/
theorem terminate_ends (reason : Bytes) (s : Session) :
    Ends (terminate reason) s
      (fun _ t => t.state = .logon ∧ t.cache = s.cache ∧ t.network.connected = false)
      fun _ _ => False := by
  unfold terminate
  rw [ends_bind, ends_record]
  refine Ends.bind (networkDisconnect_ends _) ?_
  rintro _ t ⟨-, hcache, hnet⟩
  rw [ends_setState]
  exact ⟨rfl, hcache, by rw [hnet]; rfl⟩

/-! ## The number of a message -/

/-- What `validateSeqNum` did when the number was not accepted: nothing, or the
message was queued. -/
inductive Early (msg : Message) (s t : Session) : Prop where
  | stay (h : Quiet s t)
  | queue (k : Int) (hseq : msg.HasSeqNum k) (hlt : s.cache.targetSeqNum < k)
      (h : Change Event.IsOutput s.cache.targetSeqNum (s.cache.inboundQueue.insert k msg.copy) s t)

theorem Early.move {env : Env} {time : Int} {msg : Message} {s t : Session} (h : Early msg s t)
    (hmsg : ∀ k, msg.HasSeqNum k → Queueable env k msg) : Move env time msg s t := by
  cases h with
  | stay h => exact .stay (h.mono fun _ => Event.IsOutput.isNote)
  | queue k hseq hlt h => exact .queue k (hmsg k hseq) hlt h

theorem Valid.hasSendingTime {env : Env} {state : SessionState} {msg : Message} {time : Int}
    (h : Valid env state msg time) : msg.header.has Field.sendingTime = true := by
  obtain ⟨v, hv, -⟩ := h.sendingTime
  rw [FieldMap.has_eq, FieldMap.getField_eq.mp hv]
  rfl

/-- The number is accepted only if it is the target, which then moves by one. -/
theorem validateSeqNum_ends (env : Env) (msg : Message) (s : Session) :
    Ends (validateSeqNum env msg) s
      (fun ok t => if ok then msg.HasSeqNum s.cache.targetSeqNum ∧
          t = { s with cache := s.cache.nextTargetSeqNum } else Early msg s t)
      fun _ t => Early msg s t := by
  unfold validateSeqNum
  refine Ends.bind (ends_liftExcept (Q := fun k t => msg.HasSeqNum k ∧ t = s)
    (fun k hk => ⟨hk, rfl⟩) fun e _ => .stay (Std.Refl.refl s)) ?_
  rintro k t ⟨hk, rfl⟩
  rw [ends_bind, ends_getTargetSeqNum]
  split
  next heq =>
    subst heq
    exact ⟨hk, rfl⟩
  next hne =>
    split
    next hlt =>
      have hq := quiet_logout env (ascii "MsgSeqNum too low, expected " ++
        toChars t.cache.targetSeqNum ++ ascii ", received " ++ toChars k) true
      exact Ends.bind ((hq.ends t).mono (fun _ _ h => h) fun _ _ h => .stay h) fun _ t h => .stay h
    next hge =>
      split
      next hk0 =>
        have hlt : t.cache.targetSeqNum < k := by omega
        have hqueued : ∀ v, Quiet { t with cache := t.cache.queueInbound k msg.copy } v →
            Early msg t v := fun v hv =>
          .queue k hk hlt ⟨hv.target, hv.queue, hv.events, hv.connected⟩
        rw [ends_bind, ends_modifyCache]
        have hq := quiet.sendResendRequest env t.cache.targetSeqNum k
        exact Ends.bind ((hq.ends _).mono (fun _ _ h => h) fun _ v h => hqueued v h)
          fun _ v h => hqueued v h
      next => exact .stay (Std.Refl.refl t)

/-- The target number is accepted, and nothing raises. -/
theorem validateSeqNum_accepts {env : Env} {msg : Message} {s : Session}
    (hseq : msg.HasSeqNum s.cache.targetSeqNum) :
    Ends (validateSeqNum env msg) s
      (fun ok t => ok = true ∧ t = { s with cache := s.cache.nextTargetSeqNum })
      fun _ _ => False := by
  unfold validateSeqNum
  rw [ends_liftExcept_ok hseq, ends_bind, ends_getTargetSeqNum, if_pos rfl]
  exact ⟨rfl, rfl⟩

/-! ## The handlers -/

theorem consume_ends {env : Env} {time : Int} {msg : Message} {s u : Session} {k : Int}
    (hvalid : Valid env s.state msg time) (hk : msg.HasSeqNum k)
    (htype : ¬msg.HasType MsgType.sequenceReset) (h : Frame Event.IsNote s u) :
    Ends (consume k s.cache.targetSeqNum) u (fun _ => Move env time msg s)
      fun _ => Move env time msg s := by
  unfold consume
  split
  next heq =>
    subst heq
    refine .consume hvalid hk htype (h.then ?_)
    exact ⟨by rw [← h.target]; rfl, h.queue, ⟨[], by simp⟩, id⟩
  next => exact .stay h

theorem handleSequenceReset_ends (env : Env) {time : Int} {msg : Message} (s : Session)
    (hvalid : Valid env s.state msg time) (htype : msg.HasType MsgType.sequenceReset) :
    Ends (handleSequenceReset env msg) s (fun _ => Move env time msg s)
      fun _ => Move env time msg s := by
  have hstay : Move env time msg s s := .stay (Std.Refl.refl s)
  unfold handleSequenceReset
  refine Ends.bind (ends_liftExcept (Q := fun n t => msg.body.getIntField Field.newSeqNo = .ok n ∧
    t = s) (fun n hn => ⟨hn, rfl⟩) fun e _ => hstay) ?_
  rintro n t ⟨hn, rfl⟩
  refine Ends.bind (ends_liftExcept (Q := fun k u => msg.HasSeqNum k ∧ u = t)
    (fun k hk => ⟨hk, rfl⟩) fun e _ => hstay) ?_
  rintro k u ⟨hk, rfl⟩
  rw [ends_bind, ends_getTargetSeqNum]
  split
  next => exact stay_of_quiet (quiet.sendReject env msg _ _)
  next hlt =>
    split
    next => exact stay_of_quiet (quiet_logout env _ true)
    next hle =>
      have hqueueable : msg.body.tryGetBool Field.gapFillFlag = true →
          ∀ k, msg.HasSeqNum k → Queueable env k msg := fun hfill k' hk' =>
        ⟨hk', hvalid.peer, hvalid.hasSendingTime, ⟨_, htype, by decide, by decide⟩,
          fun _ => ⟨hfill, n, ⟨htype, hn⟩, by have := hk'.unique hk; omega⟩⟩
      refine Ends.bind (P := fun ok v => if ok then
          (msg.body.tryGetBool Field.gapFillFlag = true → k = u.cache.targetSeqNum) ∧
            (v = u ∨ v = { u with cache := u.cache.nextTargetSeqNum })
        else Move env time msg u v) ?_ ?_
      · split
        next hfill =>
          refine (validateSeqNum_ends env msg u).mono (fun ok v hv => ?_)
            fun _ v hv => hv.move (hqueueable hfill)
          cases ok with
          | true => exact ⟨fun _ => hk.unique hv.1, .inr hv.2⟩
          | false => exact hv.move (hqueueable hfill)
        next hfill => exact ⟨fun h => (hfill h).elim, .inl rfl⟩
      · intro ok v hv
        cases ok with
        | false => exact hv
        | true =>
            obtain ⟨hfill, hv⟩ := hv
            refine .jump hvalid k n hk ⟨htype, hn⟩ (by omega) (by omega) hfill ?_
            rcases hv with rfl | rfl
            · exact ⟨rfl, rfl, ⟨[], by simp⟩, id⟩
            · exact ⟨rfl, rfl, ⟨[], by simp⟩, id⟩

theorem handleResendRequest_ends (env : Env) {time : Int} {msg : Message} (s : Session)
    (hvalid : Valid env s.state msg time) (htype : msg.HasType MsgType.resendRequest) :
    Ends (handleResendRequest env msg) s (fun _ => Move env time msg s)
      fun _ => Move env time msg s := by
  have hstay : Move env time msg s s := .stay (Std.Refl.refl s)
  unfold handleResendRequest
  refine Ends.bind (ends_liftExcept (Q := fun k t => msg.HasSeqNum k ∧ t = s)
    (fun k hk => ⟨hk, rfl⟩) fun e _ => hstay) ?_
  rintro k t ⟨hk, rfl⟩
  refine Ends.bind (ends_liftExcept (Q := fun _ u => u = t) (fun _ _ => rfl) fun e _ => hstay) ?_
  rintro beginSeqNo u rfl
  refine Ends.bind (ends_liftExcept (Q := fun _ t => t = u) (fun _ _ => rfl) fun e _ => hstay) ?_
  rintro endSeqNo t rfl
  refine Ends.bind (((quiet.runMessageRecovery env beginSeqNo endSeqNo).ends t).mono
    (fun _ _ h => h) fun _ _ h => .stay (h.mono fun _ => Event.IsOutput.isNote)) ?_
  intro _ u hu
  rw [ends_bind, ends_getTargetSeqNum, hu.target]
  exact consume_ends hvalid hk (fun h => absurd (h.unique htype) (by decide))
    (hu.mono fun _ => Event.IsOutput.isNote)

/-- The calls of a delegate after its event. -/
theorem callDelegate_ends {env : Env} (henv : env.KeepsTarget) (s : Session)
    (event : Session → Event) (callback : Delegate → Session → List DelegateCall)
    (hcalls : ∀ d : Delegate, d.KeepsTarget → ∀ s, ∀ c ∈ callback d s, c.KeepsTarget) :
    Ends (callDelegate env event callback) s
      (fun _ t => t = s ∨ Quiet { s with events := s.events ++ [event s] } t)
      fun _ t => Quiet { s with events := s.events ++ [event s] } t := by
  unfold callDelegate
  cases hd : env.delegate with
  | none => exact Or.inl rfl
  | some d =>
      simp only [ends_bind, ends_get, ends_record]
      have hq := quiet_delegateCalls env (hcalls d (henv d hd)
        { s with events := s.events ++ [event s] })
      exact (hq.ends _).mono (fun _ _ h => Or.inr h) fun _ _ h => h

/-- The events of a delegate other than `onMessage` are notes. -/
theorem callDelegate_note {env : Env} (henv : env.KeepsTarget)
    (event : Session → Event) (hevent : ∀ s, (event s).IsNote)
    {callback : Delegate → Session → List DelegateCall}
    (hcalls : ∀ d : Delegate, d.KeepsTarget → ∀ s, ∀ c ∈ callback d s, c.KeepsTarget) :
    Keeps (Frame Event.IsNote) (callDelegate env event callback) := by
  intro s
  have hstep : ∀ t, Quiet { s with events := s.events ++ [event s] } t →
      Frame Event.IsNote s t := fun t h => by
    refine Frame.then (t := { s with events := s.events ++ [event s] }) ?_
      (h.mono fun _ => Event.IsOutput.isNote)
    exact ⟨rfl, rfl, ⟨[event s], rfl, by simpa using hevent s⟩, id⟩
  refine after_eq_of_ends ((callDelegate_ends henv s event callback hcalls).mono (fun _ t h => ?_)
    fun _ t h => hstep t h)
  rcases h with rfl | h
  · exact Std.Refl.refl t
  · exact hstep t h

theorem keeps_note {α : Type} {x : SessionM α} (h : Keeps Quiet x) :
    Keeps (Frame Event.IsNote) x := h.mono fun _ _ hq => hq.mono fun _ => Event.IsOutput.isNote

/-- Once the number is consumed, an accepted logon only makes notes. -/
theorem acceptLogon_ends {env : Env} (henv : env.KeepsTarget) (msg : Message) (k expected : Int)
    (recovery : Option Int) (shouldReset : Bool) (s : Session) :
    Ends (acceptLogon env msg k expected recovery shouldReset) s
      (fun _ t => Frame Event.IsNote
        (if k = expected then { s with cache := s.cache.nextTargetSeqNum } else s) t)
      fun _ t => Frame Event.IsNote
        (if k = expected then { s with cache := s.cache.nextTargetSeqNum } else s) t := by
  unfold acceptLogon
  refine Ends.bind (P := fun _ u => u = if k = expected then
    { s with cache := s.cache.nextTargetSeqNum } else s) ?_ ?_
  · unfold consume
    split
    · rfl
    · rfl
  · rintro _ _ rfl
    refine Keeps.ends ?_ _
    refine keeps_bind (keeps_note (quiet.answerLogon env msg shouldReset)) fun _ => ?_
    refine keeps_bind (keeps_note (quiet_setState _)) fun _ => ?_
    refine keeps_bind (keeps_modify fun s => ?_) fun _ => ?_
    · exact ⟨rfl, rfl, ⟨[.loggedOn], rfl, by simp [Event.IsNote]⟩, id⟩
    refine keeps_bind (keeps_note (quiet.recoverPeer env recovery)) fun _ => ?_
    refine keeps_ite (fun _ => keeps_note (quiet.sendResendRequest env _ _)) fun _ => ?_
    exact callDelegate_note henv (fun _ => .onLogon) (fun _ => trivial)
      fun d hd s => hd.onLogon s

/-- ResetSeqNumFlag either refuses the logon, or resets the session, or is not there. -/
theorem logonReset_ends (env : Env) (msg : Message) (s : Session) :
    Ends (logonReset env msg) s
      (fun answer t => match answer with
        | none => Quiet s t
        | some true => msg.body.tryGetBool Field.resetSeqNumFlag = true ∧
            env.settings.resetSeqNumOnLogon = true ∧
            t = { s with cache := s.cache.reset, events := s.events ++ [.reset] }
        | some false => msg.body.tryGetBool Field.resetSeqNumFlag = false ∧ t = s)
      fun _ t => Quiet s t := by
  unfold logonReset
  split
  next hflag =>
    split
    next =>
      have hq := quiet_logout env (ascii "ResetSeqNumFlag(141) not supported on this session") true
      exact Ends.bind (hq.ends s) fun _ t h => h
    next hset => exact ⟨hflag, by simpa using hset, rfl⟩
  next hflag => exact ⟨Bool.eq_false_iff.mpr hflag, rfl⟩

theorem handleLogon_ends {env : Env} (henv : env.KeepsTarget) {time : Int} {msg : Message}
    (s : Session) (hvalid : Valid env s.state msg time) (htype : msg.HasType MsgType.logon) :
    Ends (handleLogon env msg) s (fun _ => Move env time msg s) fun _ => Move env time msg s := by
  have hstay : ∀ t, Quiet s t → Move env time msg s t := fun t h =>
    .stay (h.mono fun _ => Event.IsOutput.isNote)
  unfold handleLogon
  split
  next => exact stay_of_quiet (quiet_logout env _ false)
  next =>
    refine Ends.bind (ends_liftExcept (Q := fun k t => msg.HasSeqNum k ∧ t = s)
      (fun k hk => ⟨hk, rfl⟩) fun e _ => hstay s (Std.Refl.refl s)) ?_
    rintro k t ⟨hk, rfl⟩
    rw [ends_bind, ends_getTargetSeqNum]
    split
    next => exact stay_of_quiet (quiet_logout env _ true)
    next =>
      refine Ends.bind (((quiet.logonNextExpected env msg).ends t).mono (fun _ _ h => h)
        fun _ u h => hstay u h) ?_
      intro recovery u hu
      cases recovery with
      | none => exact hstay u hu
      | some recovery =>
          refine Ends.bind ((logonReset_ends env msg u).mono (fun _ _ h => h)
            fun _ v h => hstay v (Change.then hu h)) ?_
          intro answer v hv
          match answer with
          | none => exact hstay v (Change.then hu hv)
          | some false =>
              obtain ⟨-, rfl⟩ := hv
              have hacc := acceptLogon_ends henv msg k t.cache.targetSeqNum recovery false v
              have hmove : ∀ w, Frame Event.IsNote (if k = t.cache.targetSeqNum then
                  { v with cache := v.cache.nextTargetSeqNum } else v) w → Move env time msg t w := by
                intro w hw
                split at hw
                next heq =>
                  subst heq
                  refine .consume hvalid hk (fun h => absurd (h.unique htype) (by decide)) (Change.then ?_ hw)
                  exact ⟨by simp [hu.target], hu.queue, (hu.mono fun _ => Event.IsOutput.isNote).events,
                    hu.connected⟩
                next => exact .stay (Change.then (hu.mono fun _ => Event.IsOutput.isNote) hw)
              exact hacc.mono (fun _ => hmove) fun _ => hmove
          | some true =>
              obtain ⟨hflag, hset, rfl⟩ := hv
              have hacc := acceptLogon_ends henv msg k t.cache.targetSeqNum recovery true
                { u with cache := u.cache.reset, events := u.events ++ [.reset] }
              have hmove : ∀ w, Frame Event.IsNote (if k = t.cache.targetSeqNum then
                  { u with
                    cache := u.cache.reset.nextTargetSeqNum
                    events := u.events ++ [.reset] } else
                  { u with cache := u.cache.reset, events := u.events ++ [.reset] }) w →
                  Move env time msg t w := by
                intro w hw
                split at hw
                next =>
                  exact .reset ⟨htype, hflag⟩ hset 1 (.inr rfl) u hu
                    ⟨hw.target, hw.queue, hw.events, hw.connected⟩
                next =>
                  exact .reset ⟨htype, hflag⟩ hset 0 (.inl rfl) u hu
                    ⟨hw.target, hw.queue, hw.events, hw.connected⟩
              exact hacc.mono (fun _ => hmove) fun _ => hmove

/-! ## A message with the target number -/

theorem note_handleLogout {env : Env} (henv : env.KeepsTarget) :
    Keeps (Frame Event.IsNote) (handleLogout env) := by
  unfold handleLogout
  refine keeps_bind (callDelegate_note henv (fun _ => .onLogout) (fun _ => trivial)
    fun d hd s => hd.onLogout s) fun _ => ?_
  refine keeps_bind keeps_get fun s => keeps_ite (fun _ => ?_) fun _ => ?_
  · exact keeps_bind (keeps_note (quiet_setState _)) fun _ => keeps_note quiet_disconnect
  · exact keeps_note (quiet.sendLogout env _ true)

theorem quiet_endTestRequest (msg : Message) : Keeps Quiet (endTestRequest msg) := by
  unfold endTestRequest
  refine keeps_bind keeps_get fun s => keeps_ite (fun _ => ?_) fun _ => keeps_pure _
  refine keeps_bind (keeps_liftExcept _) fun _ => ?_
  exact keeps_ite (fun _ => quiet_setState _) fun _ => keeps_pure _

theorem note_handleHeartbeat {env : Env} (henv : env.KeepsTarget) (msg : Message) :
    Keeps (Frame Event.IsNote) (handleHeartbeat env msg) :=
  keeps_bind (keeps_note (quiet_endTestRequest msg)) fun _ =>
    callDelegate_note henv (fun _ => .onAdminMessage msg) (fun _ => trivial)
      fun _ hd s => hd.onAdminMessage s msg

/-- After its number was consumed, a message makes notes or goes to `onMessage`. -/
theorem handleSequenced_ends {env : Env} (henv : env.KeepsTarget) (msg : Message)
    (msgType : Bytes) (s : Session) :
    Ends (handleSequenced env msg msgType) s
      (fun _ t => Frame Event.IsNote s t ∨
        Quiet { s with events := s.events ++ [.onMessage msg s.cache.targetSeqNum] } t)
      fun _ t => Frame Event.IsNote s t ∨
        Quiet { s with events := s.events ++ [.onMessage msg s.cache.targetSeqNum] } t := by
  have hnote : ∀ {x : SessionM Unit}, Keeps (Frame Event.IsNote) x → Ends x s
      (fun _ t => Frame Event.IsNote s t ∨
        Quiet { s with events := s.events ++ [.onMessage msg s.cache.targetSeqNum] } t)
      fun _ t => Frame Event.IsNote s t ∨
        Quiet { s with events := s.events ++ [.onMessage msg s.cache.targetSeqNum] } t :=
    fun h => (h.ends s).mono (fun _ _ hn => .inl hn) fun _ _ hn => .inl hn
  unfold handleSequenced
  split
  next => exact hnote (note_handleLogout henv)
  next =>
    split
    next => exact hnote (note_handleHeartbeat henv msg)
    next =>
      split
      next =>
        refine hnote (keeps_bind (keeps_liftExcept _) fun testID => ?_)
        exact keeps_note (quiet.sendHeartbeat env testID)
      next =>
        split
        next => exact hnote (keeps_pure _)
        next =>
          have hcall := callDelegate_ends henv s (fun s => .onMessage msg s.cache.targetSeqNum)
            (fun d s => d.onMessage s msg) fun _ hd s => hd.onMessage s msg
          refine hcall.mono (fun _ t h => ?_) fun _ t h => .inr h
          rcases h with rfl | h
          · exact .inl (Std.Refl.refl t)
          · exact .inr h

theorem dispatchMessage_ends {env : Env} (henv : env.KeepsTarget) {time : Int} {msg : Message}
    {msgType : Bytes} (s : Session) (hvalid : Valid env s.state msg time)
    (htype : msg.HasType msgType) :
    Ends (dispatchMessage env msg msgType) s (fun _ => Move env time msg s)
      fun _ => Move env time msg s := by
  unfold dispatchMessage
  split
  next h => exact handleSequenceReset_ends env s hvalid (h ▸ htype)
  next hreset =>
    have hno : ¬msg.HasType MsgType.sequenceReset := fun h => hreset (htype.unique h)
    split
    next h => exact handleLogon_ends henv s hvalid (h ▸ htype)
    next hlogon =>
      split
      next h => exact handleResendRequest_ends env s hvalid (h ▸ htype)
      next hresend =>
        have hearly : ∀ v, Early msg s v → Move env time msg s v := fun v hv =>
          hv.move fun k hk => ⟨hk, hvalid.peer, hvalid.hasSendingTime,
            ⟨msgType, htype, hlogon, hresend⟩, fun h => (hno h).elim⟩
        refine Ends.bind ((validateSeqNum_ends env msg s).mono (fun _ _ h => h)
          fun _ v h => hearly v h) ?_
        intro ok t h
        cases ok with
        | false => exact hearly t h
        | true =>
            obtain ⟨hseq, rfl⟩ := h
            have hmove : ∀ v, (Frame Event.IsNote
                { s with cache := s.cache.nextTargetSeqNum } v ∨
                Quiet { s with
                  cache := s.cache.nextTargetSeqNum
                  events := s.events ++ [.onMessage msg (i32 (s.cache.targetSeqNum + 1))] } v) →
                Move env time msg s v := by
              intro v hv
              rcases hv with hv | hv
              · exact .consume hvalid hseq hno ⟨hv.target, hv.queue, hv.events, hv.connected⟩
              · exact .deliver hvalid hseq hno { s with cache := s.cache.nextTargetSeqNum }
                  ⟨rfl, rfl, ⟨[], by simp⟩, id⟩ hv
            exact (handleSequenced_ends henv msg msgType _).mono (fun _ => hmove) fun _ => hmove

/-- Every way in which `processMessage` may end. -/
theorem processMessage_ends {env : Env} (henv : env.KeepsTarget) (msg : Message) (time : Int)
    (s : Session) :
    Ends (processMessage env msg time) s
      (fun _ => Move env time msg
        { s with events := s.events ++ [.process msg s.cache.targetSeqNum] })
      fun _ => Move env time msg
        { s with events := s.events ++ [.process msg s.cache.targetSeqNum] } := by
  unfold processMessage
  rw [ends_bind, ends_getTargetSeqNum, ends_bind, ends_record]
  generalize { s with events := s.events ++ [Event.process msg s.cache.targetSeqNum] } = u
  refine Ends.bind (ends_liftExcept (Q := fun t v => msg.HasType t ∧ v = u)
    (fun t ht => ⟨ht, rfl⟩) fun e _ => .stay (Std.Refl.refl u)) ?_
  rintro msgType v ⟨htype, rfl⟩
  refine Ends.bind ((validateMessage_valid htype time v).mono (fun _ _ h => h)
    fun _ _ h => .stay (h.mono fun _ => Event.IsOutput.isNote)) ?_
  rintro ok w ⟨hquiet, hok⟩
  cases ok with
  | false => exact .stay (hquiet.mono fun _ => Event.IsOutput.isNote)
  | true =>
      obtain ⟨rfl, hvalid⟩ := hok rfl
      exact dispatchMessage_ends henv w hvalid htype

/-! ## A whole message -/

/-- The session when a message that was parsed starts to be processed. -/
def entered (env : Env) (s : Session) : Session :=
  { s with
    clockReads := s.clockReads + 1
    cachedEpochUs := env.clock s.clockReads
    lastRecvHeartbeat := nextMillis env s }

/-- The message is processed and the queue is looked at. -/
theorem handleParsed_ends {env : Env} {msg : Message} {s : Session}
    {Q : Unit → Session → Prop} {E : Exn → Session → Prop}
    (h : Ends (processMessage env msg (nextMillis env s)) (entered env s)
      (fun _ t => Ends (drainQueue env (nextMillis env s)
        (t.cache.inboundQueue.entries.length + 1)) t
          (fun _ u => Q () { u with cachedEpochUs := 0 }) E) E) :
    Ends (handleParsed env msg) s Q E := by
  unfold handleParsed
  rw [ends_bind]
  change Ends _ { s with clockReads := s.clockReads + 1 } _ _
  rw [ends_bind, ends_modify]
  refine Ends.bind h fun _ t ht => ?_
  rw [ends_bind, ends_get]
  exact Ends.bind ht fun _ u hu => hu

end Session

end OpenFix
