import OpenFix.Sending

/-!
# Possible duplicates

A recovery that overlaps with another one brings messages that were handled
already.  They carry PossDupFlag and a number below the target.  `handleLogon`
spares them, and `validateSeqNum`, through which every other type goes, does not:
it logs out.  What never reaches it is a gap fill that is rejected because of its
NewSeqNo.
-/

namespace OpenFix

open Effect

/-- Nothing goes to `onMessage`, no Logout is sent and no connection is closed. -/
def Event.IsHarmless : Event → Prop
  | .onMessage _ _ | .disconnect _ => False
  | .transmit _ msg => ¬msg.HasType MsgType.logout
  | _ => True

namespace Session

variable {env : Env}

/-- The message has a type and passes `validateMessage`. -/
def passes (env : Env) (msg : Message) (time : Int) (s : Session) : Bool :=
  match msg.header.getField Field.msgType with
  | .ok msgType =>
      match (validateMessage env msg msgType time).run s with
      | .ok accepted _ => accepted
      | .error _ _ => false
  | .error _ => false

structure LoggedOn (s : Session) : Prop where
  state : s.state ≠ .logon
  connected : s.network.connected = true

/-- A possible duplicate with a number that was passed, of a type other than Logon,
SequenceReset-Reset and ResendRequest. -/
structure LateDuplicate (env : Env) (time : Int) (s : Session) (msg : Message) : Prop where
  passes : passes env msg time s = true
  possDupFlag : msg.header.tryGetBool Field.possDupFlag = true
  seqNum : ∃ k, msg.HasSeqNum k ∧ k < s.cache.targetSeqNum
  notLogon : ¬msg.HasType MsgType.logon
  notResendRequest : ¬msg.HasType MsgType.resendRequest
  gapFill : msg.HasType MsgType.sequenceReset → msg.body.tryGetBool Field.gapFillFlag = true

/-- Nothing was delivered, queued or sent that a possible duplicate should not cause. -/
structure Unharmed (s t : Session) : Prop extends Frame Event.IsHarmless s t where
  stays : s.network.connected = true → t.network.connected = true

/-- A gap fill without a NewSeqNo above its own number, or a dictionary without a Logout. -/
def Tolerated (env : Env) (msg : Message) : Prop :=
  (msg.HasType MsgType.sequenceReset ∧ ∀ k n, msg.HasSeqNum k → msg.Resets n → n ≤ k) ∨
    ¬Knows env MsgType.logout

theorem passes_valid {msg : Message} {time : Int} {s : Session} (h : passes env msg time s = true) :
    Valid env s.state msg time := by
  unfold passes at h
  cases htype : msg.header.getField Field.msgType with
  | error e => simp [htype] at h
  | ok msgType =>
      have hvalid : Ends (validateMessage env msg msgType time) s _ _ :=
        validateMessage_valid htype time s
      unfold Ends at hvalid
      simp only [htype] at h
      cases hrun : (validateMessage env msg msgType time).run s with
      | error e t => simp [hrun] at h
      | ok accepted t =>
          rw [hrun] at h hvalid
          exact (hvalid.2 h).2

/-! ## What logs out -/

/-- A Logout was sent. -/
def SendsLogout (s t : Session) : Prop :=
  ∃ ev, t.events = s.events ++ ev ∧ ∃ fd m, .transmit fd m ∈ ev ∧ m.HasType MsgType.logout

theorem SendsLogout.not_unharmed {s t : Session} (h : SendsLogout s t) : ¬Unharmed s t := by
  intro hun
  obtain ⟨ev, hev, fd, m, hmem, hm⟩ := h
  obtain ⟨ev', hev', hall⟩ := hun.events
  rw [hev] at hev'
  have hharmless : ¬m.HasType MsgType.logout :=
    hall (.transmit fd m) (List.append_cancel_left hev' ▸ hmem)
  exact hharmless hm

/-- A connected session transmits what it sends. -/
theorem internalSend_transmits (m : Message) (callback : Option Bytes) (epochUs : Int) {s : Session}
    (hconn : s.network.connected = true) :
    Ends (internalSend env m callback epochUs) s
      (fun _ t => ∃ fd ev, t.events = s.events ++ .transmit fd m :: ev) fun _ _ => False := by
  obtain ⟨hsome, hvalid⟩ := s.network.wf hconn
  obtain ⟨fd, hfd⟩ := Option.isSome_iff_exists.mp hsome
  unfold internalSend
  rw [ends_bind, ends_get, if_pos hconn]
  refine Ends.bind (P := fun _ t => ∃ fd ev, t.events = s.events ++ .transmit fd m :: ev) ?_
    fun _ t ht => (ends_modify _).mpr ht
  unfold networkSend
  rw [ends_bind, ends_get, hfd]
  simp only [hvalid, Bool.true_eq_false, dite_false]
  rw [ends_bind, ends_record]
  split
  next =>
    cases callback with
    | none => exact ⟨fd, [], rfl⟩
    | some reason =>
        let u : Session := { s with events := s.events ++ [.transmit fd m] }
        refine ((terminate_ends reason u).and ((quiet.terminate reason).ends u)).mono ?_
          fun _ _ h => h.1
        rintro _ t ⟨-, ht⟩
        obtain ⟨ev, hev, -⟩ := ht.events
        exact ⟨fd, ev, by rw [hev, List.append_assoc, List.singleton_append]⟩
  next => exact ⟨fd, [], rfl⟩

/-- A send of a connected session whose header has room transmits the stamped message. -/
theorem send_transmits {msg : Message} (hroom : msg.header.Room 2) (callback : Option Bytes)
    {s : Session} (hconn : s.network.connected = true) :
    Ends (send env msg callback) s
      (fun _ t => ∃ fd m ev, Stamped env s.cache.senderSeqNum msg m ∧
        t.events = s.events ++ .transmit fd m :: ev) fun _ _ => False := by
  unfold send
  refine Ends.bind (currentEpochUs_ends env s) ?_
  intro epochUs t ht
  refine Ends.bind ((populateMessage_ends env msg _ t).mono (fun _ _ h => h) ?_) ?_
  · rintro e u ⟨-, ms, he⟩
    obtain ⟨header, hok⟩ := stampHeader_of_room env.settings t.cache.senderSeqNum ms hroom
    rw [hok] at he
    cases he
  · rintro ⟨m, seqnum⟩ u ⟨hu, hstamped, rfl⟩
    have hidle : Idle s u := IsTrans.trans s t u ht hu
    rw [ht.cache] at hstamped
    rw [ends_bind, ends_modifyCache]
    refine (internalSend_transmits m callback epochUs (by rw [hidle.network]; exact hconn)).mono ?_
      fun _ _ h => h
    rintro _ v ⟨fd, ev, hev⟩
    exact ⟨fd, m, ev, hstamped, by rw [hev, hidle.events]⟩

/-- A terminal logout of a connected session sends a Logout. -/
theorem logout_sendsLogout (hknows : Knows env MsgType.logout) (reason : Bytes) {s : Session}
    (hconn : s.network.connected = true) :
    Ends (logout env reason true) s (fun _ t => SendsLogout s t) fun _ _ => False := by
  obtain ⟨m, hm⟩ := hknows
  have hbuilt : buildLogout env reason =
      .ok (if reason ≠ [] then m.setBody Field.text reason else m) := by
    simp only [buildLogout, hm]
    rfl
  have hheader : (if reason ≠ [] then m.setBody Field.text reason else m).header = m.header := by
    split
    · rfl
    · rfl
  unfold logout leave sendLogout
  rw [if_pos rfl, ends_bind, ends_setState, hbuilt]
  have hroom : (if reason ≠ [] then m.setBody Field.text reason else m).header.Room 2 := by
    rw [hheader]
    exact (create_room hm).mono (by decide)
  refine (send_transmits (s := { s with state := .killing }) hroom (some reason) hconn).mono ?_
    fun _ _ h => h
  rintro _ t ⟨fd, m', ev, hstamped, hev⟩
  refine ⟨_, hev, fd, m', List.mem_cons_self .., (hstamped.hasType _).mpr ?_⟩
  unfold Message.HasType
  rw [hheader]
  exact (create_hasType hm).1

/-! ## What is tolerated -/

theorem Unharmed.of_eq {s t : Session} (hcache : t.cache = s.cache) (hnet : t.network = s.network)
    (hevents : t.events = s.events) : Unharmed s t :=
  ⟨Frame.of_eq (by rw [hcache]) (by rw [hcache]) hevents hnet, fun h => by rwa [hnet]⟩

/-- Without a Logout in the dictionary, a terminal logout only changes the state. -/
theorem logout_unharmed (hknows : ¬Knows env MsgType.logout) (reason : Bytes) (s : Session) :
    Ends (logout env reason true) s (fun _ => Unharmed s) fun _ => Unharmed s := by
  have hbuilt : ∃ e, buildLogout env reason = .error e := by
    cases hm : env.dictionary.create MsgType.logout with
    | ok m => exact (hknows ⟨m, hm⟩).elim
    | error e => exact ⟨e, by simp only [buildLogout, hm]; rfl⟩
  obtain ⟨e, he⟩ := hbuilt
  unfold logout leave sendLogout
  rw [if_pos rfl, ends_bind, ends_setState, he]
  exact .of_eq rfl rfl rfl

/-- A Reject is harmless. -/
theorem sendReject_unharmed (msg : Message) (reason : SessionRejectReason) (text : Bytes)
    (s : Session) :
    Ends (sendReject env msg reason text) s (fun _ => Unharmed s) fun _ => Unharmed s := by
  unfold sendReject
  refine Ends.bind (ends_liftExcept (Q := fun m t => buildReject env msg reason text = .ok m ∧ t = s)
    (fun m hm => ⟨hm, rfl⟩) fun _ _ => .of_eq rfl rfl rfl) ?_
  rintro m t ⟨hm, rfl⟩
  have htype := (buildReject_hasType hm).1
  refine (send_ends env m t).mono (fun _ u hu => ?_) fun _ u hu => ?_
  · obtain ⟨m', hstamped, hcache, hevents⟩ := hu.sent
    have hharmless : ∀ e ∈ transmission t m', e.IsHarmless := by
      intro e he
      obtain ⟨fd, rfl⟩ := eq_transmit_of_mem he
      exact fun hout => absurd (((hstamped.hasType _).mp hout).unique htype) (by decide)
    exact ⟨⟨by rw [hcache]; rfl, by rw [hcache]; rfl, ⟨_, hevents, hharmless⟩,
      fun h => hu.network ▸ h⟩, fun h => by rwa [hu.network]⟩
  · exact .of_eq hu.1.cache hu.1.network hu.1.events

/-! ## A late duplicate -/

/-- A number that was passed logs out. -/
theorem validateSeqNum_tooLow {msg : Message} {s : Session} {k : Int}
    {Q : Session → Prop} {E : Exn → Session → Prop} (hseq : msg.HasSeqNum k)
    (hlow : k < s.cache.targetSeqNum)
    (hlogout : ∀ reason, Ends (logout env reason true) s (fun _ => Q) E) :
    Ends (validateSeqNum env msg) s (fun ok t => ok = false ∧ Q t) E := by
  unfold validateSeqNum
  rw [ends_liftExcept_ok hseq, ends_bind, ends_getTargetSeqNum, if_neg (by omega), if_pos hlow]
  exact Ends.bind (hlogout _) fun _ t ht => ⟨rfl, ht⟩

/-- A gap fill that does not fill anything is rejected. -/
theorem handleSequenceReset_unharmed {msg : Message} {s : Session} {k : Int}
    (htype : msg.HasType MsgType.sequenceReset) (hseq : msg.HasSeqNum k)
    (hnew : ∀ k n, msg.HasSeqNum k → msg.Resets n → n ≤ k) :
    Ends (handleSequenceReset env msg) s (fun _ => Unharmed s) fun _ => Unharmed s := by
  unfold handleSequenceReset
  refine Ends.bind (ends_liftExcept (Q := fun n t => msg.body.getIntField Field.newSeqNo = .ok n ∧
    t = s) (fun n hn => ⟨hn, rfl⟩) fun e _ => .of_eq rfl rfl rfl) ?_
  rintro n t ⟨hn, rfl⟩
  rw [ends_liftExcept_ok hseq, ends_bind, ends_getTargetSeqNum, if_pos (hnew k n hseq ⟨htype, hn⟩)]
  exact sendReject_unharmed msg _ _ t

/-- Every other late duplicate logs out. -/
theorem dispatchMessage_tooLow {msg : Message} {msgType : Bytes} {s : Session} {k : Int}
    {Q : Session → Prop} {E : Exn → Session → Prop} (htype : msg.HasType msgType)
    (hseq : msg.HasSeqNum k) (hlow : k < s.cache.targetSeqNum)
    (hlogon : ¬msg.HasType MsgType.logon) (hresend : ¬msg.HasType MsgType.resendRequest)
    (hfill : msg.HasType MsgType.sequenceReset → msg.body.tryGetBool Field.gapFillFlag = true)
    (hnew : msg.HasType MsgType.sequenceReset → ∃ n, msg.Resets n ∧ k < n)
    (hlogout : ∀ reason, Ends (logout env reason true) s (fun _ => Q) E) :
    Ends (dispatchMessage env msg msgType) s (fun _ => Q) E := by
  have hnumber := validateSeqNum_tooLow hseq hlow hlogout
  unfold dispatchMessage
  by_cases hreset : msgType = MsgType.sequenceReset
  · subst hreset
    obtain ⟨n, hresets, hlt⟩ := hnew htype
    rw [if_pos rfl]
    unfold handleSequenceReset
    rw [ends_liftExcept_ok hresets.2, ends_liftExcept_ok hseq, ends_bind, ends_getTargetSeqNum,
      if_neg (by omega), hfill htype]
    split
    next => exact hlogout _
    next =>
      rw [if_pos rfl]
      refine Ends.bind hnumber ?_
      rintro _ t ⟨rfl, ht⟩
      exact ht
  · have hnotLogon : msgType ≠ MsgType.logon := fun h => hlogon (h ▸ htype)
    have hnotResend : msgType ≠ MsgType.resendRequest := fun h => hresend (h ▸ htype)
    rw [if_neg hreset, if_neg hnotLogon, if_neg hnotResend]
    refine Ends.bind hnumber ?_
    rintro _ t ⟨rfl, ht⟩
    exact ht

/-- What follows the checks of a message that passes them. -/
theorem processMessage_of_passes {msg : Message} {time k : Int} {s : Session}
    {Q : Session → Prop} {E : Exn → Session → Prop} (hpasses : passes env msg time s = true)
    (hseq : msg.HasSeqNum k)
    (h : ∀ msgType, msg.HasType msgType → Ends (dispatchMessage env msg msgType)
      { s with events := s.events ++ [.process msg s.cache.targetSeqNum] } (fun _ => Q) E) :
    Ends (processMessage env msg time) s (fun _ => Q) E := by
  have hvalid := passes_valid hpasses
  unfold passes at hpasses
  cases htype : msg.header.getField Field.msgType with
  | error e => simp [htype] at hpasses
  | ok msgType =>
      let u : Session := { s with events := s.events ++ [.process msg s.cache.targetSeqNum] }
      have hchecks : Ends (validateMessage env msg msgType time) u (fun ok t => ok = true ∧ t = u)
          fun _ _ => False := validateMessage_passes htype hvalid hseq
      unfold processMessage
      rw [ends_bind, ends_getTargetSeqNum, ends_bind, ends_record, ends_liftExcept_ok htype]
      refine Ends.bind (hchecks.mono (fun _ _ h => h) fun _ _ hf => hf.elim) ?_
      rintro _ _ ⟨rfl, rfl⟩
      exact h msgType htype

theorem Unharmed.of_process {e : Event} (he : e.IsHarmless) {s t : Session}
    (h : Unharmed { s with events := s.events ++ [e] } t) : Unharmed s t := by
  obtain ⟨ev, hev, hall⟩ := h.events
  refine ⟨⟨h.target, h.queue, ⟨e :: ev, ?_, fun e' he' => ?_⟩, h.connected⟩, h.stays⟩
  · rw [hev, List.append_assoc, List.singleton_append]
  · rcases List.mem_cons.mp he' with rfl | he'
    · exact he
    · exact hall e' he'

/-- What is not tolerated sends a Logout. -/
theorem processMessage_sendsLogout {time : Int} {s : Session} {msg : Message}
    (hlogged : s.LoggedOn) (h : LateDuplicate env time s msg) (hnot : ¬Tolerated env msg) :
    SendsLogout s (after (processMessage env msg time) s) := by
  obtain ⟨k, hseq, hlow⟩ := h.seqNum
  obtain ⟨hfills, hknows⟩ := not_or.mp hnot
  rw [not_not] at hknows
  let u : Session := { s with events := s.events ++ [.process msg s.cache.targetSeqNum] }
  have hlogout : ∀ reason, Ends (logout env reason true) u (fun _ => SendsLogout s)
      fun _ _ => False := by
    intro reason
    refine (logout_sendsLogout (s := u) hknows reason hlogged.connected).mono ?_ fun _ _ hf => hf
    rintro _ t ⟨ev, hev, fd, m, hmem, hm⟩
    refine ⟨.process msg s.cache.targetSeqNum :: ev, ?_, fd, m, List.mem_cons_of_mem _ hmem, hm⟩
    rw [hev, List.append_assoc, List.singleton_append]
  have hnew : msg.HasType MsgType.sequenceReset → ∃ n, msg.Resets n ∧ k < n := by
    intro hreset
    by_contra hno
    refine hfills ⟨hreset, fun k' n hk' hn => ?_⟩
    have hkk := hk'.unique hseq
    by_contra hlt
    exact hno ⟨n, hn, by omega⟩
  have hprocess : Ends (processMessage env msg time) s (fun _ => SendsLogout s) fun _ _ => False :=
    processMessage_of_passes h.passes hseq fun msgType htype =>
      dispatchMessage_tooLow htype hseq hlow h.notLogon h.notResendRequest h.gapFill hnew hlogout
  exact after_eq_of_ends (hprocess.mono (fun _ _ ht => ht) fun _ _ hf => hf.elim)

theorem processMessage_unharmed {time : Int} {s : Session} {msg : Message}
    (h : LateDuplicate env time s msg) (htolerated : Tolerated env msg) :
    Unharmed s (after (processMessage env msg time) s) := by
  obtain ⟨k, hseq, hlow⟩ := h.seqNum
  let u : Session := { s with events := s.events ++ [.process msg s.cache.targetSeqNum] }
  have hprocess : ∀ {t : Session}, Unharmed u t → Unharmed s t := fun ht =>
    Unharmed.of_process (e := .process msg s.cache.targetSeqNum) True.intro ht
  have hrejected : ∀ {msgType}, msg.HasType msgType → msg.HasType MsgType.sequenceReset →
      (∀ k n, msg.HasSeqNum k → msg.Resets n → n ≤ k) →
      Ends (dispatchMessage env msg msgType) u (fun _ => Unharmed u) fun _ => Unharmed u := by
    intro msgType htype hreset hnew
    unfold dispatchMessage
    rw [if_pos (htype.unique hreset)]
    exact handleSequenceReset_unharmed hreset hseq hnew
  refine after_eq_of_ends (processMessage_of_passes h.passes hseq fun msgType htype => ?_)
  refine Ends.mono (Q := fun _ => Unharmed u) (E := fun _ => Unharmed u) ?_
    (fun _ _ ht => hprocess ht) fun _ _ ht => hprocess ht
  rcases htolerated with ⟨hreset, hnew⟩ | hknows
  · exact hrejected htype hreset hnew
  · by_cases hall : msg.HasType MsgType.sequenceReset ∧
      ∀ k n, msg.HasSeqNum k → msg.Resets n → n ≤ k
    · exact hrejected htype hall.1 hall.2
    · refine dispatchMessage_tooLow htype hseq hlow h.notLogon h.notResendRequest h.gapFill
        (fun hreset => ?_) fun reason => logout_unharmed hknows reason u
      by_contra hno
      refine hall ⟨hreset, fun k' n hk' hn => ?_⟩
      have hkk := hk'.unique hseq
      by_contra hlt
      exact hno ⟨n, hn, by omega⟩

/-- A late duplicate does no harm exactly if it is a gap fill that is rejected. -/
theorem processMessage_unharmed_iff {time : Int} {s : Session} {msg : Message}
    (hlogged : s.LoggedOn) (h : LateDuplicate env time s msg) :
    Unharmed s (after (processMessage env msg time) s) ↔ Tolerated env msg := by
  constructor
  · intro hun
    by_contra hnot
    exact (processMessage_sendsLogout hlogged h hnot).not_unharmed hun
  · exact processMessage_unharmed h

/-- The session of the tests after a logon and an order. -/
def tradingSession : Session :=
  after (processRead (testEnv acceptorSettings) [testLogon, testOrder])
    (connectedSession acceptorSettings)

/-- The order once more, as a possible duplicate. -/
def testDuplicate : Message :=
  (testDictionary.parse acceptorSettings (wireOf ("8=FIX.4.2|9=96|35=D|49=INITIATOR|" ++
    "56=ACCEPTOR|34=2|43=Y|52=20240229-12:34:56.789|122=20240229-12:34:56.789|11=X|" ++
    "10=014|"))).toOption.getD Message.new

theorem tradingSession_state : (tradingSession.state, tradingSession.network.connected,
    tradingSession.cache.targetSeqNum) = (.ready, true, 3) := by decide +kernel

theorem tradingSession_loggedOn : tradingSession.LoggedOn := by
  obtain ⟨hstate, hconn, -⟩ := by simpa only [Prod.mk.injEq] using tradingSession_state
  exact ⟨by rw [hstate]; decide, hconn⟩

theorem testDuplicate_hasType : testDuplicate.HasType (ascii "D") :=
  FieldMap.getField_eq.mpr (by decide +kernel)

theorem testDuplicate_late :
    LateDuplicate (testEnv acceptorSettings) 1709210096789 tradingSession testDuplicate where
  passes := by decide +kernel
  possDupFlag := by decide +kernel
  seqNum := by
    refine ⟨2, FieldMap.getIntField_eq.mpr ⟨ascii "2", by decide +kernel, by decide⟩, ?_⟩
    obtain ⟨-, -, htarget⟩ := by simpa only [Prod.mk.injEq] using tradingSession_state
    rw [htarget]
    decide
  notLogon h := absurd (testDuplicate_hasType.unique h) (by decide)
  notResendRequest h := absurd (testDuplicate_hasType.unique h) (by decide)
  gapFill h := absurd (testDuplicate_hasType.unique h) (by decide)

theorem testDuplicate_not_tolerated : ¬Tolerated (testEnv acceptorSettings) testDuplicate := by
  rintro (⟨hreset, -⟩ | hknows)
  · exact absurd (testDuplicate_hasType.unique hreset) (by decide)
  · exact hknows ⟨_, rfl⟩

/-- The duplicate of an order that was handled is answered with a Logout. -/
theorem processMessage_unharmed_iff_test :
    ¬Unharmed tradingSession (after (processMessage (testEnv acceptorSettings) testDuplicate
      1709210096789) tradingSession) := fun hun =>
  testDuplicate_not_tolerated
    ((processMessage_unharmed_iff tradingSession_loggedOn testDuplicate_late).mp hun)

theorem not_processMessage_unharmed : ¬∀ (env : Env) (time : Int) (s : Session) (msg : Message),
    s.LoggedOn → LateDuplicate env time s msg →
      Unharmed s (after (processMessage env msg time) s) := fun hall =>
  (processMessage_sendsLogout tradingSession_loggedOn testDuplicate_late
    testDuplicate_not_tolerated).not_unharmed
    (hall _ _ _ _ tradingSession_loggedOn testDuplicate_late)

end Session

end OpenFix
