import OpenFix.Connection
import OpenFix.Sending

/-!
# The queue of early messages

A message with a number above the target is queued, and after every message the
loop of `onNetworkMessage` processes the front of the queue for as long as it has
the target number.  The loop compares for equality, so a number that the target
passes stays in the queue, and what is behind it is never looked at.

Two things make the target pass a queued number: a SequenceReset whose NewSeqNo
is above it, and an exception that is raised once a number is consumed, which
skips the rest of the loop.  `Spares` excludes both, for one message.
-/

namespace OpenFix

open Effect Run

/-- A call that does not raise and sets no target number. -/
def DelegateCall.Calm : DelegateCall → Prop
  | .send msg => msg.header.Room 2
  | .setTargetSeqNum _ | .throw => False
  | .setSenderSeqNum _ | .start | .stop => True

namespace Session

variable {env : Env}

/-! ## What does not raise -/

/-- The dictionary has the messages that answer a peer, and the delegate does not set
the target number. -/
structure Steady (env : Env) : Prop where
  keepsTarget : env.KeepsTarget
  heartbeat : Knows env MsgType.heartbeat
  logout : Knows env MsgType.logout
  reject : Knows env MsgType.reject

/-- Once its number is consumed, nothing raises while the message is handled. -/
structure Smooth (env : Env) (msg : Message) : Prop where
  testReqID : msg.HasType MsgType.testRequest → msg.body.has Field.testReqID = true
  onMessage : ∀ d s, env.delegate = some d → ∀ c ∈ d.onMessage s msg, c.Calm
  onAdminMessage : ∀ d s, env.delegate = some d → ∀ c ∈ d.onAdminMessage s msg, c.Calm
  onLogout : msg.HasType MsgType.logout → ∀ d s, env.delegate = some d →
    ∀ c ∈ d.onLogout s, c.Calm

/-- What follows a lookup runs on what was found. -/
theorem succeeds_liftExcept {α β : Type} {x : Except Exn α} {a : α} (h : x = .ok a)
    {f : α → SessionM β} (hf : Succeeds (f a)) : Succeeds (liftExcept x >>= f) := by
  subst h
  exact hf

theorem succeeds_send {msg : Message} (hroom : msg.header.Room 2) (callback : Option Bytes) :
    Succeeds (send env msg callback) := Ends.succeeds fun s => send_sender env hroom callback s

theorem succeeds_disconnect : Succeeds networkDisconnect := Ends.succeeds networkDisconnect_ends

theorem succeeds_sendHeartbeat (hknows : Knows env MsgType.heartbeat) (testReqID : Bytes) :
    Succeeds (sendHeartbeat env testReqID) := by
  obtain ⟨m, hm⟩ := hknows
  have hbuilt : buildHeartbeat env testReqID =
      .ok (if testReqID ≠ [] then m.setBody Field.testReqID testReqID else m) := by
    simp only [buildHeartbeat, hm]
    rfl
  refine succeeds_liftExcept hbuilt (succeeds_send ?_ none)
  split
  · exact (create_room hm).mono (by decide)
  · exact (create_room hm).mono (by decide)

theorem succeeds_sendLogout (hknows : Knows env MsgType.logout) (reason : Bytes) (term : Bool) :
    Succeeds (sendLogout env reason term) :=
  Ends.succeeds fun s => sendLogout_sender hknows reason term s

theorem succeeds_logout (hknows : Knows env MsgType.logout) (reason : Bytes) (term : Bool) :
    Succeeds (logout env reason term) := Ends.succeeds fun s => logout_sender hknows reason term s

theorem succeeds_sendReject (hknows : Knows env MsgType.reject) {msg : Message}
    (hseq : msg.header.has Field.msgSeqNum = true) (reason : SessionRejectReason) (text : Bytes) :
    Succeeds (sendReject env msg reason text) :=
  Ends.succeeds fun s => sendReject_sender hknows hseq reason text s

theorem succeeds_stop : Succeeds stop := by
  unfold stop networkStop
  refine succeeds_bind (succeeds_modify _) fun _ => succeeds_bind (succeeds_modify _) fun _ => ?_
  refine succeeds_bind succeeds_get fun s => succeeds_ite (fun _ => succeeds_pure _) fun _ => ?_
  exact succeeds_bind (succeeds_modify _) fun _ => succeeds_disconnect

theorem succeeds_delegateCalls {calls : List DelegateCall} (hcalls : ∀ c ∈ calls, c.Calm) :
    Succeeds (delegateCalls env calls) := by
  induction calls with
  | nil => exact succeeds_pure _
  | cons call calls ih =>
      have hcalm := hcalls call (List.mem_cons_self ..)
      refine succeeds_bind ?_ fun _ => ih fun c hc => hcalls c (List.mem_cons_of_mem _ hc)
      cases call with
      | send msg => exact succeeds_send hcalm none
      | setSenderSeqNum num => exact succeeds_modify _
      | setTargetSeqNum num => exact hcalm.elim
      | start => exact succeeds_modify _
      | stop => exact succeeds_stop
      | throw => exact hcalm.elim

theorem succeeds_callDelegate {event : Session → Event}
    {callback : Delegate → Session → List DelegateCall}
    (hcalm : ∀ d s, env.delegate = some d → ∀ c ∈ callback d s, c.Calm) :
    Succeeds (callDelegate env event callback) := by
  unfold callDelegate
  cases hd : env.delegate with
  | none => exact succeeds_pure _
  | some d =>
      refine succeeds_bind succeeds_get fun _ => succeeds_bind (succeeds_modify _) fun _ => ?_
      exact succeeds_bind succeeds_get fun s => succeeds_delegateCalls (hcalm d s hd)

/-- A smooth message that has its number. -/
theorem succeeds_handleSequenced (hsteady : Steady env) {msg : Message} {msgType : Bytes}
    (htype : msg.HasType msgType) (h : Smooth env msg) :
    Succeeds (handleSequenced env msg msgType) := by
  have hheartbeat : Succeeds (handleHeartbeat env msg) := by
    refine succeeds_bind (succeeds_bind succeeds_get fun s => succeeds_ite (fun hs => ?_)
      fun _ => succeeds_pure _) fun _ => succeeds_callDelegate h.onAdminMessage
    obtain ⟨v, hv⟩ := Option.isSome_iff_exists.mp (FieldMap.has_eq _ _ ▸ hs.2)
    refine succeeds_liftExcept (FieldMap.getIntField_eq.mpr ⟨v, hv, rfl⟩) ?_
    exact succeeds_ite (fun _ => succeeds_modify _) fun _ => succeeds_pure _
  have hlogout : msgType = MsgType.logout → Succeeds (handleLogout env) := by
    intro heq
    refine succeeds_bind (succeeds_callDelegate (h.onLogout (heq ▸ htype))) fun _ => ?_
    refine succeeds_bind succeeds_get fun s => succeeds_ite (fun _ => ?_) fun _ => ?_
    · exact succeeds_bind (succeeds_modify _) fun _ => succeeds_disconnect
    · exact succeeds_sendLogout hsteady.logout _ true
  unfold handleSequenced
  refine succeeds_ite hlogout fun _ => succeeds_ite (fun _ => hheartbeat) fun _ => ?_
  refine succeeds_ite (fun heq => ?_) fun _ => succeeds_ite (fun _ => succeeds_pure _) fun _ => ?_
  · have hhas := h.testReqID (heq ▸ htype)
    rw [FieldMap.has_eq] at hhas
    obtain ⟨v, hv⟩ := Option.isSome_iff_exists.mp hhas
    exact succeeds_liftExcept (FieldMap.getField_eq.mpr hv)
      (succeeds_sendHeartbeat hsteady.heartbeat v)
  · exact succeeds_callDelegate h.onMessage

/-! ## A queued message -/

theorem Queueable.has_msgSeqNum {k : Int} {msg : Message} (h : Queueable env k msg) :
    msg.header.has Field.msgSeqNum = true := by
  obtain ⟨v, hv, -⟩ := FieldMap.getIntField_eq.mp h.seqNum
  rw [FieldMap.has_eq, hv]
  rfl

/-- The checks of a message that comes out of the queue. -/
theorem succeeds_validateMessage (hsteady : Steady env) {k : Int} {msg : Message}
    (h : Queueable env k msg) (msgType : Bytes) (time : Int) :
    Succeeds (validateMessage env msg msgType time) := by
  have hseq := h.has_msgSeqNum
  have hlogout : ∀ reason term, Succeeds (do logout env reason term; return false) :=
    fun reason term => succeeds_bind (succeeds_logout hsteady.logout reason term) fun _ =>
      succeeds_pure _
  have hcomp : Succeeds (validateCompIDs env msg) := by
    unfold validateCompIDs
    refine succeeds_liftExcept h.peer.beginString ?_
    rw [if_neg (not_not.mpr rfl)]
    refine succeeds_liftExcept h.peer.senderCompID ?_
    rw [if_neg (not_not.mpr rfl)]
    refine succeeds_liftExcept h.peer.targetCompID ?_
    rw [if_neg (not_not.mpr rfl)]
    exact succeeds_pure _
  have htimes : Succeeds (validateTimes env msg time) := by
    have hsending := h.sendingTime
    rw [FieldMap.has_eq] at hsending
    obtain ⟨v, hv⟩ := Option.isSome_iff_exists.mp hsending
    refine succeeds_liftExcept (FieldMap.getField_eq.mpr hv) (succeeds_ite (fun _ => ?_) fun _ =>
      succeeds_ite (fun _ => ?_) fun _ => succeeds_pure _)
    · exact succeeds_bind (succeeds_sendReject hsteady.reject hseq _ _) fun _ => hlogout _ _
    · exact succeeds_bind (succeeds_sendReject hsteady.reject hseq _ _) fun _ => succeeds_pure _
  have hstate : Succeeds (validateState env msgType) := by
    refine succeeds_bind succeeds_get fun s => ?_
    exact succeeds_ite (fun _ => hlogout _ _) fun _ => succeeds_ite (fun _ => hlogout _ _) fun _ =>
      succeeds_pure _
  unfold validateMessage
  refine succeeds_ite (fun _ => hlogout _ _) fun _ => succeeds_bind hcomp fun _ => ?_
  refine succeeds_ite (fun _ => succeeds_bind htimes fun _ => ?_) fun _ => succeeds_pure _
  exact succeeds_ite (fun _ => hstate) fun _ => succeeds_pure _

/-- A queued message with the target number is processed without an exception. -/
theorem processMessage_queued (hsteady : Steady env) {msg : Message} {s : Session}
    (h : Queueable env s.cache.targetSeqNum msg) (hsmooth : Smooth env msg) (time : Int) :
    Ends (processMessage env msg time) s (fun _ _ => True) fun _ _ => False := by
  obtain ⟨msgType, htype, hlogon, hresend⟩ := h.type
  let t : Session := { s with events := s.events ++ [.process msg s.cache.targetSeqNum] }
  have haccepts : ∀ {u : Session}, u.cache = s.cache → Ends (validateSeqNum env msg) u
      (fun ok v => ok = true ∧ v = { u with cache := u.cache.nextTargetSeqNum })
      fun _ _ => False := fun hu => validateSeqNum_accepts (by rw [hu]; exact h.seqNum)
  have hchecks : Ends (validateMessage env msg msgType time) t
      (fun ok u => Quiet t u ∧ (ok = true → u = t ∧ Valid env t.state msg time))
      fun _ _ => False :=
    (succeeds_validateMessage hsteady h msgType time).ends (validateMessage_valid htype time t)
  unfold processMessage
  rw [ends_bind, ends_getTargetSeqNum, ends_bind, ends_record, ends_liftExcept_ok htype]
  refine Ends.bind hchecks ?_
  rintro ok u ⟨-, hok⟩
  cases ok with
  | false => exact True.intro
  | true =>
      obtain ⟨rfl, -⟩ := hok rfl
      rw [if_pos rfl]
      unfold dispatchMessage
      by_cases hreset : msgType = MsgType.sequenceReset
      · rw [if_pos hreset]
        obtain ⟨hfill, n, hresets, hlt⟩ := h.newSeqNo (hreset ▸ htype)
        unfold handleSequenceReset
        rw [ends_liftExcept_ok hresets.2, ends_liftExcept_ok h.seqNum, ends_bind,
          ends_getTargetSeqNum, if_neg (by omega), if_neg]
        · rw [hfill, if_pos rfl]
          refine Ends.bind (haccepts rfl) ?_
          rintro _ _ ⟨rfl, rfl⟩
          exact True.intro
        · change ¬n < s.cache.targetSeqNum
          omega
      · rw [if_neg hreset, if_neg hlogon, if_neg hresend]
        refine Ends.bind (haccepts rfl) ?_
        rintro _ v ⟨rfl, rfl⟩
        rw [if_pos rfl]
        exact succeeds_handleSequenced hsteady htype hsmooth _

/-! ## The queue -/

/-- Every number in the queue is still to come. -/
def NoneStranded (s : Session) : Prop :=
  ∀ k ∈ s.cache.inboundQueue.keys, s.cache.targetSeqNum < k

/-- What waits in a queue is smooth, and no gap fill of it passes another number of it. -/
structure Waiting (env : Env) (queue : SortedMap Int Message) : Prop where
  queueable : ∀ k msg, (k, msg) ∈ queue.entries → Queueable env k msg
  smooth : ∀ k msg, (k, msg) ∈ queue.entries → Smooth env msg
  passesNone : ∀ k msg n, (k, msg) ∈ queue.entries → msg.Resets n → ∀ l ∈ queue.keys, k < l → n ≤ l

theorem Waiting.empty : Waiting env .empty where
  queueable _ _ h := absurd h List.not_mem_nil
  smooth _ _ h := absurd h List.not_mem_nil
  passesNone _ _ _ h := absurd h List.not_mem_nil

theorem Waiting.eraseMin {queue : SortedMap Int Message} (h : Waiting env queue) :
    Waiting env queue.eraseMin where
  queueable k msg hmem := h.queueable k msg (List.mem_of_mem_tail hmem)
  smooth k msg hmem := h.smooth k msg (List.mem_of_mem_tail hmem)
  passesNone k msg n hmem hn l hl :=
    h.passesNone k msg n (List.mem_of_mem_tail hmem) hn l (SortedMap.mem_keys_of_mem_eraseMin hl)

theorem resets_copy {msg : Message} {n : Int} : msg.copy.Resets n ↔ msg.Resets n := by
  unfold Message.Resets Message.HasType Message.copy
  rw [FieldMap.getField_copy, FieldMap.getIntField_copy]

theorem Queueable.copy {k : Int} {msg : Message} (h : Queueable env k msg) :
    Queueable env k msg.copy where
  seqNum := (FieldMap.getIntField_copy _ _).trans h.seqNum
  peer := ⟨(FieldMap.getField_copy _ _).trans h.peer.beginString,
    (FieldMap.getField_copy _ _).trans h.peer.senderCompID,
    (FieldMap.getField_copy _ _).trans h.peer.targetCompID⟩
  sendingTime := (FieldMap.has_copy _ _).trans h.sendingTime
  type := by
    obtain ⟨t, ht, hne⟩ := h.type
    exact ⟨t, (FieldMap.getField_copy _ _).trans ht, hne⟩
  newSeqNo ht := by
    obtain ⟨hfill, n, hn, hlt⟩ := h.newSeqNo ((FieldMap.getField_copy _ _).symm.trans ht)
    exact ⟨(FieldMap.tryGetBool_copy _ _).trans hfill, n, resets_copy.mpr hn, hlt⟩

/-- The front of the queue has the target number, and was processed. -/
theorem Move.front {time : Int} {k : Int} {msg : Message} {s t : Session}
    (h : Move env time msg s t) (hmin : s.cache.inboundQueue.min? = some (k, msg))
    (hk : s.cache.targetSeqNum = k) (hwaiting : Waiting env s.cache.inboundQueue) :
    t.cache.inboundQueue = s.cache.inboundQueue ∧
      ∀ l ∈ s.cache.inboundQueue.eraseMin.keys, t.cache.targetSeqNum ≤ l := by
  have hmem : (k, msg) ∈ s.cache.inboundQueue.entries := by
    rw [SortedMap.entries_of_min? hmin]
    exact List.mem_cons_self ..
  have hqueueable := hwaiting.queueable k msg hmem
  have hlater : ∀ l ∈ s.cache.inboundQueue.eraseMin.keys, k < l := fun l hl =>
    SortedMap.min?_lt_of_mem_eraseMin hmin hl
  have hnext : ∀ l ∈ s.cache.inboundQueue.eraseMin.keys, i32 (s.cache.targetSeqNum + 1) ≤ l := by
    intro l hl
    have hlt := hlater l hl
    obtain ⟨h₀, h₁⟩ := FieldMap.getIntField_range hqueueable.seqNum
    unfold i32
    omega
  cases h with
  | stay h => exact ⟨h.queue, fun l hl => by rw [h.target, hk]; exact (hlater l hl).le⟩
  | queue k' hmsg hlt h =>
      have heq := hmsg.seqNum.unique hqueueable.seqNum
      omega
  | consume _ _ _ h => exact ⟨h.queue, fun l hl => by rw [h.target]; exact hnext l hl⟩
  | deliver _ _ _ u h h' =>
      have htarget : t.cache.targetSeqNum = u.cache.targetSeqNum := h'.target
      have hqueue : t.cache.inboundQueue = u.cache.inboundQueue := h'.queue
      refine ⟨hqueue.trans h.queue, fun l hl => ?_⟩
      rw [htarget, h.target]
      exact hnext l hl
  | jump _ k' n hseq hreset hlt hle hfill h =>
      refine ⟨h.queue, fun l hl => ?_⟩
      rw [h.target]
      exact hwaiting.passesNone k msg n hmem hreset l (SortedMap.mem_keys_of_mem_eraseMin hl)
        (hlater l hl)
  | reset hmsg =>
      obtain ⟨msgType, htype, hlogon, -⟩ := hqueueable.type
      exact (hlogon (htype.unique hmsg.1)).elim

/-- The loop over the queue leaves nothing behind the target number and does not raise. -/
theorem drainQueue_noneStranded (hsteady : Steady env) (time : Int) (fuel : Nat) {s : Session}
    (hwaiting : Waiting env s.cache.inboundQueue)
    (hahead : ∀ l ∈ s.cache.inboundQueue.keys, s.cache.targetSeqNum ≤ l)
    (hfuel : s.cache.inboundQueue.entries.length < fuel) :
    Ends (drainQueue env time fuel) s
      (fun _ t => NoneStranded t ∧ Waiting env t.cache.inboundQueue) fun _ _ => False := by
  induction fuel generalizing s with
  | zero => exact absurd hfuel (Nat.not_lt_zero _)
  | succ fuel ih =>
      unfold drainQueue
      rw [ends_bind, ends_get]
      cases hmin : s.cache.inboundQueue.min? with
      | none =>
          have hempty := SortedMap.min?_eq_none_iff.mp hmin
          refine ⟨fun k hk => ?_, hwaiting⟩
          rw [hempty] at hk
          exact absurd hk List.not_mem_nil
      | some head =>
          obtain ⟨k, msg⟩ := head
          have hkeys := SortedMap.keys_of_min? hmin
          by_cases hk : s.cache.targetSeqNum = k
          · have hmem : (k, msg) ∈ s.cache.inboundQueue.entries := by
              rw [SortedMap.entries_of_min? hmin]
              exact List.mem_cons_self ..
            have hqueueable : Queueable env s.cache.targetSeqNum msg :=
              hk ▸ hwaiting.queueable k msg hmem
            have hprocess := (processMessage_ends hsteady.keepsTarget msg time s).and
              (processMessage_queued hsteady hqueueable (hwaiting.smooth k msg hmem) time)
            dsimp only
            rw [if_pos hk]
            refine Ends.bind (hprocess.mono (fun _ _ ht => ht.1) fun _ _ hf => hf.2) ?_
            intro _ t ht
            obtain ⟨hqueue, hlater⟩ := ht.front hmin hk hwaiting
            have hqueue : t.cache.inboundQueue = s.cache.inboundQueue := hqueue
            have herase : Ends eraseFront t
                (fun _ u => u = { t with cache := t.cache.eraseInbound }) fun _ _ => False := by
              unfold eraseFront
              rw [ends_bind, ends_get, hqueue, hmin]
              rfl
            refine Ends.bind herase ?_
            rintro _ _ rfl
            have hrest : t.cache.eraseInbound.inboundQueue = s.cache.inboundQueue.eraseMin :=
              congrArg SortedMap.eraseMin hqueue
            have hlength := SortedMap.length_eraseMin hmin
            refine ih ?_ ?_ ?_
            · rw [hrest]
              exact hwaiting.eraseMin
            · rw [hrest]
              exact hlater
            · rw [hrest]
              omega
          · dsimp only
            rw [if_neg hk]
            refine ⟨fun l hl => ?_, hwaiting⟩
            rw [hkeys] at hl
            have hfirst := hahead k (by rw [hkeys]; exact List.mem_cons_self ..)
            rcases List.mem_cons.mp hl with rfl | hl
            · exact lt_of_le_of_ne hfirst hk
            · have hlt := SortedMap.min?_lt_of_mem_eraseMin hmin hl
              exact lt_of_le_of_lt hfirst hlt

/-! ## A message that raises -/

/-- Once its number is consumed, nothing raises while the logon is handled, and it does
not ask for messages that the session sent before. -/
structure SmoothLogon (env : Env) (s : Session) (msg : Message) : Prop where
  sessionType : ∃ t, env.settings.getSessionType = .ok t ∧
    (t = .acceptor → msg.body.has Field.heartBtInt = true)
  logon : Knows env MsgType.logon
  resendRequest : Knows env MsgType.resendRequest
  noRecovery : ∀ n, msg.body.getIntField Field.nextExpectedMsgSeqNum = .ok n →
    s.cache.senderSeqNum ≤ n
  onLogon : ∀ d s, env.delegate = some d → ∀ c ∈ d.onLogon s, c.Calm

theorem SmoothLogon.of_same {msg : Message} {s t : Session} (h : SmoothLogon env s msg)
    (hcache : t.cache = s.cache) : SmoothLogon env t msg where
  sessionType := h.sessionType
  logon := h.logon
  resendRequest := h.resendRequest
  noRecovery := by
    rw [hcache]
    exact h.noRecovery
  onLogon := h.onLogon

theorem succeeds_acceptLogon {msg : Message} {s : Session} (h : SmoothLogon env s msg)
    (seqNum expected : Int) (shouldReset : Bool) :
    Succeeds (acceptLogon env msg seqNum expected none shouldReset) := by
  have hconsume : Succeeds (consume seqNum expected) :=
    succeeds_ite (fun _ => succeeds_modify _) fun _ => succeeds_pure _
  have hanswer : Succeeds (answerLogon env msg shouldReset) := by
    obtain ⟨t, ht, hhas⟩ := h.sessionType
    refine succeeds_liftExcept ht ?_
    cases t with
    | initiator => exact succeeds_pure _
    | acceptor =>
        have hinterval := hhas rfl
        rw [FieldMap.has_eq] at hinterval
        obtain ⟨v, hv⟩ := Option.isSome_iff_exists.mp hinterval
        refine succeeds_liftExcept (FieldMap.getIntField_eq.mpr ⟨v, hv, rfl⟩) ?_
        exact succeeds_bind (succeeds_modify _) fun _ =>
          Ends.succeeds fun s => sendLogon_sender h.logon shouldReset s
  have hresend : Succeeds (sendResendRequest env expected 0) := by
    obtain ⟨m, hm⟩ := h.resendRequest
    have hbuilt : buildResendRequest env expected 0 =
        .ok ((m.setBody Field.beginSeqNo (toChars expected)).setBody Field.endSeqNo (toChars 0)) := by
      simp only [buildResendRequest, hm]
      rfl
    refine succeeds_liftExcept hbuilt (succeeds_send ?_ none)
    exact (create_room hm).mono (by decide)
  unfold acceptLogon
  refine succeeds_bind hconsume fun _ => succeeds_bind hanswer fun _ => ?_
  refine succeeds_bind (succeeds_modify _) fun _ => succeeds_bind (succeeds_modify _) fun _ => ?_
  refine succeeds_bind (succeeds_pure _) fun _ => succeeds_ite (fun _ => hresend) fun _ => ?_
  exact succeeds_callDelegate h.onLogon

/-- Where a message raises, its number was not consumed or nothing is queued. -/
def Unconsumed (s t : Session) : Prop :=
  t.cache.targetSeqNum = s.cache.targetSeqNum ∨ t.cache.inboundQueue = .empty

theorem Quiet.unconsumed {s t : Session} (h : Quiet s t) : Unconsumed s t := .inl h.target

theorem unconsumed_of_quiet {α : Type} {x : SessionM α} (h : Keeps Quiet x) (s : Session) :
    Ends x s (fun _ _ => True) fun _ => Unconsumed s :=
  (h.ends s).mono (fun _ _ _ => True.intro) fun _ _ ht => ht.unconsumed

theorem handleSequenceReset_raises (msg : Message) (s : Session) :
    Ends (handleSequenceReset env msg) s (fun _ _ => True) fun _ => Unconsumed s := by
  unfold handleSequenceReset
  cases msg.body.getIntField Field.newSeqNo with
  | error e => exact .inl rfl
  | ok newSeqNum =>
      cases msg.header.getIntField Field.msgSeqNum with
      | error e => exact .inl rfl
      | ok seqNum =>
          rw [ends_liftExcept_ok rfl, ends_liftExcept_ok rfl, ends_bind, ends_getTargetSeqNum]
          split
          next => exact unconsumed_of_quiet (quiet.sendReject env msg _ _) s
          next =>
            split
            next => exact unconsumed_of_quiet (quiet_logout env _ true) s
            next =>
              have hearly : ∀ t, Early msg s t → Unconsumed s t := by
                intro t ht
                cases ht with
                | stay h => exact h.unconsumed
                | queue _ _ _ h => exact .inl h.target
              have haccepted : Ends (if msg.body.tryGetBool Field.gapFillFlag = true then
                  validateSeqNum env msg else pure true) s (fun _ _ => True) fun _ => Unconsumed s := by
                split
                · refine (validateSeqNum_ends env msg s).mono (fun _ _ _ => True.intro) fun _ t ht => ?_
                  exact hearly t ht
                · exact True.intro
              refine Ends.bind haccepted ?_
              intro ok t _
              split
              · exact True.intro
              · exact True.intro

theorem handleResendRequest_raises (msg : Message) (s : Session) :
    Ends (handleResendRequest env msg) s (fun _ _ => True) fun _ => Unconsumed s := by
  unfold handleResendRequest
  cases msg.header.getIntField Field.msgSeqNum with
  | error e => exact .inl rfl
  | ok seqNo =>
      cases msg.body.getIntField Field.beginSeqNo with
      | error e => exact .inl rfl
      | ok beginSeqNo =>
          cases msg.body.getIntField Field.endSeqNo with
          | error e => exact .inl rfl
          | ok endSeqNo =>
              rw [ends_liftExcept_ok rfl, ends_liftExcept_ok rfl, ends_liftExcept_ok rfl]
              refine Ends.bind (unconsumed_of_quiet (quiet.runMessageRecovery env _ _) s) ?_
              intro _ t _
              have hconsume : ∀ target, Succeeds (consume seqNo target) := fun _ =>
                succeeds_ite (fun _ => succeeds_modify _) fun _ => succeeds_pure _
              exact (hconsume t.cache.targetSeqNum t).mono (fun _ _ h => h) fun _ _ hf => hf.elim

/-- A logon that is not refused has the session resend only from a number below its own. -/
theorem logonNextExpected_ends (env : Env) (msg : Message) (s : Session) :
    Ends (logonNextExpected env msg) s
      (fun recovery t => Quiet s t ∧ ∀ n, recovery = some (some n) →
        msg.body.getIntField Field.nextExpectedMsgSeqNum = .ok n ∧ n < s.cache.senderSeqNum)
      fun _ t => Quiet s t := by
  have hquiet := (quiet.logonNextExpected env msg).ends s
  have hvalue : Ends (logonNextExpected env msg) s
      (fun recovery _ => ∀ n, recovery = some (some n) →
        msg.body.getIntField Field.nextExpectedMsgSeqNum = .ok n ∧ n < s.cache.senderSeqNum)
      fun _ _ => True := by
    unfold logonNextExpected
    split
    · cases msg.body.getIntField Field.nextExpectedMsgSeqNum with
      | error e => exact True.intro
      | ok m =>
          rw [ends_liftExcept_ok rfl, ends_bind, ends_getSenderSeqNum]
          split
          · refine Ends.bind (Ends.trivial _ s) fun _ t _ => ?_
            intro n hn
            cases hn
          · intro n hn
            split at hn
            next hlt =>
              cases hn
              exact ⟨rfl, hlt⟩
            next => cases hn
    · intro n hn
      cases hn
  exact (hvalue.and hquiet).mono (fun _ _ h => ⟨h.2, h.1⟩) fun _ _ h => h.2

/-- A logon that raises was not consumed, unless it is not smooth. -/
theorem handleLogon_raises (hsteady : Steady env) {msg : Message} {s : Session}
    (h : msg.HasSeqNum s.cache.targetSeqNum → SmoothLogon env s msg) :
    Ends (handleLogon env msg) s (fun _ _ => True) fun _ => Unconsumed s := by
  unfold handleLogon
  split
  next => exact unconsumed_of_quiet (quiet_logout env _ false) s
  next =>
    cases hseq : msg.header.getIntField Field.msgSeqNum with
    | error e => exact .inl rfl
    | ok k =>
        rw [ends_liftExcept_ok rfl, ends_bind, ends_getTargetSeqNum]
        split
        next => exact unconsumed_of_quiet (quiet_logout env _ true) s
        next =>
          refine Ends.bind ((logonNextExpected_ends env msg s).mono (fun _ _ ht => ht)
            fun _ _ ht => ht.unconsumed) ?_
          rintro recovery t ⟨ht, hrecovery⟩
          cases recovery with
          | none => exact True.intro
          | some recovery =>
              refine Ends.bind ((logonReset_ends env msg t).mono (fun _ _ hu => hu)
                fun _ u hu => Quiet.unconsumed (Change.then ht hu)) ?_
              intro answer u hu
              match answer with
              | none => exact True.intro
              | some true =>
                  obtain ⟨-, -, rfl⟩ := hu
                  refine (acceptLogon_ends hsteady.keepsTarget msg k s.cache.targetSeqNum recovery
                    true _).mono (fun _ _ _ => True.intro) fun _ v hv => .inr ?_
                  refine Eq.trans hv.queue ?_
                  split
                  · rfl
                  · rfl
              | some false =>
                  obtain ⟨-, rfl⟩ := hu
                  by_cases hk : k = s.cache.targetSeqNum
                  · have hsmooth := h (hk ▸ hseq)
                    have hnone : recovery = none := by
                      cases recovery with
                      | none => rfl
                      | some n =>
                          obtain ⟨hn, hlt⟩ := hrecovery n rfl
                          have hle := hsmooth.noRecovery n hn
                          omega
                    rw [hnone]
                    exact (succeeds_acceptLogon hsmooth _ _ _ u).mono (fun _ _ h => h)
                      fun _ _ hf => hf.elim
                  · have haccept := acceptLogon_ends hsteady.keepsTarget msg k
                      s.cache.targetSeqNum recovery false u
                    rw [if_neg hk] at haccept
                    refine haccept.mono (fun _ _ _ => True.intro) fun _ v hv => .inl ?_
                    exact Eq.trans hv.target ht.target

/-- A message that raises was not consumed, unless it is not smooth. -/
theorem processMessage_raises (hsteady : Steady env) {msg : Message} {s : Session} (time : Int)
    (h : msg.HasSeqNum s.cache.targetSeqNum → ¬msg.HasType MsgType.sequenceReset →
      Smooth env msg ∧ (msg.HasType MsgType.logon → SmoothLogon env s msg)) :
    Ends (processMessage env msg time) s (fun _ _ => True) fun _ => Unconsumed s := by
  let t : Session := { s with events := s.events ++ [.process msg s.cache.targetSeqNum] }
  unfold processMessage
  rw [ends_bind, ends_getTargetSeqNum, ends_bind, ends_record]
  cases htype : msg.header.getField Field.msgType with
  | error e => exact .inl rfl
  | ok msgType =>
      rw [ends_liftExcept_ok rfl]
      have hchecks : Ends (validateMessage env msg msgType time) t
          (fun ok u => Quiet t u ∧ (ok = true → u = t ∧ Valid env t.state msg time))
          fun _ => Unconsumed s :=
        (validateMessage_valid htype time t).mono (fun _ _ h => h) fun _ u hu => .inl hu.target
      refine Ends.bind hchecks ?_
      rintro ok u ⟨-, hok⟩
      cases ok with
      | false => exact True.intro
      | true =>
          obtain ⟨rfl, -⟩ := hok rfl
          rw [if_pos rfl]
          unfold dispatchMessage
          by_cases hreset : msgType = MsgType.sequenceReset
          · rw [if_pos hreset]
            exact handleSequenceReset_raises msg t
          have hother : ¬msg.HasType MsgType.sequenceReset := fun ht =>
            hreset (Message.HasType.unique htype ht)
          rw [if_neg hreset]
          by_cases hlogon : msgType = MsgType.logon
          · rw [if_pos hlogon]
            exact handleLogon_raises (s := t) hsteady fun hseq =>
              ((h hseq hother).2 (hlogon ▸ htype)).of_same rfl
          rw [if_neg hlogon]
          by_cases hresend : msgType = MsgType.resendRequest
          · rw [if_pos hresend]
            exact handleResendRequest_raises msg t
          rw [if_neg hresend]
          refine Ends.bind ((validateSeqNum_ends env msg t).mono (fun _ _ h => h)
            fun _ u hu => ?_) ?_
          · cases hu with
            | stay h => exact .inl h.target
            | queue _ _ _ h => exact .inl h.target
          · intro ok u hu
            cases ok with
            | false => exact True.intro
            | true =>
                have hsmooth := (h hu.1 hother).1
                exact (succeeds_handleSequenced hsteady htype hsmooth u).mono (fun _ _ h => h)
                  fun _ _ hf => hf.elim

/-! ## A message that strands none -/

/-- A message whose handling at this time leaves nothing behind the target number. -/
structure Spares (env : Env) (time : Int) (s : Session) (msg : Message) : Prop where
  /-- A SequenceReset that is obeyed passes no number of the queue. -/
  jump : ∀ k n, Valid env s.state msg time → msg.HasSeqNum k → msg.Resets n → k < n →
    s.cache.targetSeqNum ≤ n →
    (msg.body.tryGetBool Field.gapFillFlag = true → k = s.cache.targetSeqNum) →
      ∀ l ∈ s.cache.inboundQueue.keys, n ≤ l
  /-- A message that is queued is smooth, and no gap fill in the queue passes another
  number there. -/
  early : ∀ k, Queueable env k msg → s.cache.targetSeqNum < k → Smooth env msg.copy ∧
    (∀ n, msg.Resets n → ∀ l ∈ s.cache.inboundQueue.keys, k < l → n ≤ l) ∧
    ∀ l m n, (l, m) ∈ s.cache.inboundQueue.entries → m.Resets n → l < k → n ≤ k
  /-- Where the next number is queued already, a message is smooth as well. -/
  next : msg.HasSeqNum s.cache.targetSeqNum →
    i32 (s.cache.targetSeqNum + 1) ∈ s.cache.inboundQueue.keys →
      Smooth env msg ∧ (msg.HasType MsgType.logon → SmoothLogon env s msg)

theorem Waiting.insert {queue : SortedMap Int Message} (h : Waiting env queue) {k : Int}
    {msg : Message} (hmsg : Queueable env k msg) (hsmooth : Smooth env msg.copy)
    (hpasses : ∀ n, msg.Resets n → ∀ l ∈ queue.keys, k < l → n ≤ l)
    (hpassed : ∀ l m n, (l, m) ∈ queue.entries → m.Resets n → l < k → n ≤ k) :
    Waiting env (queue.insert k msg.copy) where
  queueable l m hmem := by
    rcases SortedMap.mem_entries_insert hmem with heq | hold
    · cases heq
      exact hmsg.copy
    · exact h.queueable l m hold
  smooth l m hmem := by
    rcases SortedMap.mem_entries_insert hmem with heq | hold
    · cases heq
      exact hsmooth
    · exact h.smooth l m hold
  passesNone l m n hmem hn l' hl' hlt := by
    rcases SortedMap.mem_entries_insert hmem with heq | hold
    · cases heq
      rcases SortedMap.mem_keys_insert.mp hl' with rfl | hl'
      · omega
      · exact hpasses n (resets_copy.mp hn) l' hl' hlt
    · rcases SortedMap.mem_keys_insert.mp hl' with rfl | hl'
      · exact hpassed l m n hold hn hlt
      · exact h.passesNone l m n hold hn l' hl' hlt

section

variable {time : Int} {msg : Message} {s t : Session} (h : Move env time msg s t)
  (hspares : Spares env time s msg)

include h hspares

/-- What waits after a message is smooth again. -/
theorem Move.waiting (hwaiting : Waiting env s.cache.inboundQueue) :
    Waiting env t.cache.inboundQueue := by
  cases h with
  | stay h => exact h.queue.symm ▸ hwaiting
  | queue k hmsg hlt h =>
      obtain ⟨hsmooth, hpasses, hpassed⟩ := hspares.early k hmsg hlt
      exact h.queue.symm ▸ hwaiting.insert hmsg hsmooth hpasses hpassed
  | consume _ _ _ h => exact h.queue.symm ▸ hwaiting
  | deliver _ _ _ u h h' => exact (Eq.trans h'.queue h.queue).symm ▸ hwaiting
  | jump _ k n _ _ _ _ _ h => exact h.queue.symm ▸ hwaiting
  | reset _ _ target _ u _ h => exact h.queue.symm ▸ Waiting.empty

variable (hnone : NoneStranded s)

include hnone

/-- Nothing that waits is behind the target number. -/
theorem Move.ahead : ∀ l ∈ t.cache.inboundQueue.keys, t.cache.targetSeqNum ≤ l := by
  have hnext : msg.HasSeqNum s.cache.targetSeqNum → ∀ l ∈ s.cache.inboundQueue.keys,
      i32 (s.cache.targetSeqNum + 1) ≤ l := by
    intro hseq l hl
    have hlt := hnone l hl
    obtain ⟨h₀, h₁⟩ := FieldMap.getIntField_range hseq
    unfold i32
    omega
  intro l hl
  cases h with
  | stay h =>
      rw [h.queue] at hl
      rw [h.target]
      exact (hnone l hl).le
  | queue k hmsg hlt h =>
      rw [h.queue] at hl
      rw [h.target]
      rcases SortedMap.mem_keys_insert.mp hl with rfl | hl
      · exact hlt.le
      · exact (hnone l hl).le
  | consume _ hseq _ h =>
      rw [h.queue] at hl
      rw [h.target]
      exact hnext hseq l hl
  | deliver _ hseq _ u h h' =>
      rw [Eq.trans h'.queue h.queue] at hl
      rw [Eq.trans h'.target h.target]
      exact hnext hseq l hl
  | jump hvalid k n hseq hreset hlt hle hfill h =>
      rw [h.queue] at hl
      rw [h.target]
      exact hspares.jump k n hvalid hseq hreset hlt hle hfill l hl
  | reset _ _ target _ u _ h =>
      rw [h.queue] at hl
      exact absurd hl List.not_mem_nil

/-- Where the message raised, nothing that waits has the target number either. -/
theorem Move.raised (hraised : Unconsumed s t ∨ ¬msg.HasType MsgType.sequenceReset ∧
    i32 (s.cache.targetSeqNum + 1) ∉ s.cache.inboundQueue.keys) : NoneStranded t := by
  have hahead := h.ahead hspares hnone
  have hsame : t.cache.targetSeqNum = s.cache.targetSeqNum →
      t.cache.inboundQueue = s.cache.inboundQueue → NoneStranded t := by
    intro htarget hqueue l hl
    rw [htarget]
    exact hnone l (hqueue ▸ hl)
  have hempty : t.cache.inboundQueue = .empty → NoneStranded t := by
    intro hqueue l hl
    rw [hqueue] at hl
    exact absurd hl List.not_mem_nil
  have hconsumed : t.cache.targetSeqNum = i32 (s.cache.targetSeqNum + 1) →
      t.cache.inboundQueue = s.cache.inboundQueue → NoneStranded t := by
    intro htarget hqueue
    rcases hraised with (hstay | hnothing) | ⟨-, hfree⟩
    · exact hsame hstay hqueue
    · exact hempty hnothing
    · intro l hl
      refine lt_of_le_of_ne (hahead l hl) fun heq => hfree ?_
      rw [← htarget, heq, ← hqueue]
      exact hl
  cases h with
  | stay h => exact hsame h.target h.queue
  | queue k hmsg hlt h =>
      intro l hl
      rw [h.queue] at hl
      rw [h.target]
      rcases SortedMap.mem_keys_insert.mp hl with rfl | hl
      · exact hlt
      · exact hnone l hl
  | consume _ _ _ h => exact hconsumed h.target h.queue
  | deliver _ _ _ u h h' => exact hconsumed (Eq.trans h'.target h.target) (Eq.trans h'.queue h.queue)
  | jump _ k n _ hreset _ _ _ h =>
      rcases hraised with (hstay | hnothing) | ⟨htype, -⟩
      · exact hsame hstay h.queue
      · exact hempty hnothing
      · exact (htype hreset.1).elim
  | reset _ _ target _ u _ h => exact hempty h.queue

end

/-! ## Whole inputs -/

theorem Spares.of_same {time : Int} {msg : Message} {s t : Session} (h : Spares env time s msg)
    (hcache : t.cache = s.cache) (hstate : t.state = s.state) : Spares env time t msg where
  jump := by
    rw [hcache, hstate]
    exact h.jump
  early := by
    rw [hcache]
    exact h.early
  next := by
    rw [hcache]
    intro hseq hmem
    obtain ⟨hsmooth, hlogon⟩ := h.next hseq hmem
    exact ⟨hsmooth, fun htype => (hlogon htype).of_same hcache⟩

/-- What holds of the queue after every input. -/
def Kept (env : Env) (s : Session) : Prop :=
  NoneStranded s ∧ Waiting env s.cache.inboundQueue

theorem processMessage_kept (hsteady : Steady env) {time : Int} {msg : Message} {s : Session}
    (hkept : Kept env s) (hspares : Spares env time s msg) :
    Ends (processMessage env msg time) s
      (fun _ t => (∀ l ∈ t.cache.inboundQueue.keys, t.cache.targetSeqNum ≤ l) ∧
        Waiting env t.cache.inboundQueue)
      fun _ t => Kept env t := by
  let t : Session := { s with events := s.events ++ [.process msg s.cache.targetSeqNum] }
  have hspares' : Spares env time t msg := hspares.of_same rfl rfl
  have hraises : Ends (processMessage env msg time) s (fun _ _ => True) fun _ u =>
      Unconsumed t u ∨ ¬msg.HasType MsgType.sequenceReset ∧
        i32 (t.cache.targetSeqNum + 1) ∉ t.cache.inboundQueue.keys := by
    by_cases hmem : i32 (s.cache.targetSeqNum + 1) ∈ s.cache.inboundQueue.keys
    · exact (processMessage_raises hsteady time fun hseq _ => hspares.next hseq hmem).mono
        (fun _ _ h => h) fun _ _ h => .inl h
    · by_cases htype : msg.HasType MsgType.sequenceReset
      · exact (processMessage_raises hsteady time fun _ hother => (hother htype).elim).mono
          (fun _ _ h => h) fun _ _ h => .inl h
      · exact (Ends.trivial _ s).mono (fun _ _ h => h) fun _ _ _ => .inr ⟨htype, hmem⟩
  refine ((processMessage_ends hsteady.keepsTarget msg time s).and hraises).mono
    (fun _ u hu => ?_) fun _ u hu => ?_
  · exact ⟨hu.1.ahead hspares' hkept.1, hu.1.waiting hspares' hkept.2⟩
  · exact ⟨hu.1.raised hspares' hkept.1 hu.2, hu.1.waiting hspares' hkept.2⟩

/-- A text that is processed has to spare the queue. -/
def SparesQueue (env : Env) (s : Session) : Input → Prop
  | .inbound text => s.state ≠ .killing → ∀ msg,
      env.dictionary.parse env.settings text = .ok msg → Spares env (nextMillis env s) s msg
  | .connected _ | .disconnected | .tick => True

theorem onNetworkMessage_kept (hsteady : Steady env) {s : Session} (hkept : Kept env s)
    {text : Bytes} (hspares : SparesQueue env s (.inbound text)) :
    Kept env (after (onNetworkMessage env text) s) := by
  apply after_eq_of_ends
  unfold onNetworkMessage
  rw [ends_bind, ends_get]
  split
  next => exact hkept
  next hstate =>
    refine Ends.tryCatch (F := fun _ => Kept env) ?_ fun e t ht => ?_
    · cases hparse : env.dictionary.parse env.settings text with
      | error e => exact hkept
      | ok msg =>
          rw [ends_liftExcept_ok rfl]
          have hentered : Spares env (nextMillis env s) (entered env s) msg :=
            (hspares hstate msg hparse).of_same rfl rfl
          have hprocess : Ends (processMessage env msg (nextMillis env s)) (entered env s) _ _ :=
            processMessage_kept hsteady hkept hentered
          refine handleParsed_ends (hprocess.mono (fun _ t ht => ?_) fun _ _ ht => ht)
          exact (drainQueue_noneStranded hsteady _ _ ht.2 ht.1 (Nat.lt_succ_self _)).mono
            (fun _ _ hu => hu) fun _ _ hf => hf.elim
    · cases e with
      | undefined what => exact ht
      | _ => exact ht

/-- The target number and the queue stay, or the queue is emptied. -/
def SameQueue (s t : Session) : Prop :=
  t.cache.targetSeqNum = s.cache.targetSeqNum ∧ t.cache.inboundQueue = s.cache.inboundQueue ∨
    t.cache.inboundQueue = .empty

instance : Std.Refl SameQueue := ⟨fun _ => .inl ⟨rfl, rfl⟩⟩

instance : IsTrans Session SameQueue where
  trans s t u := by
    intro h h'
    rcases h' with ⟨htarget', hqueue'⟩ | hempty
    · rcases h with ⟨htarget, hqueue⟩ | hempty
      · exact .inl ⟨htarget'.trans htarget, hqueue'.trans hqueue⟩
      · exact .inr (hqueue'.trans hempty)
    · exact .inr hempty

theorem SameQueue.kept {s t : Session} (h : SameQueue s t) (hs : Kept env s) : Kept env t := by
  rcases h with ⟨htarget, hqueue⟩ | hempty
  · unfold Kept NoneStranded
    rw [htarget, hqueue]
    exact hs
  · refine ⟨fun k hk => ?_, hempty ▸ Waiting.empty⟩
    rw [hempty] at hk
    exact absurd hk List.not_mem_nil

theorem sameQueue : OpenToSending SameQueue := quiet.weaken fun _ _ h => .inl ⟨h.target, h.queue⟩

/-- Every input that spares the queue keeps it. -/
theorem next_kept (hsteady : Steady env) {s : Session} (hkept : Kept env s) {i : Input}
    (hi : SparesQueue env s i) : Kept env (next env i s) := by
  cases i with
  | connected fd => exact hkept
  | disconnected => exact hkept
  | inbound text => exact onNetworkMessage_kept hsteady hkept hi
  | tick =>
      have htick : Keeps SameQueue (onNetworkUpdate env) :=
        sameQueue.tick env (fun _ => .inr rfl) (fun _ _ => .inl ⟨rfl, rfl⟩)
          fun _ _ => .inl ⟨rfl, rfl⟩
      exact (htick s).kept hkept

/-- In every run whose messages spare the queue, no message is stranded in it. -/
theorem run_noneStranded (hsteady : Steady env) {s : Session}
    (h : Reached (Session.new env.settings) (next env) (SparesQueue env) s) : NoneStranded s := by
  have hkept : Kept env s := by
    refine h.invariant (P := Kept env) ?_ fun s i hi hs => next_kept hsteady hs hi
    exact ⟨fun k hk => absurd hk List.not_mem_nil, Waiting.empty⟩
  exact hkept.1

theorem steady_test (settings : SessionSettings) : Steady (testEnv settings) where
  keepsTarget := testEnv_keepsTarget settings
  heartbeat := ⟨_, rfl⟩
  logout := ⟨_, rfl⟩
  reject := ⟨_, rfl⟩

theorem smooth_test {settings : SessionSettings} {msg : Message}
    (h : ¬msg.HasType MsgType.testRequest) : Smooth (testEnv settings) msg where
  testReqID ht := (h ht).elim
  onMessage _ _ hd := nomatch hd
  onAdminMessage _ _ hd := nomatch hd
  onLogout _ _ _ hd := nomatch hd

/-- A smooth message finds nothing that it could strand in an empty queue. -/
theorem Spares.of_empty {time : Int} {msg : Message} {s : Session}
    (hqueue : s.cache.inboundQueue = .empty) (hsmooth : Smooth env msg.copy) :
    Spares env time s msg := by
  have hno : ∀ {p : Prop} {l : Int}, l ∈ s.cache.inboundQueue.keys → p := by
    intro p l hl
    rw [hqueue] at hl
    exact absurd hl List.not_mem_nil
  refine ⟨fun _ _ _ _ _ _ _ _ l hl => hno hl, fun k _ _ => ⟨hsmooth, fun _ _ l hl => hno hl, ?_⟩,
    fun _ hl => hno hl⟩
  intro l m n hmem
  exact hno (SortedMap.mem_keys_iff.mpr ⟨m, hmem⟩)

/-- A heartbeat of the initiator of the tests, under the number 4. -/
def testHeartbeat : Bytes :=
  wireOf "8=FIX.4.2|9=60|35=0|49=INITIATOR|56=ACCEPTOR|34=4|52=20240229-12:34:56.789|10=233|"

/-- A gap fill from 2 to 4. -/
def testGapFill : Bytes :=
  wireOf ("8=FIX.4.2|9=102|35=4|49=INITIATOR|56=ACCEPTOR|34=2|43=Y|52=20240229-12:34:56.789|" ++
    "122=20240229-12:34:56.789|123=Y|36=4|10=050|")

/-- A SequenceReset to 6. -/
def testReset : Bytes :=
  wireOf ("8=FIX.4.2|9=65|35=4|49=INITIATOR|56=ACCEPTOR|34=5|52=20240229-12:34:56.789|36=6|" ++
    "10=208|")

/-- The session of the tests after a logon and a heartbeat that came early. -/
def queuedSession : Session :=
  next (testEnv acceptorSettings) (.inbound testHeartbeat)
    (next (testEnv acceptorSettings) (.inbound testLogon) (connectedSession acceptorSettings))

theorem spares_test {text : Bytes} {s : Session} (hqueue : s.cache.inboundQueue = .empty)
    {t : Bytes} (htype : (testDictionary.parse acceptorSettings text).map
      (fun m => m.header.getField Field.msgType) = .ok (.ok t)) (ht : t ≠ MsgType.testRequest) :
    SparesQueue (testEnv acceptorSettings) s (.inbound text) := by
  intro _ msg hparse
  change testDictionary.parse acceptorSettings text = .ok msg at hparse
  rw [hparse] at htype
  refine .of_empty hqueue (smooth_test fun hcopy => ht ?_)
  have hmsg : msg.HasType t := Except.ok.inj htype
  exact hmsg.unique ((FieldMap.getField_copy _ _).symm.trans hcopy)

/-- The heartbeat is queued, and a gap fill lets the loop process it. -/
theorem run_noneStranded_test :
    NoneStranded (next (testEnv acceptorSettings) (.inbound testGapFill) queuedSession) := by
  have hfill : SparesQueue (testEnv acceptorSettings) queuedSession (.inbound testGapFill) := by
    have hqueue : (queuedSession.cache.inboundQueue.keys, queuedSession.cache.targetSeqNum) =
        ([4], 2) := by decide +kernel
    obtain ⟨hkeys, htarget⟩ := Prod.mk.inj hqueue
    have hfields : (testDictionary.parse acceptorSettings testGapFill).map
        (fun m => (m.header.getIntField Field.msgSeqNum, m.body.getIntField Field.newSeqNo)) =
        .ok (.ok 2, .ok 4) := by decide +kernel
    intro _ msg hparse
    change testDictionary.parse acceptorSettings testGapFill = .ok msg at hparse
    rw [hparse] at hfields
    obtain ⟨hseq, hnew⟩ := Prod.mk.inj (Except.ok.inj hfields)
    refine ⟨?_, ?_, ?_⟩
    · intro k n _ _ hn _ _ _ l hl
      rw [hkeys] at hl
      have hl := List.mem_singleton.mp hl
      have hn : (4 : Int) = n := Except.ok.inj (hnew.symm.trans hn.2)
      omega
    · intro k hk hlt
      have hk : (2 : Int) = k := Except.ok.inj (hseq.symm.trans hk.seqNum)
      omega
    · intro _ hmem
      rw [hkeys, htarget] at hmem
      exact absurd hmem (by decide)
  have hlogon : SparesQueue (testEnv acceptorSettings) (connectedSession acceptorSettings)
      (.inbound testLogon) :=
    spares_test rfl (t := MsgType.logon) (by decide +kernel) (by decide)
  have hheartbeat : SparesQueue (testEnv acceptorSettings)
      (next (testEnv acceptorSettings) (.inbound testLogon) (connectedSession acceptorSettings))
      (.inbound testHeartbeat) := by
    refine spares_test ?_ (t := MsgType.heartbeat) (by decide +kernel) (by decide)
    exact SortedMap.min?_eq_none_iff.mp (by decide +kernel)
  have hconnect : SparesQueue (testEnv acceptorSettings) (Session.new acceptorSettings)
      (.connected 3) := True.intro
  have hconnected : Reached (Session.new (testEnv acceptorSettings).settings)
      (next (testEnv acceptorSettings)) (SparesQueue (testEnv acceptorSettings))
      (connectedSession acceptorSettings) := Reached.step .init hconnect
  have hqueued : Reached (Session.new (testEnv acceptorSettings).settings)
      (next (testEnv acceptorSettings)) (SparesQueue (testEnv acceptorSettings))
      queuedSession := (hconnected.step hlogon).step hheartbeat
  exact run_noneStranded (steady_test acceptorSettings) (hqueued.step hfill)

/-- A SequenceReset that passes the queued number leaves it in the queue. -/
theorem not_run_noneStranded : ¬∀ (env : Env) (s : Session), Steady env →
    Reached (Session.new env.settings) (next env) (fun _ _ => True) s → NoneStranded s := by
  intro hall
  have hreached : Reached (Session.new acceptorSettings) (next (testEnv acceptorSettings))
      (fun _ _ => True) (next (testEnv acceptorSettings) (.inbound testReset) queuedSession) :=
    (((Reached.init.step (i := Input.connected 3) True.intro).step
      (i := Input.inbound testLogon) True.intro).step
      (i := Input.inbound testHeartbeat) True.intro).step
      (i := Input.inbound testReset) True.intro
  have hqueue : ((next (testEnv acceptorSettings) (.inbound testReset)
      queuedSession).cache.inboundQueue.keys, (next (testEnv acceptorSettings) (.inbound testReset)
      queuedSession).cache.targetSeqNum) = ([4], 6) := by decide +kernel
  obtain ⟨hkeys, htarget⟩ := Prod.mk.inj hqueue
  have hnone := hall (testEnv acceptorSettings) _ (steady_test acceptorSettings) hreached 4
    (by rw [hkeys]; exact List.mem_cons_self ..)
  rw [htarget] at hnone
  exact absurd hnone (by decide)

end Session

end OpenFix
