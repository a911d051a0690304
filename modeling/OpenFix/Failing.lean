import OpenFix.Lib.Loop
import OpenFix.Queueing
import OpenFix.Store

/-!
# Messages that fail

An exception that is raised while a message is processed is caught by
`onNetworkMessage`, which only ends the cached time.  What was written before the
exception stays written.

Three handlers read all the fields they need before they write: the checks of the
header, `handleSequenceReset` and `handleResendRequest`, whose replays are sent and
leave the numbers alone.  The other two do not.  A TestRequest is counted before its
TestReqID is read, and `handleLogon` resets the session, counts the Logon, answers it
and moves to READY before it reads HeartBtInt or replays what the peer misses.
-/

namespace OpenFix

open Effect

/-- The types of the messages that the session builds. -/
def MsgType.ownMsgs : List Bytes := MsgType.reject :: MsgType.sessionMsgs

namespace MemoryCache

/-- The data that the calls of the store leave in it. -/
def stored (c : MemoryCache) : SessionData :=
  c.store.foldl (fun data op =>
    match op with
    | .reset => .new
    | op => op.apply data) .new

/-- The numbers, the texts, the queue and the content of the store are the same. -/
structure SameContent (c d : MemoryCache) : Prop where
  senderSeqNum : d.senderSeqNum = c.senderSeqNum
  targetSeqNum : d.targetSeqNum = c.targetSeqNum
  messages : d.messages = c.messages
  inboundQueue : d.inboundQueue = c.inboundQueue
  stored : d.stored = c.stored

theorem sameContent_self (c : MemoryCache) : SameContent c c := ⟨rfl, rfl, rfl, rfl, rfl⟩

/-- These numbers and texts are all that the cache holds, and nothing is in the store. -/
structure HoldsOnly (c : MemoryCache) (sender target : Int) (messages : SortedMap Int Bytes) :
    Prop where
  senderSeqNum : c.senderSeqNum = sender
  targetSeqNum : c.targetSeqNum = target
  messages : c.messages = messages
  inboundQueue : c.inboundQueue = .empty
  stored : c.stored = .new

theorem HoldsOnly.sameContent_iff {c d : MemoryCache} {sender target : Int}
    {messages : SortedMap Int Bytes} (h : d.HoldsOnly sender target messages) :
    c.SameContent d ↔ c.HoldsOnly sender target messages := by
  constructor
  · rintro ⟨hsender, htarget, hmessages, hqueue, hstored⟩
    exact ⟨hsender.symm.trans h.senderSeqNum, htarget.symm.trans h.targetSeqNum,
      hmessages.symm.trans h.messages, hqueue.symm.trans h.inboundQueue,
      hstored.symm.trans h.stored⟩
  · rintro ⟨hsender, htarget, hmessages, hqueue, hstored⟩
    exact ⟨h.senderSeqNum.trans hsender.symm, h.targetSeqNum.trans htarget.symm,
      h.messages.trans hmessages.symm, h.inboundQueue.trans hqueue.symm,
      h.stored.trans hstored.symm⟩

/-- A message is sent, and its text is not in the store yet. -/
theorem HoldsOnly.sent {c : MemoryCache} {sender target : Int} {messages : SortedMap Int Bytes}
    (h : c.HoldsOnly sender target messages) (wire : Bytes) :
    (c.cache c.senderSeqNum wire).nextSenderSeqNum.HoldsOnly (i32 (sender + 1)) target
      (messages.insert sender wire) where
  senderSeqNum := congrArg (fun n => i32 (n + 1)) h.senderSeqNum
  targetSeqNum := h.targetSeqNum
  messages := by
    show c.messages.insert c.senderSeqNum wire = _
    rw [h.messages, h.senderSeqNum]
  inboundQueue := h.inboundQueue
  stored := h.stored

theorem stored_reset (c : MemoryCache) : c.reset.stored = .new := by
  unfold stored reset
  rw [List.foldl_append]
  rfl

end MemoryCache

namespace Session

/-- The state and all that the cache holds are the same. -/
structure Unaltered (s t : Session) : Prop where
  state : t.state = s.state
  cache : MemoryCache.SameContent s.cache t.cache

/-- The exception is about a field that is missing or a text that does not parse.  Where
the dictionary has the messages that the session builds, such a text is a cached one. -/
def FailsOn (env : Env) (e : Exn) : Prop :=
  (∃ tag, e = .fieldNotFound tag) ∨
    (∃ text, e = .messageParsingError text) ∧ ∀ t ∈ MsgType.ownMsgs, Knows env t

/-- The tags that `processMessage` reads before the message is handled, of those that it
does not look for first. -/
def requiredTags : List Int :=
  [Field.msgType, Field.beginString, Field.senderCompID, Field.targetCompID, Field.sendingTime]

/-- The cache when `handleLogon` has reset the session and counted the Logon. -/
def logonCache (s : Session) (msg : Message) (seqNum : Int) : MemoryCache :=
  let c := if msg.body.tryGetBool Field.resetSeqNumFlag then s.cache.reset else s.cache
  if seqNum = s.cache.targetSeqNum then c.nextTargetSeqNum else c

/-- The time that a send reads first. -/
def sendMicros (env : Env) (s : Session) : Int :=
  if s.cachedEpochUs ≠ 0 then s.cachedEpochUs else env.clock s.clockReads

/-- The time that a send stamps. -/
def sendMillis (env : Env) (s : Session) : Int :=
  if (sendMicros env s).tdiv 1000 = 0 then
    (env.clock (if s.cachedEpochUs ≠ 0 then s.clockReads else s.clockReads + 1)).tdiv 1000
  else (sendMicros env s).tdiv 1000

/-- The text that a send transmits. -/
def sentText (env : Env) (msg : Message) (s : Session) : Except Exn Bytes := do
  let header ← stampHeader env.settings s.cache.senderSeqNum (sendMillis env s) msg.header
  return { msg with header := header }.toString true

/-- The cache when a message is sent. -/
def sentCache (env : Env) (msg : Message) (s : Session) : Except Exn MemoryCache := do
  let wire ← sentText env msg s
  return (s.cache.cache s.cache.senderSeqNum wire).nextSenderSeqNum

/-- The cache when a Logon is sent. -/
def answeredCache (env : Env) (shouldReset : Bool) (s : Session) : Except Exn MemoryCache := do
  let logon ← buildLogon env s shouldReset
  sentCache env logon s

/-- The text of the Logon that answers one with ResetSeqNumFlag.  It is sent under the number
zero that a reset leaves, with `target` as the target number. -/
def resetAnswer (env : Env) (s : Session) (target heartBtInt : Int) : Except Exn Bytes := do
  let u := { entered env s with
    cache := { s.cache with senderSeqNum := 0, targetSeqNum := target }
    heartbeatInterval := heartBtInt * 1000 }
  let logon ← buildLogon env u true
  sentText env logon u

/-- The target number after a reset, when the Logon is counted and when it is not. -/
def resetTarget (s : Session) (seqNum : Int) : Int :=
  if seqNum = s.cache.targetSeqNum then 1 else 0

/-- To reset the session, if the Logon asks for that, and to count the Logon changes nothing:
without a reset the Logon has another number, and with one there is nothing to lose. -/
def CountsNothing (s : Session) (msg : Message) (seqNum : Int) : Prop :=
  if msg.body.tryGetBool Field.resetSeqNumFlag then
    s.cache.HoldsOnly 0 (resetTarget s seqNum) .empty
  else seqNum ≠ s.cache.targetSeqNum

/-- What `handleLogon` writes before it raises is what was there.  An acceptor without
HeartBtInt has not answered.  One that has answered has used up a sender number, so that it
has to be at one after a reset already, with the same answer as the only text. -/
def LogonLeaves (env : Env) (s : Session) (msg : Message) : Prop :=
  ∀ seqNum, msg.HasSeqNum seqNum →
    match env.settings.getSessionType, msg.body.getIntField Field.heartBtInt with
    | .ok .acceptor, .error _ => CountsNothing s msg seqNum
    | .ok .acceptor, .ok heartBtInt =>
        s.state = .ready ∧ msg.body.tryGetBool Field.resetSeqNumFlag = true ∧
          ∃ wire, resetAnswer env s (resetTarget s seqNum) heartBtInt = .ok wire ∧
            s.cache.HoldsOnly 1 (resetTarget s seqNum) (.insert .empty 0 wire)
    | _, _ => s.state = .ready ∧ CountsNothing s msg seqNum

/-- One of these fields is missing. -/
def Lacks (msg : Message) : Prop := ∃ tag ∈ requiredTags, msg.header.has tag = false

/-- A message whose exception is raised before anything is written, or by a handler that
writes nothing before it. -/
def Leaves (env : Env) (s : Session) (msg : Message) : Prop :=
  Lacks msg ∨ msg.HasType MsgType.sequenceReset ∨ msg.HasType MsgType.resendRequest ∨
    msg.HasType MsgType.logon ∧ LogonLeaves env s msg

/-! ## What is not about a field or a text -/

variable {env : Env}

theorem not_failsOn_undefined (what : String) : ¬FailsOn env (.undefined what) := by
  intro h
  rcases h with ⟨tag, h⟩ | ⟨⟨text, h⟩, _⟩
  · cases h
  · cases h

theorem not_failsOn_delegate : ¬FailsOn env .delegate := by
  intro h
  rcases h with ⟨tag, h⟩ | ⟨⟨text, h⟩, _⟩
  · cases h
  · cases h

theorem not_failsOn_misconfigured : ¬FailsOn env .misconfiguredSession := by
  intro h
  rcases h with ⟨tag, h⟩ | ⟨⟨text, h⟩, _⟩
  · cases h
  · cases h

/-- The dictionary lacks a message that the session builds. -/
theorem not_failsOn_create {msgType : Bytes} (htype : msgType ∈ MsgType.ownMsgs) {e : Exn}
    (h : env.dictionary.create msgType = .error e) : ¬FailsOn env e := by
  have he : e = .messageParsingError "Unknown message" := by
    unfold Dictionary.create at h
    cases hspec : env.dictionary.getMessageSpecRaw msgType with
    | none =>
        rw [hspec] at h
        cases h
        rfl
    | some spec =>
        rw [hspec] at h
        cases h
  intro hfails
  rcases hfails with ⟨tag, htag⟩ | ⟨_, hknows⟩
  · rw [he] at htag
    cases htag
  · obtain ⟨msg, hmsg⟩ := hknows msgType htype
    rw [h] at hmsg
    cases hmsg

theorem storeField_error {m : FieldMap} {tag : Int} {value : Bytes} {order : Bool} {e : Exn}
    (h : m.storeField tag value order = .error e) : ∃ what, e = .undefined what := by
  unfold FieldMap.storeField at h
  split at h
  next =>
    cases h
    exact ⟨_, rfl⟩
  next =>
    split at h
    next =>
      cases h
      exact ⟨_, rfl⟩
    next => cases h

theorem stampHeader_error {settings : SessionSettings} {seqnum epochMs : Int} {header : FieldMap}
    {e : Exn} (h : stampHeader settings seqnum epochMs header = .error e) :
    ∃ what, e = .undefined what := by
  unfold stampHeader at h
  rcases Loop.bind_eq_error.mp h with htime | ⟨header', _, hseq⟩
  · exact storeField_error htime
  · exact storeField_error hseq

/-- What a send writes, and what it raises. -/
theorem send_writes (msg : Message) (s : Session) :
    Ends (send env msg none) s
      (fun _ t => sentCache env msg s = .ok t.cache ∧ t.state = s.state)
      fun e _ => ∃ what, e = .undefined what := by
  let reads := if s.cachedEpochUs ≠ 0 then s.clockReads else s.clockReads + 1
  have hmicros : Ends (currentEpochUs env) s
      (fun us t => us = sendMicros env s ∧ t = { s with clockReads := reads }) fun _ _ => False := by
    unfold currentEpochUs sendMicros
    rw [ends_bind, ends_get]
    by_cases hcached : s.cachedEpochUs ≠ 0
    · rw [if_pos hcached, if_pos hcached]
      refine ⟨rfl, ?_⟩
      rw [show reads = s.clockReads from if_pos hcached]
    · rw [if_neg hcached, if_neg hcached]
      refine ⟨rfl, ?_⟩
      rw [show reads = s.clockReads + 1 from if_neg hcached]
  have hmillis : ∀ t : Session, t = { s with clockReads := reads } →
      Ends (if (sendMicros env s).tdiv 1000 = 0 then getEpochMillis env
        else pure ((sendMicros env s).tdiv 1000)) t
        (fun ms u => ms = sendMillis env s ∧ u.cache = s.cache ∧ u.state = s.state)
        fun _ _ => False := by
    intro t ht
    subst ht
    unfold sendMillis
    split
    · exact ⟨rfl, rfl, rfl⟩
    · exact ⟨rfl, rfl, rfl⟩
  unfold send populateMessage
  refine Ends.bind (hmicros.mono (fun _ _ h => h) fun _ _ h => h.elim) ?_
  rintro us t ⟨rfl, ht⟩
  refine Ends.bind (P := fun p u => sentText env msg s = .ok (p.1.toString true) ∧
    p.2 = s.cache.senderSeqNum ∧ u.cache = s.cache ∧ u.state = s.state) ?_ ?_
  · refine Ends.bind ((hmillis t ht).mono (fun _ _ h => h) fun _ _ h => h.elim) ?_
    rintro ms u ⟨rfl, hcache, hstate⟩
    rw [ends_bind, ends_getSenderSeqNum, hcache, ends_bind]
    refine ends_liftExcept (fun header hheader => ?_) fun e he => stampHeader_error he
    refine ⟨?_, rfl, hcache, hstate⟩
    unfold sentText
    rw [hheader]
    rfl
  · rintro ⟨m, seqnum⟩ u ⟨htext, rfl, hcache, hstate⟩
    rw [ends_bind, ends_modifyCache]
    refine (internalSend_ends env m _ _).mono (fun _ v hv => ⟨?_, ?_⟩) fun _ _ h => h.elim
    · unfold sentCache
      rw [htext, hv.cache, ← hcache]
      rfl
    · exact hv.state.trans hstate

/-- The computation raises nothing that is about a field or a text. -/
def NeverFails (env : Env) {α : Type} (x : SessionM α) : Prop := Raises (fun e => ¬FailsOn env e) x

theorem neverFails_liftExcept {α : Type} {x : Except Exn α}
    (h : ∀ e, x = .error e → ¬FailsOn env e) : NeverFails env (liftExcept x) := fun _ =>
  ends_liftExcept (fun _ _ => True.intro) h

theorem neverFails_send (msg : Message) (callback : Option Bytes) :
    NeverFails env (send env msg callback) := by
  intro s
  refine (send_cache env msg callback s).mono (fun _ _ _ => True.intro) fun e _ h => ?_
  obtain ⟨_, ms, he⟩ := h
  obtain ⟨what, rfl⟩ := stampHeader_error he
  exact not_failsOn_undefined what

/-- A message is built and sent. -/
theorem neverFails_sendBuilt {x : Except Exn Message} (h : ∀ e, x = .error e → ¬FailsOn env e)
    (callback : Option Bytes) :
    NeverFails env (do let msg ← liftExcept x; send env msg callback) :=
  raises_bind (neverFails_liftExcept h) fun msg => neverFails_send msg callback

/-- The only step of a build that may raise is to create the message. -/
theorem build_error {α : Type} {msgType : Bytes} {f : Message → α} {e : Exn}
    (h : (do return f (← env.dictionary.create msgType)) = (.error e : Except Exn α)) :
    env.dictionary.create msgType = .error e := by
  rcases Loop.bind_eq_error.mp h with hcreate | ⟨msg, _, hpure⟩
  · exact hcreate
  · cases hpure

theorem buildLogon_error {s : Session} {shouldReset : Bool} {e : Exn}
    (h : buildLogon env s shouldReset = .error e) : ¬FailsOn env e :=
  not_failsOn_create (by decide) (build_error h)

theorem neverFails_sendLogout (reason : Bytes) (term : Bool) :
    NeverFails env (sendLogout env reason term) :=
  neverFails_sendBuilt (fun _ h => not_failsOn_create (by decide) (build_error h)) _

theorem neverFails_sendResendRequest (fromSeqNo toSeqNo : Int) :
    NeverFails env (sendResendRequest env fromSeqNo toSeqNo) :=
  neverFails_sendBuilt (fun _ h => not_failsOn_create (by decide) (build_error h)) _

theorem neverFails_sendHeartbeat (testReqID : Bytes) :
    NeverFails env (sendHeartbeat env testReqID) :=
  neverFails_sendBuilt (fun _ h => not_failsOn_create (by decide) (build_error h)) _

theorem neverFails_sendReject {msg : Message} (hseq : msg.header.has Field.msgSeqNum = true)
    (reason : SessionRejectReason) (text : Bytes) :
    NeverFails env (sendReject env msg reason text) := by
  rw [FieldMap.has_eq, Option.isSome_iff_exists] at hseq
  obtain ⟨v, hv⟩ := hseq
  refine neverFails_sendBuilt (fun e h => ?_) _
  have hget : msg.header.getField Field.msgSeqNum = .ok v := FieldMap.getField_eq.mpr hv
  simp only [buildReject, hget] at h
  exact not_failsOn_create (by decide) (build_error h)

theorem neverFails_logout (reason : Bytes) (term : Bool) :
    NeverFails env (logout env reason term) := by
  refine raises_bind ?_ fun _ => neverFails_sendLogout reason term
  unfold leave
  cases term with
  | true => exact (succeeds_modify _).raises
  | false =>
      refine raises_bind (succeeds_modify _).raises fun _ => ?_
      exact raises_bind (fun _ => True.intro) fun _ => (succeeds_modify _).raises

theorem neverFails_terminate (reason : Bytes) : NeverFails env (terminate reason) :=
  raises_bind (succeeds_modify _).raises fun _ =>
    raises_bind succeeds_disconnect.raises fun _ => (succeeds_modify _).raises

theorem neverFails_fail (reason : Bytes) : NeverFails env (fail env reason) := by
  refine raises_bind succeeds_get.raises fun s => ?_
  exact raises_ite (fun _ => neverFails_terminate reason) fun _ => neverFails_logout reason true

/-- What a delegate raises is its own, or comes from a message that it sends. -/
theorem neverFails_delegateCalls : ∀ calls : List DelegateCall,
    NeverFails env (delegateCalls env calls)
  | [] => (succeeds_pure ()).raises
  | call :: calls => by
      refine raises_bind ?_ fun _ => neverFails_delegateCalls calls
      cases call with
      | send msg => exact neverFails_send msg none
      | setSenderSeqNum num => exact (succeeds_modify _).raises
      | setTargetSeqNum num => exact (succeeds_modify _).raises
      | start => exact (succeeds_modify _).raises
      | stop => exact succeeds_stop.raises
      | throw => exact raises_throw not_failsOn_delegate

theorem neverFails_callDelegate (event : Session → Event)
    (callback : Delegate → Session → List DelegateCall) :
    NeverFails env (callDelegate env event callback) := by
  unfold callDelegate
  cases env.delegate with
  | none => exact (succeeds_pure ()).raises
  | some d =>
      refine raises_bind succeeds_get.raises fun _ => ?_
      refine raises_bind (succeeds_modify _).raises fun _ => ?_
      exact raises_bind succeeds_get.raises fun s => neverFails_delegateCalls _

/-! ## The checks -/

/-- A failure before anything is written, on a field of the header that is missing. -/
def FailsEarly (env : Env) (msg : Message) (s : Session) (e : Exn) (t : Session) : Prop :=
  FailsOn env e → t = s ∧ Lacks msg

/-- A refusal answers `false` and does not fail. -/
theorem refuse_fails {msg : Message} {x : SessionM Unit} (hx : NeverFails env x) {r : Session}
    {Q : Session → Prop} (s : Session) :
    Ends (do x; return false) s (fun ok t => ok = true → Q t) (FailsEarly env msg r) :=
  Ends.bind ((hx s).mono (fun _ _ h => h) fun _ _ he hfails => absurd hfails he)
    fun _ _ _ hfalse => by cases hfalse

theorem getField_fails {msg : Message} {tag : Int} (htag : tag ∈ requiredTags) (s : Session) :
    Ends (liftExcept (msg.header.getField tag)) s
      (fun v t => t = s ∧ msg.header.getField tag = .ok v) (FailsEarly env msg s) := by
  refine ends_liftExcept (fun _ h => ⟨rfl, h⟩) fun e he _ => ⟨rfl, tag, htag, ?_⟩
  unfold FieldMap.getField at he
  rw [FieldMap.has_eq]
  cases hfield : msg.header.field? tag with
  | none => rfl
  | some v =>
      rw [hfield] at he
      cases he

theorem validateCompIDs_fails (msg : Message) (s : Session) :
    Ends (validateCompIDs env msg) s (fun ok t => ok = true → t = s) (FailsEarly env msg s) := by
  unfold validateCompIDs
  refine Ends.bind (getField_fails (by decide) s) ?_
  rintro beginString t ⟨rfl, _⟩
  split
  next => exact refuse_fails (neverFails_fail _) _
  next =>
    refine Ends.bind (getField_fails (by decide) _) ?_
    rintro senderCompID u ⟨rfl, _⟩
    split
    next => exact refuse_fails (neverFails_fail _) _
    next =>
      refine Ends.bind (getField_fails (by decide) _) ?_
      rintro targetCompID t ⟨rfl, _⟩
      split
      next => exact refuse_fails (neverFails_fail _) _
      next => exact fun _ => rfl

theorem validateTimes_fails {msg : Message} (hseq : msg.header.has Field.msgSeqNum = true)
    (time : Int) (s : Session) :
    Ends (validateTimes env msg time) s (fun ok t => ok = true → t = s)
      (FailsEarly env msg s) := by
  unfold validateTimes
  refine Ends.bind (getField_fails (by decide) s) ?_
  rintro sendingTime t ⟨rfl, _⟩
  split
  next =>
    refine Ends.bind (P := fun _ _ => True) ?_ fun _ u _ => refuse_fails (neverFails_logout _ _) u
    exact (neverFails_sendReject hseq _ _ t).mono (fun _ _ h => h)
      fun _ _ he hfails => absurd hfails he
  next =>
    split
    next => exact refuse_fails (neverFails_sendReject hseq _ _) t
    next => exact fun _ => rfl

theorem validateState_fails (msg : Message) (msgType : Bytes) (s : Session) :
    Ends (validateState env msgType) s (fun ok t => ok = true → t = s) (FailsEarly env msg s) := by
  unfold validateState
  rw [ends_bind, ends_get]
  split
  next => exact refuse_fails (neverFails_logout _ _) s
  next =>
    split
    next => exact refuse_fails (neverFails_logout _ _) s
    next => exact fun _ => rfl

/-- The checks fail on nothing but a field that is missing, before anything is written. -/
theorem validateMessage_fails (msg : Message) (msgType : Bytes) (time : Int) (s : Session) :
    Ends (validateMessage env msg msgType time) s
      (fun ok _ => ok = true → msg.header.has Field.msgSeqNum = true) (FailsEarly env msg s) := by
  unfold validateMessage
  split
  next =>
    exact refuse_fails (neverFails_logout _ _) s
  next hseq =>
    have hseq : msg.header.has Field.msgSeqNum = true := by simpa using hseq
    refine Ends.bind (validateCompIDs_fails msg s) fun ok t hok => ?_
    cases ok with
    | false => exact fun _ => hseq
    | true =>
        obtain rfl := hok rfl
        refine Ends.bind (validateTimes_fails hseq time t) fun ok u hok => ?_
        cases ok with
        | false => exact fun _ => hseq
        | true =>
            obtain rfl := hok rfl
            exact (validateState_fails msg msgType u).mono (fun _ _ _ _ => hseq) fun _ _ h => h

/-! ## Replays -/

/-- Neither the state nor the cache is written. -/
structure Retained (s t : Session) : Prop where
  state : t.state = s.state
  cache : t.cache = s.cache

instance : Std.Refl Retained := ⟨fun _ => ⟨rfl, rfl⟩⟩

instance : IsTrans Session Retained where
  trans _ _ _ h h' := ⟨h'.state.trans h.state, h'.cache.trans h.cache⟩

theorem Retained.unaltered {s t : Session} (h : Retained s t) : Unaltered s t :=
  ⟨h.state, h.cache ▸ MemoryCache.sameContent_self s.cache⟩

theorem Idle.retained {s t : Session} (h : Idle s t) : Retained s t := ⟨h.state, h.cache⟩

theorem retained_currentEpochUs : Keeps Retained (currentEpochUs env) := fun s =>
  after_eq_of_ends ((currentEpochUs_ends env s).mono (fun _ _ h => h.retained) fun _ _ h => h.elim)

theorem retained_getUTCTimestamp : Keeps Retained (getUTCTimestamp env) := fun s =>
  after_eq_of_ends ((getUTCTimestamp_ends env s).mono (fun _ _ h => h.1.retained) fun _ _ h => h.elim)

theorem retained_internalSend (msg : Message) (epochUs : Int) :
    Keeps Retained (internalSend env msg none epochUs) := fun s =>
  after_eq_of_ends ((internalSend_ends env msg epochUs s).mono
    (fun _ _ h => ⟨h.state, h.cache⟩) fun _ _ h => h.elim)

theorem retained_sendSequenceReset (seqno newSeqno : Int) (gapfill : Bool) :
    Keeps Retained (sendSequenceReset env seqno newSeqno gapfill) := by
  unfold sendSequenceReset
  refine keeps_bind (keeps_liftExcept _) fun msg => keeps_bind (fun s => ?_) fun p => ?_
  · exact after_eq_of_ends ((populateMessage_ends env msg 0 s).mono (fun _ _ h => h.1.retained)
      fun _ _ h => h.1.retained)
  · refine keeps_bind retained_getUTCTimestamp fun now => ?_
    exact keeps_bind retained_currentEpochUs fun _ => retained_internalSend _ _

theorem retained_replayOne (seqno : Int) (msg : Message) (ptr : Int) :
    Keeps Retained (replayOne env seqno msg ptr) := by
  unfold replayOne
  refine keeps_bind (keeps_liftExcept _) fun msgType => keeps_ite (fun _ => keeps_pure _) fun _ => ?_
  have hfill : Keeps Retained (fillGap env ptr seqno) :=
    keeps_ite (fun _ => retained_sendSequenceReset ptr seqno true) fun _ => keeps_pure _
  refine keeps_bind hfill fun _ => keeps_bind retained_getUTCTimestamp fun now => ?_
  refine keeps_bind (keeps_liftExcept _) fun msg => keeps_bind retained_currentEpochUs fun _ => ?_
  exact keeps_bind (retained_internalSend msg _) fun _ => keeps_pure _

theorem retained_replayLoop (entries : List (Int × Bytes)) (ptr : Int) :
    Keeps Retained (replayLoop env entries ptr) := by
  induction entries generalizing ptr with
  | nil => exact keeps_pure _
  | cons entry rest ih =>
      refine keeps_bind (keeps_liftExcept _) fun msg => ?_
      exact keeps_bind (retained_replayOne entry.1 msg.copy ptr) fun ptr => ih ptr

/-- What the peer misses is sent again, and neither the numbers nor the texts are written. -/
theorem retained_runMessageRecovery (beginSeqNo endSeqNo : Int) :
    Keeps Retained (runMessageRecovery env beginSeqNo endSeqNo) := by
  have hsender : Keeps Retained getSenderSeqNum := keeps_bind keeps_get fun _ => keeps_pure _
  unfold runMessageRecovery
  refine keeps_bind hsender fun sender => keeps_bind keeps_get fun s => ?_
  refine keeps_bind (retained_replayLoop _ beginSeqNo) fun ptr => ?_
  refine keeps_bind (keeps_ite (fun _ => keeps_pure _) fun _ => hsender) fun last => ?_
  exact keeps_ite (fun _ => retained_sendSequenceReset _ _ true) fun _ => keeps_pure _

/-! ## The handlers -/

/-- A ResendRequest that fails leaves the numbers and the texts as they were. -/
theorem handleResendRequest_fails (msg : Message) (s : Session) :
    Ends (handleResendRequest env msg) s (fun _ _ => True) fun _ t => Retained s t := by
  have hfield : ∀ x : Except Exn Int, Ends (liftExcept x) s (fun _ t => t = s)
      fun _ t => Retained s t := fun x =>
    ends_liftExcept (fun _ _ => rfl) fun _ _ => Std.Refl.refl (r := Retained) s
  unfold handleResendRequest
  refine Ends.bind (hfield _) ?_
  rintro seqNo t rfl
  refine Ends.bind (hfield _) ?_
  rintro beginSeqNo u rfl
  refine Ends.bind (hfield _) ?_
  rintro endSeqNo t rfl
  refine Ends.bind ((retained_runMessageRecovery beginSeqNo endSeqNo).ends t) fun _ u _ => ?_
  rw [ends_bind, ends_getTargetSeqNum]
  unfold consume
  split
  · exact True.intro
  · exact True.intro

/-- A message whose number is checked fails on nothing. -/
theorem validateSeqNum_fails {msg : Message} (hseq : msg.header.has Field.msgSeqNum = true)
    (s : Session) :
    Ends (validateSeqNum env msg) s
      (fun ok t => ok = true → t.cache = s.cache.nextTargetSeqNum) fun e _ => ¬FailsOn env e := by
  rw [FieldMap.has_eq, Option.isSome_iff_exists] at hseq
  obtain ⟨v, hv⟩ := hseq
  have hget : msg.header.getIntField Field.msgSeqNum = .ok (FieldMap.intOf v) :=
    FieldMap.getIntField_eq.mpr ⟨v, hv, rfl⟩
  unfold validateSeqNum
  rw [ends_liftExcept_ok hget, ends_bind, ends_getTargetSeqNum]
  split
  next => exact fun _ => rfl
  next =>
    split
    next =>
      refine Ends.bind (neverFails_logout _ true s) fun _ _ _ h => ?_
      cases h
    next =>
      split
      next =>
        rw [ends_bind, ends_modifyCache]
        refine Ends.bind (neverFails_sendResendRequest _ _ _) fun _ _ _ h => ?_
        cases h
      next =>
        intro h
        cases h

/-- A SequenceReset fails before anything is written. -/
theorem handleSequenceReset_fails {msg : Message} (hseq : msg.header.has Field.msgSeqNum = true)
    (s : Session) :
    Ends (handleSequenceReset env msg) s (fun _ _ => True)
      fun e t => FailsOn env e → Retained s t := by
  have hnever : ∀ {α : Type} {x : SessionM α} (t : Session), NeverFails env x →
      Ends x t (fun _ _ => True) fun e u => FailsOn env e → Retained s u := fun t hx =>
    (hx t).mono (fun _ _ h => h) fun _ _ he hfails => absurd hfails he
  have hfield : ∀ x : Except Exn Int, Ends (liftExcept x) s (fun _ t => t = s)
      fun e t => FailsOn env e → Retained s t := fun x =>
    ends_liftExcept (fun _ _ => rfl) fun _ _ _ => Std.Refl.refl (r := Retained) s
  unfold handleSequenceReset
  refine Ends.bind (hfield _) ?_
  rintro newSeqNum t rfl
  refine Ends.bind (hfield _) ?_
  rintro seqNum u rfl
  rw [ends_bind, ends_getTargetSeqNum]
  split
  next => exact hnever u (neverFails_sendReject hseq _ _)
  next =>
    split
    next => exact hnever u (neverFails_logout _ true)
    next =>
      refine Ends.bind (P := fun _ _ => True) ?_ fun accepted t _ => ?_
      · split
        next =>
          exact (validateSeqNum_fails hseq u).mono (fun _ _ _ => True.intro)
            fun _ _ he hfails => absurd hfails he
        next => exact True.intro
      · split
        next => exact True.intro
        next => exact True.intro

/-- Once its number was counted, only a TestRequest fails, before it is answered. -/
theorem handleSequenced_fails (msg : Message) (msgType : Bytes) (s : Session) :
    Ends (handleSequenced env msg msgType) s (fun _ _ => True)
      fun e t => FailsOn env e → t = s := by
  have hnever : ∀ {x : SessionM Unit} (t : Session), NeverFails env x →
      Ends x t (fun _ _ => True) fun e u => FailsOn env e → u = s := fun t hx =>
    (hx t).mono (fun _ _ h => h) fun _ _ he hfails => absurd hfails he
  have hend : NeverFails env (endTestRequest msg) := by
    unfold endTestRequest
    refine raises_bind succeeds_get.raises fun t => raises_ite (fun hwaits => ?_)
      fun _ => (succeeds_pure ()).raises
    refine raises_bind (neverFails_liftExcept fun e he => ?_) fun id => ?_
    · have hhas := hwaits.2
      rw [FieldMap.has_eq, Option.isSome_iff_exists] at hhas
      obtain ⟨v, hv⟩ := hhas
      rw [FieldMap.getIntField_eq.mpr ⟨v, hv, rfl⟩] at he
      cases he
    · exact raises_ite (fun _ => (succeeds_modify _).raises) fun _ => (succeeds_pure ()).raises
  unfold handleSequenced
  split
  next =>
    refine hnever s (raises_bind (neverFails_callDelegate _ _) fun _ => ?_)
    refine raises_bind succeeds_get.raises fun t => raises_ite (fun _ => ?_)
      fun _ => neverFails_sendLogout _ true
    exact raises_bind (succeeds_modify _).raises fun _ => succeeds_disconnect.raises
  next =>
    split
    next => exact hnever s (raises_bind hend fun _ => neverFails_callDelegate _ _)
    next =>
      split
      next =>
        refine Ends.bind (P := fun _ _ => True) (ends_liftExcept (fun _ _ => True.intro)
          fun _ _ _ => rfl) fun testID t _ => ?_
        exact hnever t (neverFails_sendHeartbeat testID)
      next =>
        split
        next => exact True.intro
        next => exact hnever s (neverFails_callDelegate _ _)

theorem logonNextExpected_fails (msg : Message) (s : Session) :
    Ends (logonNextExpected env msg) s (fun r t => r.isSome = true → t = s)
      fun e _ => ¬FailsOn env e := by
  unfold logonNextExpected
  split
  next hhas =>
    rw [FieldMap.has_eq, Option.isSome_iff_exists] at hhas
    obtain ⟨v, hv⟩ := hhas
    rw [ends_liftExcept_ok (FieldMap.getIntField_eq.mpr ⟨v, hv, rfl⟩), ends_bind,
      ends_getSenderSeqNum]
    split
    next =>
      refine Ends.bind (neverFails_logout _ true s) fun _ _ _ h => ?_
      cases h
    next => exact fun _ => rfl
  next => exact fun _ => rfl

theorem logonReset_fails (msg : Message) (s : Session) :
    Ends (logonReset env msg) s
      (fun r t => ∀ shouldReset, r = some shouldReset →
        shouldReset = msg.body.tryGetBool Field.resetSeqNumFlag ∧ ∃ events, t = { s with
          cache := if msg.body.tryGetBool Field.resetSeqNumFlag then s.cache.reset else s.cache
          events := events })
      fun e _ => ¬FailsOn env e := by
  unfold logonReset
  cases hflag : msg.body.tryGetBool Field.resetSeqNumFlag with
  | true =>
      rw [if_pos rfl]
      split
      next =>
        refine Ends.bind (neverFails_logout _ true s) fun _ _ _ shouldReset h => ?_
        cases h
      next =>
        intro shouldReset h
        cases h
        exact ⟨rfl, _, rfl⟩
  | false =>
      rw [if_neg Bool.false_ne_true]
      intro shouldReset h
      cases h
      exact ⟨rfl, _, rfl⟩

/-- What a Logon that fails has written: its number, the heartbeat interval and the answer
of an acceptor, and the state READY once it was answered. -/
def LogonWrites (env : Env) (msg : Message) (shouldReset : Bool) (s t : Session) : Prop :=
  match env.settings.getSessionType, msg.body.getIntField Field.heartBtInt with
  | .ok .acceptor, .error _ => t.state = s.state ∧ t.cache = s.cache
  | .ok .acceptor, .ok heartBtInt => t.state = .ready ∧
      answeredCache env shouldReset { s with heartbeatInterval := heartBtInt * 1000 } = .ok t.cache
  | _, _ => t.state = .ready ∧ t.cache = s.cache

/-- An acceptor fails to answer for want of HeartBtInt. -/
theorem answerLogon_fails (msg : Message) (shouldReset : Bool) (s : Session) :
    Ends (answerLogon env msg shouldReset) s
      (fun _ t => ∀ u : Session, u.state = .ready → u.cache = t.cache →
        LogonWrites env msg shouldReset s u)
      fun e t => FailsOn env e → LogonWrites env msg shouldReset s t := by
  unfold answerLogon LogonWrites
  cases htype : env.settings.getSessionType with
  | error e =>
      have he : e = .misconfiguredSession := by
        unfold SessionSettings.getSessionType at htype
        split at htype
        next => cases htype
        next =>
          split at htype
          next => cases htype
          next =>
            cases htype
            rfl
      intro hfails
      rw [he] at hfails
      exact absurd hfails not_failsOn_misconfigured
  | ok sessionType =>
      rw [ends_liftExcept_ok rfl]
      cases sessionType with
      | initiator => exact fun _ hstate hcache => ⟨hstate, hcache⟩
      | acceptor =>
          cases hint : msg.body.getIntField Field.heartBtInt with
          | error e => exact fun _ => ⟨rfl, rfl⟩
          | ok heartBtInt =>
              rw [ends_liftExcept_ok rfl, ends_bind, ends_modify]
              unfold sendLogon
              rw [ends_bind, ends_get]
              cases hlogon : buildLogon env { s with heartbeatInterval := heartBtInt * 1000 }
                  shouldReset with
              | error e =>
                  intro hfails
                  exact absurd hfails (buildLogon_error hlogon)
              | ok logon =>
                  rw [ends_liftExcept_ok rfl]
                  refine Ends.bind ((send_writes logon _).mono (fun _ _ h => h) ?_) ?_
                  · rintro e _ ⟨what, rfl⟩ hfails
                    exact absurd hfails (not_failsOn_undefined what)
                  · rintro _ t ⟨hsent, _⟩ u hstate hcache
                    refine ⟨hstate, ?_⟩
                    unfold answeredCache
                    rw [hlogon, hcache]
                    exact hsent

theorem acceptLogon_fails (msg : Message) (seqNum expected : Int) (recovery : Option Int)
    (shouldReset : Bool) (s : Session) :
    Ends (acceptLogon env msg seqNum expected recovery shouldReset) s (fun _ _ => True)
      fun e t => FailsOn env e → LogonWrites env msg shouldReset { s with
        cache := if seqNum = expected then s.cache.nextTargetSeqNum else s.cache } t := by
  have hconsume : Ends (consume seqNum expected) s (fun _ t => t = { s with
      cache := if seqNum = expected then s.cache.nextTargetSeqNum else s.cache })
      fun _ _ => False := by
    unfold consume
    split
    · exact rfl
    · exact rfl
  unfold acceptLogon
  refine Ends.bind (hconsume.mono (fun _ _ h => h) fun _ _ h => h.elim) ?_
  rintro _ t rfl
  refine Ends.bind (answerLogon_fails msg shouldReset _) fun _ t ht => ?_
  rw [ends_bind, ends_setState, ends_bind, ends_record]
  have hrecover : Keeps Retained (recoverPeer env recovery) := by
    cases recovery with
    | none => exact keeps_pure _
    | some nextExpected => exact retained_runMessageRecovery nextExpected 0
  refine Ends.bind ((hrecover.ends _).mono (fun _ _ h => h) fun e u hu _ => ?_) fun _ u _ => ?_
  · exact ht u hu.state hu.cache
  · split
    next =>
      exact (neverFails_sendResendRequest _ _ u).mono (fun _ _ h => h)
        fun _ _ he hfails => absurd hfails he
    next =>
      exact (neverFails_callDelegate _ _ u).mono (fun _ _ h => h)
        fun _ _ he hfails => absurd hfails he

/-- A Logon that fails has written what `LogonWrites` says, from the session as it was when
it was processed. -/
theorem handleLogon_fails {msg : Message} (hseq : msg.header.has Field.msgSeqNum = true)
    (s : Session) :
    Ends (handleLogon env msg) s (fun _ _ => True)
      fun e t => FailsOn env e → ∃ seqNum events, msg.HasSeqNum seqNum ∧
        LogonWrites env msg (msg.body.tryGetBool Field.resetSeqNumFlag)
          { s with cache := logonCache s msg seqNum, events := events } t := by
  have hnever : ∀ {x : SessionM Unit} {P : Session → Prop} (t : Session), NeverFails env x →
      Ends x t (fun _ _ => True) fun e u => FailsOn env e → P u := fun t hx =>
    (hx t).mono (fun _ _ h => h) fun _ _ he hfails => absurd hfails he
  rw [FieldMap.has_eq, Option.isSome_iff_exists] at hseq
  obtain ⟨v, hv⟩ := hseq
  have hget : msg.HasSeqNum (FieldMap.intOf v) := FieldMap.getIntField_eq.mpr ⟨v, hv, rfl⟩
  unfold handleLogon
  split
  next => exact hnever s (neverFails_logout _ false)
  next =>
    rw [ends_liftExcept_ok hget, ends_bind, ends_getTargetSeqNum]
    split
    next => exact hnever s (neverFails_logout _ true)
    next =>
      refine Ends.bind ((logonNextExpected_fails msg s).mono (fun _ _ h => h)
        fun _ _ he hfails => absurd hfails he) fun r t ht => ?_
      cases r with
      | none => exact True.intro
      | some recovery =>
          obtain rfl := ht rfl
          refine Ends.bind ((logonReset_fails msg t).mono (fun _ _ h => h)
            fun _ _ he hfails => absurd hfails he) fun r u hu => ?_
          cases r with
          | none => exact True.intro
          | some shouldReset =>
              obtain ⟨rfl, events, rfl⟩ := hu shouldReset rfl
              refine (acceptLogon_fails msg _ _ recovery _ _).mono (fun _ _ h => h)
                fun e w hw hfails => ?_
              exact ⟨FieldMap.intOf v, events, hget, hw hfails⟩

/-! ## The whole message -/

theorem i32_succ_ne (n : Int) : i32 (n + 1) ≠ n := by
  intro h
  have hrange := i32_range (n + 1)
  unfold i32 at h hrange
  omega

/-- A message that passes the checks has the fields that they read. -/
theorem Valid.not_lacks {state : SessionState} {msg : Message} {msgType : Bytes} {time : Int}
    (h : Valid env state msg time) (htype : msg.HasType msgType) : ¬Lacks msg := by
  have hhas : ∀ {tag : Int} {v : Bytes}, msg.header.getField tag = .ok v →
      msg.header.has tag ≠ false := by
    intro tag v hv
    rw [FieldMap.has_eq, FieldMap.getField_eq.mp hv]
    exact Bool.noConfusion
  intro hlacks
  obtain ⟨tag, htag, hfalse⟩ := hlacks
  simp only [requiredTags, List.mem_cons, List.not_mem_nil, or_false] at htag
  rcases htag with rfl | rfl | rfl | rfl | rfl
  · exact hhas htype hfalse
  · exact hhas h.peer.beginString hfalse
  · exact hhas h.peer.senderCompID hfalse
  · exact hhas h.peer.targetCompID hfalse
  · obtain ⟨v, hv, _⟩ := h.sendingTime
    exact hhas hv hfalse

/-- The session when a message is processed, with these events. -/
def noted (env : Env) (s : Session) (events : List Event) : Session :=
  { entered env s with events := events }

/-- After a reset the cache holds the numbers only. -/
theorem holdsOnly_logonCache {s : Session} {msg : Message} (seqNum : Int)
    (hflag : msg.body.tryGetBool Field.resetSeqNumFlag = true) :
    (logonCache s msg seqNum).HoldsOnly 0 (resetTarget s seqNum) .empty := by
  unfold logonCache resetTarget
  rw [hflag, if_pos rfl]
  split
  next => exact ⟨rfl, rfl, rfl, rfl, s.cache.stored_reset⟩
  next => exact ⟨rfl, rfl, rfl, rfl, s.cache.stored_reset⟩

theorem sameContent_logonCache_iff (s : Session) (msg : Message) (seqNum : Int) :
    s.cache.SameContent (logonCache s msg seqNum) ↔ CountsNothing s msg seqNum := by
  unfold CountsNothing
  cases hflag : msg.body.tryGetBool Field.resetSeqNumFlag with
  | true =>
      rw [if_pos rfl]
      exact (holdsOnly_logonCache seqNum hflag).sameContent_iff
  | false =>
      unfold logonCache
      rw [hflag, if_neg Bool.false_ne_true, if_neg Bool.false_ne_true]
      split
      next hcounts =>
        refine iff_of_false (fun h => ?_) fun hne => hne hcounts
        exact absurd h.targetSeqNum (i32_succ_ne _)
      next hother => exact iff_of_true (MemoryCache.sameContent_self _) hother

theorem senderSeqNum_logonCache {s : Session} {msg : Message} (seqNum : Int)
    (hflag : msg.body.tryGetBool Field.resetSeqNumFlag = false) :
    (logonCache s msg seqNum).senderSeqNum = s.cache.senderSeqNum := by
  unfold logonCache
  rw [hflag, if_neg Bool.false_ne_true]
  split
  next => rfl
  next => rfl

/-- A Logon tells the heartbeat interval and the target number of the session. -/
theorem buildLogon_congr {s t : Session} (hinterval : s.heartbeatInterval = t.heartbeatInterval)
    (htarget : s.cache.targetSeqNum = t.cache.targetSeqNum) (shouldReset : Bool) :
    buildLogon env s shouldReset = buildLogon env t shouldReset := by
  unfold buildLogon
  rw [hinterval, htarget]

/-- An answer uses up a sender number.  That is as before only if the same answer was all that
was sent after a reset. -/
theorem sameContent_answeredCache_iff {s u : Session} {msg : Message} {seqNum heartBtInt : Int}
    {c : MemoryCache} (hcache : u.cache = logonCache s msg seqNum)
    (hinterval : u.heartbeatInterval = heartBtInt * 1000) (hclock : u.clockReads = s.clockReads + 1)
    (hepoch : u.cachedEpochUs = (entered env s).cachedEpochUs)
    (h : answeredCache env (msg.body.tryGetBool Field.resetSeqNumFlag) u = .ok c) :
    s.cache.SameContent c ↔ msg.body.tryGetBool Field.resetSeqNumFlag = true ∧
      ∃ wire, resetAnswer env s (resetTarget s seqNum) heartBtInt = .ok wire ∧
        s.cache.HoldsOnly 1 (resetTarget s seqNum) (.insert .empty 0 wire) := by
  unfold answeredCache sentCache at h
  obtain ⟨logon, hlogon, h⟩ := Loop.bind_eq_ok.mp h
  obtain ⟨wire, hwire, h⟩ := Loop.bind_eq_ok.mp h
  cases h
  cases hflag : msg.body.tryGetBool Field.resetSeqNumFlag with
  | false =>
      refine iff_of_false (fun h => ?_) fun h => Bool.false_ne_true h.1
      have hsender : i32 (u.cache.senderSeqNum + 1) = s.cache.senderSeqNum := h.senderSeqNum
      rw [hcache, senderSeqNum_logonCache seqNum hflag] at hsender
      exact i32_succ_ne _ hsender
  | true =>
      have honly := holdsOnly_logonCache (s := s) seqNum hflag
      rw [← hcache] at honly
      rw [hflag] at hlogon
      have hanswer : resetAnswer env s (resetTarget s seqNum) heartBtInt = .ok wire := by
        refine Loop.bind_eq_ok.mpr ⟨logon, ?_, ?_⟩
        · rw [← hlogon]
          exact buildLogon_congr hinterval.symm honly.targetSeqNum.symm true
        · rw [← hwire]
          unfold sentText sendMillis sendMicros
          rw [honly.senderSeqNum, hepoch, hclock]
          rfl
      rw [(honly.sent wire).sameContent_iff]
      constructor
      · exact fun h => ⟨rfl, wire, hanswer, h⟩
      · rintro ⟨-, wire', hwire', h⟩
        rw [hanswer] at hwire'
        cases hwire'
        exact h

theorem LogonWrites.unaltered_iff {s t : Session} {msg : Message} {seqNum : Int}
    {events : List Event} (hseq : msg.HasSeqNum seqNum)
    (h : LogonWrites env msg (msg.body.tryGetBool Field.resetSeqNumFlag)
      { noted env s events with cache := logonCache s msg seqNum } t) :
    Unaltered s t ↔ LogonLeaves env s msg := by
  have hready : t.state = .ready → t.cache = logonCache s msg seqNum →
      (Unaltered s t ↔ s.state = .ready ∧ CountsNothing s msg seqNum) := by
    intro hstate hcache
    rw [← sameContent_logonCache_iff, ← hcache]
    constructor
    · exact fun hsame => ⟨hsame.state ▸ hstate, hsame.cache⟩
    · exact fun hsame => ⟨hstate.trans hsame.1.symm, hsame.2⟩
  have hunique : LogonLeaves env s msg ↔
      match env.settings.getSessionType, msg.body.getIntField Field.heartBtInt with
      | .ok .acceptor, .error _ => CountsNothing s msg seqNum
      | .ok .acceptor, .ok heartBtInt =>
          s.state = .ready ∧ msg.body.tryGetBool Field.resetSeqNumFlag = true ∧
            ∃ wire, resetAnswer env s (resetTarget s seqNum) heartBtInt = .ok wire ∧
              s.cache.HoldsOnly 1 (resetTarget s seqNum) (.insert .empty 0 wire)
      | _, _ => s.state = .ready ∧ CountsNothing s msg seqNum := by
    constructor
    · exact fun hleaves => hleaves seqNum hseq
    · intro hleaves k hk
      obtain rfl := hk.unique hseq
      exact hleaves
  rw [hunique]
  unfold LogonWrites at h
  cases htype : env.settings.getSessionType with
  | error e =>
      rw [htype] at h
      exact hready h.1 h.2
  | ok sessionType =>
      rw [htype] at h
      cases sessionType with
      | initiator => exact hready h.1 h.2
      | acceptor =>
          cases hint : msg.body.getIntField Field.heartBtInt with
          | error e =>
              rw [hint] at h
              obtain ⟨hstate, hcache⟩ := h
              dsimp only
              rw [← sameContent_logonCache_iff, ← show t.cache = logonCache s msg seqNum from hcache]
              constructor
              · exact fun hsame => hsame.cache
              · exact fun hsame => ⟨hstate, hsame⟩
          | ok heartBtInt =>
              rw [hint] at h
              obtain ⟨hstate, hcache⟩ := h
              dsimp only
              have hanswered := @sameContent_answeredCache_iff env s { noted env s events with
                cache := logonCache s msg seqNum
                heartbeatInterval := heartBtInt * 1000 } msg seqNum heartBtInt t.cache
                rfl rfl rfl rfl hcache
              rw [← hanswered]
              constructor
              · exact fun hsame => ⟨hsame.state ▸ hstate, hsame.cache⟩
              · exact fun hsame => ⟨hstate.trans hsame.1.symm, hsame.2⟩

theorem unaltered_iff_of_retained {s t u : Session} {P : Prop} (hsame : Retained s t)
    (hretained : Retained t u) (h : P) : Unaltered s u ↔ P :=
  ⟨fun _ => h, fun _ => (IsTrans.trans s t u hsame hretained).unaltered⟩

/-- What a message that passed the checks leaves behind when it fails. -/
theorem dispatchMessage_fails {msg : Message} {msgType : Bytes} (htype : msg.HasType msgType)
    (hseq : msg.header.has Field.msgSeqNum = true) (hlacks : ¬Lacks msg) (s : Session)
    (events : List Event) :
    Ends (dispatchMessage env msg msgType) (noted env s events) (fun _ _ => True)
      fun e t => FailsOn env e → (Unaltered s t ↔ Leaves env s msg) := by
  have hnoted : Retained s (noted env s events) := ⟨rfl, rfl⟩
  unfold dispatchMessage
  split
  next hreset =>
    refine (handleSequenceReset_fails hseq _).mono (fun _ _ h => h) fun e t ht hfails => ?_
    exact unaltered_iff_of_retained hnoted (ht hfails) (.inr (.inl (hreset ▸ htype)))
  next hreset =>
    split
    next hlogon =>
      refine (handleLogon_fails hseq _).mono (fun _ _ h => h) fun e t ht hfails => ?_
      obtain ⟨seqNum, events', hk, hwrites⟩ := ht hfails
      have hwrites : LogonWrites env msg (msg.body.tryGetBool Field.resetSeqNumFlag)
          { noted env s events' with cache := logonCache s msg seqNum } t := hwrites
      rw [hwrites.unaltered_iff hk]
      subst hlogon
      constructor
      · exact fun h => .inr (.inr (.inr ⟨htype, h⟩))
      · intro h
        rcases h with h | h | h | ⟨_, h⟩
        · exact absurd h hlacks
        · exact absurd (htype.unique h) (by decide)
        · exact absurd (htype.unique h) (by decide)
        · exact h
    next hlogon =>
      split
      next hresend =>
        refine (handleResendRequest_fails msg _).mono (fun _ _ h => h) fun e t ht _ => ?_
        exact unaltered_iff_of_retained hnoted ht (.inr (.inr (.inl (hresend ▸ htype))))
      next hresend =>
        refine Ends.bind ((validateSeqNum_fails hseq _).mono (fun _ _ h => h)
          fun _ _ he hfails => absurd hfails he) fun ok t ht => ?_
        cases ok with
        | false => exact True.intro
        | true =>
            refine (handleSequenced_fails msg msgType t).mono (fun _ _ h => h)
              fun e u hu hfails => ?_
            obtain rfl := hu hfails
            -- The number was counted, and no such message is among those that leave it.
            constructor
            · intro hsame
              have htarget := hsame.cache.targetSeqNum
              rw [ht rfl] at htarget
              exact absurd htarget (i32_succ_ne _)
            · intro h
              rcases h with h | h | h | ⟨h, _⟩
              · exact absurd h hlacks
              · exact absurd (htype.unique h) hreset
              · exact absurd (htype.unique h) hresend
              · exact absurd (htype.unique h) hlogon

/-- What a message that fails leaves behind. -/
theorem processMessage_fails (msg : Message) (time : Int) (s : Session) :
    Ends (processMessage env msg time) (entered env s) (fun _ _ => True)
      fun e t => FailsOn env e → (Unaltered s t ↔ Leaves env s msg) := by
  unfold processMessage
  rw [ends_bind, ends_getTargetSeqNum, ends_bind, ends_record]
  generalize hevents : (entered env s).events ++ [.process msg (entered env s).cache.targetSeqNum] =
    events
  change Ends _ (noted env s events) _ _
  have hearly : ∀ {e : Exn} {t : Session}, FailsEarly env msg (noted env s events) e t →
      FailsOn env e → (Unaltered s t ↔ Leaves env s msg) := by
    intro e t hearly hfails
    obtain ⟨rfl, hlacks⟩ := hearly hfails
    exact unaltered_iff_of_retained (Std.Refl.refl (r := Retained) s) ⟨rfl, rfl⟩ (.inl hlacks)
  refine Ends.bind ((getField_fails (by decide) _).mono (fun _ _ h => h) fun _ _ => hearly) ?_
  rintro msgType _ ⟨rfl, htype⟩
  have hchecks := (@validateMessage_fails env msg msgType time (noted env s events)).and
    (validateMessage_valid htype time (noted env s events))
  refine Ends.bind (hchecks.mono (fun _ _ h => h) fun _ _ h => hearly h.1) fun ok t ht => ?_
  cases ok with
  | false => exact True.intro
  | true =>
      obtain ⟨hseq, _, hpass⟩ := ht
      obtain ⟨rfl, hvalid⟩ := hpass rfl
      exact dispatchMessage_fails htype (hseq rfl) (hvalid.not_lacks htype) s events

/-- A message that fails leaves the session as it was, if and only if its exception is
raised before anything is written or by a handler that writes nothing before it. -/
theorem failed_unaltered_iff {s t : Session} {text : Bytes} {msg : Message} {e : Exn}
    (hparse : env.dictionary.parse env.settings text = .ok msg) (hstate : s.state ≠ .killing)
    (hraised : (processMessage env msg (nextMillis env s)).run (entered env s) = .error e t)
    (hfails : FailsOn env e) :
    Unaltered s (after (onNetworkMessage env text) s) ↔ Leaves env s msg := by
  have hends : Ends (processMessage env msg (nextMillis env s)) (entered env s)
      (fun _ _ => False) fun e' t' => e' = e ∧ t' = t := by
    unfold Ends
    rw [hraised]
    exact ⟨rfl, rfl⟩
  have hcaught : after (onNetworkMessage env text) s = { t with cachedEpochUs := 0 } := by
    refine after_eq_of_ends (P := fun u => u = { t with cachedEpochUs := 0 }) ?_
    unfold onNetworkMessage
    rw [ends_bind, ends_get, if_neg hstate]
    refine Ends.tryCatch (F := fun e' t' => e' = e ∧ t' = t) ?_ ?_
    · rw [hparse]
      exact handleParsed_ends (hends.mono (fun _ _ h => h.elim) fun _ _ h => h)
    · rintro _ _ ⟨rfl, rfl⟩
      unfold catchAll
      split
      next what => exact absurd hfails (not_failsOn_undefined what)
      next => exact rfl
  rw [hcaught]
  have hiff := @processMessage_fails env msg (nextMillis env s) s
  unfold Ends at hiff
  rw [hraised] at hiff
  exact ⟨fun h => (hiff hfails).mp ⟨h.state, h.cache⟩,
    fun h => ⟨((hiff hfails).mpr h).state, ((hiff hfails).mpr h).cache⟩⟩

/-- A TestRequest without a TestReqID. -/
def namelessTest : Bytes :=
  wireOf "8=FIX.4.2|9=60|35=1|49=INITIATOR|56=ACCEPTOR|34=1|52=20240229-12:34:56.789|10=231|"

def namelessMessage : Message :=
  (testDictionary.parse acceptorSettings namelessTest).toOption.getD Message.new

/-- An acceptor of the tests that is logged on and expects the first number. -/
def idleSession : Session := { connectedSession acceptorSettings with state := .ready }

theorem namelessTest_parse :
    testDictionary.parse acceptorSettings namelessTest = .ok namelessMessage := by
  have hsome : (testDictionary.parse acceptorSettings namelessTest).toOption.isSome = true := by
    decide +kernel
  unfold namelessMessage
  cases h : testDictionary.parse acceptorSettings namelessTest with
  | error e =>
      rw [h] at hsome
      cases hsome
  | ok msg => rfl

theorem namelessMessage_raises : ∃ t,
    (processMessage (testEnv acceptorSettings) namelessMessage
      (nextMillis (testEnv acceptorSettings) idleSession)).run
        (entered (testEnv acceptorSettings) idleSession) =
          .error (.fieldNotFound Field.testReqID) t := by
  apply raised?_eq_some_iff.mp
  decide +kernel

/-- A TestRequest is counted, and then its TestReqID is missing. -/
theorem failed_unaltered_iff_test :
    Unaltered idleSession (after (onNetworkMessage (testEnv acceptorSettings) namelessTest)
      idleSession) ↔ Leaves (testEnv acceptorSettings) idleSession namelessMessage := by
  obtain ⟨t, hraised⟩ := namelessMessage_raises
  exact failed_unaltered_iff namelessTest_parse (by decide) hraised (.inl ⟨_, rfl⟩)

theorem not_failed_unaltered : ¬∀ (env : Env) (s t : Session) (text : Bytes) (msg : Message)
    (e : Exn), env.dictionary.parse env.settings text = .ok msg → s.state ≠ .killing →
      (processMessage env msg (nextMillis env s)).run (entered env s) = .error e t →
        FailsOn env e → Unaltered s (after (onNetworkMessage env text) s) := by
  intro h
  obtain ⟨t, hraised⟩ := namelessMessage_raises
  have hsame := h (testEnv acceptorSettings) idleSession t namelessTest namelessMessage _
    namelessTest_parse (by decide) hraised (.inl ⟨_, rfl⟩)
  have htarget := hsame.cache.targetSeqNum
  have hcounted : (after (onNetworkMessage (testEnv acceptorSettings) namelessTest)
      idleSession).cache.targetSeqNum = 2 := by decide +kernel
  rw [hcounted] at htarget
  exact absurd htarget (by decide)

end Session

end OpenFix
