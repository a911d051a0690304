import OpenFix.Cache
import OpenFix.Dictionary
import OpenFix.Lib.Effect
import OpenFix.Network
import OpenFix.Timestamp

/-!
# The session

A `Session` is run by its calls: `onNetworkMessage` with the text of an inbound
message, `onNetworkUpdate` on a tick, and `send` by the application.  Each is a
computation in `SessionM`, whose exceptions keep what was written before them.

What is outside of the session is the environment `Env`: the settings, the
dictionary, the delegate, the readings of the clock, whether the socket takes a
text at once, and the outcome of an attempt to connect.  A delegate answers a
callback with the calls it makes on the session.

`events` records what the session did, in order, and no code reads it.  Two
kinds of event have no counterpart in the source: `process` is the entry of
`processMessage` and `loggedOn` the step of `handleLogon` to the state READY.

A text that the socket does not take at once is queued together with its
callback.  The callback is then the writer's to run and is not part of this
model, and logging is not either.
-/

namespace OpenFix

inductive SessionState where
  | logon
  | ready
  | testRequest
  | killing
  | logout
deriving Repr, DecidableEq

/-- What a session does. -/
inductive Event where
  /-- The text of a message went to a connection. -/
  | transmit (fd : Nat) (msg : Message)
  /-- A message is processed, at this target number. -/
  | process (msg : Message) (target : Int)
  /-- `handleLogon` moved the session to READY. -/
  | loggedOn
  /-- The delegate got a message, at this target number. -/
  | onMessage (msg : Message) (target : Int)
  | onAdminMessage (msg : Message)
  | onLogon
  | onLogout
  /-- A connection was established. -/
  | connect (fd : Nat)
  /-- The session closed a connection. -/
  | disconnect (fd : Nat)
  /-- `terminate` was called. -/
  | terminate (reason : Bytes)
  /-- `reset` was called. -/
  | reset

structure Session where
  state : SessionState
  network : NetworkHandler
  cache : MemoryCache
  enabled : Bool
  lastSentHeartbeat : Int
  lastRecvHeartbeat : Int
  lastSentTestRequest : Int
  heartbeatInterval : Int
  lastLogon : Int
  logoutTime : Int
  logonInterval : Int
  lastReconnect : Int
  reconnectInterval : Int
  lastUpdate : Int
  testReqID : Int
  /-- The time in microseconds while a message is handled, 0 otherwise. -/
  cachedEpochUs : Int
  /-- How often the clock was read. -/
  clockReads : Nat
  /-- What was done, in order. -/
  events : List Event

/-- A call that a delegate makes on the session.  A delegate that works on the network handler
(`getNetwork`), or switches the session off or on (`setEnabled`), is not among these. -/
inductive DelegateCall where
  | send (msg : Message)
  | setSenderSeqNum (num : Int)
  | setTargetSeqNum (num : Int)
  | start
  | stop
  /-- The delegate throws. -/
  | throw

/-- A delegate, by the calls it makes in answer to each callback. -/
structure Delegate where
  onMessage : Session → Message → List DelegateCall
  onAdminMessage : Session → Message → List DelegateCall
  onLogon : Session → List DelegateCall
  onLogout : Session → List DelegateCall

/-- What is outside of the session. -/
structure Env where
  settings : SessionSettings
  dictionary : Dictionary
  delegate : Option Delegate
  /-- The readings of the clock, in microseconds of the epoch. -/
  clock : Nat → Int
  /-- Whether the socket takes a text at once. -/
  trySendInline : Session → Bytes → Bool
  /-- The descriptor of the connection that an attempt to connect makes. -/
  connect : Session → Option Nat

abbrev SessionM := EStateM Exn Session

/-- A step that may raise and does nothing else. -/
def liftExcept {α : Type} : Except Exn α → SessionM α
  | .ok a => pure a
  | .error e => throw e

namespace FieldMap

/-- `setField` of a map whose owned strings are viewed.  Growing the vector moves
them, and a value that outgrows its string moves that. -/
def storeField (m : FieldMap) (tag : Int) (value : Bytes) (order : Bool) : Except Exn FieldMap :=
  if m.storageFull tag then .error (.undefined "owned storage moved under live views")
  else if m.strands tag value order then .error (.undefined "owned string moved under its view")
  else .ok (m.setField tag value order)

end FieldMap

namespace Message

def setHeader (msg : Message) (tag : Int) (value : Bytes) : Message :=
  { msg with header := msg.header.setField tag value true }

def setBody (msg : Message) (tag : Int) (value : Bytes) : Message :=
  { msg with body := msg.body.setField tag value true }

end Message

namespace Session

/-! ## State and clock -/

def setState (state : SessionState) : SessionM Unit := modify fun s => { s with state := state }

/-- Change the cache. -/
def modifyCache (f : MemoryCache → MemoryCache) : SessionM Unit :=
  modify fun s => { s with cache := f s.cache }

/-- Record an event. -/
def record (e : Event) : SessionM Unit := modify fun s => { s with events := s.events ++ [e] }

def getSenderSeqNum : SessionM Int := do return (← get).cache.senderSeqNum

def getTargetSeqNum : SessionM Int := do return (← get).cache.targetSeqNum

def getEpochMicros (env : Env) : SessionM Int := do
  let s ← get
  modify fun s => { s with clockReads := s.clockReads + 1 }
  return env.clock s.clockReads

def getEpochMillis (env : Env) : SessionM Int := do
  return (← getEpochMicros env).tdiv 1000

/-- The next reading of the clock, in milliseconds. -/
def nextMillis (env : Env) (s : Session) : Int := (env.clock s.clockReads).tdiv 1000

def getUTCTimestamp (env : Env) : SessionM Bytes := do
  return writeUTCTimestamp (← getEpochMillis env)

/-- The cached time, or the clock's. -/
def currentEpochUs (env : Env) : SessionM Int := do
  let s ← get
  if s.cachedEpochUs ≠ 0 then return s.cachedEpochUs else getEpochMicros env

/-! ## The network handler -/

/-- `NetworkHandler::disconnect` on the session's handler. -/
def networkDisconnect : SessionM Unit := do
  let s ← get
  modify fun s => { s with network := s.network.disconnect }
  match s.network.connection with
  | some fd => if s.network.valid then record (.disconnect fd) else pure ()
  | none => pure ()

def terminate (reason : Bytes) : SessionM Unit := do
  record (.terminate reason)
  networkDisconnect
  setState .logon

/-- `NetworkHandler::send`.  The callback, when there is one, is `terminate` with
a reason. -/
def networkSend (env : Env) (msg : Message) (callback : Option Bytes) : SessionM Unit := do
  let s ← get
  match s.network.connection with
  | none => pure ()
  | some fd =>
      if h : s.network.valid = false then
        set { s with network := s.network.dropInvalid h }
      else do
        record (.transmit fd msg)
        if env.trySendInline s (msg.toString true) then
          match callback with
          | some reason => terminate reason
          | none => pure ()
        else pure ()

/-- `NetworkHandler::start`. -/
def networkStart (env : Env) : SessionM Unit := do
  match ← liftExcept env.settings.getSessionType with
  | .initiator => do
      match env.connect (← get) with
      | some fd => do
          modify fun s => { s with network := s.network.setConnection (some fd) }
          record (.connect fd)
      | none => pure ()
  | .acceptor => pure ()

/-- `NetworkHandler::stop`. -/
def networkStop : SessionM Unit := do
  if (← get).network.stopped then pure ()
  else do
    modify fun s => { s with network := s.network.setStopped }
    networkDisconnect

/-! ## Sending -/

def internalSend (env : Env) (msg : Message) (callback : Option Bytes) (epochUs : Int) :
    SessionM Unit := do
  if (← get).network.connected then do
    networkSend env msg callback
    modify fun s => { s with lastSentHeartbeat := epochUs.tdiv 1000 }
  else pure ()

/-- What `populateMessage` writes into the header. -/
def stampHeader (settings : SessionSettings) (seqnum epochMs : Int) (header : FieldMap) :
    Except Exn FieldMap := do
  let header := header.setFieldView Field.beginString settings.beginString false
  let header := header.setFieldView Field.senderCompID settings.senderCompID false
  let header := header.setFieldView Field.targetCompID settings.targetCompID false
  let header ← header.storeField Field.sendingTime (writeUTCTimestamp epochMs) false
  header.storeField Field.msgSeqNum (toChars seqnum) false

/-- The answer is the stamped message with its number. -/
def populateMessage (env : Env) (msg : Message) (epochMs : Int) : SessionM (Message × Int) := do
  let epochMs ← (if epochMs = 0 then getEpochMillis env else pure epochMs)
  let seqnum ← getSenderSeqNum
  let header ← liftExcept (stampHeader env.settings seqnum epochMs msg.header)
  return ({ msg with header := header }, seqnum)

def send (env : Env) (msg : Message) (callback : Option Bytes) : SessionM Unit := do
  let epochUs ← currentEpochUs env
  let (msg, seqnum) ← populateMessage env msg (epochUs.tdiv 1000)
  modifyCache fun c => (c.cache seqnum (msg.toString true)).nextSenderSeqNum
  internalSend env msg callback epochUs

/-! ## The messages of the session -/

def buildLogon (env : Env) (s : Session) (shouldReset : Bool) : Except Exn Message := do
  let msg ← env.dictionary.create MsgType.logon
  let msg := msg.setBody Field.heartBtInt (toChars (i32 (s.heartbeatInterval.tdiv 1000)))
  let msg := msg.setBody Field.encryptMethod (ascii "0")
  let msg := if env.settings.sendNextExpectedMsgSeqNum then
      msg.setHeader Field.nextExpectedMsgSeqNum (toChars s.cache.targetSeqNum)
    else msg
  return if shouldReset then msg.setHeader Field.resetSeqNumFlag (ascii "Y") else msg

def buildLogout (env : Env) (reason : Bytes) : Except Exn Message := do
  let msg ← env.dictionary.create MsgType.logout
  return if reason ≠ [] then msg.setBody Field.text reason else msg

def buildResendRequest (env : Env) (fromSeqNo toSeqNo : Int) : Except Exn Message := do
  let msg ← env.dictionary.create MsgType.resendRequest
  return (msg.setBody Field.beginSeqNo (toChars fromSeqNo)).setBody Field.endSeqNo (toChars toSeqNo)

def buildHeartbeat (env : Env) (testReqID : Bytes) : Except Exn Message := do
  let msg ← env.dictionary.create MsgType.heartbeat
  return if testReqID ≠ [] then msg.setBody Field.testReqID testReqID else msg

def buildReject (env : Env) (rejectedMsg : Message) (reason : SessionRejectReason) (text : Bytes) :
    Except Exn Message := do
  let msg ← env.dictionary.create MsgType.reject
  let refSeqNum ← rejectedMsg.header.getField Field.msgSeqNum
  let msg := msg.setBody Field.refSeqNum refSeqNum
  let msg := msg.setBody Field.sessionRejectReason (toChars reason.code)
  return if text ≠ [] then msg.setBody Field.text text else msg

def sendLogon (env : Env) (shouldReset : Bool) : SessionM Unit := do
  let msg ← liftExcept (buildLogon env (← get) shouldReset)
  send env msg none
  let now ← getEpochMillis env
  modify fun s => { s with lastLogon := now }

def sendLogout (env : Env) (reason : Bytes) (term : Bool) : SessionM Unit := do
  let msg ← liftExcept (buildLogout env reason)
  send env msg (if term then some reason else none)

def sendResendRequest (env : Env) (fromSeqNo toSeqNo : Int) : SessionM Unit := do
  let msg ← liftExcept (buildResendRequest env fromSeqNo toSeqNo)
  send env msg none

/-- The fields that `sendSequenceReset` sets after `populateMessage`. -/
def fillSequenceReset (msg : Message) (origSendingTime : Bytes) (seqno newSeqno : Int)
    (gapfill : Bool) : Message :=
  let msg := msg.setHeader Field.origSendingTime origSendingTime
  let msg := msg.setHeader Field.msgSeqNum (toChars seqno)
  let msg := msg.setHeader Field.possDupFlag (ascii "Y")
  let msg := msg.setBody Field.newSeqNo (toChars newSeqno)
  if gapfill then msg.setBody Field.gapFillFlag (ascii "Y") else msg

def sendSequenceReset (env : Env) (seqno newSeqno : Int) (gapfill : Bool) : SessionM Unit := do
  let msg ← liftExcept (env.dictionary.create MsgType.sequenceReset)
  let (msg, _) ← populateMessage env msg 0
  let now ← getUTCTimestamp env
  let epochUs ← currentEpochUs env
  internalSend env (fillSequenceReset msg now seqno newSeqno gapfill) none epochUs

def sendHeartbeat (env : Env) (testReqID : Bytes) : SessionM Unit := do
  let msg ← liftExcept (buildHeartbeat env testReqID)
  send env msg none

def sendTestRequest (env : Env) : SessionM Unit := do
  let msg ← liftExcept (env.dictionary.create MsgType.testRequest)
  modify fun s => { s with testReqID := s.testReqID + 1 }
  let s ← get
  send env (msg.setBody Field.testReqID (toChars (i32 s.testReqID))) none

def sendReject (env : Env) (rejectedMsg : Message) (reason : SessionRejectReason) (text : Bytes) :
    SessionM Unit := do
  let msg ← liftExcept (buildReject env rejectedMsg reason text)
  send env msg none

/-- The state of a session that logs out. -/
def leave (env : Env) (term : Bool) : SessionM Unit := do
  if term then setState .killing
  else do
    setState .logout
    let now ← getEpochMillis env
    modify fun s => { s with logoutTime := now }

def logout (env : Env) (reason : Bytes) (term : Bool) : SessionM Unit := do
  leave env term
  sendLogout env reason term

/-! ## The public calls and the delegate -/

def reset : SessionM Unit := do
  record .reset
  modifyCache MemoryCache.reset

def start : SessionM Unit := modify fun s => { s with enabled := true }

def stop : SessionM Unit := do
  modify fun s => { s with enabled := false }
  modifyCache MemoryCache.flushSeqNums
  networkStop

/-- One call of a delegate. -/
def delegateCall (env : Env) : DelegateCall → SessionM Unit
  | .send msg => send env msg none
  | .setSenderSeqNum num => modifyCache fun c => c.setSenderSeqNum num
  | .setTargetSeqNum num => modifyCache fun c => c.setTargetSeqNum num
  | .start => start
  | .stop => stop
  | .throw => throw .delegate

/-- The calls of a delegate, in order. -/
def delegateCalls (env : Env) : List DelegateCall → SessionM Unit
  | [] => pure ()
  | call :: calls => do
      delegateCall env call
      delegateCalls env calls

/-- Call the delegate, if there is one. -/
def callDelegate (env : Env) (event : Session → Event)
    (callback : Delegate → Session → List DelegateCall) : SessionM Unit := do
  match env.delegate with
  | none => pure ()
  | some delegate => do
      record (event (← get))
      delegateCalls env (callback delegate (← get))

/-! ## Resending -/

/-- The header of a message that is replayed. -/
def replayHeader (header : FieldMap) (now : Bytes) : Except Exn FieldMap := do
  let header ← header.storeField Field.possDupFlag (ascii "Y") true
  let sendingTime ← header.getField Field.sendingTime
  let header ← header.storeField Field.origSendingTime sendingTime true
  header.storeField Field.sendingTime now true

/-- The message that is sent in the place of a cached one. -/
def replayMessage (msg : Message) (now : Bytes) : Except Exn Message := do
  let header ← replayHeader msg.header now
  return { msg with header := header }

/-- Fill the gap in front of a message that is replayed. -/
def fillGap (env : Env) (ptr seqno : Int) : SessionM Unit :=
  if seqno ≠ ptr then sendSequenceReset env ptr seqno true else pure ()

/-- The body of the loop in `runMessageRecovery`, with its pointer. -/
def replayOne (env : Env) (seqno : Int) (msg : Message) (ptr : Int) : SessionM Int := do
  let msgType ← liftExcept (msg.header.getField Field.msgType)
  if msgType ∈ MsgType.sessionMsgs then return ptr
  else do
    fillGap env ptr seqno
    let now ← getUTCTimestamp env
    let msg ← liftExcept (replayMessage msg now)
    internalSend env msg none (← currentEpochUs env)
    return i32 (seqno + 1)

/-- The cached texts are parsed one by one, and each message is copied. -/
def replayLoop (env : Env) : List (Int × Bytes) → Int → SessionM Int
  | [], ptr => return ptr
  | (seqno, wire) :: rest, ptr => do
      let msg ← liftExcept (env.dictionary.parse env.settings wire)
      let ptr ← replayOne env seqno msg.copy ptr
      replayLoop env rest ptr

def runMessageRecovery (env : Env) (beginSeqNo endSeqNo : Int) : SessionM Unit := do
  let endSeqNo := min endSeqNo (← getSenderSeqNum)
  let ptr ← replayLoop env ((← get).cache.getMessages beginSeqNo endSeqNo) beginSeqNo
  let ptr := if ptr ≠ beginSeqNo then i32 (ptr - 1) else ptr
  let endSeqNo ← (if endSeqNo ≠ 0 then pure endSeqNo else getSenderSeqNum)
  if ptr < endSeqNo then sendSequenceReset env ptr endSeqNo true else pure ()

/-! ## Validation -/

/-- `terminate` before the logon, `logout` after it. -/
def fail (env : Env) (reason : Bytes) : SessionM Unit := do
  if (← get).state = .logon then terminate reason else logout env reason true

/-- BeginString and the two CompIDs.  The answer is whether they are as expected. -/
def validateCompIDs (env : Env) (msg : Message) : SessionM Bool := do
  let beginString ← liftExcept (msg.header.getField Field.beginString)
  if beginString ≠ env.settings.beginString then do
    fail env (ascii "Failed to validate BeginString(8): " ++ beginString)
    return false
  else do
    let senderCompID ← liftExcept (msg.header.getField Field.senderCompID)
    if senderCompID ≠ env.settings.targetCompID then do
      fail env (ascii "Failed to validate SenderCompID(49): " ++ senderCompID)
      return false
    else do
      let targetCompID ← liftExcept (msg.header.getField Field.targetCompID)
      if targetCompID ≠ env.settings.senderCompID then do
        fail env (ascii "Failed to validate TargetCompID(56): " ++ targetCompID)
        return false
      else return true

/-- SendingTime, and OrigSendingTime on a possible duplicate. -/
def validateTimes (env : Env) (msg : Message) (time : Int) : SessionM Bool := do
  let sendingTime ← liftExcept (msg.header.getField Field.sendingTime)
  if env.settings.sendingTimeThreshold * 1000 < |time - parseUTCTimestamp sendingTime| then do
    sendReject env msg .sendingTimeProblem []
    logout env (ascii "SendingTime(52) outside of threshold") false
    return false
  else if msg.header.tryGetBool Field.possDupFlag && !msg.header.has Field.origSendingTime then do
    sendReject env msg .requiredTagMissing []
    return false
  else return true

/-- The message types that the state allows. -/
def validateState (env : Env) (msgType : Bytes) : SessionM Bool := do
  let s ← get
  if s.state = .logon ∧ msgType ≠ MsgType.logon then do
    logout env (ascii "Received unexpected MsgType(35) during logon state: " ++ msgType) true
    return false
  else if s.state = .logout ∧ msgType ≠ MsgType.logout ∧ msgType ≠ MsgType.resendRequest then do
    logout env (ascii "Received unexpected MsgType(35) during logoff state: " ++ msgType) true
    return false
  else return true

def validateMessage (env : Env) (msg : Message) (msgType : Bytes) (time : Int) : SessionM Bool := do
  if !msg.header.has Field.msgSeqNum then do
    logout env (ascii "Message missing MsgSeqNum(34)") true
    return false
  else if ← validateCompIDs env msg then
    if ← validateTimes env msg time then validateState env msgType else return false
  else return false

def validateSeqNum (env : Env) (msg : Message) : SessionM Bool := do
  let seqNum ← liftExcept (msg.header.getIntField Field.msgSeqNum)
  let target ← getTargetSeqNum
  if seqNum = target then do
    modifyCache MemoryCache.nextTargetSeqNum
    return true
  else if seqNum < target then do
    logout env (ascii "MsgSeqNum too low, expected " ++ toChars target ++ ascii ", received " ++
      toChars seqNum) true
    return false
  else if seqNum ≠ 0 then do
    modifyCache fun c => c.queueInbound seqNum msg.copy
    sendResendRequest env target seqNum
    return false
  else return false

/-! ## Handlers -/

/-- NextExpectedMsgSeqNum of a logon: `none` when the logon is refused, otherwise
the number from which the peer misses messages, if it does. -/
def logonNextExpected (env : Env) (msg : Message) : SessionM (Option (Option Int)) := do
  if msg.body.has Field.nextExpectedMsgSeqNum then do
    let nextExpected ← liftExcept (msg.body.getIntField Field.nextExpectedMsgSeqNum)
    let sender ← getSenderSeqNum
    if sender < nextExpected then do
      logout env (ascii "NextExpectedMsgSeqNum(789) too high, next sender MsgSeqNum=" ++
        toChars sender) true
      return none
    else return some (if nextExpected < sender then some nextExpected else none)
  else return some none

/-- ResetSeqNumFlag of a logon: `none` when the logon is refused, otherwise
whether the session was reset. -/
def logonReset (env : Env) (msg : Message) : SessionM (Option Bool) := do
  if msg.body.tryGetBool Field.resetSeqNumFlag then
    if !env.settings.resetSeqNumOnLogon then do
      logout env (ascii "ResetSeqNumFlag(141) not supported on this session") true
      return none
    else do
      reset
      return some true
  else return some false

/-- The target number moves when the message has it. -/
def consume (seqNum target : Int) : SessionM Unit :=
  if seqNum = target then modifyCache MemoryCache.nextTargetSeqNum else pure ()

/-- An acceptor takes over the heartbeat interval and answers with a logon. -/
def answerLogon (env : Env) (msg : Message) (shouldReset : Bool) : SessionM Unit := do
  match ← liftExcept env.settings.getSessionType with
  | .acceptor => do
      let heartBtInt ← liftExcept (msg.body.getIntField Field.heartBtInt)
      modify fun s => { s with heartbeatInterval := heartBtInt * 1000 }
      sendLogon env shouldReset
  | .initiator => pure ()

/-- Send what the peer announced to be missing. -/
def recoverPeer (env : Env) : Option Int → SessionM Unit
  | some nextExpected => runMessageRecovery env nextExpected 0
  | none => pure ()

/-- What follows when a logon is not refused. -/
def acceptLogon (env : Env) (msg : Message) (seqNum expected : Int) (recovery : Option Int)
    (shouldReset : Bool) : SessionM Unit := do
  consume seqNum expected
  answerLogon env msg shouldReset
  setState .ready
  record .loggedOn
  recoverPeer env recovery
  if !env.settings.sendNextExpectedMsgSeqNum ∧ expected < seqNum then
    sendResendRequest env expected 0
  else callDelegate env (fun _ => .onLogon) Delegate.onLogon

def handleLogon (env : Env) (msg : Message) : SessionM Unit := do
  if msg.body.tryGetBool Field.testMessageIndicator ≠ env.settings.isTest then
    logout env (ascii "Sender/target test session mismatch") false
  else do
    let seqNum ← liftExcept (msg.header.getIntField Field.msgSeqNum)
    let expected ← getTargetSeqNum
    if !msg.header.tryGetBool Field.possDupFlag ∧ seqNum < expected then
      logout env (ascii "MsgSeqNum(34) too low, expected " ++ toChars expected) true
    else
      match ← logonNextExpected env msg with
      | none => pure ()
      | some recovery => do
          match ← logonReset env msg with
          | none => pure ()
          | some shouldReset => acceptLogon env msg seqNum expected recovery shouldReset

def handleResendRequest (env : Env) (msg : Message) : SessionM Unit := do
  let seqNo ← liftExcept (msg.header.getIntField Field.msgSeqNum)
  let beginSeqNo ← liftExcept (msg.body.getIntField Field.beginSeqNo)
  let endSeqNo ← liftExcept (msg.body.getIntField Field.endSeqNo)
  runMessageRecovery env beginSeqNo endSeqNo
  consume seqNo (← getTargetSeqNum)

def handleSequenceReset (env : Env) (msg : Message) : SessionM Unit := do
  let gapFill := msg.body.tryGetBool Field.gapFillFlag
  let newSeqNum ← liftExcept (msg.body.getIntField Field.newSeqNo)
  let seqNum ← liftExcept (msg.header.getIntField Field.msgSeqNum)
  let target ← getTargetSeqNum
  if newSeqNum ≤ seqNum then
    sendReject env msg .incorrectValueForTag
      (ascii "Attempt to lower sequence number, invalid value NewSeqNo(36)=" ++ toChars newSeqNum)
  else if newSeqNum < target then
    logout env (ascii "Unable to set SeqNum to " ++ toChars newSeqNum ++
      ascii ", next expected is " ++ toChars target) true
  else do
    let accepted ← (if gapFill then validateSeqNum env msg else pure true)
    if accepted then modifyCache fun c => c.setTargetSeqNum newSeqNum else pure ()

/-- A logout, after its number was checked. -/
def handleLogout (env : Env) : SessionM Unit := do
  callDelegate env (fun _ => .onLogout) Delegate.onLogout
  if (← get).state = .logout then do
    setState .logon
    networkDisconnect
  else sendLogout env (ascii "Successful logout") true

/-- The answer to a test request ends the state TEST_REQUEST. -/
def endTestRequest (msg : Message) : SessionM Unit := do
  let s ← get
  if s.state = .testRequest ∧ msg.body.has Field.testReqID then do
    let testReqID ← liftExcept (msg.body.getIntField Field.testReqID)
    if testReqID = s.testReqID then setState .ready else pure ()
  else pure ()

/-- A heartbeat, after its number was checked. -/
def handleHeartbeat (env : Env) (msg : Message) : SessionM Unit := do
  endTestRequest msg
  callDelegate env (fun _ => .onAdminMessage msg) fun d s => d.onAdminMessage s msg

/-- A message of a type that needs the next number, after its number was checked. -/
def handleSequenced (env : Env) (msg : Message) (msgType : Bytes) : SessionM Unit := do
  if msgType = MsgType.logout then handleLogout env
  else if msgType = MsgType.heartbeat then handleHeartbeat env msg
  else if msgType = MsgType.testRequest then do
    let testID ← liftExcept (msg.body.getField Field.testReqID)
    sendHeartbeat env testID
  else if msgType = MsgType.reject then pure ()
  else callDelegate env (fun s => .onMessage msg s.cache.targetSeqNum) fun d s => d.onMessage s msg

/-- A message that was not refused. -/
def dispatchMessage (env : Env) (msg : Message) (msgType : Bytes) : SessionM Unit := do
  if msgType = MsgType.sequenceReset then handleSequenceReset env msg
  else if msgType = MsgType.logon then handleLogon env msg
  else if msgType = MsgType.resendRequest then handleResendRequest env msg
  else if ← validateSeqNum env msg then handleSequenced env msg msgType
  else pure ()

def processMessage (env : Env) (msg : Message) (time : Int) : SessionM Unit := do
  record (.process msg (← getTargetSeqNum))
  let msgType ← liftExcept (msg.header.getField Field.msgType)
  if ← validateMessage env msg msgType time then dispatchMessage env msg msgType else pure ()

/-! ## The entries -/

/-- `queue.erase(queue.begin())`. -/
def eraseFront : SessionM Unit := do
  if (← get).cache.inboundQueue.min?.isNone then throw (.undefined "erase from an empty queue")
  else modifyCache MemoryCache.eraseInbound

/-- The loop over the queue.  A round drops an entry, and `fuel` is how many there
may be. -/
def drainQueue (env : Env) (time : Int) : Nat → SessionM Unit
  | 0 => pure ()
  | fuel + 1 => do
      let s ← get
      match s.cache.inboundQueue.min? with
      | none => pure ()
      | some (seqNum, msg) =>
          if s.cache.targetSeqNum = seqNum then do
            processMessage env msg time
            eraseFront
            drainQueue env time fuel
          else pure ()

/-- What `onNetworkMessage` does with a message it has parsed. -/
def handleParsed (env : Env) (msg : Message) : SessionM Unit := do
  let epochUs ← getEpochMicros env
  let time := epochUs.tdiv 1000
  modify fun s => { s with cachedEpochUs := epochUs, lastRecvHeartbeat := time }
  processMessage env msg time
  drainQueue env time ((← get).cache.inboundQueue.entries.length + 1)
  modify fun s => { s with cachedEpochUs := 0 }

/-- Every exception is caught and the time is no longer cached. -/
def catchAll (e : Exn) : SessionM Unit :=
  match e with
  | .undefined what => throw (.undefined what)
  | _ => modify fun s => { s with cachedEpochUs := 0 }

def onNetworkMessage (env : Env) (text : Bytes) : SessionM Unit := do
  if (← get).state = .killing then pure ()
  else
    tryCatch (do
      let msg ← liftExcept (env.dictionary.parse env.settings text)
      handleParsed env msg) catchAll

/-- `TestRequestThreshold` times the heartbeat interval. -/
def heartbeatTimeout (env : Env) (s : Session) : Int :=
  env.settings.testRequestThreshold s.heartbeatInterval

/-- The tick of a session without a connection. -/
def updateDisconnected (env : Env) (time : Int) : SessionM Unit := do
  setState .logon
  let s ← get
  if s.reconnectInterval ≤ time - s.lastReconnect then do
    networkStart env
    modify fun s => { s with lastReconnect := time }
  else pure ()

/-- The logon of an initiator. -/
def updateLogon (env : Env) : SessionM Unit := do
  if env.settings.resetSeqNumOnLogon then do
    reset
    sendLogon env true
  else sendLogon env false

/-- The timeout of a test request. -/
def updateTestRequest (env : Env) (time : Int) : SessionM Unit := do
  let s ← get
  if s.state = .testRequest ∧ heartbeatTimeout env s ≤ time - s.lastSentTestRequest then
    terminate (ascii "Failed to respond to test request " ++ toChars s.testReqID ++
      ascii " within heartbeat timeout")
  else pure ()

/-- The timeout of a logout. -/
def updateLogout (time : Int) : SessionM Unit := do
  let s ← get
  if s.state = .logout ∧ 2 * s.heartbeatInterval ≤ time - s.logoutTime then
    terminate (ascii "Didn't receive logout ack in time")
  else pure ()

/-- The heartbeat that is due. -/
def updateSent (env : Env) (time : Int) : SessionM Unit := do
  let s ← get
  if s.heartbeatInterval ≤ time - s.lastSentHeartbeat then sendHeartbeat env [] else pure ()

/-- The test request that is due. -/
def updateReceived (env : Env) (time : Int) : SessionM Unit := do
  let s ← get
  if s.state ≠ .testRequest ∧ heartbeatTimeout env s ≤ time - s.lastRecvHeartbeat then do
    sendTestRequest env
    modify fun s => { s with lastSentTestRequest := time, state := .testRequest }
  else pure ()

/-- The heartbeat and the test request that are due, in a session that is logged on. -/
def updateHeartbeats (env : Env) (time : Int) : SessionM Unit := do
  let s ← get
  if s.state ≠ .logon ∧ s.state ≠ .logout ∧ s.state ≠ .killing then do
    updateSent env time
    updateReceived env time
  else pure ()

def internalUpdate (env : Env) : SessionM Unit := do
  let time ← getEpochMillis env
  let s ← get
  if !s.network.connected then updateDisconnected env time
  else do
    let sessionType ← liftExcept env.settings.getSessionType
    if sessionType = .initiator ∧ s.state = .logon ∧ s.logonInterval ≤ time - s.lastLogon then
      updateLogon env
    else do
      updateTestRequest env time
      updateLogout time
      updateHeartbeats env time

def onNetworkUpdate (env : Env) : SessionM Unit := do
  if !(← get).enabled then pure ()
  else do
    let now ← getEpochMillis env
    if now - (← get).lastUpdate < 1 then pure ()
    else do
      modify fun s => { s with lastUpdate := now }
      tryCatch (do
        modifyCache MemoryCache.flushSeqNums
        internalUpdate env) fun e =>
          match e with
          | .undefined what => throw (.undefined what)
          | _ => pure ()

/-- `NetworkHandler::setConnection` on the session's handler. -/
def onConnected (fd : Nat) : SessionM Unit := do
  modify fun s => { s with network := s.network.setConnection (some fd) }
  record (.connect fd)

/-- `NetworkHandler::invalidate` on the session's handler. -/
def onDisconnected : SessionM Unit :=
  modify fun s => { s with network := s.network.invalidate }

/-- `ReaderThread::processRead` hands over the messages of one read in order. -/
def processRead (env : Env) : List Bytes → SessionM Unit
  | [] => pure ()
  | text :: texts => do
      onNetworkMessage env text
      processRead env texts

/-- A session as it is constructed, with the intervals of the settings. -/
def new (settings : SessionSettings) : Session where
  state := .logon
  network := .new
  cache := .new
  enabled := true
  lastSentHeartbeat := 0
  lastRecvHeartbeat := 0
  lastSentTestRequest := 0
  heartbeatInterval := settings.heartbeatInterval * 1000
  lastLogon := 0
  logoutTime := 0
  logonInterval := settings.logonInterval * 1000
  lastReconnect := 0
  reconnectInterval := settings.reconnectInterval * 1000
  lastUpdate := 0
  testReqID := 0
  cachedEpochUs := 0
  clockReads := 0
  events := []

end Session

/-! ## The sessions of the tests -/

/-- The settings of the acceptor of the tests. -/
def acceptorSettings : SessionSettings where
  sessionTypeStr := ascii "acceptor"
  beginString := ascii "FIX.4.2"
  senderCompID := ascii "ACCEPTOR"
  targetCompID := ascii "INITIATOR"
  heartbeatInterval := 1
  logonInterval := 1
  reconnectInterval := 1
  sendNextExpectedMsgSeqNum := false

/-- The settings of the initiator of the tests. -/
def initiatorSettings : SessionSettings :=
  { acceptorSettings with
    sessionTypeStr := ascii "initiator"
    senderCompID := ascii "INITIATOR"
    targetCompID := ascii "ACCEPTOR" }

/-- Sessions with these settings, whose clock stands still and whose sockets take
every text at once. -/
def testEnv (settings : SessionSettings) : Env where
  settings := settings
  dictionary := testDictionary
  delegate := none
  clock _ := 1709210096789000
  trySendInline _ _ := true
  connect _ := some 3

/-- A session of the tests right after its connection was established. -/
def connectedSession (settings : SessionSettings) : Session :=
  Effect.after (Session.onConnected 3) (Session.new settings)

/-- A logon of the initiator of the tests. -/
def testLogon : Bytes :=
  wireOf ("8=FIX.4.2|9=72|35=A|49=INITIATOR|56=ACCEPTOR|34=1|52=20240229-12:34:56.789|" ++
    "98=0|108=30|10=019|")

/-- The order that follows it. -/
def testOrder : Bytes :=
  wireOf ("8=FIX.4.2|9=65|35=D|49=INITIATOR|56=ACCEPTOR|34=2|52=20240229-12:34:56.789|" ++
    "11=X|10=248|")

end OpenFix
