import OpenFix.Bytes

/-!
# Tags and message types

The tags the code names, the session-level message types, and the reasons of a
session-level reject.
-/

namespace OpenFix

namespace Field

abbrev beginSeqNo : Int := 7
abbrev beginString : Int := 8
abbrev bodyLength : Int := 9
abbrev checkSum : Int := 10
abbrev endSeqNo : Int := 16
abbrev msgSeqNum : Int := 34
abbrev msgType : Int := 35
abbrev newSeqNo : Int := 36
abbrev possDupFlag : Int := 43
abbrev refSeqNum : Int := 45
abbrev senderCompID : Int := 49
abbrev sendingTime : Int := 52
abbrev targetCompID : Int := 56
abbrev text : Int := 58
abbrev encryptMethod : Int := 98
abbrev heartBtInt : Int := 108
abbrev testReqID : Int := 112
abbrev origSendingTime : Int := 122
abbrev gapFillFlag : Int := 123
abbrev resetSeqNumFlag : Int := 141
abbrev sessionRejectReason : Int := 373
abbrev testMessageIndicator : Int := 464
abbrev nextExpectedMsgSeqNum : Int := 789

end Field

namespace MsgType

abbrev heartbeat : Bytes := [48]
abbrev testRequest : Bytes := [49]
abbrev resendRequest : Bytes := [50]
abbrev reject : Bytes := [51]
abbrev sequenceReset : Bytes := [52]
abbrev logout : Bytes := [53]
abbrev logon : Bytes := [65]

/-- The types that a resend replaces by a gap fill.  A reject is not among
them: it can be retransmitted. -/
def sessionMsgs : List Bytes :=
  [heartbeat, testRequest, resendRequest, sequenceReset, logout, logon]

/-- A type that a resend replays. -/
def Replayable (t : Bytes) : Prop := t ∉ sessionMsgs

instance (t : Bytes) : Decidable (Replayable t) := inferInstanceAs (Decidable (t ∉ sessionMsgs))

example : heartbeat = ascii "0" ∧ reject = ascii "3" ∧ logon = ascii "A" := by decide

end MsgType

/-- The session-level reject reasons the code sends. -/
inductive SessionRejectReason where
  | requiredTagMissing
  | incorrectValueForTag
  | sendingTimeProblem
deriving Repr, DecidableEq

/-- The number of a reject reason on the wire. -/
def SessionRejectReason.code : SessionRejectReason → Int
  | .requiredTagMissing => 1
  | .incorrectValueForTag => 5
  | .sendingTimeProblem => 10

/-- What the code throws.  `undefined` is no C++ exception: it marks a step whose
behaviour the language leaves undefined, and nothing catches it. -/
inductive Exn where
  | messageParsingError (text : String)
  | fieldNotFound (tag : Int)
  | misconfiguredSession
  | delegate
  | undefined (what : String)
deriving Repr, DecidableEq

end OpenFix
