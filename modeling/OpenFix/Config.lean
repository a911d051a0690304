import OpenFix.Fields

/-!
# Session settings

The settings the session and the parser read, with their defaults.
`TestRequestThreshold` is a `double`.  It is only read to be multiplied with an interval, and
the product is truncated to a `long`, so the setting is here the function that does this:
whatever the product is rounded to, it is one number for each interval.
-/

namespace OpenFix

inductive SessionType where
  | acceptor
  | initiator
deriving Repr, DecidableEq

structure SessionSettings where
  beginString : Bytes := []
  senderCompID : Bytes := []
  targetCompID : Bytes := []
  isTest : Bool := false
  sendNextExpectedMsgSeqNum : Bool := true
  resetSeqNumOnLogon : Bool := false
  relaxedParsing : Bool := false
  validateRequiredFields : Bool := false
  parsingReorderTags : Bool := false
  heartbeatInterval : Int := 10
  logonInterval : Int := 10
  reconnectInterval : Int := 10
  /-- `static_cast<long>(threshold * interval)`.  With the default of 2.0 it is exact for
  intervals up to 2^53. -/
  testRequestThreshold : Int → Int := fun interval => 2 * interval
  sendingTimeThreshold : Int := 10
  sessionTypeStr : Bytes := []

/-- `tolower` on a byte. -/
def toLower (b : UInt8) : UInt8 := if 65 ≤ b ∧ b ≤ 90 then b + 32 else b

/-- `strcasecmp(a, b) == 0`. -/
def strcaseeq (a b : Bytes) : Bool := a.map toLower = b.map toLower

def SessionSettings.getSessionType (settings : SessionSettings) : Except Exn SessionType :=
  if strcaseeq settings.sessionTypeStr (ascii "initiator") then .ok .initiator
  else if strcaseeq settings.sessionTypeStr (ascii "acceptor") then .ok .acceptor
  else .error .misconfiguredSession

end OpenFix
