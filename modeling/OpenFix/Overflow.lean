import OpenFix.Inbound
import OpenFix.Lib.Run
import OpenFix.Step

/-!
# The ends of the range

The target number is an `int` that a peer moves.  A message that has it moves it by one,
and a SequenceReset moves it as far as it likes, so that a reset to the largest `int` and
a message that has this number make it wrap.

`processed` lists the messages that a text makes the session process, with the state that
each is processed in.  `Careful` is what such a message must not do: be consumed at the
largest `int`, reset the session without being consumed, or ask for a resend up to a
number that is none.  Then the target number stays in range, and no text that does not
fit an `int` is taken for a number that a field may have.
-/

namespace OpenFix

open Effect

/-! ## Numbers of a text -/

/-- The text starts with the numeral of an integer. -/
inductive StartsWith : Bytes → Int → Prop where
  | nonneg {ds rest : Bytes} (hne : ds ≠ []) (hdigits : ∀ d ∈ ds, isDigit d = true)
      (hrest : ∀ b, rest.head? = some b → isDigit b = false) :
      StartsWith (ds ++ rest) (digitsVal ds)
  | neg {ds rest : Bytes} (hne : ds ≠ []) (hdigits : ∀ d ∈ ds, isDigit d = true)
      (hrest : ∀ b, rest.head? = some b → isDigit b = false) :
      StartsWith (45 :: (ds ++ rest)) (-digitsVal ds)

/-- The text starts with the numeral of an `int`. -/
def FitsInt (v : Bytes) : Prop := ∃ n, StartsWith v n ∧ -2147483648 ≤ n ∧ n < 2147483648

theorem startsWith_of_fromCharsInt {v : Bytes} {n : Int} (h : fromCharsInt v = some n) :
    StartsWith v n := by
  have hdigits : ∀ b : Bytes, ∀ d ∈ b.takeWhile isDigit, isDigit d = true := fun b d hd =>
    List.all_eq_true.mp List.all_takeWhile d hd
  have hrest : ∀ b : Bytes, ∀ c, (b.dropWhile isDigit).head? = some c → isDigit c = false := by
    intro b c hc
    have hnot := List.head?_dropWhile_not isDigit b
    rw [hc] at hnot
    exact hnot
  have hsplit : ∀ b : Bytes, b.takeWhile isDigit ++ b.dropWhile isDigit = b := fun _ =>
    List.takeWhile_append_dropWhile
  dsimp only [fromCharsInt] at h
  by_cases hneg : v.head? = some 45
  · obtain ⟨b, rfl⟩ := List.head?_eq_some_iff.mp hneg
    rw [if_pos hneg, if_pos hneg, List.tail_cons] at h
    split at h
    next => cases h
    next hne =>
      split at h
      next =>
        cases h
        have hstarts := StartsWith.neg hne (hdigits b) (hrest b)
        rwa [hsplit] at hstarts
      next => cases h
  · rw [if_neg hneg, if_neg hneg] at h
    split at h
    next => cases h
    next hne =>
      split at h
      next =>
        cases h
        have hstarts := StartsWith.nonneg hne (hdigits v) (hrest v)
        rwa [hsplit] at hstarts
      next => cases h

/-- A text that does not fit reads as 0. -/
theorem intOf_of_not_fitsInt {v : Bytes} (h : ¬FitsInt v) : FieldMap.intOf v = 0 := by
  cases hv : fromCharsInt v with
  | none => rw [FieldMap.intOf, hv, Option.getD_none]
  | some n => exact absurd ⟨n, startsWith_of_fromCharsInt hv, fromCharsInt_range hv⟩ h

namespace Session

/-! ## Rounds -/

/-- The messages that the loop over the queue processes. -/
def drained (env : Env) (time : Int) : Nat → Session → List (Session × Message)
  | 0, _ => []
  | fuel + 1, s =>
      match s.cache.inboundQueue.min? with
      | none => []
      | some (seqNum, msg) =>
          if s.cache.targetSeqNum = seqNum then
            (s, msg) :: match (processMessage env msg time).run s with
              | .ok _ t => drained env time fuel { t with cache := t.cache.eraseInbound }
              | .error _ _ => []
          else []

/-- The messages that a text makes the session process, each with the state before. -/
def processed (env : Env) (s : Session) (text : Bytes) : List (Session × Message) :=
  if s.state = .killing then []
  else
    match env.dictionary.parse env.settings text with
    | .error _ => []
    | .ok msg =>
        (entered env s, msg) ::
          match (processMessage env msg (nextMillis env s)).run (entered env s) with
          | .ok _ t => drained env (nextMillis env s) (t.cache.inboundQueue.entries.length + 1) t
          | .error _ _ => []

/-! ## What a message may do -/

/-- A logon with the number `k` that `handleLogon` does not refuse. -/
structure AcceptsLogon (env : Env) (s : Session) (msg : Message) (k : Int) : Prop where
  test : msg.body.tryGetBool Field.testMessageIndicator = env.settings.isTest
  notLow : msg.header.tryGetBool Field.possDupFlag = true ∨ s.cache.targetSeqNum ≤ k
  nextExpected : ∀ n, msg.body.getIntField Field.nextExpectedMsgSeqNum = .ok n →
    n ≤ s.cache.senderSeqNum
  reset : msg.body.tryGetBool Field.resetSeqNumFlag = true →
    env.settings.resetSeqNumOnLogon = true

/-- The message moves the target number by one. -/
structure Consumes (env : Env) (time : Int) (s : Session) (msg : Message) : Prop where
  valid : Valid env s.state msg time
  seqNum : msg.HasSeqNum s.cache.targetSeqNum
  type : ¬msg.HasType MsgType.sequenceReset
  logon : msg.HasType MsgType.logon → AcceptsLogon env s msg s.cache.targetSeqNum ∧
    msg.body.tryGetBool Field.resetSeqNumFlag = false
  resendRequest : msg.HasType MsgType.resendRequest →
    msg.body.has Field.beginSeqNo = true ∧ msg.body.has Field.endSeqNo = true

/-- The message is a logon that resets the session. -/
structure ResetsSession (env : Env) (time : Int) (s : Session) (msg : Message) (k : Int) : Prop where
  valid : Valid env s.state msg time
  seqNum : msg.HasSeqNum k
  type : msg.HasType MsgType.logon
  accepts : AcceptsLogon env s msg k
  reset : msg.body.tryGetBool Field.resetSeqNumFlag = true

/-- The message is a request for a resend up to the number in `v`. -/
structure RequestsUpTo (env : Env) (time : Int) (s : Session) (msg : Message) (v : Bytes) :
    Prop where
  valid : Valid env s.state msg time
  seqNum : msg.header.has Field.msgSeqNum = true
  type : msg.HasType MsgType.resendRequest
  beginSeqNo : msg.body.has Field.beginSeqNo = true
  endSeqNo : msg.body.field? Field.endSeqNo = some v

/-- The message does not move the target number out of range, and names an end that is a number. -/
structure Careful (env : Env) (time : Int) (s : Session) (msg : Message) : Prop where
  consumes : Consumes env time s msg → s.cache.targetSeqNum ≠ 2147483647
  resets : ∀ k, ResetsSession env time s msg k → k = s.cache.targetSeqNum
  requests : ∀ v, RequestsUpTo env time s msg v → FitsInt v

/-- An event is not looked at. -/
theorem Careful.record {env : Env} {time : Int} {s : Session} {msg : Message}
    (h : Careful env time s msg) (e : Event) :
    Careful env time { s with events := s.events ++ [e] } msg := by
  have haccepts : ∀ {k}, AcceptsLogon env { s with events := s.events ++ [e] } msg k →
      AcceptsLogon env s msg k := fun ha => ⟨ha.test, ha.notLow, ha.nextExpected, ha.reset⟩
  constructor
  · intro hc
    exact h.consumes ⟨hc.valid, hc.seqNum, hc.type,
      fun hlogon => ⟨haccepts (hc.logon hlogon).1, (hc.logon hlogon).2⟩, hc.resendRequest⟩
  · intro k hr
    exact h.resets k ⟨hr.valid, hr.seqNum, hr.type, haccepts hr.accepts, hr.reset⟩
  · intro v hr
    exact h.requests v ⟨hr.valid, hr.seqNum, hr.type, hr.beginSeqNo, hr.endSeqNo⟩

/-! ## What a message is taken for -/

/-- The handler of the message takes the text of the field `tag` for `n`. -/
inductive Takes (env : Env) (time : Int) (s : Session) (msg : Message) : Int → Bytes → Int → Prop
    where
  | msgSeqNum {v : Bytes} {n : Int} (hvalid : Valid env s.state msg time)
      (htext : msg.header.field? Field.msgSeqNum = some v) (hn : msg.HasSeqNum n) :
      Takes env time s msg Field.msgSeqNum v n
  | newSeqNo {v : Bytes} {n : Int} (hvalid : Valid env s.state msg time)
      (hreset : msg.Resets n) (htext : msg.body.field? Field.newSeqNo = some v) :
      Takes env time s msg Field.newSeqNo v n
  | beginSeqNo {v : Bytes} {n : Int} (hvalid : Valid env s.state msg time)
      (htype : msg.HasType MsgType.resendRequest)
      (htext : msg.body.field? Field.beginSeqNo = some v)
      (hn : msg.body.getIntField Field.beginSeqNo = .ok n) :
      Takes env time s msg Field.beginSeqNo v n
  | endSeqNo {v : Bytes} {n : Int} (hrequests : RequestsUpTo env time s msg v)
      (hn : msg.body.getIntField Field.endSeqNo = .ok n) :
      Takes env time s msg Field.endSeqNo v n

/-- A number that a field may have.  A resend up to 0 has no bound. -/
def ValidNumber (tag n : Int) : Prop := 1 ≤ n ∨ tag = Field.endSeqNo ∧ n = 0

/-- What does not fit an `int` is not taken for another number. -/
def ReadsFaithfully (env : Env) (time : Int) (s : Session) (msg : Message) : Prop :=
  ∀ tag v n, Takes env time s msg tag v n → ¬FitsInt v → ¬ValidNumber tag n

theorem Takes.eq_intOf {env : Env} {time : Int} {s : Session} {msg : Message} {tag : Int}
    {v : Bytes} {n : Int} (h : Takes env time s msg tag v n) : n = FieldMap.intOf v := by
  have hfield : ∀ {m : FieldMap} {tag : Int}, m.getIntField tag = .ok n → m.field? tag = some v →
      n = FieldMap.intOf v := by
    intro m tag hn htext
    obtain ⟨v', hv', rfl⟩ := FieldMap.getIntField_eq.mp hn
    rw [htext] at hv'
    cases hv'
    rfl
  cases h with
  | msgSeqNum _ htext hn => exact hfield hn htext
  | newSeqNo _ hreset htext => exact hfield hreset.2 htext
  | beginSeqNo _ _ htext hn => exact hfield hn htext
  | endSeqNo hrequests hn => exact hfield hn hrequests.endSeqNo

/-- Only the end of a resend may be 0. -/
theorem Careful.readsFaithfully {env : Env} {time : Int} {s : Session} {msg : Message}
    (h : Careful env time s msg) : ReadsFaithfully env time s msg := by
  intro tag v n htakes hfits hvalid
  have hn : n = 0 := htakes.eq_intOf.trans (intOf_of_not_fitsInt hfits)
  rcases hvalid with hpos | ⟨htag, -⟩
  · omega
  · cases htakes with
    | msgSeqNum => exact absurd htag (by decide)
    | newSeqNo => exact absurd htag (by decide)
    | beginSeqNo => exact absurd htag (by decide)
    | endSeqNo hrequests _ => exact hfits (h.requests v hrequests)

/-! ## The target number -/

/-- The target number is one that a message may have. -/
def InRange (s : Session) : Prop :=
  1 ≤ s.cache.targetSeqNum ∧ s.cache.targetSeqNum ≤ 2147483647

/-- The delegate sets the target number to such numbers only. -/
def SetsInRange (env : Env) : Prop :=
  ∀ num, env.Makes (.setTargetSeqNum num) → 1 ≤ num ∧ num ≤ 2147483647

def KeepsRange (s t : Session) : Prop := InRange s → InRange t

instance : Std.Refl KeepsRange := ⟨fun _ h => h⟩

instance : IsTrans Session KeepsRange := ⟨fun _ _ _ h h' hs => h' (h hs)⟩

section

variable {env : Env} {time : Int} {msg : Message} {s t : Session}

theorem InRange.of_eq (h : s.InRange) (heq : t.cache.targetSeqNum = s.cache.targetSeqNum) :
    t.InRange := by
  rw [InRange, heq]
  exact h

theorem keepsRange_sending : OpenToSending KeepsRange :=
  quiet.weaken fun _ _ h hs => hs.of_eq h.target

theorem keepsRange_callbacks (henv : SetsInRange env) : OpenToCallbacks env KeepsRange where
  toOpenToSending := keepsRange_sending
  states _ _ h := h
  calls call hmakes := by
    cases call with
    | send msg => exact keepsRange_sending.send env msg none
    | setSenderSeqNum num => exact keeps_modify fun _ h => h
    | setTargetSeqNum num => exact keeps_modify fun _ _ => henv num hmakes
    | start => exact keeps_modify fun _ h => h
    | stop => exact keepsRange_sending.stop
    | throw => exact keeps_throw _
  handled _ _ _ h := h

theorem InRange.ends {α : Type} {x : SessionM α} (h : s.InRange) (hx : Keeps KeepsRange x) :
    Ends x s (fun _ => InRange) fun _ => InRange :=
  (hx.ends s).mono (fun _ _ hkeeps => hkeeps h) fun _ _ hkeeps => hkeeps h

/-- Below the largest `int` the target number may be moved by one. -/
theorem InRange.nextTarget (h : s.InRange) (hne : s.cache.targetSeqNum ≠ 2147483647) :
    InRange { s with cache := s.cache.nextTargetSeqNum } := by
  obtain ⟨hpos, hle⟩ := h
  have hnext : i32 (s.cache.targetSeqNum + 1) = s.cache.targetSeqNum + 1 :=
    i32_of_range (by omega) (by omega)
  unfold InRange
  rw [MemoryCache.targetSeqNum_nextTargetSeqNum, hnext]
  constructor
  · omega
  · omega

theorem Early.inRange (h : Early msg s t) (hs : s.InRange) : t.InRange := by
  cases h with
  | stay h => exact hs.of_eq h.target
  | queue k _ _ h => exact hs.of_eq h.target

/-- A SequenceReset sets the target number to an `int` above its own number. -/
theorem handleSequenceReset_inRange (hs : s.InRange) (hvalid : Valid env s.state msg time)
    (htype : msg.HasType MsgType.sequenceReset) :
    Ends (handleSequenceReset env msg) s (fun _ => InRange) fun _ => InRange := by
  have hmove : ∀ t, Move env time msg s t → t.InRange := by
    intro t h
    cases h with
    | stay h => exact hs.of_eq h.target
    | queue k _ _ h => exact hs.of_eq h.target
    | consume _ _ hno => exact absurd htype hno
    | deliver _ _ hno => exact absurd htype hno
    | jump _ k n _ hreset _ hle _ h =>
        obtain ⟨-, hmax⟩ := FieldMap.getIntField_range hreset.2
        obtain ⟨hpos, -⟩ := hs
        rw [InRange, h.target]
        constructor
        · omega
        · omega
    | reset hlogon => exact absurd (htype.unique hlogon.1) (by decide)
  exact (handleSequenceReset_ends env s hvalid htype).mono (fun _ => hmove) fun _ => hmove

theorem consume_inRange {k : Int} (hs : s.InRange)
    (hne : k = s.cache.targetSeqNum → s.cache.targetSeqNum ≠ 2147483647) :
    Ends (consume k s.cache.targetSeqNum) s (fun _ => InRange) fun _ => InRange := by
  unfold consume
  split
  next heq => exact hs.nextTarget (hne heq)
  next => exact hs

theorem handleResendRequest_inRange (hs : s.InRange) (hcareful : Careful env time s msg)
    (hvalid : Valid env s.state msg time) (htype : msg.HasType MsgType.resendRequest) :
    Ends (handleResendRequest env msg) s (fun _ => InRange) fun _ => InRange := by
  unfold handleResendRequest
  refine Ends.bind (ends_liftExcept (Q := fun k t => msg.HasSeqNum k ∧ t = s)
    (fun k hk => ⟨hk, rfl⟩) fun _ _ => hs) ?_
  rintro k s ⟨hk, rfl⟩
  have hhas : ∀ {m : FieldMap} {tag n : Int}, m.getIntField tag = .ok n → m.has tag = true := by
    intro m tag n h
    obtain ⟨v, hv, -⟩ := FieldMap.getIntField_eq.mp h
    rw [FieldMap.has_eq, hv]
    rfl
  cases hbegin : msg.body.getIntField Field.beginSeqNo with
  | error e => exact hs
  | ok beginSeqNo =>
      cases hend : msg.body.getIntField Field.endSeqNo with
      | error e => exact hs
      | ok endSeqNo =>
          rw [ends_liftExcept_ok rfl, ends_liftExcept_ok rfl]
          refine Ends.bind (((quiet.runMessageRecovery env beginSeqNo endSeqNo).ends s).mono
            (fun _ _ hu => hu) fun _ _ hu => hs.of_eq hu.target) ?_
          intro _ u hu
          rw [ends_bind, ends_getTargetSeqNum]
          refine consume_inRange (hs.of_eq hu.target) fun heq => ?_
          rw [hu.target] at heq ⊢
          refine hcareful.consumes ⟨hvalid, heq ▸ hk, ?_, ?_, fun _ => ⟨hhas hbegin, hhas hend⟩⟩
          · exact fun hreset => absurd (hreset.unique htype) (by decide)
          · exact fun hlogon => absurd (hlogon.unique htype) (by decide)

/-- What a logon is accepted with. -/
theorem logonNextExpected_accepts (env : Env) (msg : Message) (s : Session) :
    Ends (logonNextExpected env msg) s
      (fun answer t => Quiet s t ∧ (answer.isSome = true → t = s ∧
        ∀ n, msg.body.getIntField Field.nextExpectedMsgSeqNum = .ok n → n ≤ s.cache.senderSeqNum))
      fun _ t => Quiet s t := by
  have hquiet := (quiet.logonNextExpected env msg).ends s
  have hvalue : Ends (logonNextExpected env msg) s
      (fun answer t => answer.isSome = true → t = s ∧
        ∀ n, msg.body.getIntField Field.nextExpectedMsgSeqNum = .ok n → n ≤ s.cache.senderSeqNum)
      fun _ _ => True := by
    unfold logonNextExpected
    split
    next =>
      cases hnext : msg.body.getIntField Field.nextExpectedMsgSeqNum with
      | error e => exact True.intro
      | ok m =>
          rw [ends_liftExcept_ok rfl, ends_bind, ends_getSenderSeqNum]
          split
          next =>
            refine Ends.bind (Ends.trivial _ s) fun _ t _ hsome => ?_
            cases hsome
          next hle =>
            refine fun _ => ⟨rfl, fun n hn => ?_⟩
            cases hn
            exact not_lt.mp hle
    next hhas =>
      refine fun _ => ⟨rfl, fun n hn => ?_⟩
      obtain ⟨v, hv, -⟩ := FieldMap.getIntField_eq.mp hn
      rw [FieldMap.has_eq, hv] at hhas
      exact absurd rfl hhas
  exact (hvalue.and hquiet).mono (fun _ _ h => ⟨h.2, h.1⟩) fun _ _ h => h.2

/-- Once its number was consumed, an accepted logon keeps the range. -/
theorem acceptLogon_inRange (henv : SetsInRange env) (msg : Message) {k expected : Int}
    (recovery : Option Int) (shouldReset : Bool)
    (h : InRange (if k = expected then { s with cache := s.cache.nextTargetSeqNum } else s)) :
    Ends (acceptLogon env msg k expected recovery shouldReset) s (fun _ => InRange)
      fun _ => InRange := by
  have hopen := keepsRange_callbacks henv
  unfold acceptLogon
  refine Ends.bind (P := fun _ => InRange) ?_ fun _ t ht => ht.ends ?_
  · unfold consume
    split
    next heq => rwa [if_pos heq] at h
    next hne => rwa [if_neg hne] at h
  · refine keeps_bind (hopen.answerLogon env msg shouldReset) fun _ => ?_
    refine keeps_bind (hopen.setState _) fun _ => ?_
    refine keeps_bind (hopen.record (e := .loggedOn) trivial) fun _ => ?_
    refine keeps_bind (hopen.recoverPeer env recovery) fun _ => ?_
    exact keeps_ite (fun _ => hopen.sendResendRequest env _ _) fun _ => hopen.callOnLogon

theorem handleLogon_inRange (henv : SetsInRange env) (hs : s.InRange)
    (hcareful : Careful env time s msg) (hvalid : Valid env s.state msg time)
    (htype : msg.HasType MsgType.logon) :
    Ends (handleLogon env msg) s (fun _ => InRange) fun _ => InRange := by
  have hopen := keepsRange_callbacks henv
  unfold handleLogon
  split
  next => exact hs.ends (hopen.logoutAny _ false)
  next htest =>
    refine Ends.bind (ends_liftExcept (Q := fun k t => msg.HasSeqNum k ∧ t = s)
      (fun k hk => ⟨hk, rfl⟩) fun _ _ => hs) ?_
    rintro k s ⟨hk, rfl⟩
    rw [ends_bind, ends_getTargetSeqNum]
    split
    next => exact hs.ends (hopen.logoutAny _ true)
    next hlow =>
      refine Ends.bind ((logonNextExpected_accepts env msg s).mono (fun _ _ h => h)
        fun _ _ h => hs.of_eq h.target) ?_
      rintro answer t ⟨hquiet, hnext⟩
      cases answer with
      | none => exact hs.of_eq hquiet.target
      | some recovery =>
          obtain ⟨rfl, hnext⟩ := hnext rfl
          have haccepts : (msg.body.tryGetBool Field.resetSeqNumFlag = true →
              env.settings.resetSeqNumOnLogon = true) → AcceptsLogon env t msg k := by
            refine fun hreset => ⟨not_not.mp htest, ?_, hnext, hreset⟩
            by_cases hdup : msg.header.tryGetBool Field.possDupFlag = true
            · exact .inl hdup
            · exact .inr (not_lt.mp fun hlt => hlow ⟨by simpa using hdup, hlt⟩)
          refine Ends.bind ((logonReset_ends env msg t).mono (fun _ _ h => h)
            fun _ _ h => hs.of_eq h.target) ?_
          intro answer u hu
          match answer with
          | none => exact hs.of_eq hu.target
          | some true =>
              obtain ⟨hflag, hset, rfl⟩ := hu
              -- The number after the reset is 0, until the logon is consumed.
              have heq := hcareful.resets k ⟨hvalid, hk, htype, haccepts fun _ => hset, hflag⟩
              refine acceptLogon_inRange henv msg recovery true ?_
              rw [if_pos heq]
              show (1 : Int) ≤ 1 ∧ (1 : Int) ≤ 2147483647
              decide
          | some false =>
              obtain ⟨hflag, rfl⟩ := hu
              refine acceptLogon_inRange henv msg recovery false ?_
              split
              next heq =>
                subst heq
                refine hs.nextTarget (hcareful.consumes ⟨hvalid, hk, ?_, fun _ => ⟨?_, hflag⟩, ?_⟩)
                · exact fun hreset => absurd (hreset.unique htype) (by decide)
                · exact haccepts fun hset => absurd (hflag.symm.trans hset) (by decide)
                · exact fun hresend => absurd (hresend.unique htype) (by decide)
              next => exact hs

theorem dispatchMessage_inRange (henv : SetsInRange env) (hs : s.InRange)
    (hcareful : Careful env time s msg) (hvalid : Valid env s.state msg time) {msgType : Bytes}
    (htype : msg.HasType msgType) :
    Ends (dispatchMessage env msg msgType) s (fun _ => InRange) fun _ => InRange := by
  unfold dispatchMessage
  split
  next h => exact handleSequenceReset_inRange hs hvalid (h ▸ htype)
  next hreset =>
    split
    next h => exact handleLogon_inRange henv hs hcareful hvalid (h ▸ htype)
    next hlogon =>
      split
      next h => exact handleResendRequest_inRange hs hcareful hvalid (h ▸ htype)
      next hresend =>
        refine Ends.bind ((validateSeqNum_ends env msg s).mono (fun _ _ h => h)
          fun _ _ h => h.inRange hs) ?_
        intro ok t h
        cases ok with
        | false => exact h.inRange hs
        | true =>
            obtain ⟨hseq, rfl⟩ := h
            have hnext := hs.nextTarget (hcareful.consumes ⟨hvalid, hseq,
              fun h => hreset (htype.unique h), fun h => absurd (htype.unique h) hlogon,
              fun h => absurd (htype.unique h) hresend⟩)
            exact hnext.ends ((keepsRange_callbacks henv).handleSequenced (fun _ _ _ h => h) msg _)

/-- A careful message keeps the range, however its handling ends. -/
theorem processMessage_inRange (henv : SetsInRange env) (hs : s.InRange)
    (hcareful : Careful env time s msg) :
    Ends (processMessage env msg time) s (fun _ => InRange) fun _ => InRange := by
  unfold processMessage
  rw [ends_bind, ends_getTargetSeqNum, ends_bind, ends_record]
  have hu : InRange { s with events := s.events ++ [.process msg s.cache.targetSeqNum] } := hs
  refine Ends.bind (ends_liftExcept (Q := fun msgType t => msg.HasType msgType ∧
    t = { s with events := s.events ++ [.process msg s.cache.targetSeqNum] })
    (fun msgType htype => ⟨htype, rfl⟩) fun _ _ => hu) ?_
  rintro msgType _ ⟨htype, rfl⟩
  refine Ends.bind ((validateMessage_valid htype time _).mono (fun _ _ h => h)
    fun _ _ h => hu.of_eq h.target) ?_
  rintro ok t ⟨hquiet, hok⟩
  cases ok with
  | false => exact hu.of_eq hquiet.target
  | true =>
      obtain ⟨rfl, hvalid⟩ := hok rfl
      exact dispatchMessage_inRange henv hu (hcareful.record _) hvalid htype

/-! ## Whole texts -/

theorem eraseFront_inRange (hs : s.InRange) :
    Ends eraseFront s (fun _ t => t = { s with cache := s.cache.eraseInbound })
      fun _ => InRange := by
  unfold eraseFront
  rw [ends_bind, ends_get]
  split
  next => exact hs
  next => rfl

/-- The loop over the queue keeps the range, if the messages it processes are careful. -/
theorem drainQueue_inRange (henv : SetsInRange env) {fuel : Nat} (hs : s.InRange)
    (hcareful : ∀ p ∈ drained env time fuel s, Careful env time p.1 p.2) :
    Ends (drainQueue env time fuel) s (fun _ => InRange) fun _ => InRange := by
  induction fuel generalizing s with
  | zero => exact hs
  | succ fuel ih =>
      unfold drainQueue
      rw [ends_bind, ends_get]
      rw [drained] at hcareful
      cases hmin : s.cache.inboundQueue.min? with
      | none => exact hs
      | some head =>
          obtain ⟨seqNum, msg⟩ := head
          rw [hmin] at hcareful
          dsimp only at hcareful ⊢
          split
          next heq =>
            rw [if_pos heq, List.forall_mem_cons] at hcareful
            refine Ends.bind (Ends.ran (processMessage_inRange henv hs hcareful.1)) ?_
            rintro _ t ⟨hrun, ht⟩
            refine Ends.bind (eraseFront_inRange ht) ?_
            rintro _ _ rfl
            refine ih ht fun p hp => hcareful.2 p ?_
            rw [hrun]
            exact hp
          next => exact hs

/-- The session receives a text. -/
def receive (env : Env) (text : Bytes) (s : Session) : Session := after (onNetworkMessage env text) s

/-- All messages that the text makes the session process are careful. -/
def ReceivesCarefully (env : Env) (s : Session) (text : Bytes) : Prop :=
  ∀ p ∈ processed env s text, Careful env (nextMillis env s) p.1 p.2

theorem receive_inRange (henv : SetsInRange env) {text : Bytes} (hs : s.InRange)
    (hcareful : ReceivesCarefully env s text) : InRange (receive env text s) := by
  unfold ReceivesCarefully processed at hcareful
  apply after_eq_of_ends
  unfold onNetworkMessage
  rw [ends_bind, ends_get]
  split
  next => exact hs
  next hstate =>
    rw [if_neg hstate] at hcareful
    refine Ends.tryCatch (F := fun _ => InRange) ?_ fun e t ht => ?_
    · cases hparse : env.dictionary.parse env.settings text with
      | error e => exact hs
      | ok msg =>
          rw [hparse] at hcareful
          rw [ends_liftExcept_ok rfl]
          dsimp only at hcareful
          rw [List.forall_mem_cons] at hcareful
          have hentered : InRange (entered env s) := hs
          refine handleParsed_ends ((Ends.ran (processMessage_inRange henv hentered
            hcareful.1)).mono (fun _ t ht => ?_) fun _ _ h => h)
          refine (drainQueue_inRange henv ht.2 fun p hp => hcareful.2 p ?_).mono
            (fun _ _ h => h) fun _ _ h => h
          rw [ht.1]
          exact hp
    · cases e with
      | undefined what => exact ht
      | _ => exact ht

/-! ## Runs -/

/-- In every state of a run the target number is one that a message may have, and every message
that is processed is read faithfully. -/
structure StaysBounded (env : Env) (s : Session) (texts : List Bytes) : Prop where
  inRange : ∀ before, before <+: texts → InRange (Run.runOf (receive env) s before)
  reads : ∀ before text, before ++ [text] <+: texts →
    ∀ p ∈ processed env (Run.runOf (receive env) s before) text,
      ReadsFaithfully env (nextMillis env (Run.runOf (receive env) s before)) p.1 p.2

/-- A run that starts in range and whose messages are careful stays in range. -/
theorem staysBounded_of_careful (henv : SetsInRange env) (hs : s.InRange) {texts : List Bytes}
    (hcareful : Run.AllowedAlong (receive env) (ReceivesCarefully env) s texts) :
    StaysBounded env s texts := by
  have hbefore : ∀ {before}, before <+: texts →
      Run.AllowedAlong (receive env) (ReceivesCarefully env) s before := by
    rintro before ⟨rest, rfl⟩
    exact (Run.allowedAlong_append.mp hcareful).1
  constructor
  · intro before hprefix
    exact (hbefore hprefix).invariant (fun t text h ht => receive_inRange henv ht h) hs
  · intro before text hprefix p hp
    obtain ⟨-, htext, -⟩ := Run.allowedAlong_append.mp (hbefore hprefix)
    exact (htext p hp).readsFaithfully

end

/-! ## Runs of the tests -/

instance (s : Session) : Decidable s.InRange :=
  inferInstanceAs (Decidable (1 ≤ s.cache.targetSeqNum ∧ s.cache.targetSeqNum ≤ 2147483647))

/-- The message is below the largest `int`, resets nothing and asks for nothing. -/
def isPlain (p : Session × Message) : Bool :=
  p.1.cache.targetSeqNum ≠ 2147483647 && !p.2.body.tryGetBool Field.resetSeqNumFlag &&
    p.2.header.field? Field.msgType ≠ some MsgType.resendRequest

theorem receivesCarefully_of_isPlain {env : Env} {s : Session} {text : Bytes}
    (h : (processed env s text).all isPlain = true) : ReceivesCarefully env s text := by
  intro p hp
  have hplain := List.all_eq_true.mp h p hp
  simp only [isPlain, Bool.and_eq_true, decide_eq_true_eq, Bool.not_eq_true'] at hplain
  obtain ⟨⟨hlast, hreset⟩, htype⟩ := hplain
  constructor
  · exact fun _ => hlast
  · exact fun k hk => absurd (hreset.symm.trans hk.reset) (by decide)
  · exact fun v hv => absurd (FieldMap.getField_eq.mp hv.type) htype

theorem setsInRange_testEnv (settings : SessionSettings) : SetsInRange (testEnv settings) := by
  rintro num ⟨d, hd, -⟩
  cases hd

theorem staysBounded_test :
    StaysBounded (testEnv acceptorSettings) (connectedSession acceptorSettings)
      [testLogon, testOrder] :=
  staysBounded_of_careful (setsInRange_testEnv _) (by decide +kernel)
    ⟨receivesCarefully_of_isPlain (by decide +kernel),
      receivesCarefully_of_isPlain (by decide +kernel), trivial⟩

/-- A SequenceReset to the largest `int`. -/
def testResetToLast : Bytes :=
  wireOf ("8=FIX.4.2|9=74|35=4|49=INITIATOR|56=ACCEPTOR|34=2|52=20240229-12:34:56.789|" ++
    "36=2147483647|10=165|")

/-- A heartbeat with the largest `int` for its number. -/
def testLast : Bytes :=
  wireOf ("8=FIX.4.2|9=69|35=0|49=INITIATOR|56=ACCEPTOR|34=2147483647|" ++
    "52=20240229-12:34:56.789|10=204|")

/-- The heartbeat makes the target number wrap. -/
theorem not_staysBounded : ¬∀ (env : Env) (s : Session) (texts : List Bytes), SetsInRange env →
    1 ≤ s.cache.senderSeqNum ∧ s.cache.senderSeqNum < 2147483647 →
    1 ≤ s.cache.targetSeqNum ∧ s.cache.targetSeqNum < 2147483647 → StaysBounded env s texts := by
  intro h
  have hbounded := h (testEnv acceptorSettings) (connectedSession acceptorSettings)
    [testLogon, testResetToLast, testLast] (setsInRange_testEnv _) (by decide +kernel)
    (by decide +kernel)
  exact absurd (hbounded.inRange _ (List.prefix_refl _)) (by decide +kernel)

end Session

end OpenFix
