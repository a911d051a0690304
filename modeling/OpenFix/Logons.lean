import OpenFix.Failing
import OpenFix.Resent
import OpenFix.Spoken
import OpenFix.Watchdog

/-!
# Logging on

An initiator asks with a logon, and an acceptor that accepts it answers with its own.
`Greeting` is a logon as a session sends it when neither NextExpectedMsgSeqNum nor a
reset is asked for.  The peer reads such a logon as it was sent (`Greeting.heard`) and
accepts it (`handleLogon_joins`).
-/

namespace OpenFix

open Effect

/-! ## The sessions that can log on -/

/-- Every reading of the clock is a time that a timestamp tells. -/
def Env.Timely (env : Env) : Prop :=
  ∀ n, 1000000 ≤ env.clock n ∧ env.clock n < 253402300800000000

/-- The texts of the settings stand in a header. -/
structure SessionSettings.Clean (settings : SessionSettings) : Prop where
  beginString : internalSohChar ∉ settings.beginString
  senderCompID : internalSohChar ∉ settings.senderCompID
  targetCompID : internalSohChar ∉ settings.targetCompID
  short : settings.beginString.length + settings.senderCompID.length +
    settings.targetCompID.length < 900000000

/-- The tags of the body of a logon. -/
def logonTags : List Int := [Field.heartBtInt, Field.encryptMethod]

/-- The body of a logon, with the heartbeat interval in seconds. -/
def logonFields (interval : Int) : List (Int × Bytes) :=
  [(Field.heartBtInt, toChars (i32 interval)), (Field.encryptMethod, ascii "0")]

/-- A session whose logons are plain ones, and whose dictionary lists them. -/
structure Env.Greets (env : Env) : Prop where
  timely : env.Timely
  clean : env.settings.Clean
  standard : env.dictionary.Standard env.settings
  lists : ∃ spec, env.dictionary.Lists env.settings MsgType.logon spec logonTags
  reorder : env.settings.parsingReorderTags = false
  test : env.settings.isTest = false
  nextExpected : env.settings.sendNextExpectedMsgSeqNum = false
  polite : env.Polite Message.Fine

/-- A logon as a session sends it. -/
def Session.Greeting (env : Env) (interval : Int) (m : Message) : Prop :=
  ∃ seqnum epochMs, (-2147483648 ≤ seqnum ∧ seqnum < 2147483648) ∧
    (writeUTCTimestamp epochMs).length = 21 ∧
    m.Says (stampedFields env.settings MsgType.logon seqnum epochMs) (logonFields interval)

namespace Session

/-! ## A logon is read as it was sent -/

/-- A logon as its receiver sees it. -/
structure HeardLogon (env : Env) (interval : Int) (m heard : Message) : Prop where
  parse : env.dictionary.parse env.settings (m.toString true) = .ok heard
  peer : FromPeer env heard
  type : heard.HasType MsgType.logon
  msgSeqNum : heard.header.field? Field.msgSeqNum = m.header.field? Field.msgSeqNum
  sendingTime : heard.header.field? Field.sendingTime = m.header.field? Field.sendingTime
  possDupFlag : heard.header.field? Field.possDupFlag = none
  heartBtInt : heard.body.getIntField Field.heartBtInt = .ok (i32 interval)
  absent : ∀ tag, tag ∉ logonTags → isIgnoredTag tag = false → heard.body.field? tag = none

theorem clean_stampedFields {settings : SessionSettings} (h : settings.Clean) {msgType : Bytes}
    (htype : internalSohChar ∉ msgType) (seqnum epochMs : Int) :
    ∀ f ∈ stampedFields settings msgType seqnum epochMs, internalSohChar ∉ f.2 := by
  simp only [stampedFields, stampFields, List.forall_mem_cons, List.not_mem_nil, false_implies,
    implies_true, and_true]
  exact ⟨htype, h.beginString, h.senderCompID, h.targetCompID, writeUTCTimestamp_clean epochMs,
    fun hmem => (toChars_clean hmem).1 rfl⟩

theorem clean_logonFields (interval : Int) :
    ∀ f ∈ logonFields interval, internalSohChar ∉ f.2 := by
  simp only [logonFields, List.forall_mem_cons, List.not_mem_nil, false_implies, implies_true,
    and_true]
  exact ⟨fun hmem => (toChars_clean hmem).1 rfl, by decide⟩

variable {env peer : Env} {interval : Int} {m : Message}

theorem Greeting.conforms (h : Greeting peer interval m) (hpeer : peer.settings.Clean)
    {settings : SessionSettings} {dict : Dictionary} (hstandard : dict.Standard settings)
    {spec : GroupSpec} (hlists : dict.Lists settings MsgType.logon spec logonTags)
    (hreorder : settings.parsingReorderTags = false) : m.Conforms settings dict spec := by
  obtain ⟨seqnum, epochMs, hrange, htime, hspoken⟩ := h
  refine hspoken.conforms hstandard hlists hreorder (List.forall_mem_append.mpr
    ⟨clean_stampedFields hpeer (by decide) _ _, clean_logonFields interval⟩) ?_
  have hseqnum := length_toChars_le hrange
  have hinterval := length_toChars_le (i32_range interval)
  have htype : MsgType.logon.length = 1 := rfl
  have hzero : (ascii "0").length = 1 := rfl
  have hshort := hpeer.short
  simp only [fieldsLength, stampedFields, stampFields, logonFields, List.map_cons, List.map_nil,
    List.sum_cons, List.sum_nil, htime, htype, hzero]
  omega

/-- The peer reads a logon as it was sent. -/
theorem Greeting.heard (h : Greeting peer interval m) (hpeer : peer.settings.Clean)
    (henv : env.Greets) (hmirror : Mirrored peer.settings env.settings) :
    ∃ heard, HeardLogon env interval m heard := by
  obtain ⟨spec, hlists⟩ := henv.lists
  have hconforms : m.Conforms env.settings env.dictionary spec :=
    h.conforms hpeer henv.standard hlists henv.reorder
  obtain ⟨heard, hread⟩ := hconforms.readAs
  obtain ⟨seqnum, epochMs, hrange, -, hspoken⟩ := h
  have hheader : ∀ {f : Int × Bytes}, f ∈ stampedFields peer.settings MsgType.logon seqnum epochMs →
      isIgnoredTag f.1 = false → heard.header.getField f.1 = .ok f.2 := fun hf hplain =>
    FieldMap.getField_eq.mpr ((hread.field?_header hplain).trans (hspoken.field?_header hf))
  have hbegin : heard.header.field? Field.beginString = m.header.field? Field.beginString :=
    congrArg Message.Contents.beginString hread.contents
  refine ⟨heard, ?_⟩
  constructor
  case parse => exact hread.parse
  case peer =>
    constructor
    · rw [← hmirror.beginString]
      exact FieldMap.getField_eq.mpr (hbegin.trans (hspoken.field?_header
        (f := (Field.beginString, peer.settings.beginString)) (by simp [stampedFields, stampFields])))
    · rw [← hmirror.senderCompID]
      exact hheader (f := (Field.senderCompID, peer.settings.senderCompID))
        (by simp [stampedFields, stampFields]) rfl
    · rw [← hmirror.targetCompID]
      exact hheader (f := (Field.targetCompID, peer.settings.targetCompID))
        (by simp [stampedFields, stampFields]) rfl
  case type =>
    exact hheader (f := (Field.msgType, MsgType.logon)) (by simp [stampedFields, stampFields]) rfl
  case msgSeqNum => exact hread.field?_header rfl
  case sendingTime => exact hread.field?_header rfl
  case possDupFlag =>
    rw [hread.field?_header rfl]
    exact hspoken.header.field?_none (by simp [stampedFields, stampFields, AssocList.keys])
  case heartBtInt =>
    refine FieldMap.getIntField_eq.mpr ⟨_, (hread.field?_body rfl).trans (hspoken.body.value
      (Field.heartBtInt, toChars (i32 interval)) (List.mem_cons_self ..)), ?_⟩
    exact FieldMap.intOf_toChars (i32_range _).1 (i32_range _).2
  case absent =>
    intro tag htag hplain
    rw [hread.field?_body hplain]
    exact hspoken.body.field?_none htag

/-! ## Sending a logon -/

/-- A send reads the time first. -/
theorem currentEpochUs_reads (env : Env) (s : Session) :
    Ends (currentEpochUs env) s (fun us t => us = sendMicros env s ∧ Idle s t ∧
      t.clockReads = if s.cachedEpochUs ≠ 0 then s.clockReads else s.clockReads + 1)
      fun _ _ => False := by
  unfold currentEpochUs sendMicros
  rw [ends_bind, ends_get]
  split
  · exact ⟨rfl, Std.Refl.refl (r := Idle) s, rfl⟩
  · exact ⟨rfl, ⟨⟨rfl, rfl, rfl, rfl, rfl⟩, rfl, rfl⟩, rfl⟩

/-- `populateMessage` stamps the header with the time that it is given, or reads. -/
theorem populateMessage_reads (env : Env) (msg : Message) (epochMs : Int) (s : Session) :
    Ends (populateMessage env msg epochMs) s
      (fun p t => Idle s t ∧ p.2 = s.cache.senderSeqNum ∧
        (epochMs = 0 → t.clockReads = s.clockReads + 1) ∧ ∃ header,
        stampHeader env.settings s.cache.senderSeqNum
          (if epochMs = 0 then nextMillis env s else epochMs) msg.header = .ok header ∧
        p.1 = { msg with header := header })
      fun e t => Idle s t ∧ ∃ ms, stampHeader env.settings s.cache.senderSeqNum ms msg.header =
        .error e := by
  have htime : Ends (if epochMs = 0 then getEpochMillis env else pure epochMs) s
      (fun ms t => ms = (if epochMs = 0 then nextMillis env s else epochMs) ∧ Idle s t ∧
        (epochMs = 0 → t.clockReads = s.clockReads + 1)) fun _ _ => False := by
    split
    next hzero => exact ⟨rfl, ⟨⟨rfl, rfl, rfl, rfl, rfl⟩, rfl, rfl⟩, fun _ => rfl⟩
    next hzero => exact ⟨rfl, Std.Refl.refl (r := Idle) s, fun heq => absurd heq hzero⟩
  unfold populateMessage
  refine Ends.bind (htime.mono (fun _ _ h => h) fun _ _ h => h.elim) ?_
  rintro _ t ⟨rfl, ht, hreads⟩
  rw [ends_bind, ends_getSenderSeqNum, ht.cache, ends_bind]
  exact ends_liftExcept (fun header hheader => ⟨ht, rfl, hreads, header, hheader, rfl⟩)
    fun e he => ⟨ht, _, he⟩

/-- A send stamps the header with the time that it read. -/
theorem send_stamps (env : Env) (msg : Message) (s : Session) :
    Ends (send env msg none) s
      (fun _ t => SameControl s t ∧ ∃ header,
        stampHeader env.settings s.cache.senderSeqNum (sendMillis env s) msg.header = .ok header ∧
        t.cache = (s.cache.cache s.cache.senderSeqNum
          ({ msg with header := header }.toString true)).nextSenderSeqNum ∧
        t.events = s.events ++ transmission s { msg with header := header })
      fun e t => Idle s t ∧ ∃ ms, stampHeader env.settings s.cache.senderSeqNum ms msg.header =
        .error e := by
  unfold send
  refine Ends.bind ((currentEpochUs_reads env s).mono (fun _ _ h => h) fun _ _ h => h.elim) ?_
  rintro _ t ⟨rfl, ht, hreads⟩
  refine Ends.bind ((populateMessage_reads env msg _ t).mono (fun _ _ h => h)
    fun e u hu => ⟨IsTrans.trans s t u ht hu.1, by rw [← ht.cache]; exact hu.2⟩) ?_
  rintro ⟨_, _⟩ u ⟨hu, rfl, -, header, hheader, rfl⟩
  have hmillis : (if (sendMicros env s).tdiv 1000 = 0 then nextMillis env t
      else (sendMicros env s).tdiv 1000) = sendMillis env s := by
    rw [sendMillis, ← hreads]
    rfl
  rw [hmillis, ht.cache] at hheader
  have hidle : Idle s u := IsTrans.trans s t u ht hu
  rw [ht.cache, ends_bind, ends_modifyCache]
  refine (internalSend_ends env _ _ _).mono (fun _ v hv => ?_) fun _ _ h => h.elim
  refine ⟨hidle.toSameControl.trans ?_, header, hheader, ?_, ?_⟩
  · exact ⟨hv.state, hv.network, hv.heartbeatInterval, hv.testReqID, hv.cachedEpochUs⟩
  · rw [hv.cache, hidle.cache]
  · rw [hv.events]
    simp only [transmission, hidle.events, hidle.network]

/-- The cached time, if there is one, is a reading of the clock. -/
def OnTime (env : Env) (s : Session) : Prop :=
  s.cachedEpochUs = 0 ∨ ∃ n, s.cachedEpochUs = env.clock n

theorem length_sendMillis (htimely : env.Timely) {s : Session} (hs : s.OnTime env) :
    (writeUTCTimestamp (sendMillis env s)).length = 21 := by
  have hreading : ∃ n, sendMillis env s = (env.clock n).tdiv 1000 := by
    unfold sendMillis
    by_cases hzero : (sendMicros env s).tdiv 1000 = 0
    · rw [if_pos hzero]
      exact ⟨_, rfl⟩
    · rw [if_neg hzero, sendMicros]
      rcases hs with hs | ⟨n, hs⟩
      · exact ⟨s.clockReads, by rw [if_neg (not_not.mpr hs)]⟩
      · have hpos := htimely n
        exact ⟨n, by rw [if_pos (by omega), hs]⟩
  obtain ⟨n, hn⟩ := hreading
  rw [hn]
  exact length_writeUTCTimestamp (htimely n)

/-- From `s` to `t` these logons were sent, and the numbers of the peer stayed. -/
structure Asks (env : Env) (ms : List Message) (s t : Session) : Prop extends SameControl s t where
  target : t.cache.targetSeqNum = s.cache.targetSeqNum
  queue : t.cache.inboundQueue = s.cache.inboundQueue
  said : Said s ms t
  greeting : ∀ m ∈ ms, Greeting env (s.heartbeatInterval.tdiv 1000) m
  series : Series s.cache.senderSeqNum ms t.cache.senderSeqNum

theorem Idle.asks {s t : Session} (h : Idle s t) : Asks env [] s t where
  toSameControl := h.toSameControl
  target := by rw [h.cache]
  queue := by rw [h.cache]
  said := ⟨[], by rw [h.events, List.append_nil], rfl⟩
  greeting _ hm := absurd hm List.not_mem_nil
  series := by
    rw [h.cache]
    exact .nil

theorem Asks.trans {ms ms' : List Message} {s t u : Session} (h : Asks env ms s t)
    (h' : Asks env ms' t u) : Asks env (ms ++ ms') s u where
  toSameControl := h.toSameControl.trans h'.toSameControl
  target := h'.target.trans h.target
  queue := h'.queue.trans h.queue
  said := h.said.trans h'.said
  greeting m hm := by
    rcases List.mem_append.mp hm with hm | hm
    · exact h.greeting m hm
    · rw [← h.heartbeatInterval]
      exact h'.greeting m hm
  series := h.series.append h'.series

/-- A logon is built from a new one. -/
theorem buildLogon_eq {created : Message}
    (hcreate : env.dictionary.create MsgType.logon = .ok created)
    (hnext : env.settings.sendNextExpectedMsgSeqNum = false) (s : Session) :
    buildLogon env s false = .ok { created with
      body := created.body.fillWith (logonFields (s.heartbeatInterval.tdiv 1000)) } := by
  unfold buildLogon
  rw [hcreate, hnext]
  rfl

theorem sendLogon_asks (henv : env.Greets) {s : Session} (hconn : s.network.connected = true)
    (hs : s.OnTime env)
    (hrange : -2147483648 ≤ s.cache.senderSeqNum ∧ s.cache.senderSeqNum < 2147483648) :
    Ends (sendLogon env false) s (fun _ t => ∃ m, Asks env [m] s t) fun _ _ => False := by
  obtain ⟨spec, hlists⟩ := henv.lists
  obtain ⟨created, hcreate⟩ : ∃ created, env.dictionary.create MsgType.logon = .ok created := by
    unfold Dictionary.create
    rw [hlists.listed]
    exact ⟨_, rfl⟩
  unfold sendLogon
  rw [ends_bind, ends_get, ends_liftExcept_ok (buildLogon_eq hcreate henv.nextExpected s)]
  refine Ends.bind ((send_stamps env _ s).mono (fun _ _ h => h) ?_) ?_
  · rintro e t ⟨-, ms, he⟩
    obtain ⟨header, hok⟩ := stampHeader_of_room env.settings s.cache.senderSeqNum ms
      ((create_room hcreate).mono (by decide))
    rw [hok] at he
    cases he
  · rintro _ t ⟨hsame, header, hstamp, hcache, hevents⟩
    have hnodup : (AssocList.keys (logonFields (s.heartbeatInterval.tdiv 1000))).Nodup := by
      simp [logonFields, AssocList.keys]
    have hspoken := Dictionary.says_of_create hcreate hstamp hnodup
    have hasks : Asks env [_] s t := {
      toSameControl := hsame
      target := by rw [hcache]; rfl
      queue := by rw [hcache]; rfl
      said := ⟨_, hevents, transmittedOf_connected hconn _⟩
      greeting := by
        intro m hm
        rw [List.mem_singleton.mp hm]
        exact ⟨_, _, hrange, length_sendMillis henv.timely hs, hspoken⟩
      series := by
        rw [hcache]
        exact Series.single (stampHeader_ok hstamp).msgSeqNum }
    refine Ends.bind (P := fun _ u => Idle t u) ⟨⟨rfl, rfl, rfl, rfl, rfl⟩, rfl, rfl⟩
      fun now u hu => ?_
    refine ⟨_, hasks.trans (IsTrans.trans (r := Idle) t u _ hu ?_).asks⟩
    exact ⟨⟨rfl, rfl, rfl, rfl, rfl⟩, rfl, rfl⟩

/-! ## The tick before the logon -/

/-- A tick that gets through the gates finds the logon of an initiator due. -/
def Due (env : Env) (s : Session) : Prop :=
  env.settings.getSessionType = .ok .initiator ∧
    ∃ time ∈ tickTime? env s, s.logonInterval ≤ time - s.lastLogon

instance (env : Env) (s : Session) : Decidable (Due env s) :=
  inferInstanceAs (Decidable (_ ∧ ∃ time ∈ tickTime? env s, _))

/-- The logons of a tick.  Only an initiator sends one, and it does when it is due. -/
structure Knocks (env : Env) (due : Prop) (ms : List Message) (s t : Session) : Prop extends
    Asks env ms s t where
  acceptor : env.settings.getSessionType = .ok .acceptor → ms = []
  due : due → ms ≠ []

theorem internalUpdate_knocks (henv : env.Greets) {s : Session} (hlogon : s.state = .logon)
    (hconn : s.network.connected = true) (hs : s.OnTime env)
    (hrange : -2147483648 ≤ s.cache.senderSeqNum ∧ s.cache.senderSeqNum < 2147483648)
    {sessionType : SessionType} (htype : env.settings.getSessionType = .ok sessionType)
    (hreset : sessionType = .initiator → env.settings.resetSeqNumOnLogon = false) :
    Ends (internalUpdate env) s
      (fun _ t => ∃ ms, Knocks env (sessionType = .initiator ∧
        s.logonInterval ≤ nextMillis env s - s.lastLogon) ms s t) fun _ _ => False := by
  unfold internalUpdate
  refine Ends.bind (P := fun time t => time = nextMillis env s ∧
    t = { s with clockReads := s.clockReads + 1 }) ⟨rfl, rfl⟩ ?_
  rintro _ _ ⟨rfl, rfl⟩
  let t : Session := { s with clockReads := s.clockReads + 1 }
  have hidle : Asks env [] s t := Idle.asks ⟨⟨rfl, rfl, rfl, rfl, rfl⟩, rfl, rfl⟩
  rw [ends_bind, ends_get]
  simp only [hconn, Bool.not_true, Bool.false_eq_true, if_false]
  rw [ends_liftExcept_ok htype]
  split
  next hdue =>
    unfold updateLogon
    rw [hreset hdue.1]
    refine (sendLogon_asks henv (s := t) hconn hs hrange).mono ?_ fun _ _ hf => hf
    rintro _ u ⟨m, hm⟩
    refine ⟨[m], hidle.trans hm, fun hacceptor => ?_, fun _ => List.cons_ne_nil _ _⟩
    rw [htype, hdue.1] at hacceptor
    cases hacceptor
  next hdue =>
    have hlogon' : t.state = .logon := hlogon
    rw [ends_bind, updateTestRequest_skip (by rw [hlogon]; decide), ends_bind,
      updateLogout_skip (by rw [hlogon]; decide), updateHeartbeats_skip (s := t) (.inl hlogon')]
    exact ⟨[], hidle, fun _ => rfl, fun h => absurd ⟨h.1, hlogon, h.2⟩ hdue⟩

/-- The tick of a session that is not logged on. -/
theorem onNetworkUpdate_knocks (henv : env.Greets) {s : Session} (hlogon : s.state = .logon)
    (hconn : s.network.connected = true) (hs : s.OnTime env)
    (hrange : -2147483648 ≤ s.cache.senderSeqNum ∧ s.cache.senderSeqNum < 2147483648)
    {sessionType : SessionType} (htype : env.settings.getSessionType = .ok sessionType)
    (hreset : sessionType = .initiator → env.settings.resetSeqNumOnLogon = false) :
    ∃ ms, Knocks env (Due env s) ms s (after (onNetworkUpdate env) s) := by
  have hquiet : ∀ t, Idle s t → tickTime? env s = none → ∃ ms, Knocks env (Due env s) ms s t := by
    intro t ht hnone
    refine ⟨[], ht.asks, fun _ => rfl, ?_⟩
    rintro ⟨-, time, hmem, -⟩
    rw [hnone] at hmem
    cases hmem
  refine after_eq_of_ends (P := fun t => ∃ ms, Knocks env (Due env s) ms s t) ?_
  unfold onNetworkUpdate
  rw [ends_bind, ends_get]
  split
  next hoff =>
    refine hquiet s (Std.Refl.refl (r := Idle) s) (if_neg fun h => ?_)
    rw [h.1] at hoff
    cases hoff
  next hon =>
    refine Ends.bind (P := fun now t => now = nextMillis env s ∧
      t = { s with clockReads := s.clockReads + 1 }) ⟨rfl, rfl⟩ ?_
    rintro _ _ ⟨rfl, rfl⟩
    rw [ends_bind, ends_get]
    split
    next hclosed =>
      refine hquiet _ ⟨⟨rfl, rfl, rfl, rfl, rfl⟩, rfl, rfl⟩ (if_neg fun h => ?_)
      have hopen : 1 ≤ nextMillis env s - s.lastUpdate := h.2
      have hshut : nextMillis env s - s.lastUpdate < 1 := hclosed
      omega
    next hopen =>
      let t : Session := { s with
        clockReads := s.clockReads + 1
        lastUpdate := nextMillis env s
        cache := s.cache.flushSeqNums }
      obtain ⟨hsender, htarget, -, hqueue⟩ := s.cache.flushSeqNums_keeps
      have hstart : Asks env [] s t := {
        toSameControl := ⟨rfl, rfl, rfl, rfl, rfl⟩
        target := htarget
        queue := hqueue
        said := ⟨[], (List.append_nil _).symm, rfl⟩
        greeting := fun _ hm => absurd hm List.not_mem_nil
        series := by
          rw [show t.cache.senderSeqNum = s.cache.senderSeqNum from hsender]
          exact .nil }
      have hupdate := internalUpdate_knocks henv (s := t) hlogon hconn hs
        (by rwa [show t.cache.senderSeqNum = s.cache.senderSeqNum from hsender]) htype hreset
      rw [ends_bind, ends_modify]
      refine Ends.tryCatch (F := fun _ _ => False) ?_ fun _ _ hf => hf.elim
      rw [ends_bind, ends_modifyCache]
      refine hupdate.mono ?_ fun _ _ hf => hf
      rintro _ u ⟨ms, hms⟩
      refine ⟨ms, hstart.trans hms.toAsks, hms.acceptor, fun hdue => hms.due ?_⟩
      obtain ⟨htype', time, hmem, hinterval⟩ := hdue
      refine ⟨Except.ok.inj (htype.symm.trans htype'), ?_⟩
      unfold tickTime? at hmem
      split at hmem
      · cases hmem
        exact hinterval
      · cases hmem

/-! ## Accepting a logon -/

/-- From `s` to `t` the session accepted a logon, and answered with these logons. -/
structure Welcomed (env : Env) (interval : Int) (ms : List Message) (s t : Session) : Prop where
  state : t.state = .ready
  network : t.network = s.network
  target : t.cache.targetSeqNum = i32 (s.cache.targetSeqNum + 1)
  queue : t.cache.inboundQueue = s.cache.inboundQueue
  said : Said s ms t
  greeting : ∀ m ∈ ms, ∃ i, Greeting env i m
  series : Series s.cache.senderSeqNum ms t.cache.senderSeqNum
  initiator : env.settings.getSessionType = .ok .initiator →
    t.heartbeatInterval = s.heartbeatInterval ∧ ms = []
  acceptor : env.settings.getSessionType = .ok .acceptor →
    t.heartbeatInterval = i32 interval * 1000 ∧ ms ≠ []

/-- What a send may not change, and no delegate that never stops the session. -/
structure Stays (s t : Session) : Prop where
  state : t.state = s.state
  network : t.network = s.network
  heartbeatInterval : t.heartbeatInterval = s.heartbeatInterval

instance : Std.Refl Stays := ⟨fun _ => ⟨rfl, rfl, rfl⟩⟩

instance : IsTrans Session Stays where
  trans _ _ _ h h' := ⟨h'.state.trans h.state, h'.network.trans h.network,
    h'.heartbeatInterval.trans h.heartbeatInterval⟩

theorem SameControl.stays {s t : Session} (h : SameControl s t) : Stays s t :=
  ⟨h.state, h.network, h.heartbeatInterval⟩

theorem stays_send (msg : Message) : Keeps Stays (send env msg none) := fun s =>
  after_eq_of_ends ((send_ends env msg s).mono (fun _ _ ht => ht.toSameControl.stays)
    fun _ _ ht => ht.1.toSameControl.stays)

/-- A delegate that does not stop the session leaves its state and its connection. -/
theorem stays_callDelegate (hstop : ¬env.Makes .stop) {event : Session → Event}
    {callback : Delegate → Session → List DelegateCall}
    (hcallback : ∀ d u, env.delegate = some d → ∀ call ∈ callback d u, env.Makes call) :
    Keeps Stays (callDelegate env event callback) := by
  have hcall : ∀ call, env.Makes call → Keeps Stays (delegateCall env call) := by
    intro call hmakes
    cases call with
    | send msg => exact stays_send msg
    | setSenderSeqNum num => exact keeps_modify fun s => ⟨rfl, rfl, rfl⟩
    | setTargetSeqNum num => exact keeps_modify fun s => ⟨rfl, rfl, rfl⟩
    | start => exact keeps_modify fun s => ⟨rfl, rfl, rfl⟩
    | stop => exact absurd hmakes hstop
    | throw => exact keeps_throw _
  have hcalls : ∀ calls : List DelegateCall, (∀ c ∈ calls, env.Makes c) →
      Keeps Stays (delegateCalls env calls) := by
    intro calls hmakes
    induction calls with
    | nil => exact keeps_pure _
    | cons call calls ih =>
        exact keeps_bind (hcall call (hmakes call (List.mem_cons_self ..))) fun _ =>
          ih fun c hc => hmakes c (List.mem_cons_of_mem _ hc)
  unfold callDelegate
  cases hd : env.delegate with
  | none => exact keeps_pure _
  | some d =>
      refine keeps_bind keeps_get fun u => ?_
      refine keeps_bind (keeps_modify fun s => ⟨rfl, rfl, rfl⟩) fun _ => ?_
      exact keeps_bind keeps_get fun u => hcalls _ (hcallback d u hd)

/-- From `s` to `t` the session accepted a logon and told the delegate. -/
def Joins (env : Env) (interval : Int) (ms : List Message) (s t : Session) : Prop :=
  ∃ u, Welcomed env interval ms s u ∧ Speaks env u t ∧ (¬env.Makes .stop → Stays u t)

/-- What follows when a logon with the next number is not refused. -/
theorem acceptLogon_joins (henv : env.Greets) {s : Session} (hconn : s.network.connected = true)
    (hs : s.OnTime env)
    (hrange : -2147483648 ≤ s.cache.senderSeqNum ∧ s.cache.senderSeqNum < 2147483648)
    {sessionType : SessionType} (htype : env.settings.getSessionType = .ok sessionType)
    {heard : Message} (hheart : heard.body.getIntField Field.heartBtInt = .ok (i32 interval)) :
    Ends (acceptLogon env heard s.cache.targetSeqNum s.cache.targetSeqNum none false) s
      (fun _ t => ∃ ms, Joins env interval ms s t) fun _ t => ∃ ms, Joins env interval ms s t := by
  have htold : ∀ ms u, Welcomed env interval ms s u →
      Ends (callDelegate env (fun _ => .onLogon) Delegate.onLogon) u
        (fun _ t => ∃ ms, Joins env interval ms s t)
        fun _ t => ∃ ms, Joins env interval ms s t := by
    intro ms u hu
    have hmakes : ∀ d v, env.delegate = some d → ∀ call ∈ Delegate.onLogon d v, env.Makes call :=
      fun d v hd _ hc => ⟨d, hd, .inr (.inr (.inl ⟨v, hc⟩))⟩
    have hspeaks : Keeps (Speaks env) (callDelegate env (fun _ => .onLogon) Delegate.onLogon) :=
      speaks_callDelegate henv.polite hmakes fun _ => rfl
    have hstays : Keeps (fun v t => ¬env.Makes .stop → Stays v t)
        (callDelegate env (fun _ => .onLogon) Delegate.onLogon) := fun v hstop =>
      stays_callDelegate hstop hmakes v
    refine ((hspeaks.ends u).and (hstays.ends u)).mono ?_ ?_
    · exact fun _ t ht => ⟨ms, u, hu, ht⟩
    · exact fun _ t ht => ⟨ms, u, hu, ht⟩
  -- The logon was counted and answered, and the session gets ready.
  have hready : ∀ {i : Int} {ms : List Message} {u : Session},
      Asks env ms { s with cache := s.cache.nextTargetSeqNum, heartbeatInterval := i } u →
      (sessionType = .initiator → i = s.heartbeatInterval ∧ ms = []) →
      (sessionType = .acceptor → i = i32 interval * 1000 ∧ ms ≠ []) →
      Welcomed env interval ms s { u with state := .ready, events := u.events ++ [.loggedOn] } := by
    intro i ms u hu hinitiator hacceptor
    have hsilent : Said u [] { u with state := .ready, events := u.events ++ [.loggedOn] } :=
      ⟨[.loggedOn], rfl, rfl⟩
    have hsaid := hu.said.trans hsilent
    rw [List.append_nil] at hsaid
    exact {
      state := rfl
      network := hu.network
      target := hu.target
      queue := hu.queue
      said := hsaid
      greeting := fun m hm => ⟨_, hu.greeting m hm⟩
      series := hu.series
      initiator := fun h => by
        obtain ⟨hi, hms⟩ := hinitiator (Except.ok.inj (htype.symm.trans h))
        exact ⟨hu.heartbeatInterval.trans hi, hms⟩
      acceptor := fun h => by
        obtain ⟨hi, hms⟩ := hacceptor (Except.ok.inj (htype.symm.trans h))
        exact ⟨hu.heartbeatInterval.trans hi, hms⟩ }
  unfold acceptLogon consume
  rw [if_pos rfl, ends_bind, ends_modifyCache]
  refine Ends.bind (P := fun _ u => ∃ ms, Welcomed env interval ms s
    { u with state := .ready, events := u.events ++ [.loggedOn] }) ?_ ?_
  · unfold answerLogon
    rw [ends_liftExcept_ok htype]
    cases sessionType with
    | initiator =>
        refine ⟨[], hready (i := s.heartbeatInterval) (Idle.asks (Std.Refl.refl _))
          (fun _ => ⟨rfl, rfl⟩) (fun h => by cases h)⟩
    | acceptor =>
        rw [ends_liftExcept_ok hheart, ends_bind, ends_modify]
        let t : Session := { s with
          cache := s.cache.nextTargetSeqNum
          heartbeatInterval := i32 interval * 1000 }
        have hsend : Ends (sendLogon env false) t (fun _ u => ∃ m, Asks env [m] t u)
            fun _ _ => False := sendLogon_asks henv hconn hs hrange
        refine hsend.mono ?_ fun _ _ hf => hf.elim
        rintro _ u ⟨m, hm⟩
        exact ⟨[m], hready hm (fun h => by cases h) fun _ => ⟨rfl, List.cons_ne_nil _ _⟩⟩
  · rintro _ u ⟨ms, hu⟩
    rw [ends_bind, ends_setState, ends_bind, ends_record, recoverPeer, ends_bind, ends_pure,
      if_neg fun h => lt_irrefl _ h.2]
    exact htold ms _ hu

theorem handleLogon_joins (henv : env.Greets) {s : Session} (hconn : s.network.connected = true)
    (hs : s.OnTime env)
    (hrange : -2147483648 ≤ s.cache.senderSeqNum ∧ s.cache.senderSeqNum < 2147483648)
    {sessionType : SessionType} (htype : env.settings.getSessionType = .ok sessionType)
    {m heard : Message} (hheard : HeardLogon env interval m heard)
    (hseq : heard.HasSeqNum s.cache.targetSeqNum) :
    Ends (handleLogon env heard) s (fun _ t => ∃ ms, Joins env interval ms s t)
      fun _ t => ∃ ms, Joins env interval ms s t := by
  have hflag : ∀ tag, tag ∉ logonTags → isIgnoredTag tag = false →
      heard.body.tryGetBool tag = false := by
    intro tag htag hplain
    rw [FieldMap.tryGetBool, hheard.absent tag htag hplain]
    rfl
  have hnext : Ends (logonNextExpected env heard) s (fun r t => r = some none ∧ t = s)
      fun _ _ => False := by
    have hhas : heard.body.has Field.nextExpectedMsgSeqNum = false := by
      rw [FieldMap.has_eq, hheard.absent _ (by decide) rfl]
      rfl
    unfold logonNextExpected
    rw [hhas]
    exact ⟨rfl, rfl⟩
  have hreset : Ends (logonReset env heard) s (fun r t => r = some false ∧ t = s)
      fun _ _ => False := by
    unfold logonReset
    rw [hflag Field.resetSeqNumFlag (by decide) rfl]
    exact ⟨rfl, rfl⟩
  unfold handleLogon
  have htest : ¬(heard.body.tryGetBool Field.testMessageIndicator ≠ env.settings.isTest) := by
    rw [hflag Field.testMessageIndicator (by decide) rfl, henv.test]
    exact not_not.mpr rfl
  rw [if_neg htest, ends_liftExcept_ok hseq, ends_bind, ends_getTargetSeqNum,
    if_neg fun h => lt_irrefl _ h.2]
  refine Ends.bind (hnext.mono (fun _ _ h => h) fun _ _ hf => hf.elim) ?_
  rintro _ _ ⟨rfl, rfl⟩
  refine Ends.bind (hreset.mono (fun _ _ h => h) fun _ _ hf => hf.elim) ?_
  rintro _ _ ⟨rfl, rfl⟩
  exact acceptLogon_joins henv hconn hs hrange htype hheard.heartBtInt

/-- Before the logon nothing was said. -/
theorem Joins.since {ms : List Message} {s t u : Session} (h : Joins env interval ms t u)
    (hnetwork : t.network = s.network) (hcache : t.cache = s.cache)
    (hheart : t.heartbeatInterval = s.heartbeatInterval) (hsaid : Said s [] t) :
    Joins env interval ms s u := by
  obtain ⟨v, hv, hspeaks⟩ := h
  refine ⟨v, ?_, hspeaks⟩
  exact {
    state := hv.state
    network := hv.network.trans hnetwork
    target := by rw [hv.target, hcache]
    queue := by rw [hv.queue, hcache]
    said := hsaid.trans hv.said
    greeting := hv.greeting
    series := by
      rw [← hcache]
      exact hv.series
    initiator := fun htype => by
      rw [← hheart]
      exact hv.initiator htype
    acceptor := hv.acceptor }

/-- What follows the logon is said by a session that is logged on. -/
theorem Joins.later {ms : List Message} {s t u : Session} (h : Joins env interval ms s t)
    (hspeaks : Speaks env t u) (hstays : Stays t u) : Joins env interval ms s u := by
  obtain ⟨v, hv, hvt, hstop⟩ := h
  exact ⟨v, hv, IsTrans.trans v t u hvt hspeaks, fun hnever =>
    IsTrans.trans v t u (hstop hnever) hstays⟩

theorem Joins.queue {ms : List Message} {s t : Session} (h : Joins env interval ms s t) :
    t.cache.inboundQueue = s.cache.inboundQueue := by
  obtain ⟨v, hv, hvt, -⟩ := h
  exact hvt.queue.trans hv.queue

/-- A session that waits for a logon, or is logged on. -/
def Listening (s : Session) : Prop := s.state = .logon ∨ s.Talking

theorem Listening.state_ne {s : Session} (h : s.Listening) :
    s.state ≠ .killing ∧ s.state ≠ .logout := by
  rcases h with h | h | h
  · rw [h]
    decide
  · rw [h]
    decide
  · rw [h]
    decide

theorem HeardLogon.valid {heard : Message} (h : HeardLogon env interval m heard) {s : Session}
    (hlistens : s.Listening) (hintime : InTime env s m) :
    Valid env s.state heard (nextMillis env s) := by
  obtain ⟨v, hv, htime⟩ := hintime
  refine ⟨h.peer, ⟨v, FieldMap.getField_eq.mpr (h.sendingTime.trans hv), htime⟩, fun hdup => ?_,
    fun _ => h.type, fun hlogout => absurd hlogout hlistens.state_ne.2⟩
  rw [FieldMap.tryGetBool, h.possDupFlag] at hdup
  cases hdup

/-- The next logon of the peer, in time, is accepted. -/
theorem onNetworkMessage_joins (henv : env.Greets) {s : Session} (hlistens : s.Listening)
    (hconn : s.network.connected = true) (hqueue : s.cache.inboundQueue = .empty)
    (hrange : -2147483648 ≤ s.cache.senderSeqNum ∧ s.cache.senderSeqNum < 2147483648)
    (htarget : -2147483648 ≤ s.cache.targetSeqNum ∧ s.cache.targetSeqNum < 2147483648)
    {sessionType : SessionType} (htype : env.settings.getSessionType = .ok sessionType)
    (hpeer : peer.settings.Clean) (hmirror : Mirrored peer.settings env.settings)
    (hgreeting : Greeting peer interval m)
    (hseq : m.header.field? Field.msgSeqNum = some (toChars s.cache.targetSeqNum))
    (hintime : InTime env s m) :
    ∃ ms, Joins env interval ms s (after (onNetworkMessage env (m.toString true)) s) := by
  obtain ⟨heard, hheard⟩ := hgreeting.heard hpeer henv hmirror
  have hnumber : heard.HasSeqNum s.cache.targetSeqNum := FieldMap.getIntField_eq.mpr
    ⟨_, hheard.msgSeqNum.trans hseq, FieldMap.intOf_toChars htarget.1 htarget.2⟩
  let t : Session := { entered env s with
    events := s.events ++ [.process heard s.cache.targetSeqNum] }
  have hjoins : ∀ u, (∃ ms, Joins env interval ms t u) → ∃ ms, Joins env interval ms s u := by
    rintro u ⟨ms, hms⟩
    exact ⟨ms, hms.since rfl rfl rfl ⟨_, rfl, rfl⟩⟩
  have hprocess : Ends (processMessage env heard (nextMillis env s)) (entered env s)
      (fun _ u => ∃ ms, Joins env interval ms s u) fun _ u => ∃ ms, Joins env interval ms s u := by
    have hchecks : Ends (validateMessage env heard MsgType.logon (nextMillis env s)) t
        (fun ok u => ok = true ∧ u = t) fun _ _ => False :=
      validateMessage_passes hheard.type (hheard.valid hlistens hintime) hnumber
    have hlogon : Ends (handleLogon env heard) t (fun _ u => ∃ ms, Joins env interval ms t u)
        fun _ u => ∃ ms, Joins env interval ms t u :=
      handleLogon_joins henv (s := t) hconn (.inr ⟨s.clockReads, rfl⟩) hrange htype hheard hnumber
    unfold processMessage
    rw [ends_bind, ends_getTargetSeqNum, ends_bind, ends_record, ends_liftExcept_ok hheard.type]
    refine Ends.bind (hchecks.mono (fun _ _ h => h) fun _ _ hf => hf.elim) ?_
    rintro _ _ ⟨rfl, rfl⟩
    rw [if_pos rfl]
    unfold dispatchMessage
    rw [if_neg (by decide), if_pos rfl]
    exact hlogon.mono (fun _ u hu => hjoins u hu) fun _ u hu => hjoins u hu
  have hclear : ∀ u, (∃ ms, Joins env interval ms s u) →
      ∃ ms, Joins env interval ms s { u with cachedEpochUs := 0 } := by
    rintro u ⟨ms, hms⟩
    exact ⟨ms, hms.later (Booked.speaks ⟨rfl, rfl, rfl, rfl⟩) ⟨rfl, rfl, rfl⟩⟩
  refine after_eq_of_ends (P := fun u => ∃ ms, Joins env interval ms s u) ?_
  unfold onNetworkMessage
  rw [ends_bind, ends_get, if_neg hlistens.state_ne.1]
  refine Ends.tryCatch (F := fun _ u => ∃ ms, Joins env interval ms s u) ?_ fun e u hu => ?_
  · rw [ends_liftExcept_ok hheard.parse]
    refine handleParsed_ends (hprocess.mono (fun _ u hu => ?_) fun _ _ hu => hu)
    obtain ⟨ms, hms⟩ := hu
    refine (drainQueue_empty _ _ (hms.queue.trans hqueue)).mono ?_ fun _ _ hf => hf.elim
    rintro _ _ rfl
    exact hclear _ ⟨ms, hms⟩
  · cases e with
    | undefined what => exact hu
    | _ => exact hclear u hu

end Session

end OpenFix
