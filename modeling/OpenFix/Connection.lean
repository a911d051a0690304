import OpenFix.Inbound
import OpenFix.Lib.Run
import OpenFix.Step

/-!
# Connections and logons

A session reads four kinds of input: a connection is established, or lost, or a
message comes in, or the timer ticks.  The state LOGON is what keeps a message
out that comes before the logon, and only a tick or `terminate` returns a
session to it.  A connection that is established before that finds the session
in the state the connection before it left.

`Guarded` is the invariant of the runs in which this does not happen: a session
is in the state LOGON or KILLING until a logon is accepted.
-/

namespace OpenFix

open Effect Run

/-- What a session reads. -/
inductive Input where
  | connected (fd : Nat)
  | disconnected
  | inbound (text : Bytes)
  | tick

/-- What an event makes of whether a logon was accepted on the connection. -/
def Event.logsOn (on : Bool) : Event → Bool
  | .connect _ => false
  | .loggedOn => true
  | _ => on

/-- Whether a logon was accepted since the last connection was opened. -/
def loggedOn (ev : List Event) : Bool := ev.foldl Event.logsOn false

theorem loggedOn_append {ev ev' : List Event} (h : loggedOn ev = true)
    (h' : ∀ e ∈ ev', e.OnConnection) : loggedOn (ev ++ ev') = true := by
  induction ev' generalizing ev with
  | nil => rwa [List.append_nil]
  | cons e ev' ih =>
      have hstep : loggedOn (ev ++ [e]) = true := by
        have he := h' e (List.mem_cons_self ..)
        rw [loggedOn, List.foldl_append]
        cases e with
        | connect fd => exact he.elim
        | loggedOn => rfl
        | _ => exact h
      rw [List.append_cons]
      exact ih hstep fun e he => h' e (List.mem_cons_of_mem _ he)

namespace Session

/-- What a session does with an input. -/
def input (env : Env) : Input → SessionM Unit
  | .connected fd => onConnected fd
  | .disconnected => onDisconnected
  | .inbound text => onNetworkMessage env text
  | .tick => onNetworkUpdate env

/-- The state after an input. -/
def next (env : Env) (i : Input) (s : Session) : Session := after (input env i) s

/-- In a step from `s` to `t`, a message other than a logon that is processed before
a logon was accepted on the connection leaves the target number as it is, and nothing
but output follows it. -/
def LogonFirst (s t : Session) : Prop :=
  ∀ pre msg target post, t.events = s.events ++ pre ++ .process msg target :: post →
    ¬msg.HasType MsgType.logon → loggedOn (s.events ++ pre) = false →
      t.cache.targetSeqNum = target ∧ ∀ e ∈ post, e.IsOutput

/-- SendingTime, if present, is within the threshold at a time in milliseconds. -/
def Timely (env : Env) (msg : Message) (time : Int) : Prop :=
  ∀ v, msg.header.getField Field.sendingTime = .ok v →
    |time - parseUTCTimestamp v| ≤ env.settings.sendingTimeThreshold * 1000

/-- A message that gets as far as these checks passes them. -/
def LogsOnCleanly (env : Env) (msg : Message) (time : Int) : Prop :=
  msg.header.has Field.msgSeqNum = true → FromPeer env msg → Timely env msg time ∧
    (msg.HasType MsgType.logon →
      msg.body.tryGetBool Field.testMessageIndicator = env.settings.isTest)

/-- The first message of the queue is still to come. -/
def QueueAhead (s : Session) : Prop :=
  ∀ head, s.cache.inboundQueue.min? = some head → head.1 ≠ s.cache.targetSeqNum

/-- An input that leaves the state LOGON to the logon: a connection is established
only in the states LOGON and KILLING, and before the logon no message makes the
session log out cleanly or finds another one waiting. -/
def Orderly (env : Env) (s : Session) : Input → Prop
  | .connected _ => s.state = .logon ∨ s.state = .killing
  | .inbound text => s.state = .logon → loggedOn s.events = false →
      QueueAhead s ∧ ∀ msg, env.dictionary.parse env.settings text = .ok msg →
        LogsOnCleanly env msg (nextMillis env s)
  | .disconnected | .tick => True

/-! ## Steps that process no message before the logon -/

theorem logonFirst_of_startsNone {s t : Session} (h : Records Event.StartsNone s t) :
    LogonFirst s t := by
  intro pre msg target post heq
  obtain ⟨ev, hev, hnone⟩ := h
  rw [hev, List.append_assoc] at heq
  have hmem : Event.process msg target ∈ ev := by
    rw [List.append_cancel_left heq]
    exact List.mem_append_right pre (List.mem_cons_self ..)
  exact (hnone _ hmem).elim

theorem logonFirst_of_loggedOn {s t : Session} (hs : loggedOn s.events = true)
    (h : Records Event.OnConnection s t) : LogonFirst s t := by
  intro pre msg target post heq _ hoff
  obtain ⟨ev, hev, hall⟩ := h
  rw [hev, List.append_assoc] at heq
  have hpre : loggedOn (s.events ++ pre) = true := loggedOn_append hs fun e he => hall e (by
    rw [List.append_cancel_left heq]
    exact List.mem_append_left _ he)
  rw [hpre] at hoff
  cases hoff

/-! ## The invariant -/

/-- Before the logon the session is in the state LOGON or KILLING. -/
def Guarded (s : Session) : Prop :=
  s.state = .logon ∨ s.state = .killing ∨ loggedOn s.events = true

/-- The step keeps the invariant. -/
def KeepsGuard (s t : Session) : Prop := Guarded s → Guarded t

theorem Guarded.of_loggedOn {s t : Session} (hs : loggedOn s.events = true)
    (h : Records Event.OnConnection s t) : Guarded t := by
  obtain ⟨ev, hev, hall⟩ := h
  exact .inr (.inr (hev ▸ loggedOn_append hs hall))

theorem Guarded.of_eq {s t : Session} (h : Guarded s) (hstate : t.state = s.state)
    (hev : Records Event.OnConnection s t) : Guarded t := by
  rcases h with h | h | h
  · exact .inl (hstate.trans h)
  · exact .inr (.inl (hstate.trans h))
  · exact .of_loggedOn h hev

theorem onConnection : OpenToHandling (Records Event.OnConnection) :=
  records_handling fun _ => Event.IsHandling.onConnection

theorem onConnection_inbound (env : Env) (text : Bytes) :
    Keeps (Records Event.OnConnection) (onNetworkMessage env text) :=
  (onConnection.inbound env).onNetworkMessage
    (fun s msg k => records_event (e := .onMessage msg k) trivial s)
    (fun s msg k => records_event (e := .process msg k) trivial s) text

instance : Std.Refl KeepsGuard := ⟨fun _ h => h⟩

instance : IsTrans Session KeepsGuard := ⟨fun _ _ _ h h' hs => h' (h hs)⟩

theorem keepsGuard_record {e : Event} (he : e.OnConnection) (s : Session) :
    KeepsGuard s { s with events := s.events ++ [e] } := fun hs =>
  hs.of_eq rfl (records_event he s)

theorem guard : OpenToSending KeepsGuard where
  refl := Std.Refl.refl
  trans := IsTrans.trans
  book h hs := hs.of_eq h.state (.of_eq h.events)
  cache _ hs := hs
  transmit s fd msg := keepsGuard_record (e := .transmit fd msg) trivial s
  dropInvalid _ _ hs := hs
  disconnect := by
    unfold networkDisconnect
    refine keeps_bind keeps_get fun s => keeps_bind (keeps_modify fun s hs => hs) fun _ => ?_
    cases s.network.connection with
    | none => exact keeps_pure _
    | some fd =>
        exact keeps_ite (fun _ => keeps_modify (keepsGuard_record (e := .disconnect fd) trivial))
          fun _ => keeps_pure _
  terminate reason := by
    intro s _
    refine .inl (after_eq_of_ends (P := fun t : Session => t.state = .logon) ?_)
    exact (terminate_ends reason s).mono (fun _ _ h => h.1) fun _ _ h => h.elim
  kill _ _ := .inr (.inl rfl)
  stopped _ hs := hs
  flush _ hs := hs

/-! ## A message in the state LOGON -/

/-- A timely message is not answered with a clean logout. -/
theorem validateTimes_ends {env : Env} {msg : Message} {time : Int} (htime : Timely env msg time)
    {s : Session} (hs : Guarded s) :
    Ends (validateTimes env msg time) s (fun ok t => Guarded t ∧ (ok = true → t = s))
      fun _ => Guarded := by
  unfold validateTimes
  refine Ends.bind (ends_liftExcept (Q := fun v t => msg.header.getField Field.sendingTime = .ok v ∧
    t = s) (fun v hv => ⟨hv, rfl⟩) fun _ _ => hs) ?_
  rintro sendingTime t ⟨hsending, rfl⟩
  rw [if_neg (not_lt.mpr (htime sendingTime hsending))]
  split
  next =>
    have hreject := (guard.sendReject env msg .requiredTagMissing []).ends t
    exact Ends.bind (hreject.mono (fun _ _ h => h hs) fun _ _ h => h hs)
      fun _ u hu => ⟨hu, fun h => Bool.noConfusion h⟩
  next => exact ⟨hs, fun _ => rfl⟩

theorem validateState_ends {env : Env} {msgType : Bytes} {s : Session} (hs : s.state = .logon) :
    Ends (validateState env msgType) s
      (fun ok t => Guarded t ∧ (ok = true → t = s ∧ msgType = MsgType.logon)) fun _ => Guarded := by
  have hguard : Guarded s := .inl hs
  unfold validateState
  rw [ends_bind, ends_get]
  split
  next =>
    have hlogout := (guard.logoutTerminal env
      (ascii "Received unexpected MsgType(35) during logon state: " ++ msgType)).ends s
    exact Ends.bind (hlogout.mono (fun _ _ h => h hguard) fun _ _ h => h hguard)
      fun _ u hu => ⟨hu, fun h => Bool.noConfusion h⟩
  next hlogon =>
    rw [if_neg (by simp [hs])]
    refine ⟨hguard, fun _ => ⟨rfl, ?_⟩⟩
    by_contra hne
    exact hlogon ⟨hs, hne⟩

/-- In the state LOGON only a logon with the right indicator passes, and it finds the
session as it was. -/
theorem validateMessage_ends {env : Env} {msg : Message} {msgType : Bytes} {time : Int}
    (hclean : LogsOnCleanly env msg time) (htype : msg.HasType msgType) {s : Session}
    (hs : s.state = .logon) :
    Ends (validateMessage env msg msgType time) s
      (fun ok t => Guarded t ∧ (ok = true → t = s ∧ msgType = MsgType.logon ∧
        msg.body.tryGetBool Field.testMessageIndicator = env.settings.isTest))
      fun _ => Guarded := by
  have hguard : Guarded s := .inl hs
  unfold validateMessage
  split
  next =>
    have hlogout := (guard.logoutTerminal env (ascii "Message missing MsgSeqNum(34)")).ends s
    exact Ends.bind (hlogout.mono (fun _ _ h => h hguard) fun _ _ h => h hguard)
      fun _ u hu => ⟨hu, fun h => Bool.noConfusion h⟩
  next hseq =>
    refine Ends.bind (validateCompIDs_ends
      (Q := fun ok t => Guarded t ∧ (ok = true → FromPeer env msg ∧ t = s)) (fun reason => ?_)
      (fun _ _ _ => hguard) fun hpeer => ⟨hguard, fun _ => ⟨hpeer, rfl⟩⟩) ?_
    · exact ((guard.fail env reason).ends s).mono
        (fun _ _ h => ⟨h hguard, fun h => Bool.noConfusion h⟩) fun _ _ h => h hguard
    rintro ok t ⟨ht, hok⟩
    cases ok with
    | false => exact ⟨ht, fun h => Bool.noConfusion h⟩
    | true =>
        obtain ⟨hpeer, rfl⟩ := hok rfl
        obtain ⟨htime, htest⟩ := hclean (by simpa using hseq) hpeer
        refine Ends.bind ((validateTimes_ends htime hguard).mono (fun _ _ h => h) fun _ _ h => h) ?_
        rintro ok u ⟨hu, hsame⟩
        cases ok with
        | false => exact ⟨hu, fun h => Bool.noConfusion h⟩
        | true =>
            obtain rfl := hsame rfl
            refine (validateState_ends hs).mono (fun ok v hv => ⟨hv.1, fun h => ?_⟩) fun _ _ h => h
            obtain ⟨rfl, rfl⟩ := hv.2 h
            exact ⟨rfl, rfl, htest htype⟩

/-- An accepted logon leaves the session logged on. -/
theorem acceptLogon_guard (env : Env) (msg : Message) (seqNum expected : Int)
    (recovery : Option Int) (shouldReset : Bool) {s : Session} (hs : Guarded s) :
    Ends (acceptLogon env msg seqNum expected recovery shouldReset) s
      (fun _ t => loggedOn t.events = true) fun _ => Guarded := by
  unfold acceptLogon
  have hconsume : Keeps KeepsGuard (consume seqNum expected) :=
    keeps_ite (fun _ => keeps_modify fun _ h => h) fun _ => keeps_pure _
  refine Ends.bind ((hconsume.ends s).mono (fun _ _ h => h hs) fun _ _ h => h hs) ?_
  rintro _ t ht
  have hanswer := (guard.answerLogon env msg shouldReset).ends t
  refine Ends.bind (hanswer.mono (fun _ _ h => h ht) fun _ _ h => h ht) ?_
  rintro _ u -
  rw [ends_bind, ends_setState, ends_bind, ends_record]
  generalize hv : ({ u with state := .ready, events := u.events ++ [.loggedOn] } : Session) = v
  have hon : loggedOn v.events = true := by
    subst hv
    simp [loggedOn, Event.logsOn]
  have hrest : Keeps (Records Event.OnConnection) (do
      recoverPeer env recovery
      if !env.settings.sendNextExpectedMsgSeqNum ∧ expected < seqNum then
        sendResendRequest env expected 0
      else callDelegate env (fun _ => .onLogon) Delegate.onLogon) := by
    refine keeps_bind (onConnection.recoverPeer env recovery) fun _ => ?_
    refine keeps_ite (fun _ => onConnection.sendResendRequest env _ _) fun _ => ?_
    exact (onConnection.inbound env).callbacks.callOnLogon
  refine (hrest.ends v).mono (fun _ w hw => ?_) fun _ w hw => .of_loggedOn hon hw
  obtain ⟨ev, hev, hall⟩ := hw
  exact hev ▸ loggedOn_append hon hall

/-- A logon with the right indicator logs the session on, or is refused. -/
theorem handleLogon_guard {env : Env} {msg : Message}
    (htest : msg.body.tryGetBool Field.testMessageIndicator = env.settings.isTest) {s : Session}
    (hs : Guarded s) :
    Ends (handleLogon env msg) s
      (fun _ t => loggedOn t.events = true ∨ (Quiet s t ∧ Guarded t)) fun _ => Guarded := by
  have hrefuse : ∀ {u : Session} {reason : Bytes}, Quiet s u → Guarded u →
      Ends (logout env reason true) u
        (fun _ t => loggedOn t.events = true ∨ (Quiet s t ∧ Guarded t)) fun _ => Guarded := by
    intro u reason hq hu
    have hlogout := ((quiet_logout env reason true).ends u).keeps (guard.logoutTerminal env reason)
    exact hlogout.mono (fun _ t ht => .inr ⟨Change.then hq ht.1, ht.2 hu⟩) fun _ t ht => ht.2 hu
  unfold handleLogon
  rw [if_neg (not_not.mpr htest)]
  refine Ends.bind (ends_liftExcept (Q := fun _ t => t = s) (fun _ _ => rfl) fun _ _ => hs) ?_
  rintro seqNum t rfl
  rw [ends_bind, ends_getTargetSeqNum]
  split
  next => exact hrefuse (Std.Refl.refl t) hs
  next =>
    have hnext := ((quiet.logonNextExpected env msg).ends t).keeps (guard.logonNextExpected env msg)
    refine Ends.bind (P := fun _ u => Quiet t u ∧ Guarded u)
      (hnext.mono (fun _ _ h => ⟨h.1, h.2 hs⟩) fun _ _ h => h.2 hs) ?_
    rintro recovery u ⟨hq, hu⟩
    cases recovery with
    | none => exact .inr ⟨hq, hu⟩
    | some recovery =>
        have hreset : Keeps KeepsGuard (logonReset env msg) := by
          unfold logonReset
          refine keeps_ite (fun _ => keeps_ite (fun _ => ?_) fun _ => ?_) fun _ => keeps_pure _
          · exact keeps_bind (guard.logoutTerminal env _) fun _ => keeps_pure _
          · refine keeps_bind (keeps_bind ?_ fun _ => ?_) fun _ => keeps_pure _
            · exact keeps_modify (keepsGuard_record (e := .reset) trivial)
            · exact keeps_modify fun _ h => h
        refine Ends.bind (((logonReset_ends env msg u).keeps hreset).mono (fun _ _ h => h)
          fun _ _ h => h.2 hu) ?_
        rintro answer v ⟨hanswer, hv⟩
        cases answer with
        | none => exact .inr ⟨Change.then hq hanswer, hv hu⟩
        | some shouldReset =>
            have hacc := acceptLogon_guard env msg seqNum t.cache.targetSeqNum recovery shouldReset
              (hv hu)
            exact hacc.mono (fun _ _ h => .inl h) fun _ _ h => h

theorem isHandling : OpenToHandling (Records Event.IsHandling) := records_handling fun _ h => h

/-- A message in the state LOGON is a logon or is refused, and starts no other. -/
theorem processMessage_guard {env : Env} {msg : Message} {time : Int}
    (hclean : LogsOnCleanly env msg time) {s : Session} (hs : s.state = .logon) :
    Ends (processMessage env msg time) s
      (fun _ t => (loggedOn t.events = true ∨
          (Quiet { s with events := s.events ++ [.process msg s.cache.targetSeqNum] } t ∧ Guarded t)) ∧
        Records Event.IsHandling
          { s with events := s.events ++ [.process msg s.cache.targetSeqNum] } t ∧
        (¬msg.HasType MsgType.logon →
          Quiet { s with events := s.events ++ [.process msg s.cache.targetSeqNum] } t))
      fun _ t => Guarded t ∧ Records Event.IsHandling
          { s with events := s.events ++ [.process msg s.cache.targetSeqNum] } t ∧
        (¬msg.HasType MsgType.logon →
          Quiet { s with events := s.events ++ [.process msg s.cache.targetSeqNum] } t) := by
  unfold processMessage
  rw [ends_bind, ends_getTargetSeqNum, ends_bind, ends_record]
  generalize hu : ({ s with
    events := s.events ++ [.process msg s.cache.targetSeqNum] } : Session) = u
  have hstate : u.state = .logon := by
    subst hu
    exact hs
  refine Ends.bind (ends_liftExcept (Q := fun t v => msg.HasType t ∧ v = u)
    (fun t ht => ⟨ht, rfl⟩) ?_) ?_
  · exact fun _ _ => ⟨.inl hstate, Std.Refl.refl u, fun _ => Std.Refl.refl u⟩
  rintro msgType v ⟨htype, rfl⟩
  have hvalid := (validateMessage_ends hclean htype hstate).and
    ((quiet_validateMessage env msg msgType time).ends v)
  have hrecords : ∀ {t}, Quiet v t → Records Event.IsHandling v t := fun h =>
    Records.mono h.events fun _ => Event.IsOutput.isHandling
  refine Ends.bind (hvalid.mono (fun _ _ h => h) fun _ t h => ⟨h.1, hrecords h.2, fun _ => h.2⟩) ?_
  rintro ok t ⟨⟨ht, hpass⟩, hq⟩
  cases ok with
  | false => exact ⟨.inr ⟨hq, ht⟩, hrecords hq, fun _ => hq⟩
  | true =>
      obtain ⟨rfl, rfl, htest⟩ := hpass rfl
      have hlogon := (handleLogon_guard htest ht).keeps ((isHandling.inbound env).handleLogon msg)
      exact hlogon.mono (fun _ _ h => ⟨h.1, h.2, fun hno => (hno htype).elim⟩)
        fun _ _ h => ⟨h.1, h.2, fun hno => (hno htype).elim⟩

/-- The loop over the queue does nothing while its first message is still to come. -/
theorem drainQueue_ahead (env : Env) (time : Int) {s : Session} (h : QueueAhead s) :
    ∀ fuel, (drainQueue env time fuel).run s = .ok () s
  | 0 => rfl
  | fuel + 1 => by
      have hget : (get : SessionM Session).run s = .ok s s := rfl
      unfold drainQueue
      rw [EStateM.run_bind, hget]
      cases hmin : s.cache.inboundQueue.min? with
      | none => simp only [hmin]; rfl
      | some head =>
          simp only [hmin]
          rw [if_neg (h head hmin).symm]
          rfl

/-! ## The inputs -/

/-- What the invariant and the property look at in a later state. -/
structure SameView (s t : Session) : Prop where
  state : t.state = s.state
  events : t.events = s.events
  target : t.cache.targetSeqNum = s.cache.targetSeqNum

theorem Guarded.of_sameView {s t : Session} (hs : Guarded s) (h : SameView s t) : Guarded t :=
  hs.of_eq h.state (.of_eq h.events)

theorem LogonFirst.of_sameView {s t u : Session} (h : LogonFirst s t) (hu : SameView t u) :
    LogonFirst s u := by
  intro pre msg target post heq hlogon hoff
  rw [hu.events] at heq
  rw [hu.target]
  exact h pre msg target post heq hlogon hoff

/-- A refused message is the only one of its step. -/
theorem logonFirst_of_refused {s u t : Session} {msg : Message}
    (hu : u.events = s.events ++ [.process msg u.cache.targetSeqNum]) (h : Quiet u t) :
    LogonFirst s t := by
  intro pre m target post heq _ _
  obtain ⟨ev, hev, hout⟩ := h.events
  rw [hev, hu, List.append_assoc, List.append_assoc] at heq
  have heq := List.append_cancel_left heq
  cases pre with
  | nil =>
      obtain ⟨hhead, rfl⟩ := List.cons.inj heq
      obtain ⟨-, rfl⟩ := Event.process.inj hhead
      exact ⟨h.target, hout⟩
  | cons e pre =>
      obtain ⟨-, rfl⟩ := List.cons.inj heq
      exact (hout _ (List.mem_append_right pre (List.mem_cons_self ..))).elim

/-- After a logon that was accepted, or before another message starts, the logon was
first. -/
theorem logonFirst_of_logon {s u t v : Session} {msg : Message} {k : Int}
    (hu : u.events = s.events ++ [.process msg k]) (hlogon : msg.HasType MsgType.logon)
    (h : Records Event.IsHandling u t)
    (hv : Records Event.OnConnection t v ∧ loggedOn t.events = true ∨ v.events = t.events) :
    LogonFirst s v := by
  intro pre m target post heq hno hoff
  obtain ⟨ev, hev, hhandling⟩ := h
  -- The message is not the logon, and none starts while it is handled.
  have hrest : ∀ ev', v.events = t.events ++ ev' → ∃ pre', pre = .process msg k :: ev ++ pre' ∧
      ev' = pre' ++ .process m target :: post := by
    intro ev' hev'
    rw [hev', hev, hu, List.append_assoc, List.append_assoc, List.append_assoc] at heq
    have heq := List.append_cancel_left heq
    rw [← List.append_assoc] at heq
    rcases split_append heq with ⟨post', hpost, -⟩ | ⟨pre', rfl, hpre⟩
    · cases pre with
      | nil =>
          obtain ⟨hhead, -⟩ := List.cons.inj hpost
          obtain ⟨rfl, -⟩ := Event.process.inj hhead
          exact (hno hlogon).elim
      | cons e pre =>
          obtain ⟨-, rfl⟩ := List.cons.inj hpost
          exact (hhandling _ (List.mem_append_right pre (List.mem_cons_self ..))).elim
    · exact ⟨pre', rfl, hpre⟩
  rcases hv with ⟨⟨ev', hev', hconn⟩, hon⟩ | hsame
  · obtain ⟨pre', rfl, rfl⟩ := hrest ev' hev'
    have hpre : loggedOn (t.events ++ pre') = true := loggedOn_append hon fun e he =>
      hconn e (List.mem_append_left _ he)
    rw [hev, hu] at hpre
    simp only [List.append_assoc, List.cons_append, List.nil_append] at hpre hoff
    rw [hpre] at hoff
    cases hoff
  · obtain ⟨pre', -, hnil⟩ := hrest [] (by simpa using hsame)
    cases pre' with
    | nil => cases hnil
    | cons e pre' => cases hnil

/-- What a step has to show: the invariant and the property. -/
def Outcome (s t : Session) : Prop := Guarded t ∧ LogonFirst s t

theorem Outcome.of_sameView {s t u : Session} (h : Outcome s t) (hu : SameView t u) : Outcome s u :=
  ⟨h.1.of_sameView hu, h.2.of_sameView hu⟩

/-- A message that comes in the state LOGON keeps the invariant and has the property. -/
theorem handleParsed_guard {env : Env} {msg : Message} {s : Session}
    (hclean : LogsOnCleanly env msg (nextMillis env s)) (hstate : s.state = .logon)
    (hahead : QueueAhead s) :
    Ends (handleParsed env msg) s (fun _ => Outcome s) fun _ => Outcome s := by
  generalize hu : ({ entered env s with
    events := s.events ++ [.process msg s.cache.targetSeqNum] } : Session) = u
  have hevents : u.events = s.events ++ [.process msg u.cache.targetSeqNum] := by
    subst hu
    rfl
  have hprocess := processMessage_guard (s := entered env s) hclean hstate
  rw [show ({ entered env s with
    events := (entered env s).events ++ [.process msg (entered env s).cache.targetSeqNum] } :
      Session) = u from hu] at hprocess
  have hrefused : ∀ t, Quiet u t → QueueAhead t := by
    intro t ht head hmin
    rw [ht.target]
    rw [ht.queue] at hmin
    subst hu
    exact hahead head hmin
  refine handleParsed_ends (hprocess.mono (fun _ t h => ?_) fun _ t h => ⟨h.1, ?_⟩)
  · obtain ⟨hend, hrecords, hother⟩ := h
    -- A refused message leaves the queue alone, and the loop stops at once.
    have hidle : Quiet u t → Guarded t → LogonFirst s t →
        Ends (drainQueue env (nextMillis env s) (t.cache.inboundQueue.entries.length + 1)) t
          (fun _ v => Outcome s { v with cachedEpochUs := 0 }) fun _ => Outcome s := by
      intro hq hg hfirst
      unfold Ends
      rw [drainQueue_ahead env _ (hrefused t hq)]
      exact Outcome.of_sameView ⟨hg, hfirst⟩ ⟨rfl, rfl, rfl⟩
    by_cases hlogon : msg.HasType MsgType.logon
    · rcases hend with hon | ⟨hq, hg⟩
      · have hdrain : Keeps (Records Event.OnConnection)
            (drainQueue env (nextMillis env s) (t.cache.inboundQueue.entries.length + 1)) :=
          (onConnection.inbound env).drainQueue
            (fun s msg k => records_event (e := .onMessage msg k) trivial s)
            (fun s msg k => records_event (e := .process msg k) trivial s) _ _
        have hout : ∀ w, Records Event.OnConnection t w → Outcome s w := fun w hw =>
          ⟨.of_loggedOn hon hw, logonFirst_of_logon hevents hlogon hrecords (.inl ⟨hw, hon⟩)⟩
        exact (hdrain.ends t).mono (fun _ v hv => (hout v hv).of_sameView ⟨rfl, rfl, rfl⟩)
          fun _ => hout
      · exact hidle hq hg (logonFirst_of_logon hevents hlogon hrecords (.inr rfl))
    · have hq := hother hlogon
      have hg : Guarded t := hend.elim (fun hon => .inr (.inr hon)) fun h => h.2
      exact hidle hq hg (logonFirst_of_refused hevents hq)
  · by_cases hlogon : msg.HasType MsgType.logon
    · exact logonFirst_of_logon hevents hlogon h.2.1 (.inr rfl)
    · exact logonFirst_of_refused hevents (h.2.2 hlogon)

/-- A message that comes in keeps the invariant and has the property. -/
theorem onNetworkMessage_guard {env : Env} {text : Bytes} {s : Session} (hs : Guarded s)
    (hin : Orderly env s (.inbound text)) : Outcome s (after (onNetworkMessage env text) s) := by
  by_cases hon : loggedOn s.events = true
  · have hrecords := onConnection_inbound env text s
    exact ⟨.of_loggedOn hon hrecords, logonFirst_of_loggedOn hon hrecords⟩
  have hsame : ∀ t, SameView s t → Outcome s t := fun t ht =>
    ⟨hs.of_sameView ht, logonFirst_of_startsNone (.of_eq ht.events)⟩
  refine after_eq_of_ends ?_
  unfold onNetworkMessage
  rw [ends_bind, ends_get]
  split
  next => exact hsame s ⟨rfl, rfl, rfl⟩
  next hkilling =>
    have hlogon : s.state = .logon := by
      rcases hs with h | h | h
      · exact h
      · exact (hkilling h).elim
      · exact (hon h).elim
    obtain ⟨hahead, hclean⟩ := hin hlogon (by simpa using hon)
    refine Ends.tryCatch (F := fun _ => Outcome s) ?_ fun e t ht => ?_
    · refine Ends.bind (ends_liftExcept (Q := fun msg t =>
        env.dictionary.parse env.settings text = .ok msg ∧ t = s) (fun msg h => ⟨h, rfl⟩)
        fun _ _ => hsame s ⟨rfl, rfl, rfl⟩) ?_
      rintro msg t ⟨hparse, rfl⟩
      exact handleParsed_guard (hclean msg hparse) hlogon hahead
    · cases e with
      | undefined what => exact ht
      | _ => exact ht.of_sameView ⟨rfl, rfl, rfl⟩

/-- The state stays as it is. -/
def SameState (s t : Session) : Prop := t.state = s.state

instance : Std.Refl SameState := ⟨fun _ => rfl⟩

instance : IsTrans Session SameState := ⟨fun _ _ _ h h' => h'.trans h⟩

/-- A tick without a connection returns to the state LOGON before it connects. -/
theorem guard_updateDisconnected (env : Env) (time : Int) :
    Keeps KeepsGuard (updateDisconnected env time) := by
  intro s _
  refine .inl (after_eq_of_ends (P := fun t : Session => t.state = .logon) ?_)
  unfold updateDisconnected
  rw [ends_bind, ends_setState]
  have hrest : Keeps SameState (do
      let s ← get
      if s.reconnectInterval ≤ time - s.lastReconnect then do
        networkStart env
        modify fun s => { s with lastReconnect := time }
      else pure ()) := by
    refine keeps_bind keeps_get fun _ => keeps_ite (fun _ => ?_) fun _ => keeps_pure _
    exact keeps_bind (keeps_networkStart env fun _ _ => rfl) fun _ => keeps_modify fun _ => rfl
  exact (hrest.ends _).mono (fun _ _ h => h) fun _ _ h => h

/-- A session that sends heartbeats is logged on. -/
theorem guard_updateHeartbeats (env : Env) (time : Int) :
    Keeps KeepsGuard (updateHeartbeats env time) := by
  intro s hs
  by_cases hon : loggedOn s.events = true
  · exact .of_loggedOn hon ((onConnection.inbound env).updateHeartbeats time s)
  · have hno : ¬(s.state ≠ .logon ∧ s.state ≠ .logout ∧ s.state ≠ .killing) := by
      rcases hs with h | h | h
      · exact fun hne => hne.1 h
      · exact fun hne => hne.2.2 h
      · exact (hon h).elim
    have hrun : (updateHeartbeats env time).run s = .ok () s := by
      have hget : (get : SessionM Session).run s = .ok s s := rfl
      unfold updateHeartbeats
      rw [EStateM.run_bind, hget]
      simp only [if_neg hno]
      rfl
    rw [after, hrun]
    exact hs

theorem guard_onNetworkUpdate (env : Env) : Keeps KeepsGuard (onNetworkUpdate env) := by
  refine guard.onNetworkUpdate ?_ (guard_updateDisconnected env) (guard_updateHeartbeats env)
  exact keeps_bind (keeps_modify (keepsGuard_record (e := .reset) trivial)) fun _ =>
    keeps_modify fun _ h => h

/-- Every orderly input keeps the invariant and has the property. -/
theorem next_guard {env : Env} {s : Session} (hs : Guarded s) {i : Input}
    (hi : Orderly env s i) : Outcome s (next env i s) := by
  cases i with
  | connected fd =>
      refine ⟨hi.elim .inl fun h => .inr (.inl h), logonFirst_of_startsNone ?_⟩
      exact records_event (e := .connect fd) trivial s
  | disconnected => exact ⟨hs, logonFirst_of_startsNone (.of_eq rfl)⟩
  | inbound text => exact onNetworkMessage_guard hs hi
  | tick =>
      exact ⟨guard_onNetworkUpdate env s hs,
        logonFirst_of_startsNone (startsNone_onNetworkUpdate env s)⟩

/-- In every run of orderly inputs a connection is logged on before anything else. -/
theorem logon_first {env : Env} {s : Session}
    (h : Reached (Session.new env.settings) (next env) (Orderly env) s) {i : Input}
    (hi : Orderly env s i) : LogonFirst s (next env i s) := by
  have hs : Guarded s := h.invariant (P := Guarded) (.inl rfl) fun _ _ hi hs =>
    (next_guard hs hi).1
  exact (next_guard hs hi).2

/-- A text of the tests that was sent at the time of their clock. -/
theorem logsOnCleanly_test {text : Bytes}
    (hfields : (testDictionary.parse acceptorSettings text).map (fun m =>
      (m.header.getField Field.sendingTime, m.body.tryGetBool Field.testMessageIndicator)) =
        .ok (.ok (ascii "20240229-12:34:56.789"), false)) (msg : Message)
    (hparse : testDictionary.parse acceptorSettings text = .ok msg) :
    LogsOnCleanly (testEnv acceptorSettings) msg 1709210096789 := by
  rw [hparse] at hfields
  have hpair := Except.ok.inj hfields
  intro _ _
  refine ⟨fun v hv => ?_, fun _ => (Prod.mk.inj hpair).2⟩
  rw [(Prod.mk.inj hpair).1] at hv
  obtain rfl := Except.ok.inj hv
  decide +kernel

/-- The type and the target number of the message that events start with. -/
def firstProcessed : List Event → Option (Bytes × Int)
  | .process msg target :: _ => (msg.header.field? Field.msgType).map fun t => (t, target)
  | _ => none

/-- A peer logs on, and connects again after the next tick. -/
def returns : List Input :=
  [.connected 3, .inbound testLogon, .disconnected, .tick, .connected 4]

/-- The session of the tests waits for the second logon. -/
def returnedSession : Session :=
  runOf (next (testEnv acceptorSettings)) (Session.new acceptorSettings) returns

/-- The order that comes first on the second connection is not consumed. -/
theorem logon_first_test :
    LogonFirst returnedSession
        (next (testEnv acceptorSettings) (.inbound testOrder) returnedSession) ∧
      firstProcessed ((next (testEnv acceptorSettings) (.inbound testOrder)
        returnedSession).events.drop returnedSession.events.length) = some (ascii "D", 2) ∧
      (next (testEnv acceptorSettings) (.inbound testOrder)
        returnedSession).cache.targetSeqNum = 2 := by
  have htime : ∀ s : Session, nextMillis (testEnv acceptorSettings) s = 1709210096789 :=
    fun _ => (by decide : (1709210096789000 : Int).tdiv 1000 = 1709210096789)
  have hlogon : Orderly (testEnv acceptorSettings) (connectedSession acceptorSettings)
      (.inbound testLogon) := fun _ _ => by
    rw [htime]
    exact ⟨fun _ h => (by cases h), logsOnCleanly_test (by decide +kernel)⟩
  have horder : Orderly (testEnv acceptorSettings) returnedSession (.inbound testOrder) :=
    fun _ _ => by
      have hqueue : returnedSession.cache.inboundQueue.min? = none := by decide +kernel
      rw [htime]
      refine ⟨fun _ h => ?_, logsOnCleanly_test (by decide +kernel)⟩
      rw [hqueue] at h
      cases h
  have hreached : Reached (Session.new (testEnv acceptorSettings).settings)
      (next (testEnv acceptorSettings)) (Orderly (testEnv acceptorSettings)) returnedSession := by
    refine Reached.init.along ⟨.inl rfl, hlogon, trivial, trivial, ?_, trivial⟩
    exact .inl (by decide +kernel)
  exact ⟨logon_first hreached horder, by decide +kernel, by decide +kernel⟩

/-- The session after a peer logged on and connected again before the next tick. -/
def reconnectedSession : Session :=
  runOf (next (testEnv acceptorSettings)) (Session.new acceptorSettings)
    [.connected 3, .inbound testLogon, .disconnected, .connected 4]

/-- The order that comes first on the second connection is processed. -/
theorem not_logon_first : ¬∀ (env : Env) (s : Session) (i : Input),
    Reached (Session.new env.settings) (next env) (fun _ _ => True) s →
      LogonFirst s (next env i s) := by
  intro h
  have hreached : Reached (Session.new acceptorSettings) (next (testEnv acceptorSettings))
      (fun _ _ => True) reconnectedSession := Reached.init.runOf (fun _ _ => trivial) _
  have hfirst := h (testEnv acceptorSettings) reconnectedSession (.inbound testOrder) hreached
  have htarget : (next (testEnv acceptorSettings) (.inbound testOrder)
      reconnectedSession).cache.targetSeqNum = 3 := by decide +kernel
  have hprocessed : firstProcessed ((next (testEnv acceptorSettings) (.inbound testOrder)
      reconnectedSession).events.drop reconnectedSession.events.length) = some (ascii "D", 2) := by
    decide +kernel
  have hoff : loggedOn reconnectedSession.events = false := by decide +kernel
  obtain ⟨ev, hev, -⟩ := onConnection_inbound (testEnv acceptorSettings) testOrder reconnectedSession
  change (next (testEnv acceptorSettings) (.inbound testOrder) reconnectedSession).events = _ at hev
  rw [hev, List.drop_left] at hprocessed
  cases ev with
  | nil => cases hprocessed
  | cons e post =>
      cases e with
      | process msg target =>
          obtain ⟨t, ht, hpair⟩ := Option.map_eq_some_iff.mp hprocessed
          obtain ⟨rfl, rfl⟩ := Prod.mk.inj hpair
          have hlogon : ¬msg.HasType MsgType.logon := fun hlogon =>
            absurd (Message.HasType.unique hlogon (FieldMap.getField_eq.mpr ht)) (by decide)
          have hsame := (hfirst [] msg 2 post (by rw [List.append_nil]; exact hev) hlogon
            (by rw [List.append_nil]; exact hoff)).1
          rw [htarget] at hsame
          exact absurd hsame (by decide)
      | _ => cases hprocessed

end Session

end OpenFix
