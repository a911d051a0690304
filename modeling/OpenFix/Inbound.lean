import OpenFix.Quiet

/-!
# Steps that handle a message

A relation that is open to sending and does not look at the state of the session
or at its numbers is *open to handling* when it also allows the events of the
handlers.  Then whatever an inbound message makes the session do keeps it, and
no handler has to be looked at again.

`Records P` is the relation that is used: only events with `P` were recorded.
-/

namespace OpenFix

open Effect

/-- An event that starts no message, hands none to `onMessage` and opens no
connection. -/
def Event.IsHandling : Event → Prop
  | .process _ _ | .onMessage _ _ | .connect _ => False
  | _ => True

/-- An event that a handler records itself. -/
def Event.IsReaction : Event → Prop
  | .loggedOn | .onAdminMessage _ | .onLogon | .onLogout | .reset => True
  | _ => False

/-- An event that opens no connection. -/
def Event.OnConnection : Event → Prop
  | .connect _ => False
  | _ => True

/-- An event that starts no message. -/
def Event.StartsNone : Event → Prop
  | .process _ _ => False
  | _ => True

theorem Event.IsOutput.isHandling {e : Event} (h : e.IsOutput) : e.IsHandling := by
  cases e with
  | process msg target => exact h
  | onMessage msg target => exact h
  | connect fd => exact h
  | _ => trivial

theorem Event.IsReaction.isHandling {e : Event} (h : e.IsReaction) : e.IsHandling := by
  cases e with
  | process msg target => exact h
  | onMessage msg target => exact h
  | connect fd => exact h
  | _ => trivial

theorem Event.IsHandling.onConnection {e : Event} (h : e.IsHandling) : e.OnConnection := by
  cases e with
  | connect fd => exact h
  | _ => trivial

theorem Event.IsHandling.startsNone {e : Event} (h : e.IsHandling) : e.StartsNone := by
  cases e with
  | process msg target => exact h
  | _ => trivial

/-- A call that the delegate makes in answer to some callback. -/
def Env.Makes (env : Env) (call : DelegateCall) : Prop :=
  ∃ d, env.delegate = some d ∧
    ((∃ s msg, call ∈ d.onMessage s msg) ∨ (∃ s msg, call ∈ d.onAdminMessage s msg) ∨
      (∃ s, call ∈ d.onLogon s) ∨ ∃ s, call ∈ d.onLogout s)

namespace Session

/-- Only events with `P` were recorded. -/
def Records (P : Event → Prop) (s t : Session) : Prop :=
  ∃ ev, t.events = s.events ++ ev ∧ ∀ e ∈ ev, P e

instance (P : Event → Prop) : Std.Refl (Records P) := ⟨fun _ => ⟨[], by simp, by simp⟩⟩

instance (P : Event → Prop) : IsTrans Session (Records P) where
  trans s t u := by
    rintro ⟨ev, hev, hP⟩ ⟨ev', hev', hP'⟩
    refine ⟨ev ++ ev', by rw [hev', hev, List.append_assoc], fun e he => ?_⟩
    rcases List.mem_append.mp he with he | he
    · exact hP e he
    · exact hP' e he

theorem Records.mono {P P' : Event → Prop} {s t : Session} (h : Records P s t)
    (hP : ∀ e, P e → P' e) : Records P' s t := by
  obtain ⟨ev, hev, hall⟩ := h
  exact ⟨ev, hev, fun e he => hP e (hall e he)⟩

theorem Records.of_eq {P : Event → Prop} {s t : Session} (h : t.events = s.events) :
    Records P s t := ⟨[], by simp [h], by simp⟩

theorem records_event {P : Event → Prop} {e : Event} (he : P e) (s : Session) :
    Records P s { s with events := s.events ++ [e] } := ⟨[e], rfl, by simpa using he⟩

/-- A coarser preorder is open to sending as well. -/
theorem OpenToSending.weaken {R R' : Session → Session → Prop} (h : OpenToSending R)
    [Std.Refl R'] [IsTrans Session R'] (hR : ∀ s t, R s t → R' s t) : OpenToSending R' where
  refl := Std.Refl.refl
  trans := IsTrans.trans
  book hb := hR _ _ (h.book hb)
  cache hm := hR _ _ (h.cache hm)
  transmit s fd msg := hR _ _ (h.transmit s fd msg)
  dropInvalid s hv := hR _ _ (h.dropInvalid s hv)
  disconnect := h.disconnect.mono hR
  terminate reason := (h.terminate reason).mono hR
  kill s := hR _ _ (h.kill s)
  stopped s := hR _ _ (h.stopped s)
  flush s := hR _ _ (h.flush s)

theorem records_sending {P : Event → Prop} (hP : ∀ e : Event, e.IsOutput → P e) :
    OpenToSending (Records P) :=
  quiet.weaken fun _ _ h => Records.mono h.events hP

/-! ## Relations that are open to handling -/

/-- A relation that is open to sending, ignores the state and the cache, and allows
the events of the handlers. -/
structure OpenToHandling (R : Session → Session → Prop) : Prop extends OpenToSending R where
  states : ∀ s state, R s { s with state := state }
  caches : ∀ s cache, R s { s with cache := cache }
  handled : ∀ s (e : Event), e.IsReaction → R s { s with events := s.events ++ [e] }

theorem records_handling {P : Event → Prop} (hP : ∀ e : Event, e.IsHandling → P e) :
    OpenToHandling (Records P) where
  toOpenToSending := records_sending fun e he => hP e he.isHandling
  states _ _ := .of_eq rfl
  caches _ _ := .of_eq rfl
  handled s e he := records_event (hP e he.isHandling) s

/-! ## Callbacks -/

/-- A relation that is open to sending and to what the callbacks of the delegate do. -/
structure OpenToCallbacks (env : Env) (R : Session → Session → Prop) : Prop extends
    OpenToSending R where
  states : ∀ s state, R s { s with state := state }
  calls : ∀ call, env.Makes call → Keeps R (delegateCall env call)
  handled : ∀ s (e : Event), e.IsReaction → R s { s with events := s.events ++ [e] }

namespace OpenToCallbacks

variable {R : Session → Session → Prop} {env : Env} (h : OpenToCallbacks env R)

include h

theorem setState (state : SessionState) : Keeps R (setState state) :=
  keeps_modify fun s => h.states s state

theorem record {e : Event} (he : e.IsReaction) : Keeps R (record e) :=
  keeps_modify fun s => h.handled s e he

theorem logoutAny (reason : Bytes) (term : Bool) : Keeps R (logout env reason term) :=
  h.logout env reason term fun _ s => h.states s .logout

theorem allCalls {calls : List DelegateCall} (hcalls : ∀ call ∈ calls, env.Makes call) :
    Keeps R (delegateCalls env calls) := by
  have := h.toRefl
  have := h.toIsTrans
  induction calls with
  | nil => exact keeps_pure _
  | cons call calls ih =>
      refine keeps_bind (h.calls call (hcalls call (List.mem_cons_self ..))) fun _ => ?_
      exact ih fun c hc => hcalls c (List.mem_cons_of_mem _ hc)

/-- The event of a callback has to be allowed. -/
theorem callDelegate (event : Session → Event)
    {callback : Delegate → Session → List DelegateCall}
    (hcallback : ∀ d u, env.delegate = some d → ∀ call ∈ callback d u, env.Makes call)
    (hevent : ∀ s u, R s { s with events := s.events ++ [event u] }) :
    Keeps R (callDelegate env event callback) := by
  have := h.toRefl
  have := h.toIsTrans
  unfold Session.callDelegate
  cases hd : env.delegate with
  | none => exact keeps_pure _
  | some delegate =>
      refine keeps_bind keeps_get fun u => ?_
      refine keeps_bind (keeps_modify fun s => hevent s u) fun _ => ?_
      exact keeps_bind keeps_get fun u => h.allCalls (hcallback delegate u hd)

theorem callOnLogon : Keeps R (Session.callDelegate env (fun _ => .onLogon) Delegate.onLogon) :=
  h.callDelegate _ (fun d u hd _ hc => ⟨d, hd, .inr (.inr (.inl ⟨u, hc⟩))⟩)
    fun s _ => h.handled s .onLogon trivial

theorem callOnLogout : Keeps R (Session.callDelegate env (fun _ => .onLogout) Delegate.onLogout) :=
  h.callDelegate _ (fun d u hd _ hc => ⟨d, hd, .inr (.inr (.inr ⟨u, hc⟩))⟩)
    fun s _ => h.handled s .onLogout trivial

theorem handleLogout : Keeps R (handleLogout env) := by
  have := h.toRefl
  have := h.toIsTrans
  unfold Session.handleLogout
  refine keeps_bind h.callOnLogout fun _ => ?_
  refine keeps_bind keeps_get fun _ => keeps_ite (fun _ => ?_) fun _ => h.sendLogout env _ true
  exact keeps_bind (h.setState _) fun _ => h.disconnect

theorem endTestRequest (msg : Message) : Keeps R (endTestRequest msg) := by
  have := h.toRefl
  have := h.toIsTrans
  unfold Session.endTestRequest
  refine keeps_bind keeps_get fun _ => keeps_ite (fun _ => ?_) fun _ => keeps_pure _
  refine keeps_bind (keeps_liftExcept _) fun _ => ?_
  exact keeps_ite (fun _ => h.setState _) fun _ => keeps_pure _

theorem handleHeartbeat (msg : Message) : Keeps R (handleHeartbeat env msg) := by
  have := h.toIsTrans
  exact keeps_bind (h.endTestRequest msg) fun _ =>
    h.callDelegate _ (fun d u hd _ hc => ⟨d, hd, .inr (.inl ⟨u, msg, hc⟩)⟩)
      fun s _ => h.handled s (.onAdminMessage msg) trivial

/-- A message may go to `onMessage`. -/
theorem handleSequenced
    (hmessage : ∀ s msg k, R s { s with events := s.events ++ [.onMessage msg k] })
    (msg : Message) (msgType : Bytes) :
    Keeps R (handleSequenced env msg msgType) := by
  have := h.toRefl
  have := h.toIsTrans
  unfold Session.handleSequenced
  refine keeps_ite (fun _ => h.handleLogout) fun _ => ?_
  refine keeps_ite (fun _ => h.handleHeartbeat msg) fun _ => ?_
  refine keeps_ite (fun _ => ?_) fun _ => keeps_ite (fun _ => keeps_pure _) fun _ => ?_
  · exact keeps_bind (keeps_liftExcept _) fun _ => h.sendHeartbeat env _
  · exact h.callDelegate _ (fun d u hd _ hc => ⟨d, hd, .inl ⟨u, msg, hc⟩⟩)
      fun s u => hmessage s msg u.cache.targetSeqNum

end OpenToCallbacks

/-! ## Handlers -/

/-- A relation that is open to sending and to what the handlers and the delegate do
to the state and the cache. -/
structure OpenToInbound (env : Env) (R : Session → Session → Prop) : Prop extends
    OpenToSending R where
  states : ∀ s state, R s { s with state := state }
  nextTarget : ∀ s, R s { s with cache := s.cache.nextTargetSeqNum }
  setTarget : ∀ s num, -2147483648 ≤ num → num < 2147483648 →
    R s { s with cache := s.cache.setTargetSeqNum num }
  queueInbound : ∀ s seqnum msg, R s { s with cache := s.cache.queueInbound seqnum msg }
  eraseInbound : ∀ s, R s { s with cache := s.cache.eraseInbound }
  reset : Keeps R reset
  calls : ∀ call, env.Makes call → Keeps R (delegateCall env call)
  handled : ∀ s (e : Event), e.IsReaction → R s { s with events := s.events ++ [e] }

theorem OpenToInbound.callbacks {R : Session → Session → Prop} {env : Env}
    (h : OpenToInbound env R) : OpenToCallbacks env R where
  toOpenToSending := h.toOpenToSending
  states := h.states
  calls := h.calls
  handled := h.handled

theorem OpenToHandling.inbound {R : Session → Session → Prop} (h : OpenToHandling R) (env : Env) :
    OpenToInbound env R where
  toOpenToSending := h.toOpenToSending
  states := h.states
  nextTarget s := h.caches s _
  setTarget s num _ _ := h.caches s _
  queueInbound s _ _ := h.caches s _
  eraseInbound s := h.caches s _
  reset := by
    have := h.toIsTrans
    exact keeps_bind (keeps_modify fun s => h.handled s .reset trivial) fun _ =>
      keeps_modify fun s => h.caches s _
  calls call _ := by
    have := h.toRefl
    cases call with
    | send msg => exact h.send env msg none
    | setSenderSeqNum num => exact keeps_modify fun s => h.caches s _
    | setTargetSeqNum num => exact keeps_modify fun s => h.caches s _
    | start => exact h.modify fun _ => ⟨rfl, rfl, rfl, rfl⟩
    | stop => exact h.stop
    | throw => exact keeps_throw _
  handled := h.handled

namespace OpenToInbound

variable {R : Session → Session → Prop} {env : Env} (h : OpenToInbound env R)

include h

theorem validateSeqNum (msg : Message) : Keeps R (validateSeqNum env msg) := by
  have := h.toRefl
  have := h.toIsTrans
  unfold Session.validateSeqNum
  refine keeps_bind (keeps_liftExcept _) fun seqNum => keeps_bind h.getTargetSeqNum fun target => ?_
  refine keeps_ite (fun _ => ?_) fun _ => keeps_ite (fun _ => ?_) fun _ =>
    keeps_ite (fun _ => ?_) fun _ => keeps_pure _
  · exact keeps_bind (keeps_modify h.nextTarget) fun _ => keeps_pure _
  · exact keeps_bind (h.logoutTerminal env _) fun _ => keeps_pure _
  · refine keeps_bind (keeps_modify fun s => h.queueInbound s _ _) fun _ => ?_
    exact keeps_bind (h.sendResendRequest env _ _) fun _ => keeps_pure _

theorem consume (seqNum target : Int) : Keeps R (consume seqNum target) := by
  have := h.toRefl
  exact keeps_ite (fun _ => keeps_modify h.nextTarget) fun _ => keeps_pure _

theorem logonReset (msg : Message) : Keeps R (logonReset env msg) := by
  have := h.toRefl
  have := h.toIsTrans
  unfold Session.logonReset
  refine keeps_ite (fun _ => keeps_ite (fun _ => ?_) fun _ => ?_) fun _ => keeps_pure _
  · exact keeps_bind (h.logoutTerminal env _) fun _ => keeps_pure _
  · exact keeps_bind h.reset fun _ => keeps_pure _

theorem acceptLogon (msg : Message) (seqNum expected : Int) (recovery : Option Int)
    (shouldReset : Bool) :
    Keeps R (acceptLogon env msg seqNum expected recovery shouldReset) := by
  have := h.toIsTrans
  unfold Session.acceptLogon
  refine keeps_bind (h.consume _ _) fun _ => keeps_bind (h.answerLogon env msg _) fun _ => ?_
  refine keeps_bind (h.callbacks.setState _) fun _ => ?_
  refine keeps_bind (h.callbacks.record (e := .loggedOn) trivial) fun _ => ?_
  refine keeps_bind (h.recoverPeer env recovery) fun _ => ?_
  refine keeps_ite (fun _ => h.sendResendRequest env _ _) fun _ => ?_
  exact h.callbacks.callOnLogon

theorem handleLogon (msg : Message) : Keeps R (handleLogon env msg) := by
  have := h.toRefl
  have := h.toIsTrans
  unfold Session.handleLogon
  refine keeps_ite (fun _ => h.callbacks.logoutAny _ false) fun _ => ?_
  refine keeps_bind (keeps_liftExcept _) fun seqNum => keeps_bind h.getTargetSeqNum fun expected => ?_
  refine keeps_ite (fun _ => h.logoutTerminal env _) fun _ => ?_
  refine keeps_bind (h.logonNextExpected env msg) fun recovery => ?_
  cases recovery with
  | none => exact keeps_pure _
  | some recovery =>
      refine keeps_bind (h.logonReset msg) fun answer => ?_
      cases answer with
      | none => exact keeps_pure _
      | some shouldReset => exact h.acceptLogon msg seqNum expected recovery shouldReset

theorem handleResendRequest (msg : Message) : Keeps R (handleResendRequest env msg) := by
  have := h.toRefl
  have := h.toIsTrans
  unfold Session.handleResendRequest
  refine keeps_bind (keeps_liftExcept _) fun _ => keeps_bind (keeps_liftExcept _) fun _ => ?_
  refine keeps_bind (keeps_liftExcept _) fun _ => ?_
  refine keeps_bind (h.runMessageRecovery env _ _) fun _ => ?_
  exact keeps_bind h.getTargetSeqNum fun _ => h.consume _ _

theorem handleSequenceReset (msg : Message) : Keeps R (handleSequenceReset env msg) := by
  have := h.toRefl
  have := h.toIsTrans
  unfold Session.handleSequenceReset
  refine keeps_liftExcept_bind fun newSeqNum hnew => keeps_bind (keeps_liftExcept _) fun _ => ?_
  refine keeps_bind h.getTargetSeqNum fun _ => ?_
  refine keeps_ite (fun _ => h.sendReject env msg _ _) fun _ => ?_
  refine keeps_ite (fun _ => h.logoutTerminal env _) fun _ => ?_
  refine keeps_bind (keeps_ite (fun _ => h.validateSeqNum msg) fun _ => keeps_pure _) fun _ => ?_
  obtain ⟨h₀, h₁⟩ := FieldMap.getIntField_range hnew
  exact keeps_ite (fun _ => keeps_modify fun s => h.setTarget s newSeqNum h₀ h₁) fun _ =>
    keeps_pure _

theorem eraseFront : Keeps R eraseFront := by
  have := h.toRefl
  have := h.toIsTrans
  unfold Session.eraseFront
  exact keeps_bind keeps_get fun _ => keeps_ite (fun _ => keeps_throw _) fun _ =>
    keeps_modify h.eraseInbound

theorem catchAll (e : Exn) : Keeps R (catchAll e) := by
  have := h.toRefl
  cases e with
  | undefined what => exact keeps_throw _
  | _ => exact h.modify fun _ => ⟨rfl, rfl, rfl, rfl⟩

/-! ## Whole messages

What is left is to allow a message to start and to go to `onMessage`. -/

variable (hmessage : ∀ s msg k, R s { s with events := s.events ++ [.onMessage msg k] })

include hmessage

theorem dispatchMessage (msg : Message) (msgType : Bytes) :
    Keeps R (dispatchMessage env msg msgType) := by
  have := h.toRefl
  have := h.toIsTrans
  unfold Session.dispatchMessage
  refine keeps_ite (fun _ => h.handleSequenceReset msg) fun _ => ?_
  refine keeps_ite (fun _ => h.handleLogon msg) fun _ => ?_
  refine keeps_ite (fun _ => h.handleResendRequest msg) fun _ => ?_
  refine keeps_bind (h.validateSeqNum msg) fun _ => ?_
  exact keeps_ite (fun _ => h.callbacks.handleSequenced hmessage msg msgType) fun _ => keeps_pure _

variable (hprocess : ∀ s msg k, R s { s with events := s.events ++ [.process msg k] })

include hprocess

theorem processMessage (msg : Message) (time : Int) :
    Keeps R (processMessage env msg time) := by
  have := h.toRefl
  have := h.toIsTrans
  unfold Session.processMessage
  refine keeps_bind h.getTargetSeqNum fun target => ?_
  refine keeps_bind (keeps_modify fun s => hprocess s msg target) fun _ => ?_
  refine keeps_bind (keeps_liftExcept _) fun msgType => ?_
  refine keeps_bind (h.validateMessage env msg msgType time fun s => h.states s .logout) fun _ => ?_
  exact keeps_ite (fun _ => h.dispatchMessage hmessage msg msgType) fun _ => keeps_pure _

theorem drainQueue (time : Int) : ∀ fuel, Keeps R (drainQueue env time fuel)
  | 0 => by
      have := h.toRefl
      exact keeps_pure _
  | fuel + 1 => by
      have := h.toRefl
      have := h.toIsTrans
      unfold Session.drainQueue
      refine keeps_bind keeps_get fun s => ?_
      cases s.cache.inboundQueue.min? with
      | none => exact keeps_pure _
      | some head =>
          refine keeps_ite (fun _ => ?_) fun _ => keeps_pure _
          refine keeps_bind (h.processMessage hmessage hprocess head.2 time) fun _ => ?_
          exact keeps_bind h.eraseFront fun _ => OpenToInbound.drainQueue time fuel

theorem handleParsed (msg : Message) : Keeps R (handleParsed env msg) := by
  have := h.toIsTrans
  have := h.toRefl
  unfold Session.handleParsed
  refine keeps_bind (h.getEpochMicros env) fun _ => ?_
  refine keeps_bind (h.modify fun _ => ⟨rfl, rfl, rfl, rfl⟩) fun _ => ?_
  refine keeps_bind (h.processMessage hmessage hprocess msg _) fun _ => ?_
  refine keeps_bind keeps_get fun _ => ?_
  refine keeps_bind (h.drainQueue hmessage hprocess _ _) fun _ => ?_
  exact h.modify fun _ => ⟨rfl, rfl, rfl, rfl⟩

theorem onNetworkMessage (text : Bytes) : Keeps R (onNetworkMessage env text) := by
  have := h.toRefl
  have := h.toIsTrans
  unfold Session.onNetworkMessage
  refine keeps_bind keeps_get fun _ => keeps_ite (fun _ => keeps_pure _) fun _ => ?_
  refine keeps_tryCatch ?_ h.catchAll
  exact keeps_bind (keeps_liftExcept _) fun msg => h.handleParsed hmessage hprocess msg

end OpenToInbound

/-! ## The tick -/

/-- The test request needs the step to the state TEST_REQUEST. -/
theorem OpenToSending.updateHeartbeats {R : Session → Session → Prop} (h : OpenToSending R)
    (env : Env) (htest : ∀ s, R s { s with state := .testRequest }) (time : Int) :
    Keeps R (updateHeartbeats env time) := by
  have := h.toRefl
  have := h.toIsTrans
  unfold Session.updateHeartbeats
  refine keeps_bind keeps_get fun _ => keeps_ite (fun _ => keeps_bind ?_ fun _ => ?_) fun _ =>
    keeps_pure _
  · exact keeps_bind keeps_get fun _ =>
      keeps_ite (fun _ => h.sendHeartbeat env []) fun _ => keeps_pure _
  · refine keeps_bind keeps_get fun _ => keeps_ite (fun _ => ?_) fun _ => keeps_pure _
    refine keeps_bind (h.sendTestRequest env) fun _ => ?_
    have hmark : ∀ s : Session, Booked s { s with lastSentTestRequest := time } := fun _ =>
      ⟨rfl, rfl, rfl, rfl⟩
    exact keeps_modify fun s => IsTrans.trans s _ _ (h.book (hmark s)) (htest _)

theorem OpenToInbound.updateHeartbeats {R : Session → Session → Prop} {env : Env}
    (h : OpenToInbound env R) (time : Int) : Keeps R (updateHeartbeats env time) :=
  h.toOpenToSending.updateHeartbeats env (fun s => h.states s .testRequest) time

namespace OpenToSending

variable {R : Session → Session → Prop} (h : OpenToSending R) {env : Env}

include h

/-- What a tick does besides sending is a reset, the way back to the state LOGON
without a connection, and the test request. -/
theorem internalUpdate (hreset : Keeps R reset)
    (hdown : ∀ time, Keeps R (updateDisconnected env time))
    (hbeat : ∀ time, Keeps R (Session.updateHeartbeats env time)) : Keeps R (internalUpdate env) := by
  have := h.toRefl
  have := h.toIsTrans
  unfold Session.internalUpdate
  refine keeps_bind (h.getEpochMillis env) fun time => keeps_bind keeps_get fun s => ?_
  refine keeps_ite (fun _ => hdown time) fun _ => keeps_bind (keeps_liftExcept _) fun _ => ?_
  refine keeps_ite (fun _ => ?_) fun _ => keeps_bind ?_ fun _ => keeps_bind ?_ fun _ => hbeat time
  · refine keeps_ite (fun _ => ?_) fun _ => h.sendLogon env false
    exact keeps_bind hreset fun _ => h.sendLogon env true
  · exact keeps_bind keeps_get fun _ => keeps_ite (fun _ => h.terminate _) fun _ => keeps_pure _
  · exact keeps_bind keeps_get fun _ => keeps_ite (fun _ => h.terminate _) fun _ => keeps_pure _

theorem onNetworkUpdate (hreset : Keeps R reset)
    (hdown : ∀ time, Keeps R (updateDisconnected env time))
    (hbeat : ∀ time, Keeps R (Session.updateHeartbeats env time)) : Keeps R (onNetworkUpdate env) := by
  have := h.toRefl
  have := h.toIsTrans
  unfold Session.onNetworkUpdate
  refine keeps_bind keeps_get fun _ => keeps_ite (fun _ => keeps_pure _) fun _ => ?_
  refine keeps_bind (h.getEpochMillis env) fun now => keeps_bind keeps_get fun _ => ?_
  refine keeps_ite (fun _ => keeps_pure _) fun _ => ?_
  refine keeps_bind (h.modify fun _ => ⟨rfl, rfl, rfl, rfl⟩) fun _ => keeps_tryCatch ?_ fun e => ?_
  · exact keeps_bind (keeps_modify h.flush) fun _ => h.internalUpdate hreset hdown hbeat
  · cases e with
    | undefined what => exact keeps_throw _
    | _ => exact keeps_pure _

end OpenToSending

/-- An attempt to connect leaves the state and the cache alone. -/
theorem keeps_networkStart {R : Session → Session → Prop} [Std.Refl R] [IsTrans Session R]
    (env : Env) (hconnect : ∀ s fd, R s { s with
      network := s.network.setConnection (some fd)
      events := s.events ++ [.connect fd] }) : Keeps R (networkStart env) := by
  unfold networkStart
  refine keeps_bind (keeps_liftExcept _) fun sessionType => ?_
  cases sessionType with
  | acceptor => exact keeps_pure _
  | initiator =>
      refine keeps_bind keeps_get fun s => ?_
      cases env.connect s with
      | none => exact keeps_pure _
      | some fd => exact fun s => hconnect s fd

/-- A tick, where a reset, the states and opening a connection are allowed. -/
theorem OpenToSending.tick {R : Session → Session → Prop} (h : OpenToSending R) (env : Env)
    (hreset : Keeps R reset) (hstates : ∀ s state, R s { s with state := state })
    (hconnect : ∀ s fd, R s { s with
      network := s.network.setConnection (some fd)
      events := s.events ++ [.connect fd] }) : Keeps R (Session.onNetworkUpdate env) := by
  have := h.toRefl
  have := h.toIsTrans
  refine h.onNetworkUpdate hreset (fun time => ?_)
    fun time => h.updateHeartbeats env (fun s => hstates s .testRequest) time
  refine keeps_bind (keeps_modify fun s => hstates s _) fun _ => keeps_bind keeps_get fun _ => ?_
  refine keeps_ite (fun _ => keeps_bind ?_ fun _ => ?_) fun _ => keeps_pure _
  · exact keeps_networkStart env hconnect
  · exact h.modify fun _ => ⟨rfl, rfl, rfl, rfl⟩

theorem OpenToInbound.tick {R : Session → Session → Prop} {env : Env} (h : OpenToInbound env R)
    (hconnect : ∀ s fd, R s { s with
      network := s.network.setConnection (some fd)
      events := s.events ++ [.connect fd] }) : Keeps R (Session.onNetworkUpdate env) :=
  h.toOpenToSending.tick env h.reset h.states hconnect

theorem startsNone_onNetworkUpdate (env : Env) :
    Keeps (Records Event.StartsNone) (onNetworkUpdate env) := by
  have h : OpenToHandling (Records Event.StartsNone) :=
    records_handling fun _ => Event.IsHandling.startsNone
  exact (h.inbound env).tick fun s fd => records_event (e := .connect fd) trivial s

end Session

end OpenFix
