import OpenFix.Session

/-!
# Steps that only send

Everything a session sends goes through `send` or `internalSend`, whatever the
handler.  A relation between states is *open to sending* when the few primitive
effects of sending satisfy it; then the run of every function that only sends
does, and there is one lemma for each such function.

The relation used most is `Quiet`: no target number moves, the queue of early
messages is left alone, and nothing is done to the outside but output.  A quiet
step may close the connection and never opens one.
-/

namespace OpenFix

open Effect

/-- An event of the output side: a text, or the end of the connection. -/
def Event.IsOutput : Event → Prop
  | .transmit _ _ | .disconnect _ | .terminate _ => True
  | _ => False

/-- The calls that do not set the target number. -/
def DelegateCall.KeepsTarget : DelegateCall → Prop
  | .setTargetSeqNum _ => False
  | _ => True

/-- A delegate that never sets the target number. -/
structure Delegate.KeepsTarget (d : Delegate) : Prop where
  onMessage : ∀ s msg, ∀ c ∈ d.onMessage s msg, c.KeepsTarget
  onAdminMessage : ∀ s msg, ∀ c ∈ d.onAdminMessage s msg, c.KeepsTarget
  onLogon : ∀ s, ∀ c ∈ d.onLogon s, c.KeepsTarget
  onLogout : ∀ s, ∀ c ∈ d.onLogout s, c.KeepsTarget

/-- The delegate of an environment, if any, never sets the target number. -/
def Env.KeepsTarget (env : Env) : Prop := ∀ d, env.delegate = some d → d.KeepsTarget

theorem testEnv_keepsTarget (settings : SessionSettings) : (testEnv settings).KeepsTarget := by
  intro d h
  cases h

theorem FieldMap.storeField_ok {m m' : FieldMap} {tag : Int} {value : Bytes} {order : Bool}
    (h : m.storeField tag value order = .ok m') : m' = m.setField tag value order := by
  unfold storeField at h
  split at h
  · cases h
  · split at h
    · cases h
    · cases h
      rfl

namespace Session

/-- A stamped header carries the number. -/
theorem stampHeader_msgSeqNum {settings : SessionSettings} {seqnum epochMs : Int}
    {header header' : FieldMap} (h : stampHeader settings seqnum epochMs header = .ok header') :
    header'.field? Field.msgSeqNum = some (toChars seqnum) := by
  simp only [stampHeader, bind, Except.bind] at h
  split at h
  next => cases h
  next h₁ htime =>
    rw [FieldMap.storeField_ok h, FieldMap.field?_setField_self _ _ _ _ (.inl rfl)]

section

variable {R : Session → Session → Prop} {α β : Type}

theorem keeps_liftExcept [Std.Refl R] : ∀ x : Except Exn α, Keeps R (liftExcept x)
  | .ok a => keeps_pure a
  | .error e => keeps_throw e

/-- What follows a lookup runs only on what was found. -/
theorem keeps_liftExcept_bind [Std.Refl R] {x : Except Exn α} {f : α → SessionM β}
    (h : ∀ a, x = .ok a → Keeps R (f a)) : Keeps R (liftExcept x >>= f) := by
  intro s
  cases x with
  | ok a => exact h a rfl s
  | error e => exact Std.Refl.refl s

end

/-! ## Relations that are open to sending -/

/-- Only clock readings and times differ. -/
structure Booked (s t : Session) : Prop where
  state : t.state = s.state
  network : t.network = s.network
  cache : t.cache = s.cache
  events : t.events = s.events

/-- The header of the message carries the sender number of the session. -/
def CarriesNext (s : Session) (m : Message) : Prop :=
  m.header.field? Field.msgSeqNum = some (toChars s.cache.senderSeqNum)

/-- A preorder that the primitive effects of transmitting satisfy. -/
structure OpenToTransmitting (R : Session → Session → Prop) : Prop extends
    Std.Refl R, IsTrans Session R where
  book : ∀ {s t}, Booked s t → R s t
  transmit : ∀ s fd msg, R s { s with events := s.events ++ [.transmit fd msg] }
  dropInvalid : ∀ s h, R s { s with network := s.network.dropInvalid h }
  terminate : ∀ reason, Keeps R (terminate reason)

/-- A preorder that the primitive effects of sending satisfy. -/
structure OpenToSending (R : Session → Session → Prop) : Prop extends OpenToTransmitting R where
  cache : ∀ {s m}, CarriesNext s m →
    R s { s with cache := (s.cache.cache s.cache.senderSeqNum (m.toString true)).nextSenderSeqNum }
  disconnect : Keeps R networkDisconnect
  kill : ∀ s, R s { s with state := .killing }
  stopped : ∀ s, R s { s with network := s.network.setStopped }
  flush : ∀ s, R s { s with cache := s.cache.flushSeqNums }

/-- `populateMessage` answers a message that carries the sender number. -/
theorem populateMessage_stamps (env : Env) (msg : Message) (epochMs : Int) (s : Session) :
    Ends (populateMessage env msg epochMs) s
      (fun p t => t.cache = s.cache ∧ p.2 = s.cache.senderSeqNum ∧
        p.1.header.field? Field.msgSeqNum = some (toChars s.cache.senderSeqNum))
      fun _ _ => True := by
  have htime : Ends (if epochMs = 0 then getEpochMillis env else pure epochMs) s
      (fun _ t => t.cache = s.cache) fun _ _ => True := by
    split
    · rfl
    · rfl
  unfold populateMessage
  refine Ends.bind htime fun ms t ht => ?_
  have hget : getSenderSeqNum.run t = .ok t.cache.senderSeqNum t := rfl
  refine Ends.bind (P := fun a u => a = s.cache.senderSeqNum ∧ u.cache = s.cache) ?_ ?_
  · unfold Ends
    rw [hget, ht]
    exact ⟨rfl, ht⟩
  · rintro _ u ⟨rfl, hu⟩
    cases hstamp : stampHeader env.settings s.cache.senderSeqNum ms msg.header with
    | error e => exact True.intro
    | ok header => exact ⟨hu, rfl, stampHeader_msgSeqNum hstamp⟩

namespace OpenToTransmitting

variable {R : Session → Session → Prop} (h : OpenToTransmitting R)

include h

theorem modify {f : Session → Session} (hf : ∀ s, Booked s (f s)) :
    Keeps R (modify f : SessionM Unit) := keeps_modify fun s => h.book (hf s)

theorem getEpochMicros (env : Env) : Keeps R (getEpochMicros env) := by
  have := h.toRefl
  have := h.toIsTrans
  unfold Session.getEpochMicros
  refine keeps_bind keeps_get fun s => keeps_bind (h.modify fun _ => ?_) fun _ => keeps_pure _
  exact ⟨rfl, rfl, rfl, rfl⟩

theorem getEpochMillis (env : Env) : Keeps R (getEpochMillis env) := by
  have := h.toRefl
  have := h.toIsTrans
  exact keeps_bind (h.getEpochMicros env) fun _ => keeps_pure _

theorem getUTCTimestamp (env : Env) : Keeps R (getUTCTimestamp env) := by
  have := h.toRefl
  have := h.toIsTrans
  exact keeps_bind (h.getEpochMillis env) fun _ => keeps_pure _

theorem currentEpochUs (env : Env) : Keeps R (currentEpochUs env) := by
  have := h.toRefl
  have := h.toIsTrans
  unfold Session.currentEpochUs
  refine keeps_bind keeps_get fun s => ?_
  exact keeps_ite (fun _ => keeps_pure _) fun _ => h.getEpochMicros env

theorem getSenderSeqNum : Keeps R getSenderSeqNum := by
  have := h.toRefl
  have := h.toIsTrans
  exact keeps_bind keeps_get fun _ => keeps_pure _

theorem getTargetSeqNum : Keeps R getTargetSeqNum := by
  have := h.toRefl
  have := h.toIsTrans
  exact keeps_bind keeps_get fun _ => keeps_pure _

theorem networkSend (env : Env) (msg : Message) (callback : Option Bytes) :
    Keeps R (networkSend env msg callback) := by
  have := h.toRefl
  have := h.toIsTrans
  intro s
  have hget : (get : SessionM Session).run s = .ok s s := rfl
  unfold Session.networkSend
  rw [after_bind_ok hget]
  cases s.network.connection with
  | none => exact keeps_pure (R := R) _ s
  | some fd =>
      dsimp only
      split
      next hvalid => exact h.dropInvalid s hvalid
      next =>
        refine keeps_bind (R := R) (keeps_modify fun s => h.transmit s fd msg) (fun _ => ?_) s
        refine keeps_ite (fun _ => ?_) fun _ => keeps_pure _
        cases callback with
        | none => exact keeps_pure _
        | some reason => exact h.terminate reason

theorem internalSend (env : Env) (msg : Message) (callback : Option Bytes) (epochUs : Int) :
    Keeps R (internalSend env msg callback epochUs) := by
  have := h.toRefl
  have := h.toIsTrans
  unfold Session.internalSend
  refine keeps_bind keeps_get fun s => keeps_ite (fun _ => ?_) fun _ => keeps_pure _
  exact keeps_bind (h.networkSend env msg callback) fun _ => h.modify fun _ => ⟨rfl, rfl, rfl, rfl⟩

theorem populateMessage (env : Env) (msg : Message) (epochMs : Int) :
    Keeps R (populateMessage env msg epochMs) := by
  have := h.toRefl
  have := h.toIsTrans
  unfold Session.populateMessage
  refine keeps_bind (keeps_ite (fun _ => h.getEpochMillis env) fun _ => keeps_pure _) fun _ => ?_
  exact keeps_bind h.getSenderSeqNum fun _ => keeps_bind (keeps_liftExcept _) fun _ => keeps_pure _

theorem sendSequenceReset (env : Env) (seqno newSeqno : Int) (gapfill : Bool) :
    Keeps R (sendSequenceReset env seqno newSeqno gapfill) := by
  have := h.toRefl
  have := h.toIsTrans
  unfold Session.sendSequenceReset
  refine keeps_bind (keeps_liftExcept _) fun msg => ?_
  refine keeps_bind (h.populateMessage env msg 0) fun p => ?_
  refine keeps_bind (h.getUTCTimestamp env) fun now => ?_
  exact keeps_bind (h.currentEpochUs env) fun _ => h.internalSend env _ none _

/-! ## Resending -/

theorem replayOne (env : Env) (seqno : Int) (msg : Message) (ptr : Int) :
    Keeps R (replayOne env seqno msg ptr) := by
  have := h.toRefl
  have := h.toIsTrans
  unfold Session.replayOne
  refine keeps_bind (keeps_liftExcept _) fun msgType => keeps_ite (fun _ => keeps_pure _) fun _ => ?_
  have hfill : Keeps R (fillGap env ptr seqno) :=
    keeps_ite (fun _ => h.sendSequenceReset env ptr seqno true) fun _ => keeps_pure _
  refine keeps_bind hfill fun _ => keeps_bind (h.getUTCTimestamp env) fun now => ?_
  refine keeps_bind (keeps_liftExcept _) fun msg => keeps_bind (h.currentEpochUs env) fun _ => ?_
  exact keeps_bind (h.internalSend env msg none _) fun _ => keeps_pure _

theorem replayLoop (env : Env) (entries : List (Int × Bytes)) (ptr : Int) :
    Keeps R (replayLoop env entries ptr) := by
  have := h.toRefl
  have := h.toIsTrans
  induction entries generalizing ptr with
  | nil => exact keeps_pure _
  | cons entry rest ih =>
      refine keeps_bind (keeps_liftExcept _) fun msg => ?_
      exact keeps_bind (h.replayOne env entry.1 msg.copy ptr) fun ptr => ih ptr

theorem runMessageRecovery (env : Env) (beginSeqNo endSeqNo : Int) :
    Keeps R (runMessageRecovery env beginSeqNo endSeqNo) := by
  have := h.toRefl
  have := h.toIsTrans
  unfold Session.runMessageRecovery
  refine keeps_bind h.getSenderSeqNum fun sender => keeps_bind keeps_get fun s => ?_
  refine keeps_bind (h.replayLoop env _ beginSeqNo) fun ptr => ?_
  refine keeps_bind (keeps_ite (fun _ => keeps_pure _) fun _ => h.getSenderSeqNum) fun last => ?_
  exact keeps_ite (fun _ => h.sendSequenceReset env _ _ true) fun _ => keeps_pure _

end OpenToTransmitting

/-! ## Sending -/

namespace OpenToSending

variable {R : Session → Session → Prop} (h : OpenToSending R)

include h

theorem send (env : Env) (msg : Message) (callback : Option Bytes) :
    Keeps R (send env msg callback) := by
  have := h.toIsTrans
  unfold Session.send
  refine keeps_bind (h.currentEpochUs env) fun epochUs s => ?_
  refine after_eq_of_ends (Ends.bind (((populateMessage_stamps env msg _ s).keeps
    (h.populateMessage env msg _)).mono (fun _ _ hp => hp) fun _ _ he => he.2) ?_)
  rintro ⟨m, seqnum⟩ t ⟨⟨hcache, hseq, hcarries⟩, ht⟩
  -- The number that was read is still the sender number.
  have hnext : R t { t with
      cache := (t.cache.cache seqnum (m.toString true)).nextSenderSeqNum } := by
    have hst : seqnum = t.cache.senderSeqNum := hseq.trans (by rw [hcache])
    rw [hst]
    refine h.cache ?_
    unfold CarriesNext
    rw [hcache]
    exact hcarries
  refine Ends.bind (P := fun _ u => R s u) (IsTrans.trans s t _ ht hnext) fun _ u hu => ?_
  exact ((h.internalSend env m callback epochUs).ends u).mono
    (fun _ v hv => IsTrans.trans s u v hu hv) fun _ v hv => IsTrans.trans s u v hu hv

theorem sendBuilt (env : Env) (x : Except Exn Message) (callback : Option Bytes) :
    Keeps R (do Session.send env (← liftExcept x) callback) := by
  have := h.toRefl
  have := h.toIsTrans
  exact keeps_bind (keeps_liftExcept x) fun msg => h.send env msg callback

theorem sendLogon (env : Env) (shouldReset : Bool) : Keeps R (sendLogon env shouldReset) := by
  have := h.toRefl
  have := h.toIsTrans
  unfold Session.sendLogon
  refine keeps_bind keeps_get fun s => keeps_bind (keeps_liftExcept _) fun msg => ?_
  refine keeps_bind (h.send env msg none) fun _ => keeps_bind (h.getEpochMillis env) fun _ => ?_
  exact h.modify fun _ => ⟨rfl, rfl, rfl, rfl⟩

theorem sendLogout (env : Env) (reason : Bytes) (term : Bool) :
    Keeps R (sendLogout env reason term) := h.sendBuilt env _ _

theorem sendResendRequest (env : Env) (fromSeqNo toSeqNo : Int) :
    Keeps R (sendResendRequest env fromSeqNo toSeqNo) := h.sendBuilt env _ _

theorem sendHeartbeat (env : Env) (testReqID : Bytes) : Keeps R (sendHeartbeat env testReqID) :=
  h.sendBuilt env _ _

theorem sendReject (env : Env) (msg : Message) (reason : SessionRejectReason) (text : Bytes) :
    Keeps R (sendReject env msg reason text) := h.sendBuilt env _ _

theorem sendTestRequest (env : Env) : Keeps R (sendTestRequest env) := by
  have := h.toRefl
  have := h.toIsTrans
  unfold Session.sendTestRequest
  refine keeps_bind (keeps_liftExcept _) fun msg => ?_
  refine keeps_bind (h.modify fun _ => ⟨rfl, rfl, rfl, rfl⟩) fun _ => ?_
  exact keeps_bind keeps_get fun s => h.send env _ none

/-- A clean logout needs the step to the state LOGOUT as well. -/
theorem logout (env : Env) (reason : Bytes) (term : Bool)
    (hleave : term = false → ∀ s, R s { s with state := .logout }) :
    Keeps R (logout env reason term) := by
  have := h.toIsTrans
  have hstate : Keeps R (leave env term) := by
    unfold leave
    cases term with
    | true => exact keeps_modify h.kill
    | false =>
        refine keeps_bind (keeps_modify (hleave rfl)) fun _ => ?_
        exact keeps_bind (h.getEpochMillis env) fun _ => h.modify fun _ => ⟨rfl, rfl, rfl, rfl⟩
  exact keeps_bind hstate fun _ => h.sendLogout env reason term

theorem logoutTerminal (env : Env) (reason : Bytes) : Keeps R (Session.logout env reason true) :=
  h.logout env reason true fun hf => Bool.noConfusion hf

/-! ## Validation -/

theorem fail (env : Env) (reason : Bytes) : Keeps R (fail env reason) := by
  have := h.toRefl
  have := h.toIsTrans
  exact keeps_bind keeps_get fun _ =>
    keeps_ite (fun _ => h.terminate reason) fun _ => h.logoutTerminal env reason

theorem validateCompIDs (env : Env) (msg : Message) : Keeps R (validateCompIDs env msg) := by
  have := h.toRefl
  have := h.toIsTrans
  unfold Session.validateCompIDs
  have hfail : ∀ reason, Keeps R (do Session.fail env reason; return false) := fun reason =>
    keeps_bind (h.fail env reason) fun _ => keeps_pure _
  refine keeps_bind (keeps_liftExcept _) fun _ => keeps_ite (fun _ => hfail _) fun _ => ?_
  refine keeps_bind (keeps_liftExcept _) fun _ => keeps_ite (fun _ => hfail _) fun _ => ?_
  exact keeps_bind (keeps_liftExcept _) fun _ => keeps_ite (fun _ => hfail _) fun _ => keeps_pure _

theorem validateState (env : Env) (msgType : Bytes) : Keeps R (validateState env msgType) := by
  have := h.toRefl
  have := h.toIsTrans
  unfold Session.validateState
  have hlogout : ∀ reason, Keeps R (do Session.logout env reason true; return false) :=
    fun reason => keeps_bind (h.logoutTerminal env reason) fun _ => keeps_pure _
  exact keeps_bind keeps_get fun _ => keeps_ite (fun _ => hlogout _) fun _ =>
    keeps_ite (fun _ => hlogout _) fun _ => keeps_pure _

theorem logonNextExpected (env : Env) (msg : Message) : Keeps R (logonNextExpected env msg) := by
  have := h.toRefl
  have := h.toIsTrans
  unfold Session.logonNextExpected
  refine keeps_ite (fun _ => ?_) fun _ => keeps_pure _
  refine keeps_bind (keeps_liftExcept _) fun _ => keeps_bind h.getSenderSeqNum fun _ => ?_
  exact keeps_ite (fun _ => keeps_bind (h.logoutTerminal env _) fun _ => keeps_pure _) fun _ =>
    keeps_pure _

theorem answerLogon (env : Env) (msg : Message) (shouldReset : Bool) :
    Keeps R (answerLogon env msg shouldReset) := by
  have := h.toRefl
  have := h.toIsTrans
  unfold Session.answerLogon
  refine keeps_bind (keeps_liftExcept _) fun sessionType => ?_
  cases sessionType with
  | initiator => exact keeps_pure _
  | acceptor =>
      refine keeps_bind (keeps_liftExcept _) fun _ => ?_
      exact keeps_bind (h.modify fun _ => ⟨rfl, rfl, rfl, rfl⟩) fun _ =>
        h.sendLogon env shouldReset

theorem recoverPeer (env : Env) (recovery : Option Int) : Keeps R (recoverPeer env recovery) := by
  have := h.toRefl
  cases recovery with
  | none => exact keeps_pure _
  | some nextExpected => exact h.runMessageRecovery env nextExpected 0

/-- The checks up to the clean logout on a bad SendingTime. -/
theorem validateTimes (env : Env) (msg : Message) (time : Int)
    (hleave : ∀ s, R s { s with state := .logout }) : Keeps R (validateTimes env msg time) := by
  have := h.toRefl
  have := h.toIsTrans
  unfold Session.validateTimes
  refine keeps_bind (keeps_liftExcept _) fun _ => keeps_ite (fun _ => ?_) fun _ =>
    keeps_ite (fun _ => ?_) fun _ => keeps_pure _
  · exact keeps_bind (h.sendReject env msg _ []) fun _ =>
      keeps_bind (h.logout env _ false fun _ => hleave) fun _ => keeps_pure _
  · exact keeps_bind (h.sendReject env msg _ []) fun _ => keeps_pure _

theorem validateMessage (env : Env) (msg : Message) (msgType : Bytes) (time : Int)
    (hleave : ∀ s, R s { s with state := .logout }) :
    Keeps R (validateMessage env msg msgType time) := by
  have := h.toRefl
  have := h.toIsTrans
  unfold Session.validateMessage
  refine keeps_ite (fun _ => ?_) fun _ => ?_
  · exact keeps_bind (h.logoutTerminal env _) fun _ => keeps_pure _
  · refine keeps_bind (h.validateCompIDs env msg) fun ok => ?_
    refine keeps_ite (fun _ => ?_) fun _ => keeps_pure _
    exact keeps_bind (h.validateTimes env msg time hleave) fun ok =>
      keeps_ite (fun _ => h.validateState env msgType) fun _ => keeps_pure _

/-! ## The delegate -/

theorem stop : Keeps R stop := by
  have := h.toRefl
  have := h.toIsTrans
  have hnet : Keeps R networkStop := by
    unfold networkStop
    refine keeps_bind keeps_get fun s => keeps_ite (fun _ => keeps_pure _) fun _ => ?_
    exact keeps_bind (keeps_modify h.stopped) fun _ => h.disconnect
  unfold Session.stop
  refine keeps_bind (h.modify fun _ => ⟨rfl, rfl, rfl, rfl⟩) fun _ => ?_
  exact keeps_bind (keeps_modify h.flush) fun _ => hnet

/-- Setting the sender number is the delegate's alone, so it is asked for here. -/
theorem delegateCalls (env : Env)
    (hsender : ∀ s num, R s { s with cache := s.cache.setSenderSeqNum num }) :
    ∀ {calls : List DelegateCall}, (∀ c ∈ calls, c.KeepsTarget) → Keeps R (delegateCalls env calls) := by
  have := h.toRefl
  have := h.toIsTrans
  intro calls hcalls
  induction calls with
  | nil => exact keeps_pure _
  | cons call calls ih =>
      refine keeps_bind ?_ fun _ => ih fun c hc => hcalls c (List.mem_cons_of_mem _ hc)
      cases call with
      | send msg => exact h.send env msg none
      | setSenderSeqNum num => exact keeps_modify fun s => hsender s num
      | setTargetSeqNum num => exact (hcalls _ (List.mem_cons_self ..)).elim
      | start => exact h.modify fun _ => ⟨rfl, rfl, rfl, rfl⟩
      | stop => exact h.stop
      | throw => exact keeps_throw _

end OpenToSending

/-! ## Quiet steps -/

/-- From `s` to `t` the target number and the queue became the given ones, and only
events with `P` were recorded.  No connection was opened. -/
structure Change (P : Event → Prop) (target : Int) (queue : SortedMap Int Message)
    (s t : Session) : Prop where
  target : t.cache.targetSeqNum = target
  queue : t.cache.inboundQueue = queue
  events : ∃ ev, t.events = s.events ++ ev ∧ ∀ e ∈ ev, P e
  connected : t.network.connected = true → s.network.connected = true

/-- The target number and the queue stayed, and only events with `P` were recorded. -/
def Frame (P : Event → Prop) (s t : Session) : Prop :=
  Change P s.cache.targetSeqNum s.cache.inboundQueue s t

/-- Nothing but output happened between two states. -/
abbrev Quiet : Session → Session → Prop := Frame Event.IsOutput

section

variable {P P' : Event → Prop} {target : Int} {queue : SortedMap Int Message} {s t u : Session}

theorem Change.mono (h : Change P target queue s t) (hP : ∀ e, P e → P' e) :
    Change P' target queue s t := by
  obtain ⟨ev, hev, hall⟩ := h.events
  exact ⟨h.target, h.queue, ⟨ev, hev, fun e he => hP e (hall e he)⟩, h.connected⟩

theorem Frame.mono (h : Frame P s t) (hP : ∀ e, P e → P' e) : Frame P' s t := Change.mono h hP

/-- A step that records nothing and leaves the target, the queue and the network. -/
theorem Frame.of_eq (htarget : t.cache.targetSeqNum = s.cache.targetSeqNum)
    (hqueue : t.cache.inboundQueue = s.cache.inboundQueue) (hevents : t.events = s.events)
    (hnet : t.network = s.network) : Frame P s t :=
  ⟨htarget, hqueue, ⟨[], by simp [hevents]⟩, fun h => hnet ▸ h⟩

theorem Change.then (h₁ : Change P target queue s t) (h₂ : Frame P t u) :
    Change P target queue s u := by
  obtain ⟨ev₁, he₁, hP₁⟩ := h₁.events
  obtain ⟨ev₂, he₂, hP₂⟩ := h₂.events
  refine ⟨h₂.target.trans h₁.target, h₂.queue.trans h₁.queue, ⟨ev₁ ++ ev₂, ?_, fun e he => ?_⟩,
    fun h => h₁.connected (h₂.connected h)⟩
  · rw [he₂, he₁, List.append_assoc]
  · rcases List.mem_append.mp he with he | he
    · exact hP₁ e he
    · exact hP₂ e he

theorem Frame.then (h₁ : Frame P s t) (h₂ : Change P target queue t u) :
    Change P target queue s u := by
  obtain ⟨ev₁, he₁, hP₁⟩ := h₁.events
  obtain ⟨ev₂, he₂, hP₂⟩ := h₂.events
  refine ⟨h₂.target, h₂.queue, ⟨ev₁ ++ ev₂, ?_, fun e he => ?_⟩,
    fun h => h₁.connected (h₂.connected h)⟩
  · rw [he₂, he₁, List.append_assoc]
  · rcases List.mem_append.mp he with he | he
    · exact hP₁ e he
    · exact hP₂ e he

end

instance (P : Event → Prop) : Std.Refl (Frame P) := ⟨fun _ => .of_eq rfl rfl rfl rfl⟩

instance (P : Event → Prop) : IsTrans Session (Frame P) := ⟨fun _ _ _ h₁ h₂ => Change.then h₁ h₂⟩

theorem quiet_record {e : Event} (h : e.IsOutput) (s : Session) :
    Quiet s { s with events := s.events ++ [e] } := ⟨rfl, rfl, ⟨[e], rfl, by simpa using h⟩, id⟩

theorem quiet_disconnect : Keeps Quiet networkDisconnect := by
  unfold networkDisconnect
  refine keeps_bind keeps_get fun s => ?_
  refine keeps_bind (keeps_modify fun s => ?_) fun _ => ?_
  · exact ⟨rfl, rfl, ⟨[], by simp⟩, fun h => by simp at h⟩
  · cases s.network.connection with
    | none => exact keeps_pure _
    | some fd =>
        exact keeps_ite (fun _ => keeps_modify (quiet_record (e := .disconnect fd) trivial))
          fun _ => keeps_pure _

theorem quiet : OpenToSending Quiet where
  refl := Std.Refl.refl
  trans := IsTrans.trans
  book h := .of_eq (by rw [h.cache]) (by rw [h.cache]) h.events h.network
  cache _ := .of_eq rfl rfl rfl rfl
  transmit s fd msg := quiet_record (e := .transmit fd msg) trivial s
  dropInvalid _ _ := ⟨rfl, rfl, ⟨[], by simp⟩, id⟩
  disconnect := quiet_disconnect
  terminate reason := by
    refine keeps_bind (keeps_modify (quiet_record (e := .terminate reason) trivial)) fun _ => ?_
    exact keeps_bind quiet_disconnect fun _ => keeps_modify fun _ => .of_eq rfl rfl rfl rfl
  kill _ := .of_eq rfl rfl rfl rfl
  stopped _ := ⟨rfl, rfl, ⟨[], by simp⟩, id⟩
  flush s := .of_eq s.cache.flushSeqNums_keeps.2.1 s.cache.flushSeqNums_keeps.2.2.2 rfl rfl

theorem quiet_setState (state : SessionState) : Keeps Quiet (setState state) :=
  keeps_modify fun _ => .of_eq rfl rfl rfl rfl

theorem quiet_logout (env : Env) (reason : Bytes) (term : Bool) :
    Keeps Quiet (logout env reason term) :=
  quiet.logout env reason term fun _ _ => .of_eq rfl rfl rfl rfl

theorem quiet_validateMessage (env : Env) (msg : Message) (msgType : Bytes) (time : Int) :
    Keeps Quiet (validateMessage env msg msgType time) :=
  quiet.validateMessage env msg msgType time fun _ => .of_eq rfl rfl rfl rfl

theorem quiet_delegateCalls (env : Env) {calls : List DelegateCall}
    (h : ∀ c ∈ calls, c.KeepsTarget) : Keeps Quiet (delegateCalls env calls) :=
  quiet.delegateCalls env (fun _ _ => .of_eq rfl rfl rfl rfl) h

end Session

end OpenFix
