import OpenFix.Batch
import OpenFix.Duplicates
import OpenFix.Queueing

/-!
# Messages that waited

The loop over the queue processes its front again from the start, with the clock
of the message that filled the gap and in the state the earlier rounds left.  The
entry is erased whatever comes of that.  SendingTime and the state were checked
when the message arrived, and both checks are made again.  A message that is now
too old is answered with a Reject and a Logout, and one that follows a Logout of
the same queue with another Logout.  Its number is then not consumed, it is not
handed to the delegate, and it is gone.
-/

namespace OpenFix

open Effect Run

/-- A call of the delegate. -/
def Event.IsCallback : Event → Prop
  | .onMessage _ _ | .onAdminMessage _ | .onLogon | .onLogout => True
  | _ => False

/-- A Reject, or a Logout that is not the answer to a Logout. -/
def Event.Refuses (msg : Message) : Event → Prop
  | .transmit _ m =>
      m.HasType MsgType.reject ∨ m.HasType MsgType.logout ∧ ¬msg.HasType MsgType.logout
  | _ => False

theorem Event.not_refuses {msg : Message} {e : Event}
    (h : ∀ fd m, e = .transmit fd m → ¬m.HasType MsgType.reject ∧
      (m.HasType MsgType.logout → msg.HasType MsgType.logout)) : ¬e.Refuses msg := by
  cases e with
  | transmit fd m =>
      obtain ⟨hreject, hlogout⟩ := h fd m rfl
      exact fun href => href.elim hreject fun hout => hout.2 (hlogout hout.1)
  | _ => exact id

theorem Event.not_refuses_of_transmitted {msg : Message} {e : Event} (h : e.transmitted? = none) :
    ¬e.Refuses msg := by
  cases e with
  | transmit fd m => cases h
  | _ => exact id

namespace Session

variable {env : Env}

/-! ## What a turn does to its session -/

/-- A message that was queued, and had passed the checks when it arrived. -/
structure Arrived (env : Env) (k : Int) (msg : Message) : Prop extends Queueable env k msg where
  checked : ∃ state time, Valid env state msg time

/-- The front of the queue has the target number. -/
structure AtFront (s : Session) (k : Int) (msg : Message) : Prop where
  front : s.cache.inboundQueue.min? = some (k, msg)
  target : s.cache.targetSeqNum = k

/-- The session when a message starts to be processed. -/
def started (s : Session) (msg : Message) : Session :=
  { s with events := s.events ++ [.process msg s.cache.targetSeqNum] }

/-- An event with `P` was recorded. -/
def Recorded (P : Event → Prop) (s t : Session) : Prop :=
  ∃ ev, t.events = s.events ++ ev ∧ ∃ e ∈ ev, P e

/-- The number after that of the message: the next one, or the one a gap fill sets. -/
def Follows (k : Int) (msg : Message) (n : Int) : Prop := n = i32 (k + 1) ∨ msg.Resets n ∧ k < n

/-- The target number passed the message, and the delegate got it if it is its to get.
A delegate that is called may set the target number itself. -/
structure Handled (env : Env) (k : Int) (msg : Message) (s t : Session) : Prop where
  advanced : Follows k msg t.cache.targetSeqNum ∨
    ¬env.KeepsTarget ∧ Recorded Event.IsCallback s t
  delivered : msg.IsApplication → ¬msg.HasType MsgType.reject → env.delegate ≠ none →
    Recorded (· = .onMessage msg (i32 (k + 1))) s t

/-- The session sent no Reject and no Logout, up to where it called the delegate. -/
def Unrefused (msg : Message) (s t : Session) : Prop :=
  ∃ ev rest, t.events = s.events ++ (ev ++ rest) ∧ (∀ e ∈ ev, ¬e.Refuses msg) ∧
    ∀ e rest', rest = e :: rest' → e.IsCallback

/-- At its turn the message is handled and nothing is refused.  A turn that raises
leaves the message in the queue. -/
def Taken (env : Env) (time k : Int) (msg : Message) (s : Session) : Prop :=
  Ends (processMessage env msg time) s (fun _ t => Handled env k msg s t ∧ Unrefused msg s t)
    fun _ t => Unrefused msg s t

/-- The checks that are made again would pass. -/
structure Passable (env : Env) (time : Int) (s : Session) (msg : Message) : Prop where
  sendingTime : Timely env msg time
  loggedOn : s.state ≠ .logon
  loggingOut : s.state = .logout → msg.HasType MsgType.logout

/-- The dictionary lacks what the message would be refused with, so that the turn
raises before anything is transmitted. -/
def Mute (env : Env) (time : Int) (s : Session) (msg : Message) : Prop :=
  (¬Timely env msg time ∧ (¬Knows env MsgType.reject ∨
    ¬Knows env MsgType.logout ∧ s.network.connected = false)) ∨
  (Timely env msg time ∧ ¬Knows env MsgType.logout)

def Unspoiled (env : Env) (time : Int) (s : Session) (msg : Message) : Prop :=
  Passable env time s msg ∨ Mute env time s msg

/-! ## What was recorded -/

theorem Recorded.of_started {P : Event → Prop} {s t : Session} {msg : Message}
    (h : Recorded P (started s msg) t) : Recorded P s t := by
  obtain ⟨ev, hev, e, he, hP⟩ := h
  refine ⟨.process msg s.cache.targetSeqNum :: ev, ?_, e, List.mem_cons_of_mem _ he, hP⟩
  rw [hev, started, List.append_assoc, List.singleton_append]

theorem Unrefused.of_started {s t : Session} {msg : Message}
    (h : Unrefused msg (started s msg) t) : Unrefused msg s t := by
  obtain ⟨ev, rest, hev, hall, hrest⟩ := h
  refine ⟨.process msg s.cache.targetSeqNum :: ev, rest, ?_, fun e he => ?_, hrest⟩
  · rw [hev, started, List.append_assoc, List.singleton_append, List.cons_append]
  · rcases List.mem_cons.mp he with rfl | he
    · exact id
    · exact hall e he

theorem Unrefused.of_records {s t : Session} {msg : Message}
    (h : Records (fun e => ¬e.Refuses msg) s t) : Unrefused msg s t := by
  obtain ⟨ev, hev, hall⟩ := h
  exact ⟨ev, [], by rw [List.append_nil, hev], hall, fun _ _ hnil => nomatch hnil⟩

/-- Without a call of the delegate every Reject counts. -/
theorem Unrefused.not_reject {s t : Session} {msg m : Message} {fd : Nat}
    (h : Unrefused msg s t) (ev : List Event)
    (hev : t.events = s.events ++ ev) (hquiet : ∀ e ∈ ev, ¬e.IsCallback)
    (hmem : .transmit fd m ∈ ev) : ¬m.HasType MsgType.reject := by
  obtain ⟨ev₁, ev₂, hev', hall, hrest⟩ := h
  have hsplit : ev = ev₁ ++ ev₂ := List.append_cancel_left (hev.symm.trans hev')
  have hempty : ev₂ = [] := by
    cases ev₂ with
    | nil => rfl
    | cons e rest =>
        refine (hquiet e ?_ (hrest e rest rfl)).elim
        rw [hsplit]
        exact List.mem_append_right _ (List.mem_cons_self ..)
  rw [hempty, List.append_nil] at hsplit
  intro hreject
  exact hall (.transmit fd m) (hsplit ▸ hmem) (Or.inl hreject)

theorem Event.IsOutput.not_callback {e : Event} (h : e.IsOutput) : ¬e.IsCallback := by
  cases e with
  | transmit fd m => exact id
  | disconnect fd => exact id
  | terminate reason => exact id
  | _ => exact h.elim

/-! ## What is transmitted -/

theorem disconnect_records {P : Event → Prop} (hother : ∀ e : Event, e.transmitted? = none → P e) :
    Keeps (Records P) networkDisconnect := by
  unfold networkDisconnect
  refine keeps_bind keeps_get fun s => keeps_bind (keeps_modify fun _ => .of_eq rfl) fun _ => ?_
  cases s.network.connection with
  | none => exact keeps_pure _
  | some fd =>
      refine keeps_ite (fun _ => keeps_modify fun s => ?_) fun _ => keeps_pure _
      exact records_event (hother (.disconnect fd) rfl) s

/-- What a send records, with what its callback does. -/
theorem internalSend_records {P : Event → Prop} (hother : ∀ e, e.transmitted? = none → P e)
    {m : Message} (hm : ∀ fd, P (.transmit fd m)) (callback : Option Bytes) (epochUs : Int)
    (s : Session) :
    Ends (internalSend env m callback epochUs) s (fun _ => Records P s) fun _ _ => False := by
  have hterminate : ∀ reason, Keeps (Records P) (terminate reason) := fun reason =>
    keeps_bind (keeps_modify fun s => records_event (hother (.terminate reason) rfl) s) fun _ =>
      keeps_bind (disconnect_records hother) fun _ => keeps_modify fun _ => .of_eq rfl
  have hsend : Keeps (Records P) (internalSend env m callback epochUs) := by
    refine keeps_bind keeps_get fun _ => keeps_ite (fun _ => ?_) fun _ => keeps_pure _
    refine keeps_bind ?_ fun _ => keeps_modify fun _ => .of_eq rfl
    intro s
    apply after_eq_of_ends
    unfold networkSend
    rw [ends_bind, ends_get]
    cases s.network.connection with
    | none => exact Std.Refl.refl (r := Records P) s
    | some fd =>
        dsimp only
        split
        next => exact Records.of_eq rfl
        next =>
          have hsent : Records P s { s with events := s.events ++ [.transmit fd m] } :=
            records_event (hm fd) s
          rw [ends_bind, ends_record]
          split
          next =>
            cases callback with
            | none => exact hsent
            | some reason =>
                exact ((hterminate reason).ends _).mono
                  (fun _ t ht => IsTrans.trans s _ t hsent ht)
                  fun _ t ht => IsTrans.trans s _ t hsent ht
          next => exact hsent
  have hends := (internalSend_cache env m callback epochUs s).keeps hsend
  exact hends.mono (fun _ _ h => h.2) fun _ _ h => h.1

/-- A send transmits nothing but its message. -/
theorem send_records {P : Event → Prop} (hother : ∀ e, e.transmitted? = none → P e)
    {msg : Message} (hm : ∀ m fd, (∀ t, m.HasType t ↔ msg.HasType t) → P (.transmit fd m))
    (callback : Option Bytes) : Keeps (Records P) (send env msg callback) := by
  intro s
  apply after_eq_of_ends
  unfold send
  refine Ends.bind ((currentEpochUs_ends env s).mono (fun _ _ h => h) fun _ _ h => h.elim) ?_
  intro epochUs t ht
  refine Ends.bind ((populateMessage_ends env msg _ t).mono (fun _ _ h => h) ?_) ?_
  · rintro e u ⟨hu, -⟩
    exact .of_eq (hu.events.trans ht.events)
  · rintro ⟨m, seqnum⟩ u ⟨hu, hstamped, -⟩
    have hidle : Records P s u := .of_eq (hu.events.trans ht.events)
    rw [ends_bind, ends_modifyCache]
    refine (internalSend_records hother (fun fd => hm m fd hstamped.hasType) callback epochUs
      _).mono (fun _ v hv => ?_) fun _ _ h => h.elim
    have hsent : Records P u v := hv
    exact IsTrans.trans s u v hidle hsent

/-- The answer to a Logout. -/
theorem sendLogout_unrefused {msg : Message} (hmsg : msg.HasType MsgType.logout) (reason : Bytes)
    (term : Bool) : Keeps (Records fun e => ¬e.Refuses msg) (sendLogout env reason term) := by
  unfold sendLogout
  refine keeps_liftExcept_bind fun m hm =>
    send_records (fun _ => Event.not_refuses_of_transmitted) (fun m' fd hm' => ?_) _
  refine Event.not_refuses fun fd' m'' h => ?_
  cases h
  exact ⟨fun hreject => absurd (((hm' _).mp hreject).unique (buildLogout_hasType hm)) (by decide),
    fun _ => hmsg⟩

/-- The answer to a TestRequest. -/
theorem sendHeartbeat_unrefused (msg : Message) (testReqID : Bytes) :
    Keeps (Records fun e => ¬e.Refuses msg) (sendHeartbeat env testReqID) := by
  unfold sendHeartbeat
  refine keeps_liftExcept_bind fun m hm =>
    send_records (fun _ => Event.not_refuses_of_transmitted) (fun m' fd hm' => ?_) _
  have htype := buildHeartbeat_hasType hm
  refine Event.not_refuses fun fd' m'' h => ?_
  cases h
  exact ⟨fun hreject => absurd (((hm' _).mp hreject).unique htype) (by decide),
    fun hlogout => absurd (((hm' _).mp hlogout).unique htype) (by decide)⟩

/-! ## A message with the target number -/

/-- How a message is handled once its number is consumed. -/
inductive Reacted (env : Env) (msg : Message) (s t : Session) : Prop
  /-- The delegate was not called. -/
  | alone (target : t.cache.targetSeqNum = s.cache.targetSeqNum)
      (records : Records (fun e => ¬e.Refuses msg) s t)
      (happ : msg.IsApplication → ¬msg.HasType MsgType.reject → env.delegate = none)
  /-- The first that was done was to call the delegate. -/
  | called (e : Event) (rest : List Event) (he : e.IsCallback)
      (events : t.events = s.events ++ e :: rest)
      (happ : msg.IsApplication → ¬msg.HasType MsgType.reject →
        e = .onMessage msg s.cache.targetSeqNum)

theorem Reacted.unrefused {msg : Message} {s t : Session} (h : Reacted env msg s t) :
    Unrefused msg s t := by
  cases h with
  | alone _ records _ => exact .of_records records
  | called e rest he events _ =>
      refine ⟨[], e :: rest, events, fun e he => absurd he List.not_mem_nil, ?_⟩
      rintro _ _ ⟨rfl, rfl⟩
      exact he

/-- The callback comes before what the delegate does. -/
theorem callDelegate_calls (event : Session → Event)
    {callback : Delegate → Session → List DelegateCall}
    (hcallback : ∀ d u, env.delegate = some d → ∀ call ∈ callback d u, env.Makes call)
    (s : Session) :
    Ends (callDelegate env event callback) s
      (fun _ t => env.delegate = none ∧ t = s ∨ ∃ rest, t.events = s.events ++ event s :: rest)
      fun _ t => ∃ rest, t.events = s.events ++ event s :: rest := by
  unfold callDelegate
  cases hd : env.delegate with
  | none => exact Or.inl ⟨rfl, rfl⟩
  | some d =>
      simp only [ends_bind, ends_get, ends_record]
      let u : Session := { s with events := s.events ++ [event s] }
      have hcalls : Keeps (Records fun _ => True) (delegateCalls env (callback d u)) :=
        (grows.inbound env).callbacks.allCalls (hcallback d u hd)
      have hrest : ∀ t, Records (fun _ => True) u t →
          ∃ rest, t.events = s.events ++ event s :: rest := by
        rintro t ⟨rest, ht, -⟩
        exact ⟨rest, by rw [ht, List.append_assoc, List.singleton_append]⟩
      exact (hcalls.ends u).mono (fun _ t ht => .inr (hrest t ht)) fun _ t ht => hrest t ht

theorem not_isApplication {msg : Message} {t : Bytes} (htype : msg.HasType t)
    (ht : t ∈ MsgType.sessionMsgs) : ¬msg.IsApplication := by
  rintro ⟨t', htype', hno⟩
  exact hno (htype.unique htype' ▸ ht)

theorem Reacted.of_same {msg : Message} {s t u : Session} (h : Reacted env msg t u)
    (hcache : t.cache = s.cache) (hevents : t.events = s.events) : Reacted env msg s u := by
  cases h with
  | alone target records happ =>
      obtain ⟨ev, hev, hall⟩ := records
      exact .alone (target.trans (by rw [hcache])) ⟨ev, by rw [hev, hevents], hall⟩ happ
  | called e rest he events happ =>
      exact .called e rest he (by rw [events, hevents]) (by rw [← hcache]; exact happ)

/-- What follows the call of the delegate is only looked at where there is none. -/
theorem callDelegate_reacts {msg : Message} (event : Session → Event)
    (callback : Delegate → Session → List DelegateCall)
    (hcallback : ∀ d u, env.delegate = some d → ∀ call ∈ callback d u, env.Makes call)
    (hevent : ∀ s, (event s).IsCallback) {y : SessionM Unit} (hquiet : Keeps Quiet y)
    (hrecords : Keeps (Records fun e => ¬e.Refuses msg) y) (s : Session)
    (happ : msg.IsApplication → ¬msg.HasType MsgType.reject →
      event s = .onMessage msg s.cache.targetSeqNum) :
    Ends (do callDelegate env event callback; y) s (fun _ => Reacted env msg s)
      fun _ => Reacted env msg s := by
  have hcalled : ∀ t, (∃ rest, t.events = s.events ++ event s :: rest) → Reacted env msg s t := by
    rintro t ⟨rest, hrest⟩
    exact .called (event s) rest (hevent s) hrest happ
  refine Ends.bind ((callDelegate_calls event hcallback s).mono (fun _ _ h => h)
    fun _ t h => hcalled t h) ?_
  rintro _ t (⟨hnone, rfl⟩ | ⟨rest, hrest⟩)
  · have hends := (hquiet.ends t).keeps hrecords
    exact hends.mono (fun _ u h => .alone h.1.target h.2 fun _ _ => hnone) fun _ u h =>
      .alone h.1.target h.2 fun _ _ => hnone
  · have hmore : ∀ u, Records (fun e => ¬e.Refuses msg) t u → Reacted env msg s u := by
      rintro u ⟨ev, hev, -⟩
      refine hcalled u ⟨rest ++ ev, ?_⟩
      rw [hev, hrest, List.append_assoc, List.cons_append]
    exact (hrecords.ends t).mono (fun _ => hmore) fun _ => hmore

theorem handleLogout_reacts {msg : Message} (htype : msg.HasType MsgType.logout) (s : Session) :
    Ends (handleLogout env) s (fun _ => Reacted env msg s) fun _ => Reacted env msg s := by
  unfold handleLogout
  refine callDelegate_reacts (fun _ => .onLogout) Delegate.onLogout
    (fun d u hd _ hc => ⟨d, hd, .inr (.inr (.inr ⟨u, hc⟩))⟩) (fun _ => True.intro) ?_ ?_ s
    fun happ => (not_isApplication htype (by decide) happ).elim
  · refine keeps_bind keeps_get fun _ => keeps_ite (fun _ => ?_) fun _ => ?_
    · exact keeps_bind (quiet_setState _) fun _ => quiet_disconnect
    · exact quiet.sendLogout env _ true
  · refine keeps_bind keeps_get fun _ => keeps_ite (fun _ => ?_) fun _ => ?_
    · refine keeps_bind (keeps_modify fun _ => .of_eq rfl) fun _ => ?_
      exact disconnect_records fun _ => Event.not_refuses_of_transmitted
    · exact sendLogout_unrefused htype _ true

theorem handleHeartbeat_reacts {msg : Message} (htype : msg.HasType MsgType.heartbeat)
    (s : Session) :
    Ends (handleHeartbeat env msg) s (fun _ => Reacted env msg s) fun _ => Reacted env msg s := by
  have happ : ∀ {P : Prop}, msg.IsApplication → P := fun h =>
    (not_isApplication htype (by decide) h).elim
  have hstate : Ends (endTestRequest msg) s (fun _ t => t.cache = s.cache ∧ t.events = s.events)
      fun _ t => t.cache = s.cache ∧ t.events = s.events := by
    unfold endTestRequest
    rw [ends_bind, ends_get]
    split
    next =>
      refine Ends.bind (ends_liftExcept (Q := fun _ t => t = s) (fun _ _ => rfl)
        fun _ _ => ⟨rfl, rfl⟩) ?_
      rintro _ t rfl
      split
      next => exact ⟨rfl, rfl⟩
      next => exact ⟨rfl, rfl⟩
    next => exact ⟨rfl, rfl⟩
  unfold handleHeartbeat
  refine Ends.bind (hstate.mono (fun _ _ h => h) fun _ t h =>
    .alone (by rw [h.1]) (.of_eq h.2) fun h => happ h) ?_
  rintro _ t ⟨hcache, hevents⟩
  have hcall : Ends (do
      callDelegate env (fun _ => .onAdminMessage msg) fun d s => d.onAdminMessage s msg
      pure ()) t (fun _ => Reacted env msg t) fun _ => Reacted env msg t :=
    callDelegate_reacts (fun _ => .onAdminMessage msg) (fun d s => d.onAdminMessage s msg)
      (fun d u hd _ hc => ⟨d, hd, .inr (.inl ⟨u, msg, hc⟩)⟩) (fun _ => True.intro)
      (keeps_pure _) (keeps_pure _) t fun h => happ h
  rw [bind_pure_unit] at hcall
  exact hcall.mono (fun _ u hu => hu.of_same hcache hevents) fun _ u hu =>
    hu.of_same hcache hevents

theorem handleSequenced_reacts {msg : Message} {msgType : Bytes} (htype : msg.HasType msgType)
    (s : Session) :
    Ends (handleSequenced env msg msgType) s (fun _ => Reacted env msg s)
      fun _ => Reacted env msg s := by
  unfold handleSequenced
  split
  next heq => exact handleLogout_reacts (heq ▸ htype) s
  next =>
    split
    next heq => exact handleHeartbeat_reacts (heq ▸ htype) s
    next =>
      split
      next heq =>
        have hquiet : Keeps Quiet (do
            let testID ← liftExcept (msg.body.getField Field.testReqID)
            sendHeartbeat env testID) :=
          keeps_bind (keeps_liftExcept _) fun _ => quiet.sendHeartbeat env _
        have hrecords : Keeps (Records fun e => ¬e.Refuses msg) (do
            let testID ← liftExcept (msg.body.getField Field.testReqID)
            sendHeartbeat env testID) :=
          keeps_bind (keeps_liftExcept _) fun _ => sendHeartbeat_unrefused msg _
        have hreacted : ∀ t, Quiet s t ∧ Records (fun e => ¬e.Refuses msg) s t →
            Reacted env msg s t := fun t h => .alone h.1.target h.2 fun happ =>
          (not_isApplication (heq ▸ htype) (by decide) happ).elim
        exact ((hquiet.ends s).keeps hrecords).mono (fun _ => hreacted) fun _ => hreacted
      next =>
        split
        next heq => exact .alone rfl (.of_eq rfl) fun _ hno => (hno (heq ▸ htype)).elim
        next =>
          have hcall : Ends (do
              callDelegate env (fun s => .onMessage msg s.cache.targetSeqNum)
                fun d s => d.onMessage s msg
              pure ()) s (fun _ => Reacted env msg s) fun _ => Reacted env msg s :=
            callDelegate_reacts (fun s => .onMessage msg s.cache.targetSeqNum)
              (fun d s => d.onMessage s msg) (fun d u hd _ hc => ⟨d, hd, .inl ⟨u, msg, hc⟩⟩)
              (fun _ => True.intro) (keeps_pure _) (keeps_pure _) s fun _ _ => rfl
          rwa [bind_pure_unit] at hcall

/-! ## The checks, made again -/

/-- What follows the checks of a message with a type. -/
theorem processMessage_checked {msg : Message} {msgType : Bytes} (htype : msg.HasType msgType)
    {time : Int} {s : Session} {Q : Session → Prop} {E : Exn → Session → Prop}
    (h : Ends (validateMessage env msg msgType time) (started s msg)
      (fun ok t => if ok = true then Ends (dispatchMessage env msg msgType) t (fun _ => Q) E else Q t)
      E) : Ends (processMessage env msg time) s (fun _ => Q) E := by
  unfold processMessage
  rw [ends_bind, ends_getTargetSeqNum, ends_bind, ends_record, ends_liftExcept_ok htype]
  refine Ends.bind h fun ok t ht => ?_
  cases ok with
  | false => exact ht
  | true => exact ht

/-- Of the checks that are made again only SendingTime and the state are in question. -/
theorem validateMessage_again {k : Int} {msg : Message} (h : Arrived env k msg) (msgType : Bytes)
    {time : Int} {s : Session} {Q : Bool → Session → Prop} {E : Exn → Session → Prop}
    (hstale : ¬Timely env msg time → Ends (do
      sendReject env msg .sendingTimeProblem []
      logout env (ascii "SendingTime(52) outside of threshold") false) s (fun _ => Q false) E)
    (hstate : Timely env msg time → Ends (validateState env msgType) s Q E) :
    Ends (validateMessage env msg msgType time) s Q E := by
  obtain ⟨state, time₀, hvalid⟩ := h.checked
  obtain ⟨v, hv, -⟩ := hvalid.sendingTime
  have hpeer : Ends (validateCompIDs env msg) s (fun ok t => ok = true ∧ t = s)
      fun _ _ => False := by
    unfold validateCompIDs
    rw [ends_liftExcept_ok h.peer.beginString, if_neg (not_not.mpr rfl),
      ends_liftExcept_ok h.peer.senderCompID, if_neg (not_not.mpr rfl),
      ends_liftExcept_ok h.peer.targetCompID, if_neg (not_not.mpr rfl)]
    exact ⟨rfl, rfl⟩
  unfold validateMessage
  rw [h.has_msgSeqNum]
  refine Ends.bind (hpeer.mono (fun _ _ h => h) fun _ _ hf => hf.elim) ?_
  rintro _ _ ⟨rfl, rfl⟩
  unfold validateTimes
  rw [if_pos rfl, ends_bind, ends_liftExcept_ok hv]
  split
  next hlate =>
    have hnot : ¬Timely env msg time := fun htimely => absurd (htimely v hv) (not_le.mpr hlate)
    rw [ends_bind]
    have hrefused := hstale hnot
    rw [ends_bind] at hrefused
    refine hrefused.mono (fun _ t ht => ?_) fun _ _ he => he
    exact Ends.bind ht fun _ _ hq => hq
  next hearly =>
    have htimely : Timely env msg time := by
      intro w hw
      have heq : v = w := Except.ok.inj (hv.symm.trans hw)
      exact heq ▸ not_lt.mp hearly
    rw [if_neg]
    · exact hstate htimely
    · intro hdup
      rw [Bool.and_eq_true] at hdup
      rw [hvalid.duplicate hdup.1] at hdup
      exact Bool.noConfusion hdup.2

/-! ## A turn -/

/-- A message that passes the checks once more is handled. -/
theorem taken_of_passable {k time : Int} {msg : Message} {s : Session} (h : Arrived env k msg)
    (htarget : s.cache.targetSeqNum = k) (hpass : Passable env time s msg) :
    Taken env time k msg s := by
  obtain ⟨msgType, htype, hlogon, hresend⟩ := h.type
  obtain ⟨state, time₀, hvalid⟩ := h.checked
  obtain ⟨v, hv, -⟩ := hvalid.sendingTime
  have hagain : Valid env s.state msg time :=
    ⟨h.peer, ⟨v, hv, hpass.sendingTime v hv⟩, hvalid.duplicate,
      fun hs => (hpass.loggedOn hs).elim, fun hs => .inl (hpass.loggingOut hs)⟩
  have hchecks : Ends (validateMessage env msg msgType time) (started s msg)
      (fun ok t => ok = true ∧ t = started s msg) fun _ _ => False :=
    validateMessage_passes htype hagain h.seqNum
  refine processMessage_checked htype (hchecks.mono ?_ fun _ _ hf => hf.elim)
  rintro _ _ ⟨rfl, rfl⟩
  rw [if_pos rfl]
  have haccepts : Ends (validateSeqNum env msg) (started s msg)
      (fun ok t => ok = true ∧ t = { started s msg with cache := s.cache.nextTargetSeqNum })
      fun _ _ => False := validateSeqNum_accepts (htarget.symm ▸ h.seqNum)
  unfold dispatchMessage
  by_cases hreset : msgType = MsgType.sequenceReset
  · rw [if_pos hreset]
    obtain ⟨hfill, n, hresets, hlt⟩ := h.newSeqNo (hreset ▸ htype)
    unfold handleSequenceReset
    rw [ends_liftExcept_ok hresets.2, ends_liftExcept_ok h.seqNum, ends_bind,
      ends_getTargetSeqNum, if_neg (by omega), if_neg]
    · rw [hfill, if_pos rfl]
      refine Ends.bind (haccepts.mono (fun _ _ h => h) fun _ _ hf => hf.elim) ?_
      rintro _ _ ⟨rfl, rfl⟩
      rw [if_pos rfl]
      have hrecords : Records (fun e => ¬e.Refuses msg) (started s msg) { started s msg with
          cache := s.cache.nextTargetSeqNum.setTargetSeqNum n } := .of_eq rfl
      have hnot : ¬msg.IsApplication := not_isApplication (hreset ▸ htype) (by decide)
      exact ⟨⟨.inl (.inr ⟨hresets, hlt⟩), fun happ => (hnot happ).elim⟩,
        (Unrefused.of_records hrecords).of_started⟩
    · change ¬n < s.cache.targetSeqNum
      omega
  · rw [if_neg hreset, if_neg hlogon, if_neg hresend]
    refine Ends.bind (haccepts.mono (fun _ _ h => h) fun _ _ hf => hf.elim) ?_
    rintro _ _ ⟨rfl, rfl⟩
    rw [if_pos rfl]
    generalize hu : ({ started s msg with cache := s.cache.nextTargetSeqNum } : Session) = u
    have hnext : u.cache.targetSeqNum = i32 (k + 1) := by
      subst hu
      exact congrArg (fun k => i32 (k + 1)) htarget
    have hevents : u.events = (started s msg).events := by
      subst hu
      rfl
    have hunrefused : ∀ t, Reacted env msg u t → Unrefused msg s t := by
      intro t ht
      obtain ⟨ev, rest, hev, hall⟩ := ht.unrefused
      exact Unrefused.of_started ⟨ev, rest, by rw [hev, hevents], hall⟩
    have hrecorded : ∀ {e : Event} {rest : List Event} {P : Event → Prop} {t : Session}, P e →
        t.events = u.events ++ e :: rest → Recorded P s t := fun {e rest P t} hP ht =>
      Recorded.of_started ⟨e :: rest, by rw [ht, hevents], e, List.mem_cons_self .., hP⟩
    have hkeeps : Ends (handleSequenced env msg msgType) u
        (fun _ t => env.KeepsTarget → t.cache.targetSeqNum = u.cache.targetSeqNum)
        fun _ _ => True := by
      by_cases henv : env.KeepsTarget
      · refine (handleSequenced_ends henv msg msgType u).mono (fun _ t ht _ => ?_) fun _ _ _ =>
          True.intro
        exact ht.elim (fun hn => hn.target) fun hq => hq.target
      · exact (Ends.trivial _ u).mono (fun _ _ _ h => (henv h).elim) fun _ _ h => h
    refine ((handleSequenced_reacts htype u).and hkeeps).mono (fun _ t ht => ?_)
      fun _ t ht => hunrefused t ht.1
    obtain ⟨hreacted, htargets⟩ := ht
    refine ⟨⟨?_, fun happ hno hd => ?_⟩, hunrefused t hreacted⟩
    · by_cases henv : env.KeepsTarget
      · exact .inl (.inl ((htargets henv).trans hnext))
      · cases hreacted with
        | alone target _ _ => exact .inl (.inl (target.trans hnext))
        | called e rest he events _ => exact .inr ⟨henv, hrecorded he events⟩
    · cases hreacted with
      | alone _ _ hnone => exact (hd (hnone happ hno)).elim
      | called e rest _ events he =>
          have he := he happ hno
          rw [hnext] at he
          exact hrecorded (P := (· = .onMessage msg (i32 (k + 1)))) he events

/-- Without a Logout in the dictionary a logout raises, and nothing is transmitted. -/
theorem logout_raises (hknows : ¬Knows env MsgType.logout) (reason : Bytes) (term : Bool)
    (s : Session) :
    Ends (logout env reason term) s (fun _ _ => False) fun _ t => t.events = s.events := by
  obtain ⟨e, he⟩ : ∃ e, buildLogout env reason = .error e := by
    cases hm : env.dictionary.create MsgType.logout with
    | ok m => exact (hknows ⟨m, hm⟩).elim
    | error e => exact ⟨e, by simp only [buildLogout, hm]; rfl⟩
  unfold logout sendLogout
  rw [he]
  refine Ends.bind (P := fun _ t => t.events = s.events) ?_ fun _ t ht => ?_
  · cases term with
    | true => rfl
    | false => rfl
  · rw [ends_bind]
    exact ht

theorem sendReject_raises (hknows : ¬Knows env MsgType.reject) (msg : Message)
    (reason : SessionRejectReason) (text : Bytes) (s : Session) :
    Ends (sendReject env msg reason text) s (fun _ _ => False) fun _ t => t = s := by
  obtain ⟨e, he⟩ : ∃ e, buildReject env msg reason text = .error e := by
    cases hm : env.dictionary.create MsgType.reject with
    | ok m => exact (hknows ⟨m, hm⟩).elim
    | error e => exact ⟨e, by simp only [buildReject, hm]; rfl⟩
  unfold sendReject
  rw [he]
  exact rfl

/-- A Reject is all that is transmitted. -/
theorem sendReject_transmits (hknows : Knows env MsgType.reject) {msg : Message}
    (hseq : msg.header.has Field.msgSeqNum = true) (reason : SessionRejectReason) (text : Bytes)
    (s : Session) :
    Ends (sendReject env msg reason text) s
      (fun _ t => ∃ m, m.HasType MsgType.reject ∧ t.events = s.events ++ transmission s m)
      fun _ _ => False := by
  have hsucceeds := succeeds_sendReject hknows hseq reason text
  refine hsucceeds.ends (E := fun _ _ => True) ?_
  unfold sendReject
  refine Ends.bind (ends_liftExcept (Q := fun m t => buildReject env msg reason text = .ok m ∧ t = s)
    (fun m hm => ⟨hm, rfl⟩) fun _ _ => True.intro) ?_
  rintro m t ⟨hm, rfl⟩
  refine (send_ends env m t).mono (fun _ u hu => ?_) fun _ _ _ => True.intro
  obtain ⟨m', hstamped, -, hevents⟩ := hu.sent
  exact ⟨m', (hstamped.hasType _).mpr (buildReject_hasType hm).1, hevents⟩

/-- The checks of a mute turn raise, and nothing is transmitted. -/
theorem validateMessage_mute {k time : Int} {msg : Message} (h : Arrived env k msg)
    {msgType : Bytes} (htype : msg.HasType msgType) {s : Session} (hmute : Mute env time s msg)
    (hpass : ¬Passable env time s msg) :
    Ends (validateMessage env msg msgType time) s (fun _ _ => False)
      fun _ t => t.events = s.events := by
  refine validateMessage_again h msgType (fun hlate => ?_) fun htimely => ?_
  · rcases hmute with ⟨-, hreject | ⟨hlogout, hconn⟩⟩ | ⟨htimely, -⟩
    · refine Ends.bind (P := fun _ _ => False) ?_ fun _ _ hf => hf.elim
      exact (sendReject_raises hreject msg _ [] s).mono (fun _ _ hf => hf) fun _ _ ht => by rw [ht]
    · by_cases hreject : Knows env MsgType.reject
      · refine Ends.bind (P := fun _ t => t.events = s.events) ?_ fun _ t ht => ?_
        · refine (sendReject_transmits hreject h.has_msgSeqNum _ [] s).mono (fun _ t ht => ?_)
            fun _ _ hf => hf.elim
          obtain ⟨m, -, hevents⟩ := ht
          rw [hevents, transmission, hconn]
          exact List.append_nil _
        · exact (logout_raises hlogout _ false t).mono (fun _ _ hf => hf) fun _ u hu => hu.trans ht
      · refine Ends.bind (P := fun _ _ => False) ?_ fun _ _ hf => hf.elim
        exact (sendReject_raises hreject msg _ [] s).mono (fun _ _ hf => hf)
          fun _ _ ht => by rw [ht]
    · exact (hlate htimely).elim
  · have hlogout : ¬Knows env MsgType.logout :=
      hmute.elim (fun hlate => (hlate.1 htimely).elim) fun hstate => hstate.2
    have hraises : ∀ reason, Ends (do logout env reason true; return false) s
        (fun (_ : Bool) _ => False) fun _ t => t.events = s.events := fun reason =>
      Ends.bind (logout_raises hlogout reason true s) fun _ _ hf => hf.elim
    unfold validateState
    rw [ends_bind, ends_get]
    split
    next => exact hraises _
    next hlogon =>
      split
      next => exact hraises _
      next hleaving =>
        obtain ⟨t, ht, hnotLogon, hnotResend⟩ := h.type
        obtain rfl := ht.unique htype
        refine hpass ⟨htimely, fun hs => hlogon ⟨hs, hnotLogon⟩, fun hs => ?_⟩
        by_contra hout
        exact hleaving ⟨hs, fun heq => hout (heq ▸ htype), hnotResend⟩

/-- The checks that fail answer, or raise after a Reject. -/
theorem validateMessage_refuses {k time : Int} {msg : Message} (h : Arrived env k msg)
    {msgType : Bytes} (htype : msg.HasType msgType) {s : Session}
    (hspoiled : ¬Unspoiled env time s msg) :
    Ends (validateMessage env msg msgType time) s (fun ok _ => ok = false)
      fun _ t => ∃ fd m ev, t.events = s.events ++ ev ∧ .transmit fd m ∈ ev ∧
        m.HasType MsgType.reject := by
  obtain ⟨hpass, hmute⟩ := not_or.mp hspoiled
  refine validateMessage_again h msgType (fun hlate => ?_) fun htimely => ?_
  · have hreject : Knows env MsgType.reject := by
      by_contra hno
      exact hmute (.inl ⟨hlate, .inl hno⟩)
    by_cases hlogout : Knows env MsgType.logout
    · refine Ends.bind (P := fun _ _ => True) ?_ fun _ t _ => ?_
      · exact (succeeds_sendReject hreject h.has_msgSeqNum _ [] s).mono (fun _ _ h => h)
          fun _ _ hf => hf.elim
      · exact (succeeds_logout hlogout _ false t).mono (fun _ _ _ => rfl) fun _ _ hf => hf.elim
    · have hconn : s.network.connected = true := by
        by_contra hno
        exact hmute (.inl ⟨hlate, .inr ⟨hlogout, by simpa using hno⟩⟩)
      obtain ⟨fd, hfd⟩ := Option.isSome_iff_exists.mp (s.network.wf hconn).1
      refine Ends.bind ((sendReject_transmits hreject h.has_msgSeqNum _ [] s).mono
        (fun _ _ h => h) fun _ _ hf => hf.elim) ?_
      rintro _ t ⟨m, hm, hevents⟩
      refine (logout_raises hlogout _ false t).mono (fun _ _ hf => hf.elim) fun _ u hu => ?_
      refine ⟨fd, m, [.transmit fd m], ?_, List.mem_singleton_self _, hm⟩
      rw [hu, hevents, transmission, if_pos hconn, hfd]
      rfl
  · have hlogout : Knows env MsgType.logout := by
      by_contra hno
      exact hmute (.inr ⟨htimely, hno⟩)
    have hanswers : ∀ reason, Ends (do logout env reason true; return false) s
        (fun ok _ => ok = false) fun _ t => ∃ fd m ev, t.events = s.events ++ ev ∧
          .transmit fd m ∈ ev ∧ m.HasType MsgType.reject := fun reason =>
      Ends.bind ((succeeds_logout hlogout reason true s).mono (fun _ _ h => h)
        fun _ _ hf => hf.elim) fun _ _ _ => rfl
    unfold validateState
    rw [ends_bind, ends_get]
    split
    next => exact hanswers _
    next hlogon =>
      split
      next => exact hanswers _
      next hleaving =>
        obtain ⟨t, ht, hnotLogon, hnotResend⟩ := h.type
        obtain rfl := ht.unique htype
        refine (hpass ⟨htimely, fun hs => hlogon ⟨hs, hnotLogon⟩, fun hs => ?_⟩).elim
        by_contra hout
        exact hleaving ⟨hs, fun heq => hout (heq ▸ htype), hnotResend⟩

/-- At its turn a message is taken exactly if the checks pass once more, or if the
session cannot say that they do not. -/
theorem taken_iff {k time : Int} {msg : Message} {s : Session} (h : Arrived env k msg)
    (htarget : s.cache.targetSeqNum = k) :
    Taken env time k msg s ↔ Unspoiled env time s msg := by
  obtain ⟨msgType, htype, -⟩ := h.type
  constructor
  · intro htaken
    by_contra hspoiled
    have hstill : ¬Unspoiled env time (started s msg) msg := fun hs =>
      hspoiled (hs.imp (fun hp => ⟨hp.sendingTime, hp.loggedOn, hp.loggingOut⟩) fun hm => hm)
    have hrefuses := validateMessage_refuses h htype hstill
    have hquiet : Ends (validateMessage env msg msgType time) (started s msg) _ _ :=
      validateMessage_valid htype time (started s msg)
    have hnot : ∀ e : Event, e.IsOutput → ¬e.IsCallback := fun _ => Event.IsOutput.not_callback
    have hbad : Ends (processMessage env msg time) s (fun _ t => Quiet (started s msg) t)
        fun _ t => Quiet (started s msg) t ∧ ∃ fd m ev, t.events = (started s msg).events ++ ev ∧
          .transmit fd m ∈ ev ∧ m.HasType MsgType.reject := by
      refine processMessage_checked htype ((hrefuses.and hquiet).mono (fun ok t ht => ?_)
        fun _ t ht => ⟨ht.2, ht.1⟩)
      rw [if_neg (by rw [ht.1]; exact Bool.false_ne_true)]
      exact ht.2.1
    have hcontra := htaken.and hbad
    unfold Ends at hcontra
    split at hcontra
    next t hrun =>
      obtain ⟨⟨hhandled, -⟩, hq⟩ := hcontra
      rcases hhandled.advanced with (hnext | ⟨hresets, hlt⟩) | ⟨-, ev, hev, e, he, hcall⟩
      · rw [hq.target] at hnext
        change s.cache.targetSeqNum = i32 (k + 1) at hnext
        unfold i32 at hnext
        omega
      · rw [hq.target] at hlt
        change k < s.cache.targetSeqNum at hlt
        omega
      · obtain ⟨ev', hev', hall⟩ := hq.events
        rw [hev', started, List.append_assoc] at hev
        have hmem := List.append_cancel_left hev ▸ he
        rcases List.mem_cons.mp hmem with rfl | hmem
        · exact hcall
        · exact hnot e (hall e hmem) hcall
    next e t hrun =>
      obtain ⟨hunrefused, hq, fd, m, ev, hev, hmem, hm⟩ := hcontra
      obtain ⟨ev', hev', hall⟩ := hq.events
      have hsame : ev = ev' := List.append_cancel_left (hev.symm.trans hev')
      have hall' : ∀ e ∈ Event.process msg s.cache.targetSeqNum :: ev, ¬e.IsCallback := by
        intro e he
        rcases List.mem_cons.mp he with rfl | he
        · exact id
        · exact hnot e (hall e (hsame ▸ he))
      refine hunrefused.not_reject (.process msg s.cache.targetSeqNum :: ev) ?_ hall'
        (List.mem_cons_of_mem _ hmem) hm
      rw [hev, started, List.append_assoc, List.singleton_append]
  · rintro (hpass | hmute)
    · exact taken_of_passable h htarget hpass
    · by_cases hpass : Passable env time s msg
      · exact taken_of_passable h htarget hpass
      · have hstill : ¬Passable env time (started s msg) msg := fun hp =>
          hpass ⟨hp.sendingTime, hp.loggedOn, hp.loggingOut⟩
        have hchecks := validateMessage_mute h htype (s := started s msg) hmute hstill
        refine processMessage_checked htype (hchecks.mono (fun _ _ hf => hf.elim) fun _ t ht => ?_)
        have hrecords : Records (fun e => ¬e.Refuses msg) (started s msg) t := .of_eq ht
        exact (Unrefused.of_records hrecords).of_started

/-! ## The loop -/

/-- The queue stayed. -/
def SameInbound (s t : Session) : Prop := t.cache.inboundQueue = s.cache.inboundQueue

instance : Std.Refl SameInbound := ⟨fun _ => rfl⟩

instance : IsTrans Session SameInbound := ⟨fun _ _ _ h h' => Eq.trans h' h⟩

theorem sameInbound : OpenToSending SameInbound := quiet.weaken fun _ _ h => h.queue

/-- No call of a delegate reaches the queue. -/
theorem sameInbound_callDelegate (event : Session → Event)
    (callback : Delegate → Session → List DelegateCall) :
    Keeps SameInbound (callDelegate env event callback) := by
  have hcalls : ∀ calls, Keeps SameInbound (delegateCalls env calls) := by
    intro calls
    induction calls with
    | nil => exact keeps_pure _
    | cons call calls ih =>
        refine keeps_bind ?_ fun _ => ih
        cases call with
        | send msg => exact sameInbound.send env msg none
        | setSenderSeqNum num => exact keeps_modify fun _ => rfl
        | setTargetSeqNum num => exact keeps_modify fun _ => rfl
        | start => exact keeps_modify fun _ => rfl
        | stop => exact sameInbound.stop
        | throw => exact keeps_throw _
  unfold callDelegate
  cases env.delegate with
  | none => exact keeps_pure _
  | some d =>
      refine keeps_bind keeps_get fun _ => keeps_bind (keeps_modify fun _ => rfl) fun _ => ?_
      exact keeps_bind keeps_get fun _ => hcalls _

theorem sameInbound_handleSequenced (msg : Message) (msgType : Bytes) :
    Keeps SameInbound (handleSequenced env msg msgType) := by
  have hlogout : Keeps SameInbound (handleLogout env) := by
    refine keeps_bind (sameInbound_callDelegate _ _) fun _ => keeps_bind keeps_get fun _ => ?_
    refine keeps_ite (fun _ => ?_) fun _ => sameInbound.sendLogout env _ true
    exact keeps_bind (keeps_modify fun _ => rfl) fun _ => sameInbound.disconnect
  have hheartbeat : Keeps SameInbound (handleHeartbeat env msg) := by
    refine keeps_bind ?_ fun _ => sameInbound_callDelegate _ _
    exact (quiet_endTestRequest msg).mono fun _ _ h => h.queue
  unfold handleSequenced
  refine keeps_ite (fun _ => hlogout) fun _ => keeps_ite (fun _ => hheartbeat) fun _ => ?_
  refine keeps_ite (fun _ => ?_) fun _ => keeps_ite (fun _ => keeps_pure _) fun _ => ?_
  · exact keeps_bind (keeps_liftExcept _) fun _ => sameInbound.sendHeartbeat env _
  · exact sameInbound_callDelegate _ _

/-- A message of the queue leaves the queue alone at its turn. -/
theorem sameInbound_processMessage {k : Int} {msg : Message} {s : Session}
    (h : Queueable env k msg) (htarget : s.cache.targetSeqNum = k) (time : Int) :
    Ends (processMessage env msg time) s (fun _ => SameInbound s) fun _ => SameInbound s := by
  obtain ⟨msgType, htype, hlogon, hresend⟩ := h.type
  have hchecks : Ends (validateMessage env msg msgType time) (started s msg) _ _ :=
    validateMessage_valid htype time (started s msg)
  have hstarted : ∀ {t}, SameInbound (started s msg) t → SameInbound s t := fun ht => ht
  refine processMessage_checked htype (hchecks.mono (fun ok t ht => ?_) fun _ t ht =>
    hstarted ht.queue)
  split
  next hok =>
    obtain ⟨rfl, -⟩ := ht.2 hok
    have haccepts : Ends (validateSeqNum env msg) (started s msg)
        (fun ok t => ok = true ∧ t = { started s msg with cache := s.cache.nextTargetSeqNum })
        fun _ _ => False := validateSeqNum_accepts (htarget.symm ▸ h.seqNum)
    unfold dispatchMessage
    by_cases hreset : msgType = MsgType.sequenceReset
    · rw [if_pos hreset]
      obtain ⟨hfill, n, hresets, hlt⟩ := h.newSeqNo (hreset ▸ htype)
      unfold handleSequenceReset
      rw [ends_liftExcept_ok hresets.2, ends_liftExcept_ok h.seqNum, ends_bind,
        ends_getTargetSeqNum, if_neg (by omega), if_neg]
      · rw [hfill, if_pos rfl]
        refine Ends.bind (haccepts.mono (fun _ _ h => h) fun _ _ hf => hf.elim) ?_
        rintro _ _ ⟨rfl, rfl⟩
        exact rfl
      · change ¬n < s.cache.targetSeqNum
        omega
    · rw [if_neg hreset, if_neg hlogon, if_neg hresend]
      refine Ends.bind (haccepts.mono (fun _ _ h => h) fun _ _ hf => hf.elim) ?_
      rintro _ _ ⟨rfl, rfl⟩
      rw [if_pos rfl]
      exact (sameInbound_handleSequenced msg msgType).ends _
  next => exact hstarted ht.1.queue

/-- The entry that a round erases is the one that was processed, and a round that raises
erases none. -/
theorem round_erases {k : Int} {msg : Message} {s : Session} (h : Queueable env k msg)
    (hfront : AtFront s k msg) (time : Int) :
    Ends (do processMessage env msg time; eraseFront) s
      (fun _ t => t.cache.inboundQueue = s.cache.inboundQueue.eraseMin)
      fun _ t => t.cache.inboundQueue = s.cache.inboundQueue := by
  refine Ends.bind (sameInbound_processMessage h hfront.target time) fun _ t ht => ?_
  unfold eraseFront
  rw [ends_bind, ends_get, show t.cache.inboundQueue = s.cache.inboundQueue from ht, hfront.front]
  exact congrArg SortedMap.eraseMin ht

/-- Every message of the queue has arrived. -/
def AllArrived (env : Env) (s : Session) : Prop :=
  ∀ k msg, (k, msg) ∈ s.cache.inboundQueue.entries → Arrived env k msg

theorem AllArrived.front {s : Session} (h : AllArrived env s) {k : Int} {msg : Message}
    (hfront : AtFront s k msg) : Arrived env k msg := by
  refine h k msg ?_
  rw [SortedMap.entries_of_min? hfront.front]
  exact List.mem_cons_self ..

theorem drainQueue_zero (time : Int) (s : Session) : (drainQueue env time 0).run s = .ok () s := rfl

/-- A round of the loop. -/
theorem drainQueue_round {k : Int} {msg : Message} {s : Session} (hfront : AtFront s k msg)
    (time : Int) (n : Nat) {Q : Unit → Session → Prop} {E : Exn → Session → Prop} :
    Ends (drainQueue env time (n + 1)) s Q E ↔
      Ends (do processMessage env msg time; eraseFront) s
        (fun _ t => Ends (drainQueue env time n) t Q E) E := by
  rw [drainQueue, ends_bind, ends_get, hfront.front]
  dsimp only
  rw [if_pos hfront.target, ends_bind, ends_bind]
  simp only [ends_bind]

/-- What arrives at a round of the loop has arrived. -/
theorem drainQueue_arrived (time : Int) (n : Nat) {s : Session} (h : AllArrived env s) :
    Ends (drainQueue env time n) s (fun _ => AllArrived env) fun _ => AllArrived env := by
  induction n generalizing s with
  | zero => exact h
  | succ n ih =>
      by_cases hfront : ∃ k msg, AtFront s k msg
      · obtain ⟨k, msg, hfront⟩ := hfront
        rw [drainQueue_round hfront]
        have hround := round_erases (h.front hfront).toQueueable hfront time
        refine hround.mono (fun _ t ht => ih fun l m hm => ?_) fun _ t ht l m hm => ?_
        · rw [ht] at hm
          exact h l m (List.mem_of_mem_tail hm)
        · rw [ht] at hm
          exact h l m hm
      · rw [drainQueue, ends_bind, ends_get]
        cases hmin : s.cache.inboundQueue.min? with
        | none => exact h
        | some head =>
            dsimp only
            rw [if_neg fun heq => hfront ⟨head.1, head.2, hmin, heq⟩]
            exact h

/-- In the rounds of the loop every message is taken at its turn exactly if each is
unspoiled when its turn comes. -/
theorem drainQueue_taken_iff {time : Int} {s : Session} (h : AllArrived env s) :
    (∀ n t k msg, (drainQueue env time n).run s = .ok () t → AtFront t k msg →
        Taken env time k msg t) ↔
      ∀ n t k msg, (drainQueue env time n).run s = .ok () t → AtFront t k msg →
        Unspoiled env time t msg := by
  have harrived : ∀ {n t k msg}, (drainQueue env time n).run s = .ok () t → AtFront t k msg →
      Arrived env k msg := by
    intro n t k msg hrun hfront
    have hall := drainQueue_arrived time n h
    unfold Ends at hall
    rw [hrun] at hall
    exact AllArrived.front hall hfront
  constructor
  · intro htaken n t k msg hrun hfront
    exact (taken_iff (harrived hrun hfront) hfront.target).mp (htaken n t k msg hrun hfront)
  · intro hunspoiled n t k msg hrun hfront
    exact (taken_iff (harrived hrun hfront) hfront.target).mpr (hunspoiled n t k msg hrun hfront)

/-! ## Where the queue comes from -/

theorem Valid.copy {state : SessionState} {msg : Message} {time : Int}
    (h : Valid env state msg time) : Valid env state msg.copy time where
  peer := ⟨(FieldMap.getField_copy _ _).trans h.peer.beginString,
    (FieldMap.getField_copy _ _).trans h.peer.senderCompID,
    (FieldMap.getField_copy _ _).trans h.peer.targetCompID⟩
  sendingTime := by
    obtain ⟨v, hv, hle⟩ := h.sendingTime
    exact ⟨v, (FieldMap.getField_copy _ _).trans hv, hle⟩
  duplicate hdup := (FieldMap.has_copy _ _).trans
    (h.duplicate ((FieldMap.tryGetBool_copy _ _).symm.trans hdup))
  logon hs := (FieldMap.getField_copy _ _).trans (h.logon hs)
  logout hs := (h.logout hs).imp (fun ht => (FieldMap.getField_copy _ _).trans ht)
    fun ht => (FieldMap.getField_copy _ _).trans ht

/-- A message that changes the queue has passed the checks. -/
theorem processMessage_valid (msg : Message) (time : Int) (s : Session) :
    Ends (processMessage env msg time) s
      (fun _ t => SameInbound s t ∨ Valid env s.state msg time)
      fun _ t => SameInbound s t ∨ Valid env s.state msg time := by
  cases htype : msg.header.getField Field.msgType with
  | error e =>
      unfold processMessage
      rw [ends_bind, ends_getTargetSeqNum, ends_bind, ends_record, htype]
      exact Or.inl rfl
  | ok msgType =>
      have hchecks : Ends (validateMessage env msg msgType time) (started s msg) _ _ :=
        validateMessage_valid htype time (started s msg)
      have hsame : ∀ {t}, Quiet (started s msg) t → SameInbound s t := fun ht => ht.queue
      refine processMessage_checked htype (hchecks.mono (fun ok t ht => ?_) fun _ t ht =>
        .inl (hsame ht))
      split
      next hok =>
        have hvalid : Valid env s.state msg time := (ht.2 hok).2
        exact (Ends.trivial _ t).mono (fun _ _ _ => .inr hvalid) fun _ _ _ => .inr hvalid
      next => exact .inl (hsame ht.1)

theorem AllArrived.of_same {s t : Session} (h : AllArrived env s)
    (hqueue : t.cache.inboundQueue = s.cache.inboundQueue) : AllArrived env t := by
  intro k msg hmem
  rw [hqueue] at hmem
  exact h k msg hmem

theorem AllArrived.setTarget {s : Session} (h : AllArrived env s) (n : Int) :
    AllArrived env { s with cache := s.cache.setTargetSeqNum n } := h

theorem AllArrived.of_empty {s : Session} (hqueue : s.cache.inboundQueue = .empty) :
    AllArrived env s := by
  intro k msg hmem
  rw [hqueue] at hmem
  exact absurd hmem List.not_mem_nil

theorem processMessage_arrived (henv : env.KeepsTarget) (msg : Message) (time : Int) {s : Session}
    (h : AllArrived env s) :
    Ends (processMessage env msg time) s (fun _ => AllArrived env) fun _ => AllArrived env := by
  have hcases : ∀ t, Move env time msg (started s msg) t →
      SameInbound s t ∨ Valid env s.state msg time → AllArrived env t := by
    intro t hmove hchecked
    cases hmove with
    | stay hstay => exact h.of_same hstay.queue
    | queue k hmsg _ hqueue =>
        rcases hchecked with hsame | hvalid
        · exact h.of_same hsame
        · intro l m hmem
          rw [hqueue.queue] at hmem
          rcases SortedMap.mem_entries_insert hmem with heq | hmem
          · cases heq
            exact ⟨hmsg.copy, s.state, time, hvalid.copy⟩
          · exact h l m hmem
    | consume _ _ _ hconsume => exact h.of_same hconsume.queue
    | deliver _ _ _ u hconsume hquiet => exact h.of_same (Eq.trans hquiet.queue hconsume.queue)
    | jump _ k n _ _ _ _ _ hjump => exact h.of_same hjump.queue
    | reset _ _ target _ u _ hreset => exact .of_empty hreset.queue
  exact ((processMessage_ends henv msg time s).and (processMessage_valid msg time s)).mono
    (fun _ t ht => hcases t ht.1 ht.2) fun _ t ht => hcases t ht.1 ht.2

theorem onNetworkMessage_arrived (henv : env.KeepsTarget) (text : Bytes) {s : Session}
    (h : AllArrived env s) : AllArrived env (after (onNetworkMessage env text) s) := by
  apply after_eq_of_ends
  unfold onNetworkMessage
  rw [ends_bind, ends_get]
  split
  next => exact h
  next =>
    refine Ends.tryCatch (F := fun _ => AllArrived env) ?_ fun e t ht => ?_
    · cases hparse : env.dictionary.parse env.settings text with
      | error e => exact h
      | ok msg =>
          rw [ends_liftExcept_ok rfl]
          have hentered : AllArrived env (entered env s) := h
          refine handleParsed_ends ((processMessage_arrived henv msg _ hentered).mono
            (fun _ t ht => ?_) fun _ _ ht => ht)
          exact (drainQueue_arrived _ _ ht).mono (fun _ _ hu => hu) fun _ _ hu => hu
    · cases e with
      | undefined what => exact ht
      | _ => exact ht

/-- In every run, what is queued has arrived. -/
theorem run_arrived (henv : env.KeepsTarget) {s : Session}
    (h : Reached (Session.new env.settings) (next env) (fun _ _ => True) s) : AllArrived env s := by
  refine h.invariant (P := AllArrived env) (AllArrived.of_empty rfl) fun s i _ hs => ?_
  cases i with
  | connected fd => exact hs
  | disconnected => exact hs
  | inbound text => exact onNetworkMessage_arrived henv text hs
  | tick =>
      have htick : Keeps SameQueue (onNetworkUpdate env) :=
        sameQueue.tick env (fun _ => .inr rfl) (fun _ _ => .inl ⟨rfl, rfl⟩)
          fun _ _ => .inl ⟨rfl, rfl⟩
      rcases htick s with ⟨-, hqueue⟩ | hempty
      · exact hs.of_same hqueue
      · exact .of_empty hempty

/-- An order that comes before the two messages in front of it. -/
def testEarlyOrder : Bytes :=
  wireOf ("8=FIX.4.2|9=65|35=D|49=INITIATOR|56=ACCEPTOR|34=4|52=20240229-12:34:56.789|" ++
    "11=X|10=250|")

/-- The session of the tests after a logon and the early order. -/
def waitingSession : Session :=
  next (testEnv acceptorSettings) (.inbound testEarlyOrder)
    (next (testEnv acceptorSettings) (.inbound testLogon) (connectedSession acceptorSettings))

/-- The session when the gap in front of the order is filled. -/
def filledSession : Session :=
  { waitingSession with cache := waitingSession.cache.setTargetSeqNum 4 }

theorem waitingSession_arrived : AllArrived (testEnv acceptorSettings) waitingSession := by
  have hreached : Reached (Session.new acceptorSettings) (next (testEnv acceptorSettings))
      (fun _ _ => True) waitingSession :=
    ((Reached.init.step (i := Input.connected 3) True.intro).step
      (i := Input.inbound testLogon) True.intro).step
      (i := Input.inbound testEarlyOrder) True.intro
  exact run_arrived (testEnv_keepsTarget acceptorSettings) hreached

theorem filledSession_arrived : AllArrived (testEnv acceptorSettings) filledSession := by
  unfold filledSession
  exact waitingSession_arrived.setTarget 4

/-- An hour later the order is too old. -/
theorem filledSession_spoiled : ∃ msg, AtFront filledSession 4 msg ∧
    ¬Unspoiled (testEnv acceptorSettings) 1709213696789 filledSession msg := by
  have hfront : (filledSession.cache.inboundQueue.min?.map fun p =>
      (p.1, p.2.header.getField Field.sendingTime)) =
        some (4, .ok (ascii "20240229-12:34:56.789")) := by decide +kernel
  cases hmin : filledSession.cache.inboundQueue.min? with
  | none => rw [hmin] at hfront; cases hfront
  | some head =>
      obtain ⟨k, msg⟩ := head
      rw [hmin] at hfront
      obtain ⟨rfl, hsending⟩ := Prod.mk.inj (Option.some.inj hfront)
      refine ⟨msg, ⟨hmin, rfl⟩, ?_⟩
      have hlate : ¬Timely (testEnv acceptorSettings) msg 1709213696789 := fun htimely =>
        absurd (htimely _ hsending) (by decide +kernel)
      rintro (hpass | ⟨-, hno | ⟨hno, -⟩⟩ | ⟨htimely, -⟩)
      · exact hlate hpass.sendingTime
      · exact hno ⟨_, rfl⟩
      · exact hno ⟨_, rfl⟩
      · exact hlate htimely

/-- The order is then dropped. -/
theorem drainQueue_taken_iff_test :
    ¬∀ n t k msg, (drainQueue (testEnv acceptorSettings) 1709213696789 n).run filledSession =
      .ok () t → AtFront t k msg → Taken (testEnv acceptorSettings) 1709213696789 k msg t := by
  intro htaken
  obtain ⟨msg, hfront, hspoiled⟩ := filledSession_spoiled
  exact hspoiled ((drainQueue_taken_iff filledSession_arrived).mp htaken 0 _ 4 msg (drainQueue_zero _ _) hfront)

theorem not_drainQueue_taken : ¬∀ (env : Env) (time : Int) (s : Session), AllArrived env s →
    ∀ n t k msg, (drainQueue env time n).run s = .ok () t → AtFront t k msg →
      Taken env time k msg t := by
  intro hall
  obtain ⟨msg, hfront, hspoiled⟩ := filledSession_spoiled
  have harrived := filledSession_arrived.front hfront
  exact hspoiled ((taken_iff harrived hfront.target).mp
    (hall _ 1709213696789 _ filledSession_arrived 0 _ 4 msg (drainQueue_zero _ _) hfront))

end Session

end OpenFix
