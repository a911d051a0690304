import OpenFix.Connection
import OpenFix.Sending

/-!
# The rest of a batch

The messages of one read are handled in a loop that does not look at the
connection again.  `terminate` closes the connection and sets the state LOGON,
in which a session reads on.  A message that follows in the same batch is
ignored if it raises before it has an effect or fails the checks of BeginString
and the CompIDs.  Any other is answered, and the answer uses up a sender number,
or it is a logon and logs the session on.
-/

namespace OpenFix

open Effect Run

/-- An event that hands nothing to the delegate and does not log on. -/
def Event.HandsNothing : Event → Prop
  | .onMessage _ _ | .onAdminMessage _ | .onLogon | .onLogout | .loggedOn => False
  | _ => True

theorem Event.IsOutput.handsNothing {e : Event} (h : e.IsOutput) : e.HandsNothing := by
  cases e with
  | onMessage msg target => exact h
  | onAdminMessage msg => exact h
  | onLogon => exact h
  | onLogout => exact h
  | loggedOn => exact h
  | _ => trivial

namespace Session

/-! ## Events are only added -/

theorem grows : OpenToHandling (Records fun _ => True) := records_handling fun _ _ => trivial

theorem grows_processRead (env : Env) : ∀ texts, Keeps (Records fun _ => True) (processRead env texts)
  | [] => keeps_pure _
  | text :: texts =>
      keeps_bind ((grows.inbound env).onNetworkMessage (fun s _ _ => records_event trivial s)
        (fun s _ _ => records_event trivial s) text) fun _ => grows_processRead env texts

/-- What was recorded later is part of what was recorded. -/
theorem Records.later {P P' P'' : Event → Prop} {s t u : Session} (h : Records P s u)
    (hs : Records P' s t) (ht : Records P'' t u) : Records P t u := by
  obtain ⟨ev, hev, hP⟩ := h
  obtain ⟨ev₁, hev₁, -⟩ := hs
  obtain ⟨ev₂, hev₂, -⟩ := ht
  refine ⟨ev₂, hev₂, fun e he => hP e ?_⟩
  rw [hev₂, hev₁, List.append_assoc] at hev
  exact List.append_cancel_left hev ▸ List.mem_append_right ev₁ he

/-! ## A closed connection stays closed -/

/-- From `s` to `t` no connection was opened, and `terminate` left none. -/
def Severs (s t : Session) : Prop :=
  ∃ ev, t.events = s.events ++ ev ∧ (t.network.connected = true →
    s.network.connected = true ∧ ∀ reason, Event.terminate reason ∉ ev)

theorem Severs.of_eq {s t : Session} (hev : t.events = s.events)
    (hnet : t.network.connected = true → s.network.connected = true) : Severs s t :=
  ⟨[], by simp [hev], fun h => ⟨hnet h, fun _ => List.not_mem_nil⟩⟩

theorem Severs.of_event {e : Event} (he : ∀ reason, e ≠ .terminate reason) (s : Session) :
    Severs s { s with events := s.events ++ [e] } :=
  ⟨[e], rfl, fun h => ⟨h, fun reason hmem => he reason (List.mem_singleton.mp hmem).symm⟩⟩

theorem Severs.of_closed {s t : Session} (hev : Records (fun _ => True) s t)
    (hnet : t.network.connected = false) : Severs s t := by
  obtain ⟨ev, hev, -⟩ := hev
  exact ⟨ev, hev, fun h => by simp [hnet] at h⟩

instance : Std.Refl Severs := ⟨fun _ => .of_eq rfl id⟩

instance : IsTrans Session Severs where
  trans s t u := by
    rintro ⟨ev, hev, h⟩ ⟨ev', hev', h'⟩
    refine ⟨ev ++ ev', by rw [hev', hev, List.append_assoc], fun hu => ?_⟩
    obtain ⟨ht, hno'⟩ := h' hu
    obtain ⟨hs, hno⟩ := h ht
    exact ⟨hs, fun reason hmem => (List.mem_append.mp hmem).elim (hno reason) (hno' reason)⟩

theorem severs : OpenToHandling Severs where
  refl := Std.Refl.refl
  trans := IsTrans.trans
  book h := .of_eq h.events fun hc => h.network ▸ hc
  cache _ := .of_eq rfl id
  transmit s fd msg := .of_event (e := .transmit fd msg) (by simp) s
  dropInvalid _ _ := .of_eq rfl id
  disconnect := by
    intro s
    have hclosed := after_eq_of_ends (P := fun t => t.network.connected = false)
      ((networkDisconnect_ends s).mono (fun _ _ h => by rw [h.2.2]; rfl) fun _ _ h => h.elim)
    exact .of_closed (Records.mono (quiet_disconnect s).events fun _ _ => trivial) hclosed
  terminate reason := by
    intro s
    have hclosed := after_eq_of_ends (P := fun t => t.network.connected = false)
      ((terminate_ends reason s).mono (fun _ _ h => h.2.2) fun _ _ h => h.elim)
    exact .of_closed (Records.mono (quiet.terminate reason s).events fun _ _ => trivial) hclosed
  kill _ := .of_eq rfl id
  stopped _ := .of_eq rfl id
  flush _ := .of_eq rfl id
  states _ _ := .of_eq rfl id
  caches _ _ := .of_eq rfl id
  handled s e he := .of_event (fun reason h => by
    subst h
    exact he) s

theorem severs_onNetworkMessage (env : Env) (text : Bytes) :
    Keeps Severs (onNetworkMessage env text) :=
  (severs.inbound env).onNetworkMessage
    (fun s msg k => .of_event (e := .onMessage msg k) (by simp) s)
    (fun s msg k => .of_event (e := .process msg k) (by simp) s) text

/-! ## Messages that are ignored -/

/-- From `s` to `t` messages started and there was output, and nothing else. -/
structure Ignores (s t : Session) : Prop where
  state : t.state = s.state
  cache : t.cache = s.cache
  events : Records Event.HandsNothing s t

instance : Std.Refl Ignores := ⟨fun s => ⟨rfl, rfl, Std.Refl.refl s⟩⟩

instance : IsTrans Session Ignores where
  trans s t u h h' := ⟨h'.state.trans h.state, h'.cache.trans h.cache,
    IsTrans.trans s t u h.events h'.events⟩

/-- A message that raises before it has an effect, or that fails the checks of
BeginString and the CompIDs. -/
def HarmlessMessage (env : Env) (msg : Message) : Prop :=
  (∀ t, ¬msg.HasType t) ∨ (msg.header.has Field.msgSeqNum = true ∧
    (FromPeer env msg → msg.header.has Field.sendingTime = false))

/-- A text that does not parse, or to a harmless message. -/
def Harmless (env : Env) (text : Bytes) : Prop :=
  ∀ msg, env.dictionary.parse env.settings text = .ok msg → HarmlessMessage env msg

/-- An exception that `onNetworkMessage` catches. -/
def Caught (e : Exn) : Prop := ∀ what, e ≠ .undefined what

theorem caught_getField {m : FieldMap} {tag : Int} {e : Exn} (h : m.getField tag = .error e) :
    Caught e := by
  unfold FieldMap.getField at h
  split at h
  · cases h
  · cases h
    exact fun _ he => by cases he

theorem getField_of_has_false {m : FieldMap} {tag : Int} (h : m.has tag = false) {v : Bytes} :
    m.getField tag ≠ .ok v := by
  rw [FieldMap.has_eq] at h
  intro hv
  rw [FieldMap.getField_eq.mp hv] at h
  cases h

/-- What `fail` does in the state LOGON is `terminate`. -/
theorem fail_ignores (env : Env) (reason : Bytes) {s : Session} (hs : s.state = .logon) :
    Ends (fail env reason) s (fun _ => Ignores s) fun _ _ => False := by
  unfold fail
  rw [ends_bind, ends_get, if_pos hs]
  have hterminate := (terminate_ends reason s).keeps (quiet.terminate reason)
  refine hterminate.mono (fun _ t ht => ⟨ht.1.1.trans hs.symm, ht.1.2.1, ?_⟩) fun _ _ h => h.1
  exact Records.mono ht.2.events fun _ => Event.IsOutput.handsNothing

theorem validateMessage_ignores {env : Env} {msg : Message} {msgType : Bytes} {time : Int}
    (hseq : msg.header.has Field.msgSeqNum = true)
    (hharmless : FromPeer env msg → msg.header.has Field.sendingTime = false) {s : Session}
    (hs : s.state = .logon) :
    Ends (validateMessage env msg msgType time) s (fun ok t => ok = false ∧ Ignores s t)
      fun e t => Ignores s t ∧ Caught e := by
  unfold validateMessage
  rw [if_neg (by simp [hseq])]
  refine Ends.bind (validateCompIDs_ends
    (Q := fun ok t => Ignores s t ∧ (ok = true → FromPeer env msg ∧ t = s)) (fun reason => ?_)
    (fun _ _ he => ⟨Std.Refl.refl s, caught_getField he⟩)
    fun hpeer => ⟨Std.Refl.refl s, fun _ => ⟨hpeer, rfl⟩⟩) ?_
  · exact (fail_ignores env reason hs).mono (fun _ _ h => ⟨h, fun h => Bool.noConfusion h⟩)
      fun _ _ h => h.elim
  rintro ok t ⟨ht, hok⟩
  cases ok with
  | false => exact ⟨rfl, ht⟩
  | true =>
      obtain ⟨hpeer, rfl⟩ := hok rfl
      have hmissing := hharmless hpeer
      unfold validateTimes
      simp only [if_true]
      rw [ends_bind, ends_bind]
      exact ends_liftExcept (fun v hv => (getField_of_has_false hmissing hv).elim)
        fun _ he => ⟨Std.Refl.refl t, caught_getField he⟩

theorem processMessage_ignores {env : Env} {msg : Message} (hmsg : HarmlessMessage env msg)
    (time : Int) {s : Session} (hs : s.state = .logon) :
    Ends (processMessage env msg time) s (fun _ => Ignores s) fun e t => Ignores s t ∧ Caught e := by
  unfold processMessage
  rw [ends_bind, ends_getTargetSeqNum, ends_bind, ends_record]
  generalize hu : ({ s with
    events := s.events ++ [.process msg s.cache.targetSeqNum] } : Session) = u
  have hstart : Ignores s u := by
    subst hu
    exact ⟨rfl, rfl, records_event (e := .process msg _) trivial s⟩
  have hthen : ∀ t, Ignores u t → Ignores s t := fun t h => IsTrans.trans s u t hstart h
  refine Ends.bind (ends_liftExcept (Q := fun t v => msg.HasType t ∧ v = u)
    (fun t ht => ⟨ht, rfl⟩) fun _ he => ⟨hstart, caught_getField he⟩) ?_
  rintro msgType v ⟨htype, rfl⟩
  obtain ⟨hseq, hharmless⟩ := hmsg.resolve_left fun h => h msgType htype
  have hvalid : Ends (validateMessage env msg msgType time) v
      (fun ok t => ok = false ∧ Ignores v t) fun e t => Ignores v t ∧ Caught e :=
    validateMessage_ignores hseq hharmless (hstart.state.trans hs)
  refine Ends.bind (hvalid.mono (fun _ _ h => h) fun _ t h => ⟨hthen t h.1, h.2⟩) ?_
  rintro ok t ⟨rfl, ht⟩
  exact hthen t ht

/-- In the state LOGON, with nothing due in the queue, a harmless text is ignored. -/
theorem onNetworkMessage_ignores {env : Env} {text : Bytes} (htext : Harmless env text)
    {s : Session} (hs : s.state = .logon) (hahead : QueueAhead s) :
    Ends (onNetworkMessage env text) s (fun _ => Ignores s) fun _ t => Ignores s t ∧
      ∃ what, env.dictionary.parse env.settings text = .error (.undefined what) := by
  unfold onNetworkMessage
  rw [ends_bind, ends_get, if_neg (by simp [hs])]
  have hclear : ∀ t, Ignores s t → Ignores s { t with cachedEpochUs := 0 } := fun t h =>
    ⟨h.state, h.cache, h.events⟩
  refine Ends.tryCatch (F := fun e t => Ignores s t ∧
    (Caught e ∨ env.dictionary.parse env.settings text = .error e)) ?_ ?_
  · refine Ends.bind (ends_liftExcept (Q := fun msg t =>
      env.dictionary.parse env.settings text = .ok msg ∧ t = s) (fun msg h => ⟨h, rfl⟩)
      fun _ he => ⟨Std.Refl.refl s, .inr he⟩) ?_
    rintro msg t ⟨hparse, rfl⟩
    have hentered : Ignores t (entered env t) := ⟨rfl, rfl, .of_eq rfl⟩
    have hprocess := processMessage_ignores (htext msg hparse) (nextMillis env t)
      (s := entered env t) hs
    refine handleParsed_ends (hprocess.mono (fun _ u hu => ?_) fun _ u hu => ?_)
    · have hall : Ignores t u := IsTrans.trans t _ u hentered hu
      have hidle : QueueAhead u := by
        unfold QueueAhead
        rw [hall.cache]
        exact hahead
      unfold Ends
      rw [drainQueue_ahead env _ hidle]
      exact hclear u hall
    · exact ⟨IsTrans.trans t _ u hentered hu.1, .inl hu.2⟩
  · rintro e t ⟨ht, he⟩
    cases e with
    | undefined what => exact ⟨ht, what, he.resolve_left fun h => h what rfl⟩
    | _ => exact hclear t ht

theorem QueueAhead.of_ignores {s t : Session} (hs : QueueAhead s) (h : Ignores s t) :
    QueueAhead t := by
  unfold QueueAhead
  rw [h.cache]
  exact hs

theorem processRead_ignores {env : Env} :
    ∀ {texts : List Bytes}, (∀ text ∈ texts, Harmless env text) → ∀ {s : Session},
      s.state = .logon → QueueAhead s → Ignores s (after (processRead env texts) s)
  | [], _, s, _, _ => Std.Refl.refl s
  | text :: texts, h, s, hs, hahead => by
      have hfirst := onNetworkMessage_ignores (h text (List.mem_cons_self ..)) hs hahead
      refine after_eq_of_ends (Ends.bind (hfirst.mono (fun _ _ h => h) fun _ _ h => h.1) ?_)
      intro _ t ht
      have hrest := processRead_ignores (fun text ht => h text (List.mem_cons_of_mem _ ht))
        (ht.state.trans hs) (hahead.of_ignores ht)
      exact (ends_of_after hrest).mono (fun _ u hu => IsTrans.trans s t u ht hu)
        fun _ u hu => IsTrans.trans s t u ht hu

/-! ## Messages that are answered -/

/-- One or two sender numbers were used up. -/
def Counted (s t : Session) : Prop :=
  t.cache.senderSeqNum = i32 (s.cache.senderSeqNum + 1) ∨
    t.cache.senderSeqNum = i32 (i32 (s.cache.senderSeqNum + 1) + 1)

theorem Counted.ne {s t : Session} (h : Counted s t) :
    t.cache.senderSeqNum ≠ s.cache.senderSeqNum := by
  unfold Counted i32 at h
  omega

/-- A logon was accepted from `s` to `t`. -/
def MarksLogon (s t : Session) : Prop := ∃ ev, t.events = s.events ++ ev ∧ Event.loggedOn ∈ ev

theorem MarksLogon.then {s t u : Session} (h : MarksLogon s t) {P : Event → Prop}
    (hu : Records P t u) : MarksLogon s u := by
  obtain ⟨ev, hev, hmem⟩ := h
  obtain ⟨ev', hev', -⟩ := hu
  exact ⟨ev ++ ev', by rw [hev', hev, List.append_assoc], List.mem_append_left _ hmem⟩

theorem Records.marksLogon {P : Event → Prop} {s t u : Session} (hs : Records P s t)
    (h : MarksLogon t u) : MarksLogon s u := by
  obtain ⟨ev, hev, -⟩ := hs
  obtain ⟨ev', hev', hmem⟩ := h
  exact ⟨ev ++ ev', by rw [hev', hev, List.append_assoc], List.mem_append_right _ hmem⟩

/-- What the session needs to answer a message of the types it answers. -/
structure Answers (env : Env) : Prop where
  logon : Knows env MsgType.logon
  logout : Knows env MsgType.logout
  reject : Knows env MsgType.reject
  sessionType : ∃ t, env.settings.getSessionType = .ok t

/-- A logon that an acceptor takes its heartbeat interval from. -/
def HasInterval (env : Env) (msg : Message) : Prop :=
  env.settings.getSessionType = .ok .acceptor → msg.body.has Field.heartBtInt = true

/-- The message was refused with an answer, or logged the session on. -/
def Answered (s t : Session) : Prop := (Quiet s t ∧ Counted s t) ∨ MarksLogon s t

section

variable {env : Env} (hanswers : Answers env)

include hanswers

theorem logout_answered (reason : Bytes) (term : Bool) (s : Session) :
    Ends (logout env reason term) s (fun _ t => Quiet s t ∧ Counted s t) fun _ _ => False :=
  ((logout_sender hanswers.logout reason term s).keeps (quiet_logout env reason term)).mono
    (fun _ _ h => ⟨h.2, .inl h.1⟩) fun _ _ h => h.1

theorem validateTimes_answered {msg : Message} (hseq : msg.header.has Field.msgSeqNum = true)
    (htime : msg.header.has Field.sendingTime = true) (time : Int) (s : Session) :
    Ends (validateTimes env msg time) s
      (fun ok t => (ok = false → Counted s t) ∧ (ok = true → t = s)) fun _ _ => False := by
  unfold validateTimes
  refine Ends.bind (ends_liftExcept (Q := fun _ t => t = s) (fun _ _ => rfl) fun e he => ?_) ?_
  · unfold FieldMap.getField at he
    rw [FieldMap.has_eq, Option.isSome_iff_exists] at htime
    obtain ⟨v, hv⟩ := htime
    rw [hv] at he
    cases he
  rintro sendingTime t rfl
  have hreject := fun reason => sendReject_sender hanswers.reject hseq reason [] t
  split
  next =>
    refine Ends.bind (hreject _) fun _ u hu => ?_
    refine Ends.bind (logout_sender hanswers.logout _ false u) fun _ v hv => ⟨fun _ => .inr ?_, ?_⟩
    · rw [hv, hu]
    · exact fun h => Bool.noConfusion h
  next =>
    split
    next => exact Ends.bind (hreject _) fun _ u hu => ⟨fun _ => .inl hu, fun h => Bool.noConfusion h⟩
    next => exact ⟨(fun h => Bool.noConfusion h), fun _ => rfl⟩

/-- A message that is not harmless is refused with an answer in the state LOGON,
unless it is a logon. -/
theorem validateMessage_answered {msg : Message} {msgType : Bytes} (time : Int)
    (hmsg : msg.header.has Field.msgSeqNum = true →
      FromPeer env msg ∧ msg.header.has Field.sendingTime = true) {s : Session}
    (hs : s.state = .logon) :
    Ends (validateMessage env msg msgType time) s
      (fun ok t => (ok = false → Quiet s t ∧ Counted s t) ∧ (ok = true → t = s ∧
        msgType = MsgType.logon ∧ msg.header.has Field.msgSeqNum = true)) fun _ _ => False := by
  have hends : Ends (validateMessage env msg msgType time) s
      (fun ok t => (ok = false → Counted s t) ∧ (ok = true → t = s ∧
        msgType = MsgType.logon ∧ msg.header.has Field.msgSeqNum = true)) fun _ _ => False := by
    unfold validateMessage
    split
    next =>
      exact Ends.bind (logout_sender hanswers.logout _ true s) fun _ t ht =>
        ⟨fun _ => .inl ht, fun h => Bool.noConfusion h⟩
    next hseq =>
      have hseq : msg.header.has Field.msgSeqNum = true := by simpa using hseq
      obtain ⟨hpeer, htime⟩ := hmsg hseq
      refine Ends.bind (P := fun ok t => ok = true ∧ t = s) ?_ ?_
      · unfold validateCompIDs
        simp only [hpeer.beginString, hpeer.senderCompID, hpeer.targetCompID]
        rw [ends_bind]
        change Ends (if env.settings.beginString ≠ env.settings.beginString then _ else _) s _ _
        rw [if_neg (not_not.mpr rfl), ends_bind]
        change Ends (if env.settings.targetCompID ≠ env.settings.targetCompID then _ else _) s _ _
        rw [if_neg (not_not.mpr rfl), ends_bind]
        change Ends (if env.settings.senderCompID ≠ env.settings.senderCompID then _ else _) s _ _
        rw [if_neg (not_not.mpr rfl)]
        exact ⟨rfl, rfl⟩
      rintro _ t ⟨rfl, rfl⟩
      refine Ends.bind (validateTimes_answered hanswers hseq htime time t) ?_
      rintro ok u ⟨hcount, hsame⟩
      cases ok with
      | false => exact ⟨fun _ => hcount rfl, fun h => Bool.noConfusion h⟩
      | true =>
          obtain rfl := hsame rfl
          unfold validateState
          simp only [if_true]
          rw [ends_bind, ends_get]
          split
          next =>
            exact Ends.bind (logout_sender hanswers.logout _ true u) fun _ v hv =>
              ⟨fun _ => .inl hv, fun h => Bool.noConfusion h⟩
          next hlogon =>
            rw [if_neg (by simp [hs])]
            refine ⟨(fun h => Bool.noConfusion h), fun _ => ⟨rfl, ?_, hseq⟩⟩
            by_contra hne
            exact hlogon ⟨hs, hne⟩
  exact (hends.keeps (quiet_validateMessage env msg msgType time)).mono
    (fun _ _ h => ⟨fun hf => ⟨h.2, h.1.1 hf⟩, h.1.2⟩) fun _ _ h => h.1

/-- A logon that is accepted gets as far as the state READY. -/
theorem acceptLogon_marks {msg : Message} (hheart : HasInterval env msg)
    (seqNum expected : Int) (recovery : Option Int) (shouldReset : Bool) (s : Session) :
    Ends (acceptLogon env msg seqNum expected recovery shouldReset) s
      (fun _ => MarksLogon s) fun _ => MarksLogon s := by
  have hanswer : ∀ t, Ends (answerLogon env msg shouldReset) t (fun _ _ => True)
      fun _ _ => False := by
    intro t
    obtain ⟨sessionType, htype⟩ := hanswers.sessionType
    unfold answerLogon
    rw [htype]
    cases sessionType with
    | initiator => trivial
    | acceptor =>
        have hhas := hheart htype
        rw [FieldMap.has_eq, Option.isSome_iff_exists] at hhas
        obtain ⟨v, hv⟩ := hhas
        rw [FieldMap.getIntField_eq.mpr ⟨v, hv, rfl⟩]
        exact (sendLogon_sender hanswers.logon shouldReset
          { t with heartbeatInterval := FieldMap.intOf v * 1000 }).mono (fun _ _ _ => trivial)
          fun _ _ h => h
  unfold acceptLogon
  refine Ends.bind (P := fun _ t => Records (fun _ => True) s t) ?_ ?_
  · have hconsume : Ends (consume seqNum expected) s (fun _ _ => True) fun _ _ => False := by
      unfold consume
      split
      · trivial
      · trivial
    exact (hconsume.keeps ((grows.inbound env).consume seqNum expected)).mono (fun _ _ h => h.2)
      fun _ _ h => h.1.elim
  · intro _ t ht
    refine Ends.bind (P := fun _ u => Records (fun _ => True) s u)
      (((hanswer t).keeps (grows.answerLogon env msg shouldReset)).mono
        (fun _ u h => IsTrans.trans s t u ht h.2) fun _ _ h => h.1.elim) ?_
    intro _ u hu
    rw [ends_bind, ends_setState, ends_bind, ends_record]
    generalize hv : ({ u with state := .ready, events := u.events ++ [.loggedOn] } : Session) = v
    have hmark : MarksLogon s v := hu.marksLogon ⟨[.loggedOn], by rw [← hv], List.mem_singleton_self _⟩
    have hrest : Keeps (Records fun _ => True) (do
        recoverPeer env recovery
        if !env.settings.sendNextExpectedMsgSeqNum ∧ expected < seqNum then
          sendResendRequest env expected 0
        else callDelegate env (fun _ => .onLogon) Delegate.onLogon) := by
      refine keeps_bind (grows.recoverPeer env recovery) fun _ => ?_
      refine keeps_ite (fun _ => grows.sendResendRequest env _ _) fun _ => ?_
      exact (grows.inbound env).callbacks.callOnLogon
    exact (hrest.ends v).mono (fun _ _ h => hmark.then h) fun _ _ h => hmark.then h

theorem handleLogon_answered {msg : Message} (hseq : msg.header.has Field.msgSeqNum = true)
    (hheart : HasInterval env msg) (s : Session) :
    Ends (handleLogon env msg) s (fun _ => Answered s) fun _ => MarksLogon s := by
  have hrefuse : ∀ reason term, Ends (logout env reason term) s (fun _ => Answered s)
      fun _ => MarksLogon s := fun reason term =>
    (logout_answered hanswers reason term s).mono (fun _ _ h => .inl h) fun _ _ h => h.elim
  have hint : ∀ {m : FieldMap} {tag : Int}, m.has tag = true → ∀ e, m.getIntField tag ≠ .error e := by
    intro m tag h e he
    rw [FieldMap.has_eq, Option.isSome_iff_exists] at h
    obtain ⟨v, hv⟩ := h
    rw [FieldMap.getIntField_eq.mpr ⟨v, hv, rfl⟩] at he
    cases he
  unfold handleLogon
  split
  next => exact hrefuse _ _
  next =>
    refine Ends.bind (ends_liftExcept (Q := fun _ t => t = s) (fun _ _ => rfl)
      fun e he => (hint hseq e he).elim) ?_
    rintro seqNum t rfl
    rw [ends_bind, ends_getTargetSeqNum]
    split
    next => exact hrefuse _ _
    next =>
      refine Ends.bind (P := fun answer u => answer.elim (Quiet t u ∧ Counted t u) fun _ => u = t)
        ?_ ?_
      · unfold logonNextExpected
        split
        next hnext =>
          refine Ends.bind (ends_liftExcept (Q := fun _ u => u = t) (fun _ _ => rfl)
            fun e he => (hint hnext e he).elim) ?_
          rintro nextExpected u rfl
          rw [ends_bind, ends_getSenderSeqNum]
          split
          next =>
            exact Ends.bind ((logout_answered hanswers _ true u).mono (fun _ _ h => h)
              fun _ _ h => h.elim) fun _ v hv => hv
          next => rfl
        next => rfl
      intro answer u hu
      cases answer with
      | none => exact .inl hu
      | some recovery =>
          obtain rfl : u = t := hu
          refine Ends.bind (P := fun answer v =>
            answer.elim (Quiet u v ∧ Counted u v) fun _ => Records (fun _ => True) u v) ?_ ?_
          · unfold logonReset
            split
            · split
              · exact Ends.bind ((logout_answered hanswers _ true u).mono (fun _ _ h => h)
                  fun _ _ h => h.elim) fun _ v hv => hv
              · exact records_event (e := .reset) trivial u
            · exact Std.Refl.refl (r := Records fun _ => True) u
          intro answer v hv
          cases answer with
          | none => exact .inl hv
          | some shouldReset =>
              have hacc := acceptLogon_marks hanswers hheart seqNum u.cache.targetSeqNum recovery
                shouldReset v
              exact hacc.mono (fun _ _ h => .inr (Records.marksLogon hv h))
                fun _ _ h => Records.marksLogon hv h

/-- A message that is not harmless is answered in the state LOGON. -/
theorem processMessage_answered {msg : Message} (hharm : ¬HarmlessMessage env msg)
    (hheart : msg.HasType MsgType.logon → HasInterval env msg) (time : Int) {s : Session}
    (hs : s.state = .logon) :
    Ends (processMessage env msg time) s
      (fun _ => Answered { s with events := s.events ++ [.process msg s.cache.targetSeqNum] })
      fun _ => MarksLogon { s with events := s.events ++ [.process msg s.cache.targetSeqNum] } := by
  unfold HarmlessMessage at hharm
  rw [not_or, not_forall] at hharm
  obtain ⟨⟨msgType, htype⟩, hchecks⟩ := hharm
  rw [not_not] at htype
  have hmsg : msg.header.has Field.msgSeqNum = true →
      FromPeer env msg ∧ msg.header.has Field.sendingTime = true := by
    intro hseq
    by_contra hno
    refine hchecks ⟨hseq, fun hpeer => ?_⟩
    by_contra htime
    exact hno ⟨hpeer, by simpa using htime⟩
  unfold processMessage
  rw [ends_bind, ends_getTargetSeqNum, ends_bind, ends_record]
  generalize hu : ({ s with
    events := s.events ++ [.process msg s.cache.targetSeqNum] } : Session) = u
  have hstate : u.state = .logon := by
    subst hu
    exact hs
  rw [show msg.header.getField Field.msgType = .ok msgType from htype]
  refine Ends.bind (P := fun t v => t = msgType ∧ v = u) ⟨rfl, rfl⟩ ?_
  rintro _ _ ⟨rfl, rfl⟩
  refine Ends.bind ((validateMessage_answered hanswers time hmsg hstate).mono (fun _ _ h => h)
    fun _ _ h => h.elim) ?_
  rintro ok t ⟨hrefused, hpassed⟩
  cases ok with
  | false => exact .inl (hrefused rfl)
  | true =>
      obtain ⟨rfl, rfl, hseq⟩ := hpassed rfl
      exact handleLogon_answered hanswers hseq (hheart htype) t

end

/-! ## The rest of a batch -/

/-- Nothing was handed to the delegate, the session did not become READY, and no
number was used up. -/
structure Untouched (s t : Session) : Prop where
  handed : Records Event.HandsNothing s t
  ready : t.state = .ready → s.state = .ready
  sender : t.cache.senderSeqNum = s.cache.senderSeqNum
  target : t.cache.targetSeqNum = s.cache.targetSeqNum

theorem Untouched.of_ignores {s t : Session} (h : Ignores s t) : Untouched s t :=
  ⟨h.events, fun hr => h.state ▸ hr, by rw [h.cache], by rw [h.cache]⟩

/-- None of the texts has an effect, however far the loop gets. -/
def IgnoresRest (env : Env) (s : Session) (rest : List Bytes) : Prop :=
  ∀ texts, texts <+: rest → Untouched s (after (processRead env texts) s)

/-- `terminate` is called while the text is handled. -/
def Terminates (env : Env) (text : Bytes) (s : Session) : Prop :=
  ∃ reason, Event.terminate reason ∈
    (after (onNetworkMessage env text) s).events.drop s.events.length

/-- The session reads no more, or what is left to read is harmless. -/
def Spared (env : Env) (s : Session) (rest : List Bytes) : Prop :=
  s.state = .killing ∨
    (s.state = .logon ∧ QueueAhead s ∧ ∀ text ∈ rest, Harmless env text)

/-- A text whose parsing is defined, and that has a heartbeat interval if it is a logon. -/
def Answerable (env : Env) (text : Bytes) : Prop :=
  (∀ what, env.dictionary.parse env.settings text ≠ .error (.undefined what)) ∧
    ∀ msg, env.dictionary.parse env.settings text = .ok msg → msg.HasType MsgType.logon →
      HasInterval env msg

/-- In the state KILLING nothing is read. -/
theorem processRead_killing (env : Env) {s : Session} (hs : s.state = .killing) :
    ∀ texts, (processRead env texts).run s = .ok () s
  | [] => rfl
  | text :: texts => by
      have hfirst : (onNetworkMessage env text).run s = .ok () s := by
        have hget : (get : SessionM Session).run s = .ok s s := rfl
        unfold onNetworkMessage
        rw [EStateM.run_bind, hget]
        simp only [if_pos hs]
        rfl
      rw [processRead, EStateM.run_bind, hfirst]
      exact processRead_killing env hs texts

theorem Spared.ignoresRest {env : Env} {s : Session} {rest : List Bytes} (h : Spared env s rest) :
    IgnoresRest env s rest := by
  intro texts hbegin
  rcases h with hkilling | ⟨hlogon, hahead, hall⟩
  · rw [after, processRead_killing env hkilling texts]
    exact .of_ignores (Std.Refl.refl s)
  · exact .of_ignores (processRead_ignores (fun text ht => hall text (hbegin.subset ht)) hlogon hahead)

/-- A text that is not harmless has an effect in the state LOGON. -/
theorem harmful_touches {env : Env} (hanswers : Answers env) {text : Bytes}
    (hharm : ¬Harmless env text)
    (hheart : ∀ msg, env.dictionary.parse env.settings text = .ok msg →
      msg.HasType MsgType.logon → HasInterval env msg) {s : Session} (hs : s.state = .logon)
    (hahead : QueueAhead s) : ¬Untouched s (after (onNetworkMessage env text) s) := by
  unfold Harmless at hharm
  rw [not_forall] at hharm
  obtain ⟨msg, hmsg⟩ := hharm
  rw [Classical.not_imp] at hmsg
  obtain ⟨hparse, hmsg⟩ := hmsg
  have hclear : ∀ t : Session, Counted s t ∨ MarksLogon s t →
      Counted s { t with cachedEpochUs := 0 } ∨ MarksLogon s { t with cachedEpochUs := 0 } :=
    fun _ h => h
  have heffect : Counted s (after (onNetworkMessage env text) s) ∨
      MarksLogon s (after (onNetworkMessage env text) s) := by
    refine after_eq_of_ends (P := fun t => Counted s t ∨ MarksLogon s t) ?_
    unfold onNetworkMessage
    rw [ends_bind, ends_get, if_neg (by simp [hs]), hparse]
    refine Ends.tryCatch (F := fun _ => MarksLogon s) ?_ fun e t ht => ?_
    · change Ends (handleParsed env msg) s _ _
      have hprocess := processMessage_answered hanswers hmsg (hheart msg hparse) (nextMillis env s)
        (s := entered env s) hs
      have hstart : Records (fun _ => True) s { entered env s with
          events := (entered env s).events ++ [.process msg (entered env s).cache.targetSeqNum] } :=
        records_event trivial s
      refine handleParsed_ends (hprocess.mono (fun _ t ht => ?_) fun _ t ht => hstart.marksLogon ht)
      rcases ht with ⟨hq, hcount⟩ | hmark
      · have hidle : QueueAhead t := by
          intro head hmin
          rw [hq.target]
          rw [hq.queue] at hmin
          exact hahead head hmin
        unfold Ends
        rw [drainQueue_ahead env _ hidle]
        exact hclear t (.inl hcount)
      · have hdrain := ((grows.inbound env).drainQueue (fun s _ _ => records_event trivial s)
          (fun s _ _ => records_event trivial s) (nextMillis env s)
          (t.cache.inboundQueue.entries.length + 1)).ends t
        have hmark := hstart.marksLogon hmark
        exact hdrain.mono (fun _ u hu => hclear u (.inr (hmark.then hu))) fun _ u hu => hmark.then hu
    · cases e with
      | undefined what => exact .inr ht
      | _ => exact hclear t (.inr ht)
  intro huntouched
  rcases heffect with hcount | ⟨ev, hev, hmem⟩
  · exact hcount.ne huntouched.sender
  · obtain ⟨ev', hev', hnothing⟩ := huntouched.handed
    rw [hev] at hev'
    exact hnothing _ (List.append_cancel_left hev' ▸ hmem)

/-- In the state LOGON, with nothing due in the queue, only harmless texts have no
effect. -/
theorem IgnoresRest.harmless {env : Env} (hanswers : Answers env) :
    ∀ {rest : List Bytes}, (∀ text ∈ rest, Answerable env text) → ∀ {s : Session},
      s.state = .logon → QueueAhead s → IgnoresRest env s rest → ∀ text ∈ rest, Harmless env text
  | [], _, _, _, _, _ => by simp
  | text :: rest, hanswerable, s, hs, hahead, h => by
      have hone : ∀ u, (after (processRead env [text]) u) = after (onNetworkMessage env text) u := by
        intro u
        cases hrun : (onNetworkMessage env text).run u with
        | ok _ t => rw [processRead, after_bind_ok hrun, after, after, hrun]; rfl
        | error e t => rw [processRead, after_bind_error hrun, after, hrun]; rfl
      have hfirst : Harmless env text := by
        by_contra hharm
        have huntouched := h [text] (by simp)
        rw [hone] at huntouched
        exact harmful_touches hanswers hharm (hanswerable text (List.mem_cons_self ..)).2 hs hahead
          huntouched
      have hends := onNetworkMessage_ignores hfirst hs hahead
      unfold Ends at hends
      cases hrun : (onNetworkMessage env text).run s with
      | error e t =>
          rw [hrun] at hends
          obtain ⟨-, what, hwhat⟩ := hends
          exact ((hanswerable text (List.mem_cons_self ..)).1 what hwhat).elim
      | ok _ t =>
          rw [hrun] at hends
          have hignores : Ignores s t := hends
          have hrest : IgnoresRest env t rest := by
            intro texts hbegin
            have hlater := h (text :: texts) (by simpa using hbegin)
            rw [processRead, after_bind_ok hrun] at hlater
            refine ⟨hlater.handed.later hignores.events (grows_processRead env texts t),
              fun hr => ?_, ?_, ?_⟩
            · rw [hignores.state]
              exact hlater.ready hr
            · rw [hlater.sender, hignores.cache]
            · rw [hlater.target, hignores.cache]
          have hall := IgnoresRest.harmless hanswers
            (fun text ht => hanswerable text (List.mem_cons_of_mem _ ht)) (hignores.state.trans hs)
            (hahead.of_ignores hignores) hrest
          intro text' hmem
          rcases List.mem_cons.mp hmem with rfl | hmem
          · exact hfirst
          · exact hall text' hmem

/-- After `terminate` there is no connection.  The rest of the batch has no effect if
the session is in the state KILLING or the rest is harmless, and otherwise it has one,
when `terminate` left the state LOGON with nothing due in the queue. -/
theorem terminated_batch (env : Env) (s t : Session) (text : Bytes) (rest : List Bytes)
    (hrun : after (onNetworkMessage env text) s = t) (hterm : Terminates env text s) :
    t.network.connected = false ∧ (Spared env t rest → IgnoresRest env t rest) ∧
      (t.state = .logon → QueueAhead t → Answers env → (∀ text ∈ rest, Answerable env text) →
        IgnoresRest env t rest → Spared env t rest) := by
  subst hrun
  refine ⟨?_, Spared.ignoresRest, fun hstate hahead hanswers hrest h =>
    .inr ⟨hstate, hahead, h.harmless hanswers hrest hstate hahead⟩⟩
  obtain ⟨reason, hmem⟩ := hterm
  obtain ⟨ev, hev, hclosed⟩ := severs_onNetworkMessage env text s
  rw [hev, List.drop_left] at hmem
  by_contra hconn
  exact (hclosed (by simpa using hconn)).2 reason hmem

/-- The session of the tests after its logon. -/
def loggedOnSession : Session :=
  after (onNetworkMessage (testEnv acceptorSettings) testLogon) (connectedSession acceptorSettings)

/-- The session after the number of the logon was used again. -/
def terminatedSession : Session :=
  after (onNetworkMessage (testEnv acceptorSettings) testLogon) loggedOnSession

/-- The reasons given to `terminate`. -/
def terminations (ev : List Event) : List Bytes := ev.filterMap fun
  | .terminate reason => some reason
  | _ => none

theorem testLogon_terminates : Terminates (testEnv acceptorSettings) testLogon loggedOnSession := by
  have hreasons : terminations (terminatedSession.events.drop loggedOnSession.events.length) =
      [ascii "MsgSeqNum(34) too low, expected 2"] := by decide +kernel
  obtain ⟨e, he, hreason⟩ := List.mem_filterMap.mp (hreasons ▸ List.mem_singleton_self _)
  cases e with
  | terminate reason => exact ⟨reason, he⟩
  | _ => cases hreason

/-- A logon with the next number. -/
def testLogonAgain : Bytes :=
  wireOf ("8=FIX.4.2|9=72|35=A|49=INITIATOR|56=ACCEPTOR|34=2|52=20240229-12:34:56.789|" ++
    "98=0|108=30|10=020|")

/-- An order of another sender. -/
def strangersOrder : Bytes :=
  wireOf ("8=FIX.4.2|9=64|35=D|49=STRANGER|56=ACCEPTOR|34=3|52=20240229-12:34:56.789|" ++
    "11=X|10=171|")

theorem strangersOrder_harmless : Harmless (testEnv acceptorSettings) strangersOrder := by
  have hfields : (testDictionary.parse acceptorSettings strangersOrder).map (fun m =>
      (m.header.has Field.msgSeqNum, m.header.getField Field.senderCompID)) =
      .ok (true, .ok (ascii "STRANGER")) := by decide +kernel
  intro msg hparse
  rw [show testDictionary.parse acceptorSettings strangersOrder = _ from hparse] at hfields
  obtain ⟨hseq, hsender⟩ := Prod.mk.inj (Except.ok.inj hfields)
  refine .inr ⟨hseq, fun hpeer => ?_⟩
  have hsame := hsender.symm.trans hpeer.senderCompID
  exact absurd (Except.ok.inj hsame) (by decide)

/-- A batch of a logon with a used number, and the next logon or an order of another
sender. -/
theorem terminated_batch_test :
    terminatedSession.network.connected = false ∧
      (Spared (testEnv acceptorSettings) terminatedSession [testLogonAgain] →
        IgnoresRest (testEnv acceptorSettings) terminatedSession [testLogonAgain]) ∧
      (terminatedSession.state = .logon → QueueAhead terminatedSession →
        Answers (testEnv acceptorSettings) →
        (∀ text ∈ [testLogonAgain], Answerable (testEnv acceptorSettings) text) →
        IgnoresRest (testEnv acceptorSettings) terminatedSession [testLogonAgain] →
        Spared (testEnv acceptorSettings) terminatedSession [testLogonAgain]) ∧
      IgnoresRest (testEnv acceptorSettings) terminatedSession [strangersOrder] := by
  have hrest : ∀ rest, _ := fun rest => terminated_batch (testEnv acceptorSettings)
    loggedOnSession terminatedSession testLogon rest rfl testLogon_terminates
  obtain ⟨hclosed, hspared, hharmless⟩ := hrest [testLogonAgain]
  refine ⟨hclosed, hspared, hharmless, (hrest [strangersOrder]).2.1 ?_⟩
  have hqueue : terminatedSession.cache.inboundQueue.min? = none := by decide +kernel
  refine .inr ⟨by decide +kernel, fun head hhead => ?_, fun text htext => ?_⟩
  · rw [hqueue] at hhead
    cases hhead
  · rw [List.mem_singleton.mp htext]
    exact strangersOrder_harmless

/-- The second logon of that batch makes the session READY again. -/
theorem not_terminated_ignores : ¬∀ (env : Env) (s : Session) (text : Bytes) (rest : List Bytes),
    Terminates env text s → IgnoresRest env (after (onNetworkMessage env text) s) rest := by
  intro h
  have hignores : IgnoresRest (testEnv acceptorSettings) terminatedSession [testLogonAgain] :=
    h (testEnv acceptorSettings) loggedOnSession testLogon [testLogonAgain] testLogon_terminates
  have hready : (after (processRead (testEnv acceptorSettings) [testLogonAgain])
      terminatedSession).state = .ready := by decide +kernel
  have hlogon : terminatedSession.state = .logon := by decide +kernel
  have hsame := (hignores [testLogonAgain] List.prefix_rfl).ready hready
  rw [hlogon] at hsame
  cases hsame

end Session

end OpenFix
