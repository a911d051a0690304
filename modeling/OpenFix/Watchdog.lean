import OpenFix.Lib.Watchdog
import OpenFix.Queueing
import OpenFix.Shutdown

/-!
# A peer that falls silent

While nothing comes in, only ticks and the sends of the application run.  Then the
times of a session change in one way each: a test request is sent when the last
message is too long ago, and the connection is closed when its answer is.

`Session.watch` is what the session waits for, as a watch of `Lib.Watchdog`, and a
silent run takes one look after each tick that gets through the gates.
-/

namespace OpenFix

open Effect Watchdog

/-- An event that closes no connection. -/
def Event.ClosesNone : Event → Prop
  | .disconnect _ => False
  | _ => True

/-- What may happen while the peer is silent. -/
inductive SilentInput where
  | tick
  /-- The application sends a message. -/
  | send (msg : Message)

namespace Session

/-- What a session does while the peer is silent. -/
def silentInput (env : Env) : SilentInput → SessionM Unit
  | .tick => onNetworkUpdate env
  | .send msg => send env msg none

/-- The state after an input. -/
def silentNext (env : Env) (i : SilentInput) (s : Session) : Session := after (silentInput env i) s

/-- The time of a tick that gets through the gates. -/
def tickTime? (env : Env) (s : Session) : Option Int :=
  if s.enabled = true ∧ 1 ≤ (env.clock s.clockReads).tdiv 1000 - s.lastUpdate then
    some ((env.clock (s.clockReads + 1)).tdiv 1000)
  else none

/-- The times of the ticks of a silent run that get through the gates. -/
def tickTimes (env : Env) : Session → List SilentInput → List Int
  | _, [] => []
  | s, .tick :: inputs => (tickTime? env s).toList ++ tickTimes env (silentNext env .tick s) inputs
  | s, .send msg :: inputs => tickTimes env (silentNext env (.send msg) s) inputs

/-- What the session waits for. -/
def watch (s : Session) : Watch Int :=
  match s.state with
  | .logon | .killing => .idle
  | .ready => .message s.lastRecvHeartbeat
  | .testRequest => .answer s.lastSentTestRequest
  | .logout => .farewell s.logoutTime

/-- How long the session waits. -/
def limits (env : Env) (s : Session) : Limits Int where
  silence := heartbeatTimeout env s
  farewell := 2 * s.heartbeatInterval

/-- The session is enabled and has the connection. -/
structure Attached (fd : Nat) (s : Session) : Prop where
  enabled : s.enabled = true
  connection : s.network.connection = some fd
  connected : s.network.connected = true

/-! ## Sending leaves the watch alone -/

/-- The clock was not turned back. -/
def Later (s t : Session) : Prop := s.clockReads ≤ t.clockReads

instance : Std.Refl Later := ⟨fun s => le_refl s.clockReads⟩

instance : IsTrans Session Later := ⟨fun _ _ _ h h' => Nat.le_trans h h'⟩

/-- What the watch looks at is as it was, and no connection was closed. -/
structure Unmoved (s t : Session) : Prop where
  state : t.state = s.state
  network : t.network = s.network
  enabled : t.enabled = s.enabled
  heartbeatInterval : t.heartbeatInterval = s.heartbeatInterval
  lastRecvHeartbeat : t.lastRecvHeartbeat = s.lastRecvHeartbeat
  lastSentTestRequest : t.lastSentTestRequest = s.lastSentTestRequest
  logoutTime : t.logoutTime = s.logoutTime
  later : Later s t
  events : Records Event.ClosesNone s t

instance : Std.Refl Unmoved :=
  ⟨fun s => ⟨rfl, rfl, rfl, rfl, rfl, rfl, rfl, Std.Refl.refl s, Std.Refl.refl s⟩⟩

instance : IsTrans Session Unmoved where
  trans s t u h h' := {
    state := h'.state.trans h.state
    network := h'.network.trans h.network
    enabled := h'.enabled.trans h.enabled
    heartbeatInterval := h'.heartbeatInterval.trans h.heartbeatInterval
    lastRecvHeartbeat := h'.lastRecvHeartbeat.trans h.lastRecvHeartbeat
    lastSentTestRequest := h'.lastSentTestRequest.trans h.lastSentTestRequest
    logoutTime := h'.logoutTime.trans h.logoutTime
    later := IsTrans.trans s t u h.later h'.later
    events := IsTrans.trans s t u h.events h'.events }

theorem Unmoved.watch {s t : Session} (h : Unmoved s t) : t.watch = s.watch := by
  unfold Session.watch
  rw [h.state, h.lastRecvHeartbeat, h.lastSentTestRequest, h.logoutTime]

theorem Unmoved.limits {env : Env} {s t : Session} (h : Unmoved s t) :
    t.limits env = s.limits env := by
  unfold Session.limits heartbeatTimeout
  rw [h.heartbeatInterval]

theorem Unmoved.attached {fd : Nat} {s t : Session} (h : Unmoved s t) (hs : s.Attached fd) :
    t.Attached fd :=
  ⟨h.enabled.trans hs.enabled, by rw [h.network]; exact hs.connection,
    by rw [h.network]; exact hs.connected⟩

theorem unmoved_record {e : Event} (he : e.ClosesNone) : Keeps Unmoved (record e) :=
  keeps_modify fun s =>
    ⟨rfl, rfl, rfl, rfl, rfl, rfl, rfl, le_refl s.clockReads, records_event he s⟩

theorem unmoved_getEpochMicros (env : Env) : Keeps Unmoved (getEpochMicros env) := by
  unfold getEpochMicros
  refine keeps_bind keeps_get fun _ => keeps_bind (keeps_modify fun s => ?_) fun _ => keeps_pure _
  exact ⟨rfl, rfl, rfl, rfl, rfl, rfl, rfl, Nat.le_succ s.clockReads, .of_eq rfl⟩

theorem unmoved_getEpochMillis (env : Env) : Keeps Unmoved (getEpochMillis env) :=
  keeps_bind (unmoved_getEpochMicros env) fun _ => keeps_pure _

theorem unmoved_currentEpochUs (env : Env) : Keeps Unmoved (currentEpochUs env) := by
  unfold currentEpochUs
  refine keeps_bind keeps_get fun _ => keeps_ite (fun _ => keeps_pure _) fun _ => ?_
  exact unmoved_getEpochMicros env

theorem unmoved_modifyCache (f : MemoryCache → MemoryCache) : Keeps Unmoved (modifyCache f) :=
  keeps_modify fun s =>
    ⟨rfl, rfl, rfl, rfl, rfl, rfl, rfl, le_refl s.clockReads, .of_eq rfl⟩

theorem unmoved_populateMessage (env : Env) (msg : Message) (epochMs : Int) :
    Keeps Unmoved (populateMessage env msg epochMs) := by
  unfold populateMessage
  refine keeps_bind (keeps_ite (fun _ => unmoved_getEpochMillis env) fun _ => keeps_pure _)
    fun _ => ?_
  refine keeps_bind (keeps_bind keeps_get fun _ => keeps_pure _) fun _ => ?_
  exact keeps_bind (keeps_liftExcept _) fun _ => keeps_pure _

/-- A connected handler has a valid connection, which takes the text. -/
theorem unmoved_internalSend (env : Env) (msg : Message) (epochUs : Int) :
    Keeps Unmoved (internalSend env msg none epochUs) := by
  intro s
  refine after_eq_of_ends (P := Unmoved s) ?_
  unfold internalSend
  rw [ends_bind, ends_get]
  split
  next hconn =>
    obtain ⟨hsome, hvalid⟩ := s.network.wf hconn
    obtain ⟨fd, hfd⟩ := Option.isSome_iff_exists.mp hsome
    have hsent : Keeps Unmoved (do
        record (.transmit fd msg)
        if env.trySendInline s (msg.toString true) then pure () else pure ()) := by
      refine keeps_bind (unmoved_record (e := .transmit fd msg) trivial) fun _ => ?_
      exact keeps_ite (fun _ => keeps_pure _) fun _ => keeps_pure _
    have hnetwork : Ends (networkSend env msg none) s (fun _ => Unmoved s) fun _ => Unmoved s := by
      unfold networkSend
      rw [ends_bind, ends_get, hfd]
      simp only [hvalid, Bool.true_eq_false, dite_false]
      exact hsent.ends s
    refine hnetwork.bind fun _ t ht => IsTrans.trans s t _ ht ?_
    exact ⟨rfl, rfl, rfl, rfl, rfl, rfl, rfl, le_refl t.clockReads, .of_eq rfl⟩
  next => exact Std.Refl.refl (r := Unmoved) s

theorem unmoved_send (env : Env) (msg : Message) : Keeps Unmoved (send env msg none) := by
  unfold send
  refine keeps_bind (unmoved_currentEpochUs env) fun epochUs => ?_
  refine keeps_bind (unmoved_populateMessage env msg _) fun p => ?_
  exact keeps_bind (unmoved_modifyCache _) fun _ => unmoved_internalSend env p.1 epochUs

theorem unmoved_sendBuilt (env : Env) (x : Except Exn Message) :
    Keeps Unmoved (do send env (← liftExcept x) none) :=
  keeps_bind (keeps_liftExcept x) fun msg => unmoved_send env msg

theorem unmoved_sendHeartbeat (env : Env) (testReqID : Bytes) :
    Keeps Unmoved (sendHeartbeat env testReqID) := unmoved_sendBuilt env _

theorem unmoved_sendTestRequest (env : Env) : Keeps Unmoved (sendTestRequest env) := by
  unfold sendTestRequest
  refine keeps_bind (keeps_liftExcept _) fun msg => keeps_bind (keeps_modify fun s => ?_) fun _ =>
    keeps_bind keeps_get fun _ => unmoved_send env _
  exact ⟨rfl, rfl, rfl, rfl, rfl, rfl, rfl, le_refl s.clockReads, .of_eq rfl⟩

theorem unmoved_sendLogon (env : Env) (shouldReset : Bool) :
    Keeps Unmoved (sendLogon env shouldReset) := by
  unfold sendLogon
  refine keeps_bind keeps_get fun _ => keeps_bind (keeps_liftExcept _) fun msg => ?_
  refine keeps_bind (unmoved_send env msg) fun _ => ?_
  refine keeps_bind (unmoved_getEpochMillis env) fun _ => keeps_modify fun s => ?_
  exact ⟨rfl, rfl, rfl, rfl, rfl, rfl, rfl, le_refl s.clockReads, .of_eq rfl⟩

theorem unmoved_updateLogon (env : Env) : Keeps Unmoved (updateLogon env) := by
  unfold updateLogon reset
  refine keeps_ite (fun _ => ?_) fun _ => unmoved_sendLogon env false
  refine keeps_bind (keeps_bind (unmoved_record (e := .reset) trivial) fun _ => ?_) fun _ => ?_
  · exact unmoved_modifyCache _
  · exact unmoved_sendLogon env true

theorem unmoved_updateSent (env : Env) (time : Int) : Keeps Unmoved (updateSent env time) :=
  keeps_bind keeps_get fun _ => keeps_ite (fun _ => unmoved_sendHeartbeat env []) fun _ =>
    keeps_pure _

/-! ## No step turns the clock back -/

theorem later_of_unmoved {α : Type} {x : SessionM α} (h : Keeps Unmoved x) : Keeps Later x :=
  h.mono fun _ _ hst => hst.later

theorem later_terminate (reason : Bytes) : Keeps Later (terminate reason) := by
  unfold terminate networkDisconnect
  refine keeps_bind (keeps_modify fun s => le_refl s.clockReads) fun _ => ?_
  refine keeps_bind (keeps_bind keeps_get fun s => ?_) fun _ => keeps_modify fun t =>
    le_refl t.clockReads
  refine keeps_bind (keeps_modify fun t => le_refl t.clockReads) fun _ => ?_
  cases s.network.connection with
  | none => exact keeps_pure _
  | some fd =>
      exact keeps_ite (fun _ => keeps_modify fun t => le_refl t.clockReads) fun _ => keeps_pure _

theorem later_internalUpdate (env : Env) : Keeps Later (internalUpdate env) := by
  have hsame : ∀ {f : Session → Session}, (∀ s, (f s).clockReads = s.clockReads) →
      Keeps Later (modify f : SessionM Unit) := fun hf => keeps_modify fun s => (hf s).ge
  have hdown : ∀ time, Keeps Later (updateDisconnected env time) := by
    intro time
    refine keeps_bind (hsame fun _ => rfl) fun _ => keeps_bind keeps_get fun _ => ?_
    refine keeps_ite (fun _ => keeps_bind ?_ fun _ => hsame fun _ => rfl) fun _ => keeps_pure _
    exact keeps_networkStart env fun s _ => le_refl s.clockReads
  have hreceived : ∀ time, Keeps Later (updateReceived env time) := by
    intro time
    refine keeps_bind keeps_get fun _ => keeps_ite (fun _ => ?_) fun _ => keeps_pure _
    exact keeps_bind (later_of_unmoved (unmoved_sendTestRequest env)) fun _ => hsame fun _ => rfl
  have hbeat : ∀ time, Keeps Later (updateHeartbeats env time) := fun time =>
    keeps_bind keeps_get fun _ => keeps_ite
      (fun _ => keeps_bind (later_of_unmoved (unmoved_updateSent env time)) fun _ => hreceived time)
      fun _ => keeps_pure _
  unfold internalUpdate
  refine keeps_bind (later_of_unmoved (unmoved_getEpochMillis env)) fun time => ?_
  refine keeps_bind keeps_get fun _ => keeps_ite (fun _ => hdown time) fun _ => ?_
  refine keeps_bind (keeps_liftExcept _) fun _ => ?_
  refine keeps_ite (fun _ => later_of_unmoved (unmoved_updateLogon env)) fun _ => ?_
  refine keeps_bind ?_ fun _ => keeps_bind ?_ fun _ => hbeat time
  · exact keeps_bind keeps_get fun _ => keeps_ite (fun _ => later_terminate _) fun _ => keeps_pure _
  · exact keeps_bind keeps_get fun _ => keeps_ite (fun _ => later_terminate _) fun _ => keeps_pure _

/-! ## A tick -/

section Skips

variable {env : Env} {time : Int} {s : Session} {Q : Unit → Session → Prop}
  {E : Exn → Session → Prop}

theorem updateTestRequest_skip (h : s.state ≠ .testRequest) :
    Ends (updateTestRequest env time) s Q E ↔ Q () s := by
  unfold updateTestRequest
  rw [ends_bind, ends_get, if_neg fun hdue => h hdue.1, ends_pure]

theorem updateLogout_skip (h : s.state ≠ .logout) :
    Ends (updateLogout time) s Q E ↔ Q () s := by
  unfold updateLogout
  rw [ends_bind, ends_get, if_neg fun hdue => h hdue.1, ends_pure]

theorem updateHeartbeats_skip (h : s.state = .logon ∨ s.state = .logout ∨ s.state = .killing) :
    Ends (updateHeartbeats env time) s Q E ↔ Q () s := by
  unfold updateHeartbeats
  rw [ends_bind, ends_get, if_neg, ends_pure]
  rintro ⟨hlogon, hlogout, hkilling⟩
  rcases h with h | h | h
  · exact hlogon h
  · exact hlogout h
  · exact hkilling h

end Skips

/-- The connection was closed, and the session is back in the state LOGON. -/
structure Gone (fd : Nat) (s t : Session) : Prop where
  state : t.state = .logon
  closed : ∃ ev, t.events = s.events ++ ev ∧ .disconnect fd ∈ ev

theorem terminate_gone {fd : Nat} {s : Session} (hs : s.Attached fd) (reason : Bytes) :
    Ends (terminate reason) s (fun _ => Gone fd s) fun _ _ => False := by
  have hvalid := (s.network.wf hs.connected).2
  unfold terminate networkDisconnect
  simp only [ends_bind, ends_record, ends_get, ends_modify, hs.connection, hvalid, if_true,
    ends_setState]
  exact ⟨rfl, [.terminate reason, .disconnect fd], by simp, by simp⟩

/-- What the session shows of its watch, where `log` was recorded before. -/
inductive Watched (env : Env) (lim : Limits Int) (log : List Event) (fd : Nat) (w : Watch Int)
    (s : Session) : Prop where
  /-- The session has its connection and waits. -/
  | attached (hs : s.Attached fd) (hlimits : s.limits env = lim) (hwatch : s.watch = w)
      (hlog : ∃ ev, s.events = log ++ ev ∧ .disconnect fd ∉ ev)
  /-- The connection was closed. -/
  | expired (hwatch : w = .expired) (hlog : ∃ ev, s.events = log ++ ev ∧ .disconnect fd ∈ ev)

variable {env : Env} {lim : Limits Int} {log : List Event} {fd : Nat} {w : Watch Int}

theorem Unmoved.keepsLog {s t : Session} (h : Unmoved s t)
    (hs : ∃ ev, s.events = log ++ ev ∧ Event.disconnect fd ∉ ev) :
    ∃ ev, t.events = log ++ ev ∧ Event.disconnect fd ∉ ev := by
  obtain ⟨ev, hev, hopen⟩ := hs
  obtain ⟨ev', hev', hnone⟩ := h.events
  refine ⟨ev ++ ev', by rw [hev', hev, List.append_assoc], fun hmem => ?_⟩
  rcases List.mem_append.mp hmem with hmem | hmem
  · exact hopen hmem
  · exact hnone _ hmem

theorem Gone.watched {s t : Session} (h : Gone fd s t)
    (hs : ∃ ev, s.events = log ++ ev ∧ Event.disconnect fd ∉ ev) :
    Watched env lim log fd .expired t := by
  obtain ⟨ev, hev, -⟩ := hs
  obtain ⟨ev', hev', hclosed⟩ := h.closed
  exact .expired rfl ⟨ev ++ ev', by rw [hev', hev, List.append_assoc],
    List.mem_append_right ev hclosed⟩

theorem Watched.records {P : Event → Prop} {s t : Session}
    (h : Watched env lim log fd .expired s) (hst : Records P s t) :
    Watched env lim log fd .expired t := by
  obtain ⟨ev', hev', -⟩ := hst
  cases h with
  | attached hs hlimits hwatch hlog =>
      unfold Session.watch at hwatch
      split at hwatch <;> cases hwatch
  | expired _ hlog =>
      obtain ⟨ev, hev, hclosed⟩ := hlog
      exact .expired rfl ⟨ev ++ ev', by rw [hev', hev, List.append_assoc],
        List.mem_append_left ev' hclosed⟩

theorem Watched.unmoved {s t : Session} (h : Watched env lim log fd w s) (hst : Unmoved s t) :
    Watched env lim log fd w t := by
  cases h with
  | attached hs hlimits hwatch hlog =>
      exact .attached (hst.attached hs) (hst.limits.trans hlimits) (hst.watch.trans hwatch)
        (hst.keepsLog hlog)
  | expired hwatch hlog =>
      subst hwatch
      exact Watched.records (.expired rfl hlog) hst.events

section Tick

variable {s : Session} {time : Int}

/-- The test request that is due starts the wait for its answer. -/
theorem updateReceived_watched (htest : Knows env MsgType.testRequest) (hs : s.Attached fd)
    (hstate : s.state = .ready) (hlog : ∃ ev, s.events = log ++ ev ∧ .disconnect fd ∉ ev) :
    Ends (updateReceived env time) s
      (fun _ => Watched env (s.limits env) log fd (s.watch.tick (s.limits env) time))
      fun _ _ => False := by
  have hwatch : s.watch = .message s.lastRecvHeartbeat := by
    unfold Session.watch
    rw [hstate]
  unfold updateReceived
  rw [ends_bind, ends_get, hwatch, Watch.tick]
  by_cases hdue : (s.limits env).silence ≤ time - s.lastRecvHeartbeat
  · have hsend : Succeeds (sendTestRequest env) := by
      obtain ⟨m, hm⟩ := htest
      refine succeeds_liftExcept hm (succeeds_bind (succeeds_modify _) fun _ =>
        succeeds_bind succeeds_get fun t => succeeds_send ?_ none)
      exact (create_room hm).mono (by decide)
    rw [if_pos ⟨by rw [hstate]; decide, hdue⟩, if_pos hdue]
    refine Ends.bind (hsend.ends ((unmoved_sendTestRequest env).ends s)) fun _ t ht => ?_
    refine .attached ?_ ?_ rfl (ht.keepsLog hlog)
    · exact ⟨(ht.attached hs).enabled, (ht.attached hs).connection, (ht.attached hs).connected⟩
    · exact ht.limits
  · rw [if_neg fun h => hdue h.2, if_neg hdue]
    exact .attached hs rfl hwatch hlog

/-- A session that is logged on sends the heartbeat that is due, which leaves the watch alone. -/
theorem updateHeartbeats_sent (hheartbeat : Knows env MsgType.heartbeat)
    (hon : s.state = .ready ∨ s.state = .testRequest) {Q : Unit → Session → Prop}
    {E : Exn → Session → Prop}
    (hreceived : ∀ t, Unmoved s t → Ends (updateReceived env time) t Q E) :
    Ends (updateHeartbeats env time) s Q E := by
  have hsend : Succeeds (updateSent env time) :=
    succeeds_bind succeeds_get fun _ =>
      succeeds_ite (fun _ => succeeds_sendHeartbeat hheartbeat []) fun _ => succeeds_pure _
  unfold updateHeartbeats
  rw [ends_bind, ends_get, if_pos]
  · exact Ends.bind ((hsend.ends ((unmoved_updateSent env time).ends s)).mono (fun _ _ h => h)
      fun _ _ hf => hf.elim) fun _ t ht => hreceived t ht
  · rcases hon with h | h
    · rw [h]
      decide
    · rw [h]
      decide

/-- What a tick does after the logon is a look at the clock. -/
theorem timeouts_watched (hheartbeat : Knows env MsgType.heartbeat)
    (htest : Knows env MsgType.testRequest) (hs : s.Attached fd)
    (hlog : ∃ ev, s.events = log ++ ev ∧ .disconnect fd ∉ ev) :
    Ends (do
        updateTestRequest env time
        updateLogout time
        updateHeartbeats env time) s
      (fun _ => Watched env (s.limits env) log fd (s.watch.tick (s.limits env) time))
      fun _ _ => False := by
  have hgone : ∀ {t : Session}, Gone fd s t → Watched env (s.limits env) log fd .expired t :=
    fun h => h.watched hlog
  have hstay : ∀ w, s.watch = w → w.tick (s.limits env) time = w →
      Watched env (s.limits env) log fd (s.watch.tick (s.limits env) time) s := by
    intro w hw htick
    rw [hw, htick]
    exact .attached hs rfl hw hlog
  cases hstate : s.state with
  | logon =>
      rw [ends_bind, updateTestRequest_skip (by rw [hstate]; decide), ends_bind,
        updateLogout_skip (by rw [hstate]; decide), updateHeartbeats_skip (.inl hstate)]
      exact hstay .idle (by rw [watch, hstate]) rfl
  | killing =>
      rw [ends_bind, updateTestRequest_skip (by rw [hstate]; decide), ends_bind,
        updateLogout_skip (by rw [hstate]; decide), updateHeartbeats_skip (.inr (.inr hstate))]
      exact hstay .idle (by rw [watch, hstate]) rfl
  | ready =>
      rw [ends_bind, updateTestRequest_skip (by rw [hstate]; decide), ends_bind,
        updateLogout_skip (by rw [hstate]; decide)]
      refine updateHeartbeats_sent hheartbeat (.inl hstate) fun t ht => ?_
      rw [← ht.limits, ← ht.watch]
      exact updateReceived_watched htest (ht.attached hs) (ht.state.trans hstate) (ht.keepsLog hlog)
  | testRequest =>
      have hwatch : s.watch = .answer s.lastSentTestRequest := by rw [watch, hstate]
      unfold updateTestRequest
      rw [ends_bind, ends_bind, ends_get, hwatch, Watch.tick]
      by_cases hdue : (s.limits env).silence ≤ time - s.lastSentTestRequest
      · rw [if_pos ⟨hstate, hdue⟩, if_pos hdue]
        refine (terminate_gone hs _).mono (fun _ t ht => ?_) fun _ _ hf => hf
        rw [ends_bind, updateLogout_skip (by rw [ht.state]; decide),
          updateHeartbeats_skip (.inl ht.state)]
        exact hgone ht
      · rw [if_neg fun h => hdue h.2, if_neg hdue, ends_pure, ends_bind,
          updateLogout_skip (by rw [hstate]; decide)]
        refine updateHeartbeats_sent hheartbeat (.inr hstate) fun t ht => ?_
        unfold updateReceived
        rw [ends_bind, ends_get, if_neg fun h => h.1 (ht.state.trans hstate), ends_pure]
        exact .attached (ht.attached hs) ht.limits (ht.watch.trans hwatch) (ht.keepsLog hlog)
  | logout =>
      have hwatch : s.watch = .farewell s.logoutTime := by rw [watch, hstate]
      rw [ends_bind, updateTestRequest_skip (by rw [hstate]; decide)]
      unfold updateLogout
      rw [ends_bind, ends_bind, ends_get, hwatch, Watch.tick]
      by_cases hdue : (s.limits env).farewell ≤ time - s.logoutTime
      · rw [if_pos ⟨hstate, hdue⟩, if_pos hdue]
        refine (terminate_gone hs _).mono (fun _ t ht => ?_) fun _ _ hf => hf
        rw [updateHeartbeats_skip (.inl ht.state)]
        exact hgone ht
      · rw [if_neg fun h => hdue h.2, if_neg hdue, ends_pure,
          updateHeartbeats_skip (.inr (.inl hstate))]
        exact .attached hs rfl hwatch hlog

/-- A tick of a session with a connection is a look at the clock. -/
theorem internalUpdate_watched (hheartbeat : Knows env MsgType.heartbeat)
    (htest : Knows env MsgType.testRequest) {sessionType : SessionType}
    (htype : env.settings.getSessionType = .ok sessionType) (hs : s.Attached fd)
    (hlog : ∃ ev, s.events = log ++ ev ∧ .disconnect fd ∉ ev) :
    let w := s.watch.tick (s.limits env) ((env.clock s.clockReads).tdiv 1000)
    Ends (internalUpdate env) s (fun _ => Watched env (s.limits env) log fd w)
      fun _ => Watched env (s.limits env) log fd w := by
  intro w
  have hread : Ends (getEpochMillis env) s (fun time t =>
      time = (env.clock s.clockReads).tdiv 1000 ∧ t = { s with clockReads := s.clockReads + 1 })
      fun _ _ => False := ⟨rfl, rfl⟩
  have hread' := hread.and ((unmoved_getEpochMillis env).ends s)
  unfold internalUpdate
  refine Ends.bind (hread'.mono (fun _ _ h => h) fun _ _ hf => hf.1.elim) ?_
  rintro _ t ⟨⟨rfl, -⟩, ht⟩
  have hconnected := (ht.attached hs).connected
  rw [ends_bind, ends_get, if_neg (by rw [hconnected]; decide), ends_liftExcept_ok htype]
  have hwatch := ht.watch
  have hlimits : t.limits env = s.limits env := ht.limits
  split
  next hlogon =>
    have hidle : w = t.watch := by
      have hstate : t.watch = .idle := by rw [watch, hlogon.2.1]
      change s.watch.tick _ _ = _
      rw [← hwatch, hstate]
      rfl
    have hkept : ∀ u, Unmoved t u → Watched env (s.limits env) log fd w u := fun u hu =>
      .attached (hu.attached (ht.attached hs)) (hu.limits.trans hlimits)
        (hu.watch.trans hidle.symm) (hu.keepsLog (ht.keepsLog hlog))
    exact ((unmoved_updateLogon env).ends t).mono (fun _ u hu => hkept u hu)
      fun _ u hu => hkept u hu
  next =>
    have hw : w = t.watch.tick (t.limits env) ((env.clock s.clockReads).tdiv 1000) := by
      rw [hlimits, hwatch]
    rw [hw, ← hlimits]
    exact (timeouts_watched hheartbeat htest (ht.attached hs) (ht.keepsLog hlog)).mono
      (fun _ _ h => h) fun _ _ hf => hf.elim

/-- The gates of a tick of an enabled session. -/
theorem beginUpdate_ends (henabled : s.enabled = true) :
    Ends (beginUpdate env) s
      (fun begun t => Unmoved s t ∧ t.clockReads = s.clockReads + 1 ∧
        tickTime? env s =
          if begun then some ((env.clock t.clockReads).tdiv 1000) else none)
      fun _ _ => False := by
  have hread : Ends (getEpochMillis env) s (fun time t =>
      time = (env.clock s.clockReads).tdiv 1000 ∧ t = { s with clockReads := s.clockReads + 1 })
      fun _ _ => False := ⟨rfl, rfl⟩
  unfold beginUpdate
  rw [ends_bind, ends_get, if_neg (by rw [henabled]; decide)]
  refine Ends.bind hread ?_
  rintro _ t ⟨rfl, rfl⟩
  rw [ends_bind, ends_get]
  split
  next hshut =>
    refine ⟨⟨rfl, rfl, rfl, rfl, rfl, rfl, rfl, Nat.le_succ s.clockReads, .of_eq rfl⟩, rfl, ?_⟩
    exact if_neg fun h => not_lt.mpr h.2 hshut
  next hopen =>
    refine ⟨⟨rfl, rfl, rfl, rfl, rfl, rfl, rfl, Nat.le_succ s.clockReads, .of_eq rfl⟩, rfl, ?_⟩
    exact if_pos ⟨henabled, not_lt.mp hopen⟩

theorem later_finishUpdate (env : Env) : Keeps Later (finishUpdate env) := by
  unfold finishUpdate
  refine keeps_tryCatch ?_ fun e => ?_
  · exact keeps_bind (later_of_unmoved (unmoved_modifyCache _)) fun _ => later_internalUpdate env
  · cases e with
    | undefined what => exact keeps_throw _
    | _ => exact keeps_pure _

/-- What a tick that got through the gates makes of the watch. -/
theorem finishUpdate_watched (hheartbeat : Knows env MsgType.heartbeat)
    (htest : Knows env MsgType.testRequest) {sessionType : SessionType}
    (htype : env.settings.getSessionType = .ok sessionType) (hs : s.Attached fd)
    (hlog : ∃ ev, s.events = log ++ ev ∧ .disconnect fd ∉ ev) :
    Watched env (s.limits env) log fd
      (s.watch.tick (s.limits env) ((env.clock s.clockReads).tdiv 1000))
      (after (finishUpdate env) s) := by
  have hflush : Unmoved s { s with cache := s.cache.flushSeqNums } :=
    unmoved_modifyCache MemoryCache.flushSeqNums s
  have hmain := internalUpdate_watched hheartbeat htest htype (hflush.attached hs)
    (hflush.keepsLog hlog)
  rw [hflush.limits, hflush.watch] at hmain
  unfold finishUpdate
  refine after_eq_of_ends (Ends.tryCatch (((ends_bind _ _).mpr hmain).mono (fun _ _ h => h)
    fun _ _ h => h) fun e t ht => ?_)
  · cases e with
    | undefined what => exact ht
    | _ => exact ht

end Tick

/-! ## Silent runs -/

/-- The state after a silent run. -/
def silentRun (env : Env) (s : Session) (inputs : List SilentInput) : Session :=
  Run.runOf (silentNext env) s inputs

/-- A step of a silent run takes a look at the clock for each tick. -/
theorem silentNext_watched (hheartbeat : Knows env MsgType.heartbeat)
    (htest : Knows env MsgType.testRequest) {sessionType : SessionType}
    (htype : env.settings.getSessionType = .ok sessionType) {s : Session} (i : SilentInput)
    (h : Watched env lim log fd w s) :
    Watched env lim log fd (w.ticks lim (tickTimes env s [i])) (silentNext env i s) := by
  cases i with
  | send msg => exact h.unmoved (unmoved_send env msg s)
  | tick =>
      cases h with
      | expired hwatch hlog =>
          subst hwatch
          rw [Watch.ticks_expired]
          exact Watched.records (.expired rfl hlog) (startsNone_onNetworkUpdate env s)
      | attached hs hlimits hwatch hlog =>
          subst hlimits hwatch
          rw [tickTimes, tickTimes, List.append_nil, silentNext, silentInput, onNetworkUpdate_eq]
          refine after_eq_of_ends (Ends.bind ((beginUpdate_ends hs.enabled).mono
            (fun _ _ h => h) fun _ _ hf => hf.elim) ?_)
          rintro begun t ⟨ht, -, htime⟩
          rw [htime]
          cases begun with
          | false => exact .attached (ht.attached hs) ht.limits ht.watch (ht.keepsLog hlog)
          | true =>
              have hmain := finishUpdate_watched hheartbeat htest htype (ht.attached hs)
                (ht.keepsLog hlog)
              rw [ht.limits, ht.watch] at hmain
              exact ends_of_after hmain

theorem tickTimes_cons (env : Env) (s : Session) (i : SilentInput) (inputs : List SilentInput) :
    tickTimes env s (i :: inputs) =
      tickTimes env s [i] ++ tickTimes env (silentNext env i s) inputs := by
  cases i with
  | tick => rw [tickTimes, tickTimes, tickTimes, List.append_nil]
  | send msg => rfl

theorem silentRun_watched (hheartbeat : Knows env MsgType.heartbeat)
    (htest : Knows env MsgType.testRequest) {sessionType : SessionType}
    (htype : env.settings.getSessionType = .ok sessionType) {s : Session}
    (inputs : List SilentInput) (h : Watched env lim log fd w s) :
    Watched env lim log fd (w.ticks lim (tickTimes env s inputs)) (silentRun env s inputs) := by
  induction inputs generalizing w s with
  | nil => exact h
  | cons i inputs ih =>
      rw [tickTimes_cons, Watch.ticks_append]
      exact ih (silentNext_watched hheartbeat htest htype i h)

/-- The time of a tick lies between the clock before it and the clock after it. -/
theorem tickTimes_between (hclock : ∀ i j, i ≤ j → env.clock i ≤ env.clock j) (s : Session)
    (i : SilentInput) :
    (env.clock s.clockReads).tdiv 1000 ≤ (env.clock (silentNext env i s).clockReads).tdiv 1000 ∧
      ∀ time ∈ tickTimes env s [i], (env.clock s.clockReads).tdiv 1000 ≤ time ∧
        time ≤ (env.clock (silentNext env i s).clockReads).tdiv 1000 := by
  have hmono : ∀ {m n}, m ≤ n → (env.clock m).tdiv 1000 ≤ (env.clock n).tdiv 1000 := fun h =>
    Int.tdiv_le_tdiv (by decide) (hclock _ _ h)
  cases i with
  | send msg =>
      refine ⟨hmono (unmoved_send env msg s).later, fun time htime => ?_⟩
      rw [tickTimes, tickTimes] at htime
      exact absurd htime List.not_mem_nil
  | tick =>
      by_cases henabled : s.enabled = true
      · have hlater : Ends (beginUpdate env >>= fun begun =>
            if begun then finishUpdate env else pure ()) s
            (fun _ t => s.clockReads + 1 ≤ t.clockReads)
            (fun _ t => s.clockReads + 1 ≤ t.clockReads) := by
          refine Ends.bind ((beginUpdate_ends henabled).mono (fun _ _ h => h)
            fun _ _ hf => hf.elim) ?_
          rintro begun t ⟨-, hreads, -⟩
          cases begun with
          | false => exact hreads.ge
          | true =>
              rw [← hreads]
              exact (later_finishUpdate env).ends t
        rw [← onNetworkUpdate_eq] at hlater
        have hreads : s.clockReads + 1 ≤ (silentNext env .tick s).clockReads :=
          after_eq_of_ends hlater
        refine ⟨hmono (by omega), fun time htime => ?_⟩
        rw [tickTimes, tickTimes, List.append_nil, Option.mem_toList, tickTime?] at htime
        split at htime
        · cases htime
          exact ⟨hmono (Nat.le_succ _), hmono hreads⟩
        · cases htime
      · have hsame : silentNext env .tick s = s := by
          unfold silentNext silentInput onNetworkUpdate
          refine after_eq_of_ends (P := fun t => t = s) ?_
          rw [ends_bind, ends_get, if_pos (by simp [henabled])]
          rfl
        refine ⟨by rw [hsame], fun time htime => ?_⟩
        rw [tickTimes, tickTimes, List.append_nil, Option.mem_toList, tickTime?,
          if_neg fun h => henabled h.1] at htime
        cases htime

/-- The times of the ticks never go back when the clock does not. -/
theorem tickTimes_sorted (hclock : ∀ i j, i ≤ j → env.clock i ≤ env.clock j)
    (inputs : List SilentInput) (s : Session) :
    (tickTimes env s inputs).Pairwise (· ≤ ·) ∧
      ∀ time ∈ tickTimes env s inputs, (env.clock s.clockReads).tdiv 1000 ≤ time := by
  induction inputs generalizing s with
  | nil => exact ⟨List.Pairwise.nil, fun _ h => absurd h List.not_mem_nil⟩
  | cons i inputs ih =>
      obtain ⟨hnext, hbetween⟩ := tickTimes_between hclock s i
      obtain ⟨hsorted, hfrom⟩ := ih (silentNext env i s)
      have hone : (tickTimes env s [i]).Pairwise (· ≤ ·) := by
        cases i with
        | send msg => exact List.Pairwise.nil
        | tick =>
            rw [tickTimes, tickTimes, List.append_nil]
            cases tickTime? env s with
            | none => exact List.Pairwise.nil
            | some time => exact List.pairwise_singleton ..
      rw [tickTimes_cons]
      refine ⟨List.pairwise_append.mpr ⟨hone, hsorted, fun a ha b hb => ?_⟩, fun time htime => ?_⟩
      · exact (hbetween a ha).2.trans (hfrom b hb)
      · rcases List.mem_append.mp htime with htime | htime
        · exact (hbetween time htime).1
        · exact hnext.trans (hfrom time htime)

/-- While the peer is silent a session closes its connection exactly when the times of its
ticks expire the watch of the state it was in, and keeps it otherwise. -/
theorem silentRun_disconnects_iff (hclock : ∀ i j, i ≤ j → env.clock i ≤ env.clock j)
    (hheartbeat : Knows env MsgType.heartbeat) (htest : Knows env MsgType.testRequest)
    {sessionType : SessionType} (htype : env.settings.getSessionType = .ok sessionType)
    {s : Session} (hs : s.Attached fd) (inputs : List SilentInput) :
    (.disconnect fd ∈ (silentRun env s inputs).events.drop s.events.length ↔
        s.watch.Expires (s.limits env) (tickTimes env s inputs)) ∧
      (¬s.watch.Expires (s.limits env) (tickTimes env s inputs) →
        (silentRun env s inputs).Attached fd) := by
  have hstart : Watched env (s.limits env) s.events fd s.watch s :=
    .attached hs rfl rfl ⟨[], (List.append_nil _).symm, List.not_mem_nil⟩
  have hsorted := (tickTimes_sorted hclock inputs s).1
  have hrun := silentRun_watched hheartbeat htest htype inputs hstart
  rw [← Watch.ticks_eq_expired_iff s.watch hsorted]
  cases hrun with
  | attached ht hlimits hwatch hlog =>
      obtain ⟨ev, hev, hopen⟩ := hlog
      have hnot : s.watch.ticks (s.limits env) (tickTimes env s inputs) ≠ .expired := by
        intro hover
        rw [hover] at hwatch
        unfold watch at hwatch
        split at hwatch <;> cases hwatch
      rw [hev, List.drop_left]
      exact ⟨iff_of_false hopen hnot, fun _ => ht⟩
  | expired hwatch hlog =>
      obtain ⟨ev, hev, hclosed⟩ := hlog
      rw [hev, List.drop_left]
      exact ⟨iff_of_true hclosed hwatch, fun hnot => absurd hwatch hnot⟩

/-- The acceptor of the tests with a clock that moves on by a minute at each reading after
the logon. -/
def minuteEnv : Env :=
  { testEnv acceptorSettings with
    clock := fun n => 1709210096789000 + 60000000 * ((n - 3 : Nat) : Int) }

/-- The session of the tests after a logon. -/
def minuteSession : Session :=
  next minuteEnv (.inbound testLogon) (connectedSession acceptorSettings)

/-- A tick, a message of the application, a tick that asks and a tick that finds no answer. -/
def minuteInputs : List SilentInput := [.tick, .send Message.new, .tick, .tick]

theorem silentRun_disconnects_minute :
    .disconnect 3 ∈ (silentRun minuteEnv minuteSession minuteInputs).events.drop
      minuteSession.events.length := by
  have hclock : ∀ i j, i ≤ j → minuteEnv.clock i ≤ minuteEnv.clock j := by
    intro m n hle
    change (1709210096789000 : Int) + 60000000 * ((m - 3 : Nat) : Int) ≤
      1709210096789000 + 60000000 * ((n - 3 : Nat) : Int)
    omega
  have hattached : minuteSession.Attached 3 :=
    ⟨by decide +kernel, by decide +kernel, by decide +kernel⟩
  have hwatch : minuteSession.watch = .message 1709210096789 := by decide +kernel
  have hsilence : (minuteSession.limits minuteEnv).silence = 60000 := by decide +kernel
  have hticks : tickTimes minuteEnv minuteSession minuteInputs =
      [1709210096789, 1709210276789, 1709210516789] := by decide +kernel
  have htype : minuteEnv.settings.getSessionType = .ok .acceptor := rfl
  refine (silentRun_disconnects_iff hclock ⟨_, rfl⟩ ⟨_, rfl⟩ htype hattached minuteInputs).1.mpr ?_
  rw [hwatch, hticks]
  refine ⟨1709210276789, 1709210516789, ?_, ?_, ?_⟩
  · exact (List.Sublist.refl _).cons _
  · rw [hsilence]
    decide
  · rw [hsilence]
    decide

end Session

end OpenFix
