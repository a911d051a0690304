import OpenFix.Sending

/-!
# Resetting the numbers at a logon

`MemoryCache.reset` sets both numbers to 0, while a fresh cache starts at 1.  An
initiator that resets at its logon step therefore sends a Logon with the number
0, whatever the two sides had before, and the handshake never agrees on numbers
that start at 1.
-/

namespace OpenFix

open Effect

namespace Message

/-- ResetSeqNumFlag=Y, in either section. -/
def CarriesResetFlag (msg : Message) : Prop :=
  msg.header.tryGetBool Field.resetSeqNumFlag = true ∨
    msg.body.tryGetBool Field.resetSeqNumFlag = true

/-- A logon that starts the numbers at 1. -/
structure IsFirstLogon (msg : Message) : Prop where
  type : msg.HasType MsgType.logon
  seqNum : msg.HasSeqNum 1
  flag : msg.CarriesResetFlag

end Message

namespace Session

/-- The logon step of the initiator `i`, the handling of its Logon by the acceptor
`a`, and the handling of the reply by the initiator agree at the number 2. -/
def ResetAgrees (envI envA : Env) (i a : Session) : Prop :=
  ∃ request reply : Message,
    let i₁ := after (internalUpdate envI) i
    let a₁ := after (handleLogon envA request) a
    let i₂ := after (handleLogon envI reply) i₁
    transmittedBetween i i₁ = [request] ∧ transmittedBetween a a₁ = [reply] ∧
      transmittedBetween i₁ i₂ = [] ∧ request.IsFirstLogon ∧ reply.IsFirstLogon ∧
      a₁.state = .ready ∧ i₂.state = .ready ∧
      i₂.cache.senderSeqNum = 2 ∧ a₁.cache.targetSeqNum = 2 ∧
      a₁.cache.senderSeqNum = 2 ∧ i₂.cache.targetSeqNum = 2

/-- What was transmitted from `s` to `t` has the number `k`. -/
def SentUnder (k : Int) (s t : Session) : Prop :=
  ∃ ev, t.events = s.events ++ ev ∧ ∀ m ∈ transmittedOf ev, m.HasSeqNum k

theorem SentUnder.of_events {k : Int} {s t : Session} (h : t.events = s.events) :
    SentUnder k s t := ⟨[], by simp [h], by simp [transmittedOf]⟩

/-- A logon is sent under the sender number. -/
theorem sendLogon_sentUnder (env : Env) (shouldReset : Bool) (s : Session)
    (h₀ : -2147483648 ≤ s.cache.senderSeqNum) (h₁ : s.cache.senderSeqNum < 2147483648) :
    Ends (sendLogon env shouldReset) s (fun _ => SentUnder s.cache.senderSeqNum s)
      fun _ => SentUnder s.cache.senderSeqNum s := by
  unfold sendLogon
  rw [ends_bind, ends_get]
  refine Ends.bind (ends_liftExcept (Q := fun _ t => t = s) (fun _ _ => rfl)
    fun e _ => .of_events rfl) ?_
  rintro msg t rfl
  refine Ends.bind ((send_ends env msg t).mono (fun _ _ h => h)
    fun _ u h => .of_events h.1.events) ?_
  rintro _ u hu
  obtain ⟨m, hstamped, _, hevents⟩ := hu.sent
  have hsent : ∀ v, v.events = u.events → SentUnder t.cache.senderSeqNum t v := fun v hv => by
    refine ⟨transmission t m, by rw [hv, hevents], fun m' hm' => ?_⟩
    rw [transmittedOf_transmission hm']
    exact hstamped.hasSeqNum h₀ h₁
  have hidle := (idle_getEpochMillis env).ends u
  exact Ends.bind (hidle.mono (fun _ _ h => h) fun _ v hv => hsent v hv.events)
    fun _ v hv => hsent v hv.events

/-- The logon step of an initiator that resets sends under the number 0. -/
theorem updateLogon_sentUnder {env : Env} (hreset : env.settings.resetSeqNumOnLogon = true)
    (s : Session) : Ends (updateLogon env) s (fun _ => SentUnder 0 s) fun _ => SentUnder 0 s := by
  have hsent := sendLogon_sentUnder env true
    { s with events := s.events ++ [.reset], cache := s.cache.reset } (by simp) (by simp)
  have hmono : ∀ t, SentUnder 0 { s with
      events := s.events ++ [.reset]
      cache := s.cache.reset } t → SentUnder 0 s t := by
    rintro t ⟨ev, hev, hzero⟩
    exact ⟨.reset :: ev, by simp [hev], by simpa [transmittedOf, Event.transmitted?] using hzero⟩
  unfold updateLogon
  rw [if_pos hreset, reset, ends_bind, ends_bind, ends_record, ends_modifyCache]
  exact hsent.mono (fun _ => hmono) fun _ => hmono

/-- The tick of an initiator that is connected, not logged on, and due to log on. -/
structure LogonDue (env : Env) (s : Session) : Prop where
  initiator : env.settings.getSessionType = .ok .initiator
  connected : s.network.connected = true
  state : s.state = .logon
  due : s.logonInterval ≤ nextMillis env s - s.lastLogon

theorem internalUpdate_sentUnder {env : Env} (hreset : env.settings.resetSeqNumOnLogon = true)
    {s : Session} (hdue : LogonDue env s) :
    Ends (internalUpdate env) s (fun _ => SentUnder 0 s) fun _ => SentUnder 0 s := by
  unfold internalUpdate
  refine Ends.bind (P := fun time t => time = nextMillis env s ∧
    t = { s with clockReads := s.clockReads + 1 }) ⟨rfl, rfl⟩ ?_
  rintro _ _ ⟨rfl, rfl⟩
  rw [ends_bind, ends_get]
  simp only [hdue.connected, Bool.not_true, Bool.false_eq_true, if_false, hdue.initiator]
  refine Ends.bind (P := fun type t => type = .initiator ∧
    t = { s with clockReads := s.clockReads + 1 }) ⟨rfl, rfl⟩ ?_
  rintro _ _ ⟨rfl, rfl⟩
  rw [if_pos ⟨rfl, hdue.state, hdue.due⟩]
  exact updateLogon_sentUnder hreset { s with clockReads := s.clockReads + 1 }

/-- What was sent under the number 0 is no first logon. -/
theorem SentUnder.not_isFirstLogon {s t : Session} {m : Message} (h : SentUnder 0 s t)
    (hm : transmittedBetween s t = [m]) : ¬m.IsFirstLogon := by
  obtain ⟨ev, hev, hzero⟩ := h
  rw [transmittedBetween_eq hev] at hm
  have hmem : m ∈ transmittedOf ev := hm ▸ List.mem_singleton_self m
  intro hfirst
  exact absurd ((hzero m hmem).unique hfirst.seqNum) (by decide)

/-- A reset at the logon never leaves the two sides agreeing: the Logon of the
initiator has the number 0. -/
theorem resetLogon_never_agrees (envI envA : Env) (i a : Session)
    (hreset : envI.settings.resetSeqNumOnLogon = true) (hdue : LogonDue envI i) :
    ¬ResetAgrees envI envA i a := by
  rintro ⟨request, reply, hrequest, -, -, hfirst, -⟩
  exact (after_eq_of_ends (internalUpdate_sentUnder hreset hdue)).not_isFirstLogon hrequest hfirst

/-- The settings of the initiator of the tests, with a reset at the logon. -/
def resetInitiatorSettings : SessionSettings := { initiatorSettings with resetSeqNumOnLogon := true }

def resetAcceptorSettings : SessionSettings := { acceptorSettings with resetSeqNumOnLogon := true }

/-- Not all sessions that reset at the logon agree: two fresh ones do not. -/
theorem not_resetLogon_agrees : ¬∀ (envI envA : Env) (i a : Session),
    envI.settings.resetSeqNumOnLogon = true → envA.settings.resetSeqNumOnLogon = true →
      LogonDue envI i → ResetAgrees envI envA i a := by
  intro h
  obtain ⟨request, reply, hrequest, -, -, hfirst, -⟩ :=
    h (testEnv resetInitiatorSettings) (testEnv resetAcceptorSettings)
      (connectedSession resetInitiatorSettings) (connectedSession resetAcceptorSettings)
      rfl rfl ⟨by decide, rfl, rfl, by decide⟩
  have hdue : LogonDue (testEnv resetInitiatorSettings)
    (connectedSession resetInitiatorSettings) := ⟨by decide, rfl, rfl, by decide⟩
  exact (after_eq_of_ends (internalUpdate_sentUnder rfl hdue)).not_isFirstLogon hrequest hfirst

/-- Two fresh sessions do not agree. -/
theorem resetLogon_fresh : ¬ResetAgrees (testEnv resetInitiatorSettings)
    (testEnv resetAcceptorSettings) (connectedSession resetInitiatorSettings)
    (connectedSession resetAcceptorSettings) :=
  resetLogon_never_agrees _ _ _ _ rfl ⟨by decide, rfl, rfl, by decide⟩

end Session

end OpenFix
