import OpenFix.Logons

/-!
# Two sessions that log on

The initiator is the session `here`, the acceptor the session `there`, and both wait
for a logon.  A session that waits is `Listening`, as is one that is logged on; it
`Chats` when it sends logons, and once it is logged on what a session sends that is.
An initiator that is logged on has read the answer of the acceptor, so that the
acceptor is logged on too.
-/

namespace OpenFix

open Effect

namespace Session

variable {env : Env} {interval : Int} {s t u : Session} {ms : List Message}

/-! ## What is said -/

/-- A logon, or a message of a session that is logged on. -/
def Uttered (env : Env) (m : Message) : Prop :=
  Outgoing env m ∨ ∃ interval, Greeting env interval m

theorem Greeting.type {m : Message} (h : Greeting env interval m) : m.HasType MsgType.logon := by
  obtain ⟨seqnum, epochMs, -, -, hspoken⟩ := h
  exact FieldMap.getField_eq.mpr (hspoken.field?_header (f := (Field.msgType, MsgType.logon))
    (by simp [stampedFields, stampFields]))

theorem Outgoing.not_logon {m : Message} (h : Outgoing env m) : ¬m.HasType MsgType.logon := by
  intro hlogon
  obtain ⟨msgType, htype, hcontrol⟩ := h.utterable.type
  exact hcontrol (htype.unique hlogon ▸ by decide)

/-- A step of a session that waits for a logon, or is logged on. -/
structure Chats (env : Env) (s t : Session) : Prop where
  target : t.cache.targetSeqNum = s.cache.targetSeqNum
  queue : t.cache.inboundQueue = s.cache.inboundQueue
  listening : t.network.connected = true → t.Listening
  waits : t.network.connected = true → t.state = .logon →
    s.state = .logon ∧ t.cachedEpochUs = s.cachedEpochUs
  said : ∃ ms, Said s ms t ∧ (∀ m ∈ ms, Uttered env m) ∧
    (t.network.connected = true → Series s.cache.senderSeqNum ms t.cache.senderSeqNum)

theorem Talking.state_ne (h : s.Talking) : s.state ≠ .logon := by
  rcases h with h | h
  · rw [h]
    decide
  · rw [h]
    decide

theorem Speaks.chats (h : Speaks env s t) (htalk : s.Talking) : Chats env s t where
  target := h.target
  queue := h.queue
  listening hconn := .inr (h.talking hconn htalk)
  waits hconn hlogon := absurd hlogon (h.talking hconn htalk).state_ne
  said := by
    obtain ⟨ms, hsaid, hout, hseries⟩ := h.said
    exact ⟨ms, hsaid, fun m hm => .inl (hout m hm), hseries⟩

theorem Asks.chats (h : Asks env ms s t) (hlogon : s.state = .logon) : Chats env s t where
  target := h.target
  queue := h.queue
  listening _ := .inl (h.state.trans hlogon)
  waits _ _ := ⟨hlogon, h.cachedEpochUs⟩
  said := ⟨ms, h.said, fun m hm => .inr ⟨_, h.greeting m hm⟩, fun _ => h.series⟩

/-- A session that accepted a logon and kept its connection is logged on. -/
theorem Joins.talking (h : Joins env interval ms s t) (hconn : t.network.connected = true) :
    t.Talking := by
  obtain ⟨u, hu, hspeaks, -⟩ := h
  exact hspeaks.talking hconn (.inl hu.state)

/-- The logons of an answer come before whatever else is said. -/
theorem Joins.said (h : Joins env interval ms s t) :
    ∃ ms', Said s (ms ++ ms') t ∧ (∀ m ∈ ms, ∃ i, Greeting env i m) ∧
      (∀ m ∈ ms', Outgoing env m) ∧
      (t.network.connected = true →
        Series s.cache.senderSeqNum (ms ++ ms') t.cache.senderSeqNum) := by
  obtain ⟨u, hu, hspeaks, -⟩ := h
  obtain ⟨ms', hsaid, hout, hseries⟩ := hspeaks.said
  exact ⟨ms', hu.said.trans hsaid, hu.greeting, hout, fun hconn => hu.series.append (hseries hconn)⟩

theorem Joins.chats (h : Joins env interval ms s t) :
    Chats env { s with cache := s.cache.nextTargetSeqNum } t where
  target := by
    obtain ⟨u, hu, hspeaks, -⟩ := h
    exact hspeaks.target.trans hu.target
  queue := h.queue
  listening hconn := .inr (h.talking hconn)
  waits hconn hlogon := absurd hlogon (h.talking hconn).state_ne
  said := by
    obtain ⟨ms', hsaid, hgreeting, hout, hseries⟩ := h.said
    refine ⟨ms ++ ms', hsaid, fun m hm => ?_, hseries⟩
    rcases List.mem_append.mp hm with hm | hm
    · exact .inr (hgreeting m hm)
    · exact .inl (hout m hm)

/-- Whatever was transmitted from `s` to `t` is a logon, or a message of a session that is
logged on. -/
def UttersOnly (env : Env) (s t : Session) : Prop :=
  ∃ ms, Said s ms t ∧ ∀ m ∈ ms, Uttered env m

theorem Chats.uttersOnly (h : Chats env s t) : UttersOnly env s t := by
  obtain ⟨ms, hsaid, hall, -⟩ := h.said
  exact ⟨ms, hsaid, hall⟩

theorem UttersOnly.refl (env : Env) (s : Session) : UttersOnly env s s :=
  ⟨[], ⟨[], (List.append_nil _).symm, rfl⟩, fun _ hm => absurd hm List.not_mem_nil⟩

theorem UttersOnly.trans (h : UttersOnly env s t) (h' : UttersOnly env t u) :
    UttersOnly env s u := by
  obtain ⟨ms, hsaid, hall⟩ := h
  obtain ⟨ms', hsaid', hall'⟩ := h'
  refine ⟨ms ++ ms', hsaid.trans hsaid', fun m hm => ?_⟩
  rcases List.mem_append.mp hm with hm | hm
  · exact hall m hm
  · exact hall' m hm

theorem UttersOnly.neverCorrects (h : UttersOnly env s t) : NeverCorrects s t := by
  obtain ⟨ms, hsaid, hall⟩ := h
  intro m hm
  rw [hsaid.transmittedBetween] at hm
  have hother : ∃ msgType, m.HasType msgType ∧ msgType ∉
      [MsgType.resendRequest, MsgType.sequenceReset, MsgType.logout] := by
    rcases hall m hm with hout | ⟨interval, hgreeting⟩
    · obtain ⟨msgType, htype, hcontrol⟩ := hout.utterable.type
      refine ⟨msgType, htype, fun hmem => hcontrol ?_⟩
      simp only [List.mem_cons, List.not_mem_nil, or_false] at hmem
      simp only [Message.controlTypes, List.mem_cons, List.not_mem_nil, or_false]
      tauto
    · exact ⟨_, hgreeting.type, by decide⟩
  obtain ⟨msgType, htype, hnot⟩ := hother
  simp only [List.mem_cons, List.not_mem_nil, or_false, not_or] at hnot
  exact ⟨fun ht => hnot.1 (htype.unique ht), fun ht => hnot.2.1 (htype.unique ht),
    fun ht => hnot.2.2 (htype.unique ht)⟩

end Session

/-! ## The links -/

namespace Party

/-- Nothing is under way from `x` to `y`, and both wait for a logon. -/
structure Waiting (x y : Party) : Prop where
  state : x.session.state = .logon
  connected : x.session.network.connected = true
  queue : x.session.cache.inboundQueue = .empty
  inFlight : x.inFlight = []
  sender : x.session.cache.senderSeqNum = y.session.cache.targetSeqNum
  isInt : -2147483648 ≤ x.session.cache.targetSeqNum ∧ x.session.cache.targetSeqNum < 2147483648
  idle : x.session.cachedEpochUs = 0

/-- What holds of a side while the connection is open. -/
structure Hand (env : Env) (x y : Party) : Prop where
  listening : x.session.Listening
  queue : x.session.cache.inboundQueue = .empty
  isInt : -2147483648 ≤ x.session.cache.targetSeqNum ∧ x.session.cache.targetSeqNum < 2147483648
  series : Series y.session.cache.targetSeqNum x.inFlight x.session.cache.senderSeqNum
  uttered : ∀ m ∈ x.inFlight, Session.Uttered env m
  idle : x.session.state = .logon → x.session.cachedEpochUs = 0

variable {env env' : Env} {x y : Party}

theorem Waiting.hand (h : Waiting x y) : Hand env x y where
  listening := .inl h.state
  queue := h.queue
  isInt := h.isInt
  series := by
    rw [h.inFlight, h.sender]
    exact .nil
  uttered := by
    rw [h.inFlight]
    exact fun _ hm => absurd hm List.not_mem_nil
  idle _ := h.idle

theorem Hand.agreed (h : Hand env x y) (h' : Hand env' y x) : Agreed x y where
  sender := h.series.last_eq h'.isInt.1 h'.isInt.2
  consecutive _ _ hm := h.series.hasSeqNum h'.isInt.1 h'.isInt.2 hm

theorem Hand.sender_isInt (h : Hand env x y) (h' : Hand env' y x) :
    -2147483648 ≤ x.session.cache.senderSeqNum ∧ x.session.cache.senderSeqNum < 2147483648 := by
  rw [(h.agreed h').sender]
  exact i32_range _

/-- The side speaks. -/
theorem Hand.speak (h : Hand env x y) (h' : Hand env' y x) {t : Session}
    (ht : Session.Chats env x.session t) (hconn : t.network.connected = true) :
    Hand env (x.advance t) y ∧ Hand env' y (x.advance t) := by
  obtain ⟨ms, hsaid, hout, hseries⟩ := ht.said
  constructor
  · constructor
    case listening => exact ht.listening hconn
    case queue => exact ht.queue.trans h.queue
    case isInt =>
      change -2147483648 ≤ t.cache.targetSeqNum ∧ t.cache.targetSeqNum < 2147483648
      rw [ht.target]
      exact h.isInt
    case series =>
      change Series _ (x.inFlight ++ transmittedBetween x.session t) t.cache.senderSeqNum
      rw [hsaid.transmittedBetween]
      exact h.series.append (hseries hconn)
    case uttered =>
      intro m hm
      change m ∈ x.inFlight ++ transmittedBetween x.session t at hm
      rw [hsaid.transmittedBetween] at hm
      rcases List.mem_append.mp hm with hm | hm
      · exact h.uttered m hm
      · exact hout m hm
    case idle =>
      intro hlogon
      obtain ⟨hwas, hclock⟩ := ht.waits hconn hlogon
      exact hclock.trans (h.idle hwas)
  · refine { h' with series := ?_ }
    change Series t.cache.targetSeqNum _ _
    rw [ht.target]
    exact h'.series

/-- The side consumes the oldest message of its peer, and speaks. -/
theorem Hand.hear (h : Hand env x y) (h' : Hand env' y x) {m : Message} {rest : List Message}
    (hflight : y.inFlight = m :: rest) {t : Session}
    (ht : Session.Chats env { x.session with cache := x.session.cache.nextTargetSeqNum } t)
    (hconn : t.network.connected = true) :
    Hand env (x.advance t) ⟨y.session, rest⟩ ∧ Hand env' ⟨y.session, rest⟩ (x.advance t) := by
  let x' : Party :=
    ⟨{ x.session with cache := x.session.cache.nextTargetSeqNum }, x.inFlight⟩
  have hx' : Hand env x' ⟨y.session, rest⟩ :=
    ⟨h.listening, h.queue, i32_range _, h.series, h.uttered, h.idle⟩
  have hy' : Hand env' ⟨y.session, rest⟩ x' := by
    refine ⟨h'.listening, h'.queue, h'.isInt, ?_, fun m hm => ?_, h'.idle⟩
    · have hseries := h'.series
      rw [hflight] at hseries
      cases hseries with
      | cons _ hrest => exact hrest
    · exact h'.uttered m (hflight ▸ List.mem_cons_of_mem _ hm)
  exact hx'.speak hy' ht hconn

end Party

/-! ## One turn -/

namespace Session

variable {env peer : Env} {s t : Session}

/-- What a tick does before the logon and after it. -/
structure Ticked (env : Env) (s t : Session) : Prop where
  chats : Chats env s t
  waits : t.network.connected = true → (t.state = .logon ↔ s.state = .logon)
  knocks : s.state = .logon → ∃ ms, Knocks env (Due env s) ms s t

theorem onNetworkUpdate_ticked (henv : env.Greets) (hlistens : s.Listening)
    (hconn : s.network.connected = true) (hidle : s.state = .logon → s.cachedEpochUs = 0)
    (hrange : -2147483648 ≤ s.cache.senderSeqNum ∧ s.cache.senderSeqNum < 2147483648)
    {sessionType : SessionType} (htype : env.settings.getSessionType = .ok sessionType)
    (hreset : sessionType = .initiator → env.settings.resetSeqNumOnLogon = false) :
    Ticked env s (after (onNetworkUpdate env) s) := by
  rcases hlistens with hlogon | htalk
  · obtain ⟨ms, hknocks⟩ :=
      onNetworkUpdate_knocks henv hlogon hconn (.inl (hidle hlogon)) hrange htype hreset
    exact {
      chats := hknocks.toAsks.chats hlogon
      waits := fun _ => by rw [hknocks.state]
      knocks := fun _ => ⟨ms, hknocks⟩ }
  · have hspeaks := @onNetworkUpdate_speaks env _ htalk hconn
    exact {
      chats := hspeaks.chats htalk
      waits := fun ht => iff_of_false (hspeaks.talking ht htalk).state_ne htalk.state_ne
      knocks := fun hlogon => absurd hlogon htalk.state_ne }

/-- What reading the next message of the peer does. -/
structure Heard (env : Env) (s t : Session) : Prop where
  chats : Chats env { s with cache := s.cache.nextTargetSeqNum } t
  talking : t.network.connected = true → t.Talking
  answers : s.state = .logon → env.settings.getSessionType = .ok .acceptor →
    ∃ m ∈ (transmittedBetween s t).head?, ∃ interval, Greeting env interval m

theorem Joins.heard {interval : Int} {ms : List Message} (h : Joins env interval ms s t) :
    Heard env s t where
  chats := h.chats
  talking hconn := h.talking hconn
  answers _ htype := by
    obtain ⟨ms', hsaid, hgreeting, -, -⟩ := h.said
    obtain ⟨u, hu, -, -⟩ := h
    obtain ⟨m, rest, hms⟩ := List.exists_cons_of_ne_nil (hu.acceptor htype).2
    rw [hsaid.transmittedBetween, hms]
    exact ⟨m, rfl, hgreeting m (hms ▸ List.mem_cons_self ..)⟩

/-- The peer's message is a logon if the session waits for one. -/
theorem onNetworkMessage_heard (henv : env.Greets) (hpeer : peer.settings.Clean)
    (hmirror : Mirrored peer.settings env.settings) (hlistens : s.Listening)
    (hconn : s.network.connected = true) (hqueue : s.cache.inboundQueue = .empty)
    (hrange : -2147483648 ≤ s.cache.senderSeqNum ∧ s.cache.senderSeqNum < 2147483648)
    (htarget : -2147483648 ≤ s.cache.targetSeqNum ∧ s.cache.targetSeqNum < 2147483648)
    {sessionType : SessionType} (htype : env.settings.getSessionType = .ok sessionType)
    {m : Message} (huttered : Uttered peer m)
    (hfirst : s.state = .logon → ∃ interval, Greeting peer interval m)
    (hseq : m.header.field? Field.msgSeqNum = some (toChars s.cache.targetSeqNum))
    (hintime : InTime env s m) (hfaithful : m.HasType MsgType.logon ∨ Faithful env m) :
    Heard env s (after (onNetworkMessage env (m.toString true)) s) := by
  by_cases hgreeting : ∃ interval, Greeting peer interval m
  · obtain ⟨interval, hgreeting⟩ := hgreeting
    obtain ⟨ms, hjoins⟩ := onNetworkMessage_joins henv hlistens hconn hqueue hrange htarget htype
      hpeer hmirror hgreeting hseq hintime
    exact hjoins.heard
  · have hout : Outgoing peer m := huttered.resolve_right hgreeting
    have htalk : s.Talking := hlistens.resolve_left fun hlogon => hgreeting (hfirst hlogon)
    have hspeaks := onNetworkMessage_speaks henv.polite hmirror htalk hqueue hout hseq htarget.1
      htarget.2 (hfaithful.resolve_left hout.not_logon) hintime
    have hcounted : Talking { s with cache := s.cache.nextTargetSeqNum } := htalk
    exact {
      chats := hspeaks.chats hcounted
      talking := fun ht => hspeaks.talking ht hcounted
      answers := fun hlogon => absurd hlogon htalk.state_ne }

end Session

/-! ## The runs -/

instance (msg : Message) (t : Bytes) : Decidable (msg.HasType t) :=
  decidable_of_iff (msg.header.field? Field.msgType = some t) FieldMap.getField_eq.symm

namespace Peers

open Session

/-- An application sends once its session is logged on.  What is sent arrives in time, and
a message that is no logon arrives as it was sent. -/
def Offers (env : Env) (p : Peers) : Turn → Prop
  | .send msg => p.here.session.Talking ∧ msg.Fine
  | .tick => True
  | .deliver => ∀ m ∈ p.there.inFlight.head?,
      InTime env p.here.session m ∧ (m.HasType MsgType.logon ∨ Faithful env m)

def Offered (a b : Env) (p : Peers) : Side × Turn → Prop
  | (.here, t) => p.Open ∧ p.Offers a t
  | (.there, t) => p.Open ∧ p.swap.Offers b t

instance (env : Env) (p : Peers) : (t : Turn) → Decidable (p.Offers env t)
  | .send msg => inferInstanceAs (Decidable (p.here.session.Talking ∧ msg.Fine))
  | .tick => .isTrue True.intro
  | .deliver => inferInstanceAs (Decidable (∀ m ∈ p.there.inFlight.head?,
      InTime env p.here.session m ∧ (m.HasType MsgType.logon ∨ Faithful env m)))

instance (a b : Env) (p : Peers) : (i : Side × Turn) → Decidable (p.Offered a b i)
  | (.here, _) => inferInstanceAs (Decidable (_ ∧ _))
  | (.there, _) => inferInstanceAs (Decidable (_ ∧ _))

/-- Two sessions that wait for their logons, with nothing under way. -/
def Wait (p : Peers) : Prop := Party.Waiting p.here p.there ∧ Party.Waiting p.there p.here

/-- An initiator and an acceptor that are set up for each other and log on without asking
for a reset or for the number that the other expects. -/
structure Paired (a b : Env) : Prop where
  mirrored : Mirrored a.settings b.settings
  here : a.Greets
  there : b.Greets
  initiator : a.settings.getSessionType = .ok .initiator
  acceptor : b.settings.getSessionType = .ok .acceptor
  reset : a.settings.resetSeqNumOnLogon = false

/-- What holds while the connection is open.  An acceptor that waits said nothing, and
every logon that the initiator sent is still under way.  An initiator that waits while the
acceptor does not has the answer to come. -/
structure Meets (a b : Env) (start p : Peers) : Prop where
  here : Party.Hand a p.here p.there
  there : Party.Hand b p.there p.here
  asked : p.there.session.state = .logon → p.here.session.state = .logon ∧
    p.there.inFlight = [] ∧ (∀ m ∈ p.here.inFlight, ∃ interval, Greeting a interval m) ∧
    Said start.here.session p.here.inFlight p.here.session
  answered : p.here.session.state = .logon → p.there.session.state ≠ .logon →
    ∃ m ∈ p.there.inFlight.head?, ∃ interval, Greeting b interval m

theorem Wait.meets {a b : Env} {p : Peers} (h : p.Wait) : Meets a b p p where
  here := h.1.hand
  there := h.2.hand
  asked _ := by
    refine ⟨h.1.state, h.2.inFlight, ?_, ⟨[], (List.append_nil _).symm, h.1.inFlight.symm⟩⟩
    rw [h.1.inFlight]
    exact fun _ hm => absurd hm List.not_mem_nil
  answered _ hnot := absurd h.2.state hnot

variable {a b : Env} {start p : Peers}

/-- What stands first stays first when something is added. -/
theorem head_append {l l' : List Message} {P : Message → Prop} (h : ∃ m ∈ l.head?, P m) :
    ∃ m ∈ (l ++ l').head?, P m := by
  obtain ⟨m, hm, hp⟩ := h
  refine ⟨m, ?_, hp⟩
  rw [List.head?_append, Option.mem_def.mp hm]
  rfl

/-- The initiator speaks. -/
theorem Meets.speak_here (h : Meets a b start p) {t : Session}
    (ht : Chats a p.here.session t) (hconn : t.network.connected = true)
    (hknocks : p.here.session.state = .logon → t.state = .logon ∧ ∃ ms,
      Said p.here.session ms t ∧ ∀ m ∈ ms, ∃ interval, Greeting a interval m) :
    Meets a b start ⟨p.here.advance t, p.there⟩ := by
  obtain ⟨hhere, hthere⟩ := h.here.speak h.there ht hconn
  constructor
  case here => exact hhere
  case there => exact hthere
  case asked =>
    intro hwaits
    obtain ⟨hlogon, hsilent, hgreeting, hsaid⟩ := h.asked hwaits
    obtain ⟨hlogon', ms, hms, hgreeting'⟩ := hknocks hlogon
    have hflight : (p.here.advance t).inFlight = p.here.inFlight ++ ms := by
      rw [Party.advance, hms.transmittedBetween]
    refine ⟨hlogon', hsilent, ?_, ?_⟩
    · rw [hflight]
      intro m hm
      rcases List.mem_append.mp hm with hm | hm
      · exact hgreeting m hm
      · exact hgreeting' m hm
    · rw [hflight]
      exact hsaid.trans hms
  case answered => exact fun hlogon => h.answered (ht.waits hconn hlogon).1

/-- The acceptor speaks, and before the logon it says nothing. -/
theorem Meets.speak_there (h : Meets a b start p) {t : Session}
    (ht : Chats b p.there.session t) (hconn : t.network.connected = true)
    (hstays : p.there.session.state = .logon → t.state = .logon ∧
      transmittedBetween p.there.session t = []) :
    Meets a b start ⟨p.here, p.there.advance t⟩ := by
  obtain ⟨hthere, hhere⟩ := h.there.speak h.here ht hconn
  constructor
  case here => exact hhere
  case there => exact hthere
  case asked =>
    intro hwaits
    have hlogon : p.there.session.state = .logon := (ht.waits hconn hwaits).1
    obtain ⟨hlogon', hsilent, hgreeting, hsaid⟩ := h.asked hlogon
    refine ⟨hlogon', ?_, hgreeting, hsaid⟩
    change p.there.inFlight ++ transmittedBetween p.there.session t = []
    rw [hsilent, (hstays hlogon).2]
    rfl
  case answered =>
    intro hlogon hnot
    exact head_append (h.answered hlogon fun hwaits => hnot (hstays hwaits).1)

/-- The initiator reads what the acceptor said. -/
theorem Meets.hear_here (h : Meets a b start p) {m : Message} {rest : List Message}
    (hflight : p.there.inFlight = m :: rest) {t : Session} (ht : Heard a p.here.session t)
    (hconn : t.network.connected = true) :
    Meets a b start ⟨p.here.advance t, ⟨p.there.session, rest⟩⟩ := by
  obtain ⟨hhere, hthere⟩ := h.here.hear h.there hflight ht.chats hconn
  constructor
  case here => exact hhere
  case there => exact hthere
  case asked =>
    intro hwaits
    obtain ⟨-, hsilent, -⟩ := h.asked hwaits
    rw [hflight] at hsilent
    cases hsilent
  case answered => exact fun hlogon => absurd hlogon (ht.talking hconn).state_ne

/-- The acceptor reads what the initiator said. -/
theorem Meets.hear_there (hb : b.settings.getSessionType = .ok .acceptor)
    (h : Meets a b start p) {m : Message} {rest : List Message}
    (hflight : p.here.inFlight = m :: rest) {t : Session} (ht : Heard b p.there.session t)
    (hconn : t.network.connected = true) :
    Meets a b start ⟨⟨p.here.session, rest⟩, p.there.advance t⟩ := by
  obtain ⟨hthere, hhere⟩ := h.there.hear h.here hflight ht.chats hconn
  constructor
  case here => exact hhere
  case there => exact hthere
  case asked => exact fun hwaits => absurd hwaits (ht.talking hconn).state_ne
  case answered =>
    intro hlogon _
    change ∃ m ∈ (p.there.inFlight ++ transmittedBetween p.there.session t).head?, _
    by_cases hwaits : p.there.session.state = .logon
    · rw [(h.asked hwaits).2.1, List.nil_append]
      exact ht.answers hwaits hb
    · exact head_append (h.answered hlogon hwaits)

/-- A turn of one of the two leads to `Meets` again while the connection is open, and
utters what it may. -/
structure Moved (a b : Env) (start p q : Peers) : Prop where
  meets : q.Open → Meets a b start q
  here : UttersOnly a p.here.session q.here.session
  there : UttersOnly b p.there.session q.there.session

theorem Meets.moved (h : Meets a b start p) : Moved a b start p p :=
  ⟨fun _ => h, .refl a _, .refl b _⟩

theorem Meets.turn_here (hab : Paired a b) (h : Meets a b start p) (hopen : p.Open) {t : Turn}
    (ht : p.Offers a t) : Moved a b start p (p.turn a t) := by
  have hrange := h.here.sender_isInt h.there
  cases t with
  | send msg =>
      obtain ⟨htalk, hfine⟩ := ht
      have hchats := (@speaks_send a _ hfine.utterable p.here.session).chats htalk
      exact {
        meets := fun hopen' => h.speak_here hchats hopen'.1 fun hlogon =>
          absurd hlogon htalk.state_ne
        here := hchats.uttersOnly
        there := .refl b _ }
  | tick =>
      have hticked := onNetworkUpdate_ticked hab.here h.here.listening hopen.1 h.here.idle hrange
        hab.initiator fun _ => hab.reset
      refine { meets := fun hopen' => ?_, here := hticked.chats.uttersOnly, there := .refl b _ }
      refine h.speak_here hticked.chats hopen'.1 fun hlogon => ?_
      obtain ⟨ms, hknocks⟩ := hticked.knocks hlogon
      exact ⟨hknocks.state.trans hlogon, ms, hknocks.said, fun m hm => ⟨_, hknocks.greeting m hm⟩⟩
  | deliver =>
      cases hflight : p.there.inFlight with
      | nil =>
          have hstay : p.turn a .deliver = p := by
            simp only [turn, hflight]
          rw [hstay]
          exact h.moved
      | cons m rest =>
          have hturn : p.turn a .deliver =
              ⟨p.here.advance (after (onNetworkMessage a (m.toString true)) p.here.session),
                ⟨p.there.session, rest⟩⟩ := by
            simp only [turn, hflight]
          obtain ⟨hintime, hfaithful⟩ := ht m (by rw [hflight]; rfl)
          have hseries := h.there.series
          rw [hflight] at hseries
          cases hseries with
          | cons hseq _ =>
              have hfirst : p.here.session.state = .logon → ∃ interval, Greeting b interval m := by
                intro hlogon
                have hnot : p.there.session.state ≠ .logon := fun hwaits => by
                  have hsilent := (h.asked hwaits).2.1
                  rw [hflight] at hsilent
                  cases hsilent
                obtain ⟨m', hm', hgreeting⟩ := h.answered hlogon hnot
                rw [hflight, List.head?_cons, Option.mem_some] at hm'
                exact hm' ▸ hgreeting
              have hheard := onNetworkMessage_heard hab.here hab.there.clean hab.mirrored.symm
                h.here.listening hopen.1 h.here.queue hrange h.here.isInt hab.initiator
                (h.there.uttered m (hflight ▸ List.mem_cons_self ..)) hfirst hseq hintime hfaithful
              rw [hturn]
              exact {
                meets := fun hopen' => h.hear_here hflight hheard hopen'.1
                here := hheard.chats.uttersOnly
                there := .refl b _ }

theorem Meets.turn_there (hab : Paired a b) (h : Meets a b start p) (hopen : p.Open) {t : Turn}
    (ht : p.swap.Offers b t) : Moved a b start p (p.swap.turn b t).swap := by
  have hrange := h.there.sender_isInt h.here
  cases t with
  | send msg =>
      obtain ⟨htalk, hfine⟩ := ht
      have htalk' : p.there.session.Talking := htalk
      have hchats := (@speaks_send b _ hfine.utterable p.there.session).chats htalk'
      exact {
        meets := fun hopen' => h.speak_there hchats hopen'.2 fun hlogon =>
          absurd hlogon htalk'.state_ne
        here := .refl a _
        there := hchats.uttersOnly }
  | tick =>
      have hticked := onNetworkUpdate_ticked hab.there h.there.listening hopen.2 h.there.idle hrange
        hab.acceptor fun hinitiator => by cases hinitiator
      refine { meets := fun hopen' => ?_, here := .refl a _, there := hticked.chats.uttersOnly }
      refine h.speak_there hticked.chats hopen'.2 fun hlogon => ?_
      obtain ⟨ms, hknocks⟩ := hticked.knocks hlogon
      exact ⟨hknocks.state.trans hlogon,
        hknocks.said.transmittedBetween.trans (hknocks.acceptor hab.acceptor)⟩
  | deliver =>
      cases hflight : p.here.inFlight with
      | nil =>
          have hstay : (p.swap.turn b .deliver).swap = p := by
            simp only [turn, swap, hflight]
          rw [hstay]
          exact h.moved
      | cons m rest =>
          have hturn : (p.swap.turn b .deliver).swap = ⟨⟨p.here.session, rest⟩,
              p.there.advance (after (onNetworkMessage b (m.toString true)) p.there.session)⟩ := by
            simp only [turn, swap, hflight]
          obtain ⟨hintime, hfaithful⟩ := ht m (by rw [swap, hflight]; rfl)
          have hseries := h.here.series
          rw [hflight] at hseries
          cases hseries with
          | cons hseq _ =>
              have hmem : m ∈ p.here.inFlight := hflight ▸ List.mem_cons_self ..
              have hheard := onNetworkMessage_heard hab.there hab.here.clean hab.mirrored
                h.there.listening hopen.2 h.there.queue hrange h.there.isInt hab.acceptor
                (h.here.uttered m hmem) (fun hwaits => (h.asked hwaits).2.2.1 m hmem) hseq hintime
                hfaithful
              rw [hturn]
              exact {
                meets := fun hopen' => h.hear_there hab.acceptor hflight hheard hopen'.2
                here := .refl a _
                there := hheard.chats.uttersOnly }

theorem Moved.next (hab : Paired a b) (h : Moved a b start start p) {i : Side × Turn}
    (hi : p.Offered a b i) : Moved a b start start (next a b i p) := by
  obtain ⟨side, t⟩ := i
  have hmoved : Moved a b start p (Peers.next a b (side, t) p) := by
    cases side with
    | here => exact (h.meets hi.1).turn_here hab hi.1 hi.2
    | there => exact (h.meets hi.1).turn_there hab hi.1 hi.2
  exact ⟨hmoved.meets, h.here.trans hmoved.here, h.there.trans hmoved.there⟩

/-! ## Logging on -/

/-- How far the two are: they agree on their numbers, and the initiator is not logged on
before the acceptor is.  An initiator that waits sends a logon with the next tick that
finds one due, and once it sent one and nothing is under way, both are logged on. -/
structure LogsOn (a : Env) (start p : Peers) : Prop where
  here : Party.Agreed p.here p.there
  there : Party.Agreed p.there p.here
  order : p.here.session.Talking → p.there.session.Talking
  knocks : p.here.session.state = .logon → Due a p.here.session →
    transmittedBetween p.here.session (after (onNetworkUpdate a) p.here.session) ≠ []
  loggedOn : transmittedBetween start.here.session p.here.session ≠ [] → p.here.inFlight = [] →
    p.there.inFlight = [] → p.here.session.Talking ∧ p.there.session.Talking

theorem Meets.there_talking (h : Meets a b start p) (hnot : p.there.session.state ≠ .logon) :
    p.there.session.Talking := h.there.listening.resolve_left hnot

theorem Meets.logsOn (hab : Paired a b) (h : Meets a b start p) (hopen : p.Open) :
    LogsOn a start p where
  here := h.here.agreed h.there
  there := h.there.agreed h.here
  order htalk := h.there_talking fun hwaits => htalk.state_ne (h.asked hwaits).1
  knocks hlogon hdue := by
    have hticked := onNetworkUpdate_ticked hab.here h.here.listening hopen.1 h.here.idle
      (h.here.sender_isInt h.there) hab.initiator fun _ => hab.reset
    obtain ⟨ms, hknocks⟩ := hticked.knocks hlogon
    rw [hknocks.said.transmittedBetween]
    exact hknocks.due hdue
  loggedOn hasked hhere hthere := by
    have hnot : p.there.session.state ≠ .logon := fun hwaits => by
      obtain ⟨-, -, -, hsaid⟩ := h.asked hwaits
      exact hasked (hsaid.transmittedBetween.trans hhere)
    refine ⟨h.here.listening.resolve_left fun hlogon => ?_, h.there_talking hnot⟩
    obtain ⟨m, hm, -⟩ := h.answered hlogon hnot
    rw [hthere] at hm
    cases hm

/-- Whatever the order of sends, ticks and deliveries, two sessions that wait for their
logons log on, agree on their numbers while the connection is open, and never correct
them. -/
theorem run_logsOn (hab : Paired a b) (hstart : start.Wait)
    (h : Run.Reached start (next a b) (Offered a b) p) :
    (p.Open → LogsOn a start p) ∧ NeverCorrects start.here.session p.here.session ∧
      NeverCorrects start.there.session p.there.session := by
  have hmoved : Moved a b start start p := by
    refine h.invariant (P := Moved a b start start) hstart.meets.moved fun s i hi hs => ?_
    exact hs.next hab hi
  exact ⟨fun hopen => (hmoved.meets hopen).logsOn hab hopen, hmoved.here.neverCorrects,
    hmoved.there.neverCorrects⟩

/-! ## The sessions of the tests -/

theorem testDictionary_lists (settings : SessionSettings) :
    ∃ spec, testDictionary.Lists settings MsgType.logon spec logonTags := by
  refine ⟨_, rfl, fun tag htag => ?_, fun _ => by decide, by decide⟩
  simp only [logonTags, List.mem_cons, List.not_mem_nil, or_false] at htag
  rcases htag with rfl | rfl
  all_goals exact ⟨⟨by decide, by decide, by decide⟩, by decide⟩

theorem testEnv_greets {settings : SessionSettings} (hclean : settings.Clean)
    (hreorder : settings.parsingReorderTags = false) (htest : settings.isTest = false)
    (hnext : settings.sendNextExpectedMsgSeqNum = false) : (testEnv settings).Greets where
  timely _ := ⟨(by decide : (1000000 : Int) ≤ 1709210096789000),
    (by decide : (1709210096789000 : Int) < 253402300800000000)⟩
  clean := hclean
  standard := testDictionary_standard settings
  lists := testDictionary_lists settings
  reorder := hreorder
  test := htest
  nextExpected := hnext
  polite := testEnv_polite settings _

theorem test_paired : Paired (testEnv initiatorSettings) (testEnv acceptorSettings) where
  mirrored := ⟨rfl, rfl, rfl⟩
  here := testEnv_greets ⟨by decide, by decide, by decide, by decide⟩ rfl rfl rfl
  there := testEnv_greets ⟨by decide, by decide, by decide, by decide⟩ rfl rfl rfl
  initiator := rfl
  acceptor := rfl
  reset := rfl

/-- The two sessions of the tests, which just connected. -/
def connected : Peers :=
  ⟨⟨connectedSession initiatorSettings, []⟩, ⟨connectedSession acceptorSettings, []⟩⟩

theorem connected_wait : connected.Wait :=
  ⟨⟨rfl, rfl, rfl, rfl, rfl, by decide, rfl⟩, ⟨rfl, rfl, rfl, rfl, rfl, by decide, rfl⟩⟩

/-- The acceptor answers the logon and sends an order before its answer was read. -/
theorem run_logsOn_test :
    let p := Run.runOf (next (testEnv initiatorSettings) (testEnv acceptorSettings)) connected
      [(.here, .tick), (.there, .deliver), (.there, .send (testMessage (ascii "D"))),
        (.here, .deliver), (.here, .deliver)]
    p.Open ∧ p.here.session.Talking ∧ p.there.session.Talking ∧
      p.here.session.cache.targetSeqNum = 3 := by
  have hopen : (Run.runOf (next (testEnv initiatorSettings) (testEnv acceptorSettings)) connected
      [(.here, .tick), (.there, .deliver), (.there, .send (testMessage (ascii "D"))),
        (.here, .deliver), (.here, .deliver)]).Open := by
    decide +kernel
  obtain ⟨hhere, hthere⟩ := ((run_logsOn test_paired connected_wait
    (Run.Reached.init.along (by decide +kernel))).1 hopen).loggedOn (by decide +kernel)
    (by decide +kernel) (by decide +kernel)
  exact ⟨hopen, hhere, hthere, by decide +kernel⟩

end Peers

end OpenFix
