import OpenFix.Descriptors

/-!
# One connection for a session

A reader that gets the first message of a new connection looks whether the session
is connected, and binds the connection if it is not.  Between the two it holds its
own mutex, which keeps the connections of other readers out of nothing.  Two
readers may both find the session without a connection, and then both descriptors
are bound to it.  The handler knows the second only, and when the first is lost
the second counts as lost as well.

With a single reader thread the check and the binding are as good as one step.
-/

namespace OpenFix

open Run

namespace Descriptors

variable {σ : Type}

/-! ## What is asked of the table -/

/-- At most one open descriptor is mapped to a handler. -/
def OneDescriptor (s : Descriptors σ) : Prop :=
  ∀ session fd fd', s.connections fd = some session → s.connections fd' = some session →
    s.owner fd ≠ none → s.owner fd' ≠ none → fd = fd'

/-- The loss of a descriptor leaves a handler alone that another open one is mapped to. -/
def LossSpares [DecidableEq σ] (s : Descriptors σ) : Prop :=
  ∀ session fd fd', s.connections fd = some session → s.owner fd ≠ none → fd' ≠ fd →
    (s.closeDescriptor fd').handler session = s.handler session

/-- A connection is bound to a session that is still without one. -/
def Unclaimed (s : Descriptors σ) : DescriptorStep σ → Prop
  | .bind reader => ∀ route ∈ s.routing reader, (s.handler route.1).connected = false
  | .connect session _ => (s.handler session).connected = false
  | _ => True

instance (s : Descriptors σ) : ∀ i, Decidable (s.Unclaimed i)
  | .bind reader =>
      inferInstanceAs (Decidable (∀ route ∈ s.routing reader, (s.handler route.1).connected = false))
  | .connect session _ => inferInstanceAs (Decidable ((s.handler session).connected = false))
  | .accept _ | .reject _ | .route _ _ | .send _ _ | .trySend _ _ _ | .queueWrite _ | .flush _ _
  | .close _ | .erase _ | .disconnect _ | .closeHandle _ | .eraseHandle _ => .isTrue True.intro

/-- The call is about to close the descriptor of the handler. -/
def HandlerCall.isClosing : HandlerCall → Bool
  | .closing _ => true
  | .trying _ _ | .queueing _ _ | .erasing _ => false

/-- The call is one of `disconnect`. -/
def HandlerCall.isDisconnect : HandlerCall → Bool
  | .closing _ | .erasing _ => true
  | .trying _ _ | .queueing _ _ => false

/-! ## The invariant -/

/-- What a mapped descriptor says about the handler. -/
structure Mapped (s : Descriptors σ) (fd : Nat) (session : σ) : Prop where
  isOpen : s.owner fd ≠ none
  handle : ∃ handle, (s.handler session).connection = some handle ∧ handle.fd = fd
  valid : (s.handler session).valid = true
  /-- The flag is taken back first by a disconnect. -/
  connected : (s.handler session).connected = true ∨
    ∃ handle, s.call session = some (.closing handle)

theorem Mapped.of_same {s t : Descriptors σ} {fd : Nat} {session : σ} (h : Mapped s fd session)
    (hopen : t.owner fd ≠ none) (hhandler : t.handler session = s.handler session)
    (hcall : t.call session = s.call session) : Mapped t fd session where
  isOpen := hopen
  handle := hhandler.symm ▸ h.handle
  valid := hhandler.symm ▸ h.valid
  connected := by
    rw [hhandler, hcall]
    exact h.connected

/-- A handler is bound to the one descriptor that is mapped to it. -/
structure Sole (s : Descriptors σ) : Prop where
  mapped : ∀ fd session, s.connections fd = some session → Mapped s fd session
  closing : ∀ session handle, s.call session = some (.closing handle) →
    (s.handler session).connection = some handle
  erasing : ∀ session handle, s.call session = some (.erasing handle) →
    ∀ fd, s.connections fd ≠ some session

theorem sole_new : Sole (new : Descriptors σ) where
  mapped _ _ h := by cases h
  closing _ _ h := by cases h
  erasing _ _ h := by cases h

section

variable {s : Descriptors σ}

theorem Sole.fd_eq (h : Sole s) {fd fd' : Nat} {session : σ} (hfd : s.connections fd = some session)
    (hfd' : s.connections fd' = some session) : fd = fd' := by
  obtain ⟨handle, hc, rfl⟩ := (h.mapped fd session hfd).handle
  obtain ⟨handle', hc', rfl⟩ := (h.mapped fd' session hfd').handle
  rw [hc] at hc'
  cases hc'
  rfl

theorem Sole.oneDescriptor (h : Sole s) : s.OneDescriptor := fun _ _ _ hfd hfd' _ _ =>
  h.fd_eq hfd hfd'

/-- A session without a connection, that no call is under way for, is mapped to no descriptor. -/
theorem Sole.unmapped (h : Sole s) {session : σ} (hconn : (s.handler session).connected = false)
    (hcall : s.call session = none) (fd : Nat) : s.connections fd ≠ some session := by
  intro hfd
  rcases (h.mapped fd session hfd).connected with hconn' | ⟨handle, hclosing⟩
  · rw [hconn] at hconn'
    cases hconn'
  · rw [hcall] at hclosing
    cases hclosing

/-- What is written and queued does not matter. -/
theorem Sole.of_same {t : Descriptors σ} (h : Sole s) (howner : t.owner = s.owner)
    (hconnections : t.connections = s.connections) (hhandler : t.handler = s.handler)
    (hcall : t.call = s.call) : Sole t := by
  refine ⟨fun fd x hfd => ?_, fun x handle hx => ?_, fun x handle hx => ?_⟩
  · rw [hconnections] at hfd
    have hmapped := h.mapped fd x hfd
    exact hmapped.of_same (howner ▸ hmapped.isOpen) (by rw [hhandler]) (by rw [hcall])
  · rw [hcall] at hx
    rw [hhandler]
    exact h.closing x handle hx
  · rw [hcall] at hx
    rw [hconnections]
    exact h.erasing x handle hx

/-! ## Descriptors that come and go -/

theorem Sole.accept (h : Sole s) (fd : Nat) : Sole (s.accept fd) := by
  unfold Descriptors.accept
  split
  next hfree =>
    refine ⟨fun fd' session hfd => ?_, h.closing, h.erasing⟩
    have hmapped := h.mapped fd' session hfd
    have hne : fd' ≠ fd := fun heq => hmapped.isOpen (heq ▸ hfree.1)
    exact hmapped.of_same (fun hnone => hmapped.isOpen
      ((Function.update_of_ne hne _ _).symm.trans hnone)) rfl rfl
  next => exact h

theorem Sole.reject (h : Sole s) (fd : Nat) : Sole (s.reject fd) := by
  unfold Descriptors.reject
  split
  next hnew =>
    refine ⟨fun fd' session hfd => ?_, h.closing, h.erasing⟩
    have hmapped := h.mapped fd' session hfd
    have hne : fd' ≠ fd := by
      intro heq
      rw [heq, hnew.2] at hfd
      cases hfd
    exact hmapped.of_same (fun hnone => hmapped.isOpen
      ((Function.update_of_ne hne _ _).symm.trans hnone)) rfl rfl
  next => exact h

/-- A call that closes no connection. -/
theorem any_isClosing_of_eq {session : σ} {call : Option HandlerCall} (hcall : s.call session = call)
    (hidle : call.any HandlerCall.isClosing = false) :
    (s.call session).any HandlerCall.isClosing = false := hcall ▸ hidle

variable [DecidableEq σ]

/-- The mapping of the descriptor is gone, and the others are of other sessions. -/
theorem Sole.closeDescriptor (h : Sole s) (fd : Nat) : Sole (s.closeDescriptor fd) := by
  have hrest : ∀ {fd' session}, (s.closeDescriptor fd).connections fd' = some session →
      fd' ≠ fd ∧ s.connections fd' = some session := by
    intro fd' session hfd
    change Function.update s.connections fd none fd' = _ at hfd
    by_cases heq : fd' = fd
    · rw [heq, Function.update_self] at hfd
      cases hfd
    · rw [Function.update_of_ne heq] at hfd
      exact ⟨heq, hfd⟩
  have hconnection : ∀ session, ((s.closeDescriptor fd).handler session).connection =
      (s.handler session).connection := by
    intro session
    unfold Descriptors.closeDescriptor
    dsimp only
    cases s.connections fd with
    | none => rfl
    | some bound =>
        dsimp only
        by_cases heq : session = bound
        · rw [heq, Function.update_self]
        · rw [Function.update_of_ne heq]
  refine ⟨fun fd' session hfd => ?_, fun session handle hcall => ?_,
    fun session handle hcall fd' hfd => ?_⟩
  · obtain ⟨hne, hfd⟩ := hrest hfd
    have hmapped := h.mapped fd' session hfd
    have hsame : (s.closeDescriptor fd).handler session = s.handler session := by
      unfold Descriptors.closeDescriptor
      dsimp only
      cases hbound : s.connections fd with
      | none => rfl
      | some bound =>
          refine Function.update_of_ne (fun heq => ?_) _ _
          exact hne (h.fd_eq hfd (heq ▸ hbound))
    exact hmapped.of_same (fun hnone => hmapped.isOpen
      ((Function.update_of_ne hne _ _).symm.trans hnone)) hsame rfl
  · exact (hconnection session).trans (h.closing session handle hcall)
  · exact h.erasing session handle hcall fd' (hrest hfd).2

theorem Sole.lossSpares (h : Sole s) : s.LossSpares := by
  intro session fd fd' hfd _ hne
  unfold Descriptors.closeDescriptor
  dsimp only
  cases hbound : s.connections fd' with
  | none => rfl
  | some bound =>
      refine Function.update_of_ne (fun heq => ?_) _ _
      exact hne (h.fd_eq (heq ▸ hbound) hfd)

/-! ## Connections that are bound -/

/-- A connection is bound to a session that is mapped to no descriptor. -/
theorem Sole.addConnection (h : Sole s) {session : σ} (fd : Nat)
    (hunmapped : ∀ fd, s.connections fd ≠ some session) (hcall : s.call session = none) :
    Sole (s.addConnection session fd) := by
  cases howner : s.owner fd with
  | none =>
      unfold Descriptors.addConnection
      rw [howner]
      exact h
  | some connection =>
      have heq : s.addConnection session fd = { s with
          handler := Function.update s.handler session ⟨some ⟨fd, connection⟩, true, true⟩
          connections := Function.update s.connections fd (some session) } := by
        unfold Descriptors.addConnection
        rw [howner]
      rw [heq]
      have hother : ∀ {x}, x ≠ session → ∀ {fd'},
          Function.update s.connections fd (some session) fd' = some x →
          s.connections fd' = some x := by
        intro x hne fd' hfd
        by_cases heq : fd' = fd
        · rw [heq, Function.update_self] at hfd
          exact (hne (Option.some.inj hfd).symm).elim
        · rwa [Function.update_of_ne heq] at hfd
      refine ⟨fun fd' x hfd => ?_, fun x handle hclosing => ?_, fun x handle herasing fd' hfd => ?_⟩
      · by_cases heq : x = session
        · subst heq
          have hfd' : fd' = fd := by
            by_contra hne
            exact hunmapped fd' ((Function.update_of_ne hne _ _).symm.trans hfd)
          subst hfd'
          refine ⟨?_, ⟨⟨fd', connection⟩, ?_, rfl⟩, ?_, .inl ?_⟩
          · dsimp only
            rw [howner]
            exact Option.some_ne_none connection
          · dsimp only
            rw [Function.update_self]
          · dsimp only
            rw [Function.update_self]
          · dsimp only
            rw [Function.update_self]
        · have hmapped := h.mapped fd' x (hother heq hfd)
          exact hmapped.of_same hmapped.isOpen (Function.update_of_ne heq _ _) rfl
      · have heq : x ≠ session := by
          rintro rfl
          rw [show s.call x = _ from hclosing] at hcall
          cases hcall
        dsimp only
        rw [Function.update_of_ne heq]
        exact h.closing x handle hclosing
      · have heq : x ≠ session := by
          rintro rfl
          rw [show s.call x = _ from herasing] at hcall
          cases hcall
        exact h.erasing x handle herasing fd' (hother heq hfd)

/-! ## Handlers that are called -/

/-- A call of `send` goes on. -/
theorem Sole.setCall (h : Sole s) {session : σ} {call : Option HandlerCall}
    (hbefore : (s.call session).any HandlerCall.isClosing = false)
    (hafter : call.any HandlerCall.isDisconnect = false) : Sole (s.setCall session call) := by
  have hother : ∀ {x c}, Function.update s.call session call x = some c →
      (x = session ∧ call = some c) ∨ (x ≠ session ∧ s.call x = some c) := by
    intro x c hc
    by_cases heq : x = session
    · rw [heq, Function.update_self] at hc
      exact .inl ⟨heq, hc⟩
    · rw [Function.update_of_ne heq] at hc
      exact .inr ⟨heq, hc⟩
  refine ⟨fun fd x hfd => ?_, fun x handle hcall => ?_, fun x handle hcall => ?_⟩
  · obtain ⟨hopen, hhandle, hvalid, hconn⟩ := h.mapped fd x hfd
    refine ⟨hopen, hhandle, hvalid, hconn.imp id ?_⟩
    rintro ⟨handle, hx⟩
    have heq : x ≠ session := by
      rintro rfl
      rw [hx] at hbefore
      cases hbefore
    exact ⟨handle, (Function.update_of_ne heq _ _).trans hx⟩
  · rcases hother hcall with ⟨-, hc⟩ | ⟨-, hc⟩
    · rw [hc] at hafter
      cases hafter
    · exact h.closing x handle hc
  · rcases hother hcall with ⟨-, hc⟩ | ⟨-, hc⟩
    · rw [hc] at hafter
      cases hafter
    · exact h.erasing x handle hc

/-- A handler that is mapped to no descriptor, while no call closes its connection. -/
theorem Sole.setHandler (h : Sole s) {session : σ} (handler : HandlerState)
    (hunmapped : ∀ fd, s.connections fd ≠ some session)
    (hcall : (s.call session).any HandlerCall.isClosing = false) :
    Sole (s.setHandler session handler) := by
  have hsame : ∀ {x}, x ≠ session → (s.setHandler session handler).handler x = s.handler x :=
    fun hne => Function.update_of_ne hne _ _
  refine ⟨fun fd x hfd => ?_, fun x handle hclosing => ?_, h.erasing⟩
  · have hne : x ≠ session := by
      rintro rfl
      exact hunmapped fd hfd
    have hmapped := h.mapped fd x hfd
    exact hmapped.of_same hmapped.isOpen (hsame hne) rfl
  · have hne : x ≠ session := by
      rintro rfl
      rw [show s.call x = _ from hclosing] at hcall
      cases hcall
    rw [hsame hne]
    exact h.closing x handle hclosing

/-- A disconnect takes the flag back and goes on to close the connection. -/
theorem Sole.closing_setHandler (h : Sole s) {session : σ} {handle : ConnectionHandle}
    (hconnection : (s.handler session).connection = some handle)
    (hvalid : (s.handler session).valid = true) (hcall : s.call session = none) :
    Sole ((s.setHandler session ⟨some handle, true, false⟩).setCall session
      (some (.closing handle))) := by
  let t := (s.setHandler session ⟨some handle, true, false⟩).setCall session (some (.closing handle))
  have hself : t.handler session = ⟨some handle, true, false⟩ := Function.update_self ..
  have hclosing : t.call session = some (.closing handle) := Function.update_self ..
  have hsame : ∀ {x}, x ≠ session → t.handler x = s.handler x ∧ t.call x = s.call x :=
    fun hne => ⟨Function.update_of_ne hne _ _, Function.update_of_ne hne _ _⟩
  refine ⟨fun fd x hfd => ?_, fun x handle' hx => ?_, fun x handle' hx => ?_⟩
  · have hmapped := h.mapped fd x hfd
    by_cases heq : x = session
    · subst heq
      obtain ⟨handle', hc, hfd'⟩ := hmapped.handle
      rw [hconnection] at hc
      cases hc
      refine ⟨hmapped.isOpen, ⟨handle, ?_, hfd'⟩, ?_, .inr ⟨handle, hclosing⟩⟩
      · exact congrArg HandlerState.connection hself
      · exact congrArg HandlerState.valid hself
    · exact hmapped.of_same hmapped.isOpen (hsame heq).1 (hsame heq).2
  · by_cases heq : x = session
    · subst heq
      rw [show t.call x = _ from hx] at hclosing
      cases hclosing
      exact congrArg HandlerState.connection hself
    · exact (congrArg HandlerState.connection (hsame heq).1).trans
        (h.closing x handle' ((hsame heq).2.symm.trans hx))
  · have heq : x ≠ session := by
      rintro rfl
      rw [show t.call x = _ from hx] at hclosing
      cases hclosing
    exact h.erasing x handle' ((hsame heq).2.symm.trans hx)

/-- The descriptor of the handler is closed by its own disconnect. -/
theorem Sole.closeHandle (h : Sole s) {session : σ} {handle : ConnectionHandle}
    (hcall : s.call session = some (.closing handle)) :
    Sole ((s.closeDescriptor handle.fd).setCall session (some (.erasing handle))) := by
  have hclosed := h.closeDescriptor handle.fd
  have hunmapped : ∀ fd, (s.closeDescriptor handle.fd).connections fd ≠ some session := by
    intro fd hfd
    obtain ⟨handle', hc, hfd'⟩ := (hclosed.mapped fd session hfd).handle
    have hsame := (hclosed.closing session handle hcall).symm.trans hc
    cases hsame
    rw [← hfd'] at hfd
    exact nomatch (Function.update_self ..).symm.trans hfd
  have hother : ∀ {x c}, Function.update (s.closeDescriptor handle.fd).call session
      (some (.erasing handle)) x = some c → (x = session ∧ c = .erasing handle) ∨
        (x ≠ session ∧ (s.closeDescriptor handle.fd).call x = some c) := by
    intro x c hc
    by_cases heq : x = session
    · rw [heq, Function.update_self] at hc
      exact .inl ⟨heq, (Option.some.inj hc).symm⟩
    · rw [Function.update_of_ne heq] at hc
      exact .inr ⟨heq, hc⟩
  refine ⟨fun fd x hfd => ?_, fun x handle' hx => ?_, fun x handle' hx => ?_⟩
  · have hmapped := hclosed.mapped fd x hfd
    have hne : x ≠ session := by
      rintro rfl
      exact hunmapped fd hfd
    exact hmapped.of_same hmapped.isOpen rfl (Function.update_of_ne hne _ _)
  · rcases hother hx with ⟨-, hc⟩ | ⟨-, hc⟩
    · cases hc
    · exact hclosed.closing x handle' hc
  · rcases hother hx with ⟨rfl, -⟩ | ⟨-, hc⟩
    · exact hunmapped
    · exact hclosed.erasing x handle' hc

/-! ## What every step keeps -/

theorem Sole.step (h : Sole s) (readers : Nat) (tls : Nat → Bool) {i : DescriptorStep σ}
    (hi : s.Unclaimed i) : Sole (step readers tls i s) := by
  have hstep : Stepped readers tls s i (Descriptors.step readers tls i s) := stepped_step i
  generalize Descriptors.step readers tls i s = t at hstep ⊢
  cases hstep with
  | wait => exact h
  | accept => exact h.accept _
  | reject => exact h.reject _
  | refuse => exact h.reject _
  | route => exact h.of_same rfl rfl rfl rfl
  | @bind reader session fd hr hcall =>
      have hreleased : Sole { s with routing := Function.update s.routing reader none } :=
        h.of_same rfl rfl rfl rfl
      exact hreleased.addConnection fd (h.unmapped (hi (session, fd) hr) hcall) hcall
  | @connect session fd _ _ hcall => exact h.addConnection fd (h.unmapped hi hcall) hcall
  | send hcall _ _ => exact h.setCall (any_isClosing_of_eq hcall rfl) rfl
  | @lost session _ hcall hv =>
      refine h.setHandler _ (fun fd hfd => ?_) (any_isClosing_of_eq hcall rfl)
      rw [(h.mapped fd session hfd).valid] at hv
      cases hv
  | pass hcall => exact h.setCall (any_isClosing_of_eq hcall rfl) rfl
  | @sendInline session _ _ handle entry owner next hcall _ accepted hnext =>
      have hwritten : Sole
          { s with written := s.written ++ writtenBytes owner [entry] 0 accepted } :=
        h.of_same rfl rfl rfl rfl
      refine hwritten.setCall (any_isClosing_of_eq hcall rfl) ?_
      cases next with
      | none => rfl
      | some c =>
          obtain ⟨rest, rfl⟩ := hnext c rfl
          rfl
  | @queueWrite session handle entry hcall =>
      have hqueued : Sole (s.queueWrite handle.fd entry) := h.of_same rfl rfl rfl rfl
      exact hqueued.setCall (any_isClosing_of_eq hcall rfl) rfl
  | flush =>
      unfold Descriptors.flushWrite
      split
      next => exact h
      next =>
        dsimp only
        split
        next => exact h.of_same rfl rfl rfl rfl
        next => exact h.of_same rfl rfl rfl rfl
  | @close fd _ => exact (h.closeDescriptor fd).of_same rfl rfl rfl rfl
  | erase => exact h.of_same rfl rfl rfl rfl
  | disconnect hcall hc hv => exact h.closing_setHandler hc hv hcall
  | @forget session hcall hgone =>
      refine h.setHandler _ (fun fd hfd => ?_) (any_isClosing_of_eq hcall rfl)
      obtain ⟨-, ⟨handle, hc, -⟩, hvalid, -⟩ := h.mapped fd session hfd
      rcases hgone with hnone | hlost
      · rw [hc] at hnone
        cases hnone
      · rw [hvalid] at hlost
        cases hlost
  | closeHandle hcall _ => exact h.closeHandle hcall
  | @eraseHandle session handle hcall =>
      have herased : Sole (s.setBuffer handle.fd none) := h.of_same rfl rfl rfl rfl
      have hforgot := herased.setHandler { s.handler session with connection := none }
        (h.erasing session handle hcall) (any_isClosing_of_eq hcall rfl)
      exact hforgot.setCall (any_isClosing_of_eq hcall rfl) rfl

end

/-- In every run in which each connection is bound to a session that is still without one,
at most one descriptor is mapped to a handler, and the loss of another spares it. -/
theorem run_oneDescriptor [DecidableEq σ] {readers : Nat} {tls : Nat → Bool} {s : Descriptors σ}
    (h : Reached new (step readers tls) Unclaimed s) : s.OneDescriptor ∧ s.LossSpares := by
  have hsole : Sole s :=
    h.invariant (P := Sole) sole_new fun s i hi hs => hs.step readers tls hi
  exact ⟨hsole.oneDescriptor, hsole.lossSpares⟩

/-! ## One reader thread -/

/-- A step of the readers, the kernel and the sessions of an acceptor. -/
def Accepts (_ : Descriptors σ) : DescriptorStep σ → Prop
  | .connect _ _ => False
  | _ => True

/-- The session that the reader has checked is still without a connection. -/
def Waiting (s : Descriptors σ) : Prop :=
  ∀ reader session fd, s.routing reader = some (session, fd) →
    reader = 0 ∧ (s.handler session).connected = false

theorem Waiting.unclaimed {s : Descriptors σ} (h : Waiting s) {i : DescriptorStep σ}
    (hi : s.Accepts i) : s.Unclaimed i := by
  cases i with
  | bind reader => exact fun route hr => (h reader route.1 route.2 hr).2
  | connect session fd => exact hi.elim
  | _ => exact True.intro

/-- The same readers are at work, and no session has become connected. -/
theorem Waiting.of_connected {s t : Descriptors σ} (h : Waiting s)
    (hrouting : t.routing = s.routing) (hconnected : ∀ session,
      (t.handler session).connected = true → (s.handler session).connected = true) : Waiting t := by
  intro reader session fd hr
  rw [hrouting] at hr
  obtain ⟨hreader, hfree⟩ := h reader session fd hr
  refine ⟨hreader, ?_⟩
  by_contra hconn
  rw [Bool.not_eq_false] at hconn
  rw [hconnected session hconn] at hfree
  cases hfree

section

variable {s : Descriptors σ}

theorem Waiting.reject (h : Waiting s) (fd : Nat) : Waiting (s.reject fd) := by
  unfold Descriptors.reject
  split
  next => exact h.of_connected rfl fun _ hc => hc
  next => exact h

/-- The only reader checked the session, which is still without a connection. -/
theorem Waiting.route (h : Waiting s) {session : σ} (fd : Nat)
    (hfree : (s.handler session).connected = false) :
    Waiting { s with routing := Function.update s.routing (fd % 1) (some (session, fd)) } := by
  intro reader x fd' hr
  dsimp only at hr
  by_cases heq : reader = fd % 1
  · rw [heq, Function.update_self] at hr
    cases hr
    exact ⟨heq.trans (Nat.mod_one fd), hfree⟩
  · rw [Function.update_of_ne heq] at hr
    exact h reader x fd' hr

variable [DecidableEq σ]

theorem connected_closeDescriptor {fd : Nat} {session : σ}
    (h : ((s.closeDescriptor fd).handler session).connected = true) :
    (s.handler session).connected = true := by
  unfold Descriptors.closeDescriptor at h
  dsimp only at h
  cases hbound : s.connections fd with
  | none =>
      rw [hbound] at h
      exact h
  | some bound =>
      rw [hbound] at h
      dsimp only at h
      by_cases heq : session = bound
      · rw [heq, Function.update_self] at h
        cases h
      · rwa [Function.update_of_ne heq] at h

theorem connected_setHandler {session x : σ} {handler : HandlerState}
    (hhandler : handler.connected = true → (s.handler session).connected = true)
    (h : ((s.setHandler session handler).handler x).connected = true) :
    (s.handler x).connected = true := by
  change (Function.update s.handler session handler x).connected = true at h
  by_cases heq : x = session
  · subst heq
    rw [Function.update_self] at h
    exact hhandler h
  · rwa [Function.update_of_ne heq] at h

theorem routing_addConnection (session : σ) (fd : Nat) :
    (s.addConnection session fd).routing = s.routing := by
  unfold Descriptors.addConnection
  cases s.owner fd with
  | none => rfl
  | some connection => rfl

/-- Behind the binding the only reader has checked no session. -/
theorem Waiting.bind (h : Waiting s) {reader : Nat} {session : σ} {fd : Nat}
    (hr : s.routing reader = some (session, fd)) :
    Waiting
      ({ s with routing := Function.update s.routing reader none }.addConnection session fd) := by
  intro reader' x fd' hr'
  rw [routing_addConnection] at hr'
  dsimp only at hr'
  by_cases heq : reader' = reader
  · rw [heq, Function.update_self] at hr'
    cases hr'
  · rw [Function.update_of_ne heq] at hr'
    exact (heq ((h reader' x fd' hr').1.trans (h reader session fd hr).1.symm)).elim

theorem Waiting.step (h : Waiting s) (tls : Nat → Bool) {i : DescriptorStep σ}
    (hi : s.Accepts i) : Waiting (step 1 tls i s) := by
  have hstep : Stepped 1 tls s i (Descriptors.step 1 tls i s) := stepped_step i
  generalize Descriptors.step 1 tls i s = t at hstep ⊢
  cases hstep with
  | wait => exact h
  | accept =>
      unfold Descriptors.accept
      split
      next => exact h.of_connected rfl fun _ hc => hc
      next => exact h
  | reject => exact h.reject _
  | refuse => exact h.reject _
  | route _ hfree => exact h.route _ hfree
  | bind hr _ => exact h.bind hr
  | connect => exact hi.elim
  | send => exact h.of_connected rfl fun _ hc => hc
  | lost => exact h.of_connected rfl fun _ => connected_setHandler id
  | pass => exact h.of_connected rfl fun _ hc => hc
  | sendInline => exact h.of_connected rfl fun _ hc => hc
  | queueWrite => exact h.of_connected rfl fun _ hc => hc
  | flush =>
      unfold Descriptors.flushWrite
      split
      next => exact h
      next =>
        dsimp only
        split
        next => exact h.of_connected rfl fun _ hc => hc
        next => exact h.of_connected rfl fun _ hc => hc
  | close => exact h.of_connected rfl fun _ => connected_closeDescriptor
  | erase => exact h.of_connected rfl fun _ hc => hc
  | disconnect => exact h.of_connected rfl fun _ => connected_setHandler Bool.noConfusion
  | forget => exact h.of_connected rfl fun _ => connected_setHandler Bool.noConfusion
  | closeHandle => exact h.of_connected rfl fun _ => connected_closeDescriptor
  | eraseHandle => exact h.of_connected rfl fun _ => connected_setHandler id

/-- With one reader thread no connection is bound to a session that has one by then. -/
theorem run_oneReader {tls : Nat → Bool} (h : Reached new (Descriptors.step 1 tls) Accepts s) :
    Reached new (Descriptors.step 1 tls) Unclaimed s := by
  have hboth : Waiting s ∧ Reached new (Descriptors.step 1 tls) Unclaimed s := by
    induction h with
    | init => exact ⟨fun _ _ _ hr => (nomatch hr), .init⟩
    | step _ hi ih => exact ⟨ih.1.step tls hi, ih.2.step (ih.1.unclaimed hi)⟩
  exact hboth.2

end

/-- Two clients log on under the same name, the second when the first is connected. -/
def secondLogon : List (DescriptorStep Unit) :=
  [.accept 0, .accept 1, .route () 0, .bind 0, .route () 1]

theorem run_oneDescriptor_test :
    (runOf (step 2 fun _ => false) new secondLogon).OneDescriptor ∧
      (runOf (step 2 fun _ => false) new secondLogon).LossSpares := by
  have hallowed : AllowedAlong (step 2 fun _ => false) Unclaimed (new : Descriptors Unit)
      secondLogon := by decide
  exact run_oneDescriptor (Reached.init.along hallowed)

/-- Two readers check the session before either binds. -/
def simultaneousLogons : List (DescriptorStep Unit) :=
  [.accept 0, .accept 1, .route () 0, .route () 1, .bind 0, .bind 1]

theorem not_run_oneDescriptor : ¬∀ (σ : Type) (_ : DecidableEq σ) (readers : Nat)
    (tls : Nat → Bool) (s : Descriptors σ), Reached new (step readers tls) (fun _ _ => True) s →
      s.OneDescriptor ∧ s.LossSpares := by
  intro hall
  have hreached : Reached (new : Descriptors Unit) (step 2 fun _ => false) (fun _ _ => True)
      (runOf (step 2 fun _ => false) new simultaneousLogons) :=
    Reached.init.runOf (fun _ _ => True.intro) simultaneousLogons
  obtain ⟨hone, -⟩ := hall Unit inferInstance 2 (fun _ => false) _ hreached
  exact absurd (hone () 0 1 (by decide) (by decide) (by decide) (by decide)) (by decide)

end Descriptors

end OpenFix
