import Mathlib.Logic.Function.Basic
import OpenFix.Lib.Run
import OpenFix.Outbound

/-!
# Descriptors

A connection is named by its descriptor everywhere: in the `ConnectionHandle` of
a handler, in the maps of the readers and in the map of the write buffers.  The
kernel gives the number of a closed descriptor to the next connection.

The sessions share the readers.  A descriptor belongs to the reader with its
number modulo the count of readers, so that a map over all descriptors stands for
the maps of all readers.  Three mutexes matter.  The one of the handler is held by
a call of `send` or `disconnect` from begin to end.  The one of a reader is held
from the check of a new connection's session to its binding, and while a
descriptor is closed.  The one of the write buffers is held by each of the steps
that look at them.  What needs a mutex that is held waits.

Connections get numbers of their own here, which the code does not have.  They
are given to a connection when the kernel opens it, and remembered in a handle and
in what is sent through it.  No code looks at them.  The place of a callback is
taken by the connection a message was sent on, and what a callback does, a
disconnect, is a step of its own.  A write that is left over when its message is
cut keeps it.
-/

namespace OpenFix

open Run

/-- A descriptor, and the connection it was when the handle was made. -/
structure ConnectionHandle where
  fd : Nat
  connection : Nat
deriving Repr, DecidableEq

/-- What a `NetworkHandler` knows of its connection. -/
structure HandlerState where
  connection : Option ConnectionHandle
  valid : Bool
  connected : Bool

/-- How far a call is that holds the mutex of a handler. -/
inductive HandlerCall where
  /-- `send` found the connection valid and has not tried to send yet. -/
  | trying (handle : ConnectionHandle) (entry : WriteEntry Nat)
  /-- `send` has this to queue. -/
  | queueing (handle : ConnectionHandle) (entry : WriteEntry Nat)
  /-- `disconnect` found the connection valid. -/
  | closing (handle : ConnectionHandle)
  /-- `disconnect` has closed the descriptor. -/
  | erasing (handle : ConnectionHandle)

/-- What a call of `send` has not handed on, and the handle it sends through. -/
def HandlerCall.sending : HandlerCall → Option (ConnectionHandle × WriteEntry Nat)
  | .trying handle entry | .queueing handle entry => some (handle, entry)
  | .closing _ | .erasing _ => none

/-- A byte that was written to a descriptor. -/
structure WrittenByte where
  /-- The connection that the descriptor belonged to. -/
  owner : Nat
  /-- The connection that its message was sent on. -/
  sentOn : Option Nat
  byte : UInt8

structure Descriptors (σ : Type) where
  /-- The connection of each descriptor that is open. -/
  owner : Nat → Option Nat
  /-- How many were opened. -/
  opened : Nat
  handler : σ → HandlerState
  call : σ → Option HandlerCall
  /-- `m_connections` of the readers. -/
  connections : Nat → Option σ
  /-- A reader that has checked the session of a new connection. -/
  routing : Nat → Option (σ × Nat)
  /-- `m_writeBuffers` of the readers. -/
  buffers : Nat → Option (WriteBuffer Nat)
  /-- Descriptors that a reader has closed and whose write buffers it still has to erase. -/
  erasing : List Nat
  written : List WrittenByte

/-- A step of one of the threads. -/
inductive DescriptorStep (σ : Type) where
  /-- The kernel opens a connection on the descriptor. -/
  | accept (fd : Nat)
  /-- A reader closes a new connection that it cannot route. -/
  | reject (fd : Nat)
  /-- A reader checks that the session of a new connection is not connected. -/
  | route (session : σ) (fd : Nat)
  /-- The reader binds the connection that it has checked. -/
  | bind (reader : Nat)
  /-- An initiator binds the connection that it has made. -/
  | connect (session : σ) (fd : Nat)
  /-- `NetworkHandler::send` takes the mutex and looks at the connection. -/
  | send (session : σ) (msg : Bytes)
  /-- It tries to send inline.  The write buffers may be locked. -/
  | trySend (session : σ) (locked : Bool) (room : Nat)
  /-- It queues what it has left. -/
  | queueWrite (session : σ)
  /-- A reader flushes what is queued for a descriptor. -/
  | flush (fd : Nat) (rooms : List Nat)
  /-- A reader closes a descriptor, the first part of `ReaderThread::disconnect`. -/
  | close (fd : Nat)
  /-- It erases the write buffer, the second part. -/
  | erase (i : Nat)
  /-- `NetworkHandler::disconnect` takes the mutex and looks at the connection. -/
  | disconnect (session : σ)
  /-- It closes the descriptor. -/
  | closeHandle (session : σ)
  /-- It erases the write buffer and forgets the connection. -/
  | eraseHandle (session : σ)

/-- The bytes that were accepted are the ones of the drain from the offset on. -/
def writtenBytes (owner : Nat) (drain : List (WriteEntry Nat)) (offset : Nat) (accepted : Bytes) :
    List WrittenByte :=
  List.zipWith (WrittenByte.mk owner)
    ((drain.flatMap fun e => List.replicate e.msg.length e.callback).drop offset) accepted

namespace Descriptors

variable {σ : Type}

def new : Descriptors σ where
  owner _ := none
  opened := 0
  handler _ := ⟨none, true, false⟩
  call _ := none
  connections _ := none
  routing _ := none
  buffers _ := none
  erasing := []
  written := []

/-- The kernel gives the lowest number that is free. -/
def accept (fd : Nat) (s : Descriptors σ) : Descriptors σ :=
  if s.owner fd = none ∧ ∀ j < fd, s.owner j ≠ none then
    { s with owner := Function.update s.owner fd (some s.opened), opened := s.opened + 1 }
  else s

/-- A descriptor that a reader does not know as the connection of a session. -/
def IsNew (s : Descriptors σ) (fd : Nat) : Prop := s.owner fd ≠ none ∧ s.connections fd = none

instance (s : Descriptors σ) (fd : Nat) : Decidable (s.IsNew fd) :=
  inferInstanceAs (Decidable (s.owner fd ≠ none ∧ s.connections fd = none))

/-- `::close` alone. -/
def reject (fd : Nat) (s : Descriptors σ) : Descriptors σ :=
  if s.IsNew fd then { s with owner := Function.update s.owner fd none } else s

/-- The section of `ReaderThread::disconnect` under the mutex of the reader. -/
def closeDescriptor [DecidableEq σ] (fd : Nat) (s : Descriptors σ) : Descriptors σ :=
  { s with
    owner := Function.update s.owner fd none
    connections := Function.update s.connections fd none
    handler := match s.connections fd with
      | some session => Function.update s.handler session
          { s.handler session with valid := false, connected := false }
      | none => s.handler }

def addConnection [DecidableEq σ] (session : σ) (fd : Nat) (s : Descriptors σ) : Descriptors σ :=
  match s.owner fd with
  | none => s
  | some connection =>
      { s with
        handler := Function.update s.handler session ⟨some ⟨fd, connection⟩, true, true⟩
        connections := Function.update s.connections fd (some session) }

def setCall [DecidableEq σ] (session : σ) (call : Option HandlerCall) (s : Descriptors σ) :
    Descriptors σ := { s with call := Function.update s.call session call }

def setHandler [DecidableEq σ] (session : σ) (handler : HandlerState) (s : Descriptors σ) :
    Descriptors σ := { s with handler := Function.update s.handler session handler }

def setBuffer (fd : Nat) (buffer : Option (WriteBuffer Nat)) (s : Descriptors σ) : Descriptors σ :=
  { s with buffers := Function.update s.buffers fd buffer }

/-- Something is queued for the descriptor. -/
def Pending (s : Descriptors σ) (fd : Nat) : Prop :=
  ∃ wb ∈ s.buffers fd, wb.queue ≠ [] ∨ wb.drain ≠ []

instance (s : Descriptors σ) (fd : Nat) : Decidable (s.Pending fd) :=
  match h : s.buffers fd with
  | none => .isFalse fun ⟨_, hwb, _⟩ => by simp [h] at hwb
  | some wb =>
      if hne : wb.queue ≠ [] ∨ wb.drain ≠ [] then .isTrue ⟨wb, h, hne⟩
      else .isFalse fun ⟨wb', hwb, hne'⟩ => by
        rw [h] at hwb
        exact hne (Option.some.inj hwb ▸ hne')

/-- `ReaderThread::trySend`, once it has the lock.  A closed descriptor takes nothing. -/
def trySend [DecidableEq σ] (session : σ) (handle : ConnectionHandle) (entry : WriteEntry Nat)
    (room : Nat) (s : Descriptors σ) : Descriptors σ :=
  if s.Pending handle.fd then s.setCall session (some (.queueing handle entry))
  else
    match s.owner handle.fd with
    | none => s.setCall session (some (.queueing handle entry))
    | some owner =>
        let ret := min room entry.msg.length
        let t := { s with
          written := s.written ++ writtenBytes owner [entry] 0 (entry.msg.take ret) }
        if ret = entry.msg.length then t.setCall session none
        else t.setCall session (some (.queueing handle { entry with msg := entry.msg.drop ret }))

def queueWrite (fd : Nat) (entry : WriteEntry Nat) (s : Descriptors σ) : Descriptors σ :=
  let wb := (s.buffers fd).getD ⟨[], [], 0⟩
  s.setBuffer fd (some { wb with queue := wb.queue ++ [entry] })

/-- A write to a closed descriptor fails, and what was to be written is dropped. -/
def flushWrite (tls : Nat → Bool) (fd : Nat) (rooms : List Nat) (s : Descriptors σ) :
    Descriptors σ :=
  match s.buffers fd with
  | none => s
  | some wb =>
      let wb := wb.swap
      match s.owner fd with
      | none => s.setBuffer fd (some (if wb.drain = [] then wb else ⟨[], [], wb.offset⟩))
      | some owner =>
          let d := wb.flushDrain (tls owner) rooms
          { s.setBuffer fd (some ⟨wb.queue, d.drain, d.offset⟩) with
            written := s.written ++ writtenBytes owner wb.drain wb.offset d.accepted }

/-- What a step does, for this many readers.  `tls` tells the connections that use TLS.
A thread whose turn it is not waits. -/
def step [DecidableEq σ] (readers : Nat) (tls : Nat → Bool) :
    DescriptorStep σ → Descriptors σ → Descriptors σ
  | .accept fd, s => s.accept fd
  | .reject fd, s => if s.routing (fd % readers) = none then s.reject fd else s
  | .route session fd, s =>
      if s.routing (fd % readers) = none ∧ s.IsNew fd then
        if (s.handler session).connected then s.reject fd
        else { s with routing := Function.update s.routing (fd % readers) (some (session, fd)) }
      else s
  | .bind reader, s =>
      match s.routing reader with
      | none => s
      | some (session, fd) =>
          if (s.call session).isNone then
            { s with routing := Function.update s.routing reader none }.addConnection session fd
          else s
  | .connect session fd, s =>
      if s.routing (fd % readers) = none ∧ s.IsNew fd ∧ (s.call session).isNone then
        s.addConnection session fd
      else s
  | .send session msg, s =>
      if (s.call session).isNone then
        match (s.handler session).connection with
        | none => s
        | some handle =>
            if (s.handler session).valid then
              s.setCall session (some (.trying handle ⟨msg, some handle.connection⟩))
            else s.setHandler session { s.handler session with connection := none }
      else s
  | .trySend session locked room, s =>
      match s.call session with
      | some (.trying handle entry) =>
          -- A TLS connection never sends inline.
          if tls handle.connection || locked then
            s.setCall session (some (.queueing handle entry))
          else s.trySend session handle entry room
      | _ => s
  | .queueWrite session, s =>
      match s.call session with
      | some (.queueing handle entry) => (s.queueWrite handle.fd entry).setCall session none
      | _ => s
  | .flush fd rooms, s => s.flushWrite tls fd rooms
  | .close fd, s =>
      if s.routing (fd % readers) = none then
        { s.closeDescriptor fd with erasing := fd :: s.erasing }
      else s
  | .erase i, s =>
      match s.erasing[i]? with
      | none => s
      | some fd => { s.setBuffer fd none with erasing := s.erasing.eraseIdx i }
  | .disconnect session, s =>
      if (s.call session).isNone then
        let handler := { s.handler session with connected := false }
        match handler.connection with
        | none => s.setHandler session handler
        | some handle =>
            if handler.valid then
              (s.setHandler session handler).setCall session (some (.closing handle))
            else s.setHandler session { handler with connection := none }
      else s
  | .closeHandle session, s =>
      match s.call session with
      | some (.closing handle) =>
          if s.routing (handle.fd % readers) = none then
            (s.closeDescriptor handle.fd).setCall session (some (.erasing handle))
          else s
      | _ => s
  | .eraseHandle session, s =>
      match s.call session with
      | some (.erasing handle) =>
          ((s.setBuffer handle.fd none).setHandler session
            { s.handler session with connection := none }).setCall session none
      | _ => s

/-! ## What a step can do -/

/-- Where a step leads that has its turn, with what it found then. -/
inductive Stepped [DecidableEq σ] (readers : Nat) (tls : Nat → Bool) (s : Descriptors σ) :
    DescriptorStep σ → Descriptors σ → Prop where
  /-- It waits, or there is nothing to do. -/
  | wait {i : DescriptorStep σ} : Stepped readers tls s i s
  | accept {fd : Nat} : Stepped readers tls s (.accept fd) (s.accept fd)
  | reject {fd : Nat} (hr : s.routing (fd % readers) = none) :
      Stepped readers tls s (.reject fd) (s.reject fd)
  /-- The session has a connection. -/
  | refuse {session : σ} {fd : Nat} (hr : s.routing (fd % readers) = none) :
      Stepped readers tls s (.route session fd) (s.reject fd)
  | route {session : σ} {fd : Nat} (hnew : s.IsNew fd)
      (hfree : (s.handler session).connected = false) :
      Stepped readers tls s (.route session fd)
        { s with routing := Function.update s.routing (fd % readers) (some (session, fd)) }
  | bind {reader : Nat} {session : σ} {fd : Nat} (hr : s.routing reader = some (session, fd))
      (hcall : s.call session = none) :
      Stepped readers tls s (.bind reader)
        ({ s with routing := Function.update s.routing reader none }.addConnection session fd)
  | connect {session : σ} {fd : Nat} (hr : s.routing (fd % readers) = none) (hnew : s.IsNew fd)
      (hcall : s.call session = none) :
      Stepped readers tls s (.connect session fd) (s.addConnection session fd)
  | send {session : σ} {msg : Bytes} {handle : ConnectionHandle} (hcall : s.call session = none)
      (hc : (s.handler session).connection = some handle)
      (hv : (s.handler session).valid = true) :
      Stepped readers tls s (.send session msg)
        (s.setCall session (some (.trying handle ⟨msg, some handle.connection⟩)))
  /-- The connection was lost. -/
  | lost {session : σ} {msg : Bytes} (hcall : s.call session = none)
      (hv : (s.handler session).valid = false) :
      Stepped readers tls s (.send session msg)
        (s.setHandler session { s.handler session with connection := none })
  /-- Nothing is sent inline. -/
  | pass {session : σ} {locked : Bool} {room : Nat} {handle : ConnectionHandle}
      {entry : WriteEntry Nat} (hcall : s.call session = some (.trying handle entry)) :
      Stepped readers tls s (.trySend session locked room)
        (s.setCall session (some (.queueing handle entry)))
  | sendInline {session : σ} {locked : Bool} {room : Nat} {handle : ConnectionHandle}
      {entry : WriteEntry Nat} {owner : Nat} {next : Option HandlerCall}
      (hcall : s.call session = some (.trying handle entry))
      (howner : s.owner handle.fd = some owner) (accepted : Bytes)
      (hnext : ∀ c ∈ next, ∃ rest, c = .queueing handle { entry with msg := rest }) :
      Stepped readers tls s (.trySend session locked room)
        ({ s with written := s.written ++ writtenBytes owner [entry] 0 accepted }.setCall session
          next)
  | queueWrite {session : σ} {handle : ConnectionHandle} {entry : WriteEntry Nat}
      (hcall : s.call session = some (.queueing handle entry)) :
      Stepped readers tls s (.queueWrite session)
        ((s.queueWrite handle.fd entry).setCall session none)
  | flush {fd : Nat} {rooms : List Nat} :
      Stepped readers tls s (.flush fd rooms) (s.flushWrite tls fd rooms)
  | close {fd : Nat} (hr : s.routing (fd % readers) = none) :
      Stepped readers tls s (.close fd) { s.closeDescriptor fd with erasing := fd :: s.erasing }
  | erase {i fd : Nat} :
      Stepped readers tls s (.erase i) { s.setBuffer fd none with erasing := s.erasing.eraseIdx i }
  | disconnect {session : σ} {handle : ConnectionHandle} (hcall : s.call session = none)
      (hc : (s.handler session).connection = some handle)
      (hv : (s.handler session).valid = true) :
      Stepped readers tls s (.disconnect session)
        ((s.setHandler session ⟨some handle, true, false⟩).setCall session
          (some (.closing handle)))
  /-- There was no connection, or it was lost. -/
  | forget {session : σ} (hcall : s.call session = none)
      (hgone : (s.handler session).connection = none ∨ (s.handler session).valid = false) :
      Stepped readers tls s (.disconnect session)
        (s.setHandler session ⟨none, (s.handler session).valid, false⟩)
  | closeHandle {session : σ} {handle : ConnectionHandle}
      (hcall : s.call session = some (.closing handle))
      (hr : s.routing (handle.fd % readers) = none) :
      Stepped readers tls s (.closeHandle session)
        ((s.closeDescriptor handle.fd).setCall session (some (.erasing handle)))
  | eraseHandle {session : σ} {handle : ConnectionHandle}
      (hcall : s.call session = some (.erasing handle)) :
      Stepped readers tls s (.eraseHandle session)
        (((s.setBuffer handle.fd none).setHandler session
          { s.handler session with connection := none }).setCall session none)

section

variable [DecidableEq σ] {readers : Nat} {tls : Nat → Bool} {s : Descriptors σ} {session : σ}

theorem stepped_route (fd : Nat) :
    Stepped readers tls s (.route session fd) (step readers tls (.route session fd) s) := by
  rw [step]
  split
  next hnew =>
    split
    next => exact .refuse hnew.1
    next hfree => exact .route hnew.2 (Bool.eq_false_iff.mpr hfree)
  next => exact .wait

theorem stepped_bind (reader : Nat) :
    Stepped readers tls s (.bind reader) (step readers tls (.bind reader) s) := by
  rw [step]
  cases hr : s.routing reader with
  | none => exact .wait
  | some route =>
      dsimp only
      split
      next hcall => exact .bind hr (Option.isNone_iff_eq_none.mp hcall)
      next => exact .wait

theorem stepped_send (msg : Bytes) :
    Stepped readers tls s (.send session msg) (step readers tls (.send session msg) s) := by
  rw [step]
  split
  next hcall =>
    have hcall := Option.isNone_iff_eq_none.mp hcall
    cases hc : (s.handler session).connection with
    | none => exact .wait
    | some handle =>
        dsimp only
        split
        next hv => exact .send hcall hc hv
        next hv => exact .lost hcall (Bool.eq_false_iff.mpr hv)
  next => exact .wait

theorem stepped_trySend (locked : Bool) (room : Nat) :
    Stepped readers tls s (.trySend session locked room)
      (step readers tls (.trySend session locked room) s) := by
  rw [step]
  split
  next handle entry hcall =>
    split
    next => exact .pass hcall
    next =>
      unfold trySend
      split
      next => exact .pass hcall
      next =>
        cases howner : s.owner handle.fd with
        | none => exact .pass hcall
        | some owner =>
            dsimp only
            split
            next => exact .sendInline hcall howner _ fun _ hnone => by cases hnone
            next =>
              refine .sendInline hcall howner _ fun c hc => ⟨_, (Option.some.inj hc).symm⟩
  next => exact .wait

theorem stepped_disconnect :
    Stepped readers tls s (.disconnect session) (step readers tls (.disconnect session) s) := by
  rw [step]
  split
  next hcall =>
    have hcall := Option.isNone_iff_eq_none.mp hcall
    dsimp only
    cases hc : (s.handler session).connection with
    | none => exact .forget hcall (.inl hc)
    | some handle =>
        dsimp only
        split
        next hv =>
          rw [hv]
          exact .disconnect hcall hc hv
        next hv => exact .forget hcall (.inr (Bool.eq_false_iff.mpr hv))
  next => exact .wait

theorem stepped_step (i : DescriptorStep σ) : Stepped readers tls s i (step readers tls i s) := by
  cases i with
  | accept fd => exact .accept
  | reject fd =>
      rw [step]
      split
      next hr => exact .reject hr
      next => exact .wait
  | route session fd => exact stepped_route fd
  | bind reader => exact stepped_bind reader
  | connect session fd =>
      rw [step]
      split
      next hfree => exact .connect hfree.1 hfree.2.1 (Option.isNone_iff_eq_none.mp hfree.2.2)
      next => exact .wait
  | send session msg => exact stepped_send msg
  | trySend session locked room => exact stepped_trySend locked room
  | queueWrite session =>
      rw [step]
      split
      next hcall => exact .queueWrite hcall
      next => exact .wait
  | flush fd rooms => exact .flush
  | close fd =>
      rw [step]
      split
      next hr => exact .close hr
      next => exact .wait
  | erase i =>
      rw [step]
      cases s.erasing[i]? with
      | none => exact .wait
      | some fd => exact .erase
  | disconnect session => exact stepped_disconnect
  | closeHandle session =>
      rw [step]
      split
      next hcall =>
        split
        next hr => exact .closeHandle hcall hr
        next => exact .wait
      next => exact .wait
  | eraseHandle session =>
      rw [step]
      split
      next hcall => exact .eraseHandle hcall
      next => exact .wait

end

/-! ## The connection of a message -/

/-- Every byte was written to the connection that its message was sent on. -/
def Private (s : Descriptors σ) : Prop := ∀ w ∈ s.written, w.sentOn = some w.owner

/-- Nothing that was sent to the descriptor is left: no call of `send` has it in hand, and
nothing is queued for it. -/
def Unused (s : Descriptors σ) (fd : Nat) : Prop :=
  (∀ session handle entry, (s.call session).bind HandlerCall.sending = some (handle, entry) →
    handle.fd ≠ fd) ∧ ¬s.Pending fd

/-- The kernel gives a number only when nothing that was sent to it is left. -/
def Separate (s : Descriptors σ) : DescriptorStep σ → Prop
  | .accept fd => s.Unused fd
  | _ => True

/-- What is kept under way belongs to the connection of its descriptor, if there still
is one. -/
structure Kept (readers : Nat) (s : Descriptors σ) : Prop where
  /-- A valid handle is of an open connection, which is bound to its session. -/
  bound : ∀ session handle, (s.handler session).connection = some handle →
    (s.handler session).valid = true →
    s.owner handle.fd = some handle.connection ∧ s.connections handle.fd = some session
  calls : ∀ session handle entry,
    (s.call session).bind HandlerCall.sending = some (handle, entry) →
    entry.callback = some handle.connection ∧ ∀ o ∈ s.owner handle.fd, o = handle.connection
  queued : ∀ fd wb, s.buffers fd = some wb → ∀ e ∈ wb.drain ++ wb.queue, ∀ o ∈ s.owner fd,
    e.callback = some o
  routed : ∀ reader session fd, s.routing reader = some (session, fd) →
    fd % readers = reader ∧ s.IsNew fd
  written : s.Private

theorem kept_new (readers : Nat) : Kept readers (new : Descriptors σ) where
  bound _ _ h := nomatch h
  calls _ _ _ h := nomatch h
  queued _ _ h := nomatch h
  routed _ _ _ h := nomatch h
  written _ h := absurd h List.not_mem_nil

section

variable {readers : Nat} {s : Descriptors σ}

/-- A new connection on a number that is not used any more. -/
theorem Kept.accept (h : Kept readers s) {fd : Nat} (hunused : s.Unused fd) :
    Kept readers (s.accept fd) := by
  unfold Descriptors.accept
  split
  next hfree =>
    have hother : ∀ {fd' o}, fd' ≠ fd →
        o ∈ Function.update s.owner fd (some s.opened) fd' → o ∈ s.owner fd' := by
      intro fd' o hne ho
      rwa [Function.update_of_ne hne] at ho
    refine ⟨fun x handle hc hv => ?_, fun x handle entry hcall => ?_, fun fd' wb hwb e he o ho => ?_,
      fun reader x fd' hr => ?_, h.written⟩
    · obtain ⟨howner, hconn⟩ := h.bound x handle hc hv
      refine ⟨?_, hconn⟩
      have hne : handle.fd ≠ fd := by
        intro heq
        rw [heq, hfree.1] at howner
        cases howner
      exact (Function.update_of_ne hne _ _).trans howner
    · obtain ⟨htag, howner⟩ := h.calls x handle entry hcall
      exact ⟨htag, fun o ho => howner o (hother (hunused.1 x handle entry hcall) ho)⟩
    · by_cases hne : fd' = fd
      · subst hne
        refine (hunused.2 ⟨wb, hwb, ?_⟩).elim
        by_contra hempty
        rw [not_or, not_not, not_not] at hempty
        rw [hempty.1, hempty.2] at he
        exact absurd he List.not_mem_nil
      · exact h.queued fd' wb hwb e he o (hother hne ho)
    · obtain ⟨hreader, hopen, hnew⟩ := h.routed reader x fd' hr
      refine ⟨hreader, ?_, hnew⟩
      have hne : fd' ≠ fd := fun heq => hopen (heq ▸ hfree.1)
      exact fun hnone => hopen ((Function.update_of_ne hne _ _).symm.trans hnone)
  next => exact h

/-- A closed descriptor belongs to no connection. -/
theorem mem_update_none {fd fd' o : Nat} (h : o ∈ Function.update s.owner fd none fd') :
    fd' ≠ fd ∧ o ∈ s.owner fd' := by
  by_cases heq : fd' = fd
  · subst heq
    rw [Function.update_self] at h
    cases h
  · rw [Function.update_of_ne heq] at h
    exact ⟨heq, h⟩

theorem Kept.reject (h : Kept readers s) {fd : Nat} (hr : s.routing (fd % readers) = none) :
    Kept readers (s.reject fd) := by
  unfold Descriptors.reject
  split
  next hnew =>
    refine ⟨fun x handle hc hv => ?_, fun x handle entry hcall => ?_, fun fd' wb hwb e he o ho => ?_,
      fun reader x fd' hrouting => ?_, h.written⟩
    · obtain ⟨howner, hconn⟩ := h.bound x handle hc hv
      have hne : handle.fd ≠ fd := by
        intro heq
        rw [heq, hnew.2] at hconn
        cases hconn
      exact ⟨(Function.update_of_ne hne _ _).trans howner, hconn⟩
    · obtain ⟨htag, howner⟩ := h.calls x handle entry hcall
      exact ⟨htag, fun o ho => howner o (mem_update_none ho).2⟩
    · exact h.queued fd' wb hwb e he o (mem_update_none ho).2
    · obtain ⟨hreader, hopen, hunbound⟩ := h.routed reader x fd' hrouting
      refine ⟨hreader, ?_, hunbound⟩
      have hne : fd' ≠ fd := by
        intro heq
        rw [heq] at hreader
        rw [hreader, hrouting] at hr
        cases hr
      exact fun hnone => hopen ((Function.update_of_ne hne _ _).symm.trans hnone)
  next => exact h

theorem Kept.setBuffer (h : Kept readers s) (fd : Nat) (buffer : Option (WriteBuffer Nat))
    (hbuffer : ∀ wb ∈ buffer, ∀ e ∈ wb.drain ++ wb.queue, ∀ o ∈ s.owner fd, e.callback = some o) :
    Kept readers (s.setBuffer fd buffer) := by
  refine ⟨h.bound, h.calls, fun fd' wb hwb e he o ho => ?_, h.routed, h.written⟩
  change Function.update s.buffers fd buffer fd' = _ at hwb
  by_cases heq : fd' = fd
  · subst heq
    rw [Function.update_self] at hwb
    exact hbuffer wb hwb e he o ho
  · rw [Function.update_of_ne heq] at hwb
    exact h.queued fd' wb hwb e he o ho

variable [DecidableEq σ]

/-- The handler that a closed descriptor was bound to is no longer valid. -/
theorem handler_closeDescriptor {fd : Nat} {session : σ}
    (hvalid : ((s.closeDescriptor fd).handler session).valid = true) :
    (s.closeDescriptor fd).handler session = s.handler session ∧
      s.connections fd ≠ some session := by
  unfold closeDescriptor at hvalid ⊢
  dsimp only at hvalid ⊢
  cases hconn : s.connections fd with
  | none => exact ⟨rfl, nofun⟩
  | some bound =>
      rw [hconn] at hvalid
      dsimp only at hvalid ⊢
      by_cases heq : session = bound
      · subst heq
        rw [Function.update_self] at hvalid
        cases hvalid
      · exact ⟨Function.update_of_ne heq _ _, fun hsome => heq (Option.some.inj hsome).symm⟩

theorem Kept.closeDescriptor (h : Kept readers s) {fd : Nat}
    (hr : s.routing (fd % readers) = none) : Kept readers (s.closeDescriptor fd) := by
  refine ⟨fun x handle hc hv => ?_, fun x handle entry hcall => ?_, fun fd' wb hwb e he o ho => ?_,
    fun reader x fd' hrouting => ?_, h.written⟩
  · obtain ⟨hsame, hunbound⟩ := handler_closeDescriptor hv
    rw [hsame] at hc hv
    obtain ⟨howner, hconn⟩ := h.bound x handle hc hv
    have hne : handle.fd ≠ fd := fun heq => hunbound (heq ▸ hconn)
    exact ⟨(Function.update_of_ne hne _ _).trans howner, (Function.update_of_ne hne _ _).trans hconn⟩
  · obtain ⟨htag, howner⟩ := h.calls x handle entry hcall
    exact ⟨htag, fun o ho => howner o (mem_update_none ho).2⟩
  · exact h.queued fd' wb hwb e he o (mem_update_none ho).2
  · obtain ⟨hreader, hopen, hunbound⟩ := h.routed reader x fd' hrouting
    have hne : fd' ≠ fd := by
      intro heq
      rw [heq] at hreader
      rw [hreader, show s.routing reader = some (x, fd') from hrouting] at hr
      cases hr
    refine ⟨hreader, ?_, (Function.update_of_ne hne _ _).trans hunbound⟩
    exact fun hnone => hopen ((Function.update_of_ne hne _ _).symm.trans hnone)

/-- A new connection is bound to a session that no call is under way for. -/
theorem Kept.addConnection (h : Kept readers s) {session : σ} {fd : Nat} (hnew : s.IsNew fd)
    (hrouting : ∀ reader x fd', s.routing reader = some (x, fd') → fd' ≠ fd) :
    Kept readers (s.addConnection session fd) := by
  unfold Descriptors.addConnection
  cases howner : s.owner fd with
  | none => exact h
  | some connection =>
      refine ⟨fun x handle hc hv => ?_, h.calls, h.queued, fun reader x fd' hr => ?_, h.written⟩
      · by_cases heq : x = session
        · subst heq
          dsimp only at hc
          rw [Function.update_self] at hc
          cases hc
          exact ⟨howner, Function.update_self _ _ _⟩
        · dsimp only at hc hv
          rw [Function.update_of_ne heq] at hc hv
          obtain ⟨howner', hconn⟩ := h.bound x handle hc hv
          have hne : handle.fd ≠ fd := by
            intro heq
            rw [heq, hnew.2] at hconn
            cases hconn
          exact ⟨howner', (Function.update_of_ne hne _ _).trans hconn⟩
      · obtain ⟨hreader, hopen, hunbound⟩ := h.routed reader x fd' hr
        exact ⟨hreader, hopen, (Function.update_of_ne (hrouting reader x fd' hr) _ _).trans hunbound⟩

/-- A call that sends nothing, or what belongs to its connection. -/
theorem Kept.setCall (h : Kept readers s) (session : σ) (call : Option HandlerCall)
    (hcall : ∀ handle entry, call.bind HandlerCall.sending = some (handle, entry) →
      entry.callback = some handle.connection ∧ ∀ o ∈ s.owner handle.fd, o = handle.connection) :
    Kept readers (s.setCall session call) := by
  refine ⟨h.bound, fun x handle entry hx => ?_, h.queued, h.routed, h.written⟩
  change (Function.update s.call session call x).bind HandlerCall.sending = _ at hx
  by_cases heq : x = session
  · subst heq
    rw [Function.update_self] at hx
    exact hcall handle entry hx
  · rw [Function.update_of_ne heq] at hx
    exact h.calls x handle entry hx

/-- A handler that forgets its connection or keeps the one it has. -/
theorem Kept.setHandler (h : Kept readers s) (session : σ) (handler : HandlerState)
    (hhandler : ∀ handle, handler.connection = some handle → handler.valid = true →
      (s.handler session).connection = some handle ∧ (s.handler session).valid = true) :
    Kept readers (s.setHandler session handler) := by
  refine ⟨fun x handle hc hv => ?_, h.calls, h.queued, h.routed, h.written⟩
  change (Function.update s.handler session handler x).connection = _ at hc
  change (Function.update s.handler session handler x).valid = _ at hv
  by_cases heq : x = session
  · subst heq
    rw [Function.update_self] at hc hv
    obtain ⟨hc, hv⟩ := hhandler handle hc hv
    exact h.bound x handle hc hv
  · rw [Function.update_of_ne heq] at hc hv
    exact h.bound x handle hc hv

end

/-! ## What a flush writes -/

theorem mem_writtenBytes {owner : Nat} {drain : List (WriteEntry Nat)} {offset : Nat}
    {accepted : Bytes} {w : WrittenByte} (h : w ∈ writtenBytes owner drain offset accepted) :
    w.owner = owner ∧ ∃ e ∈ drain, w.sentOn = e.callback := by
  unfold writtenBytes at h
  rw [← List.map_uncurry_zip_eq_zipWith, List.mem_map] at h
  obtain ⟨⟨tag, byte⟩, hmem, rfl⟩ := h
  have htag := List.mem_of_mem_drop (List.of_mem_zip hmem).1
  obtain ⟨e, he, htag⟩ := List.mem_flatMap.mp htag
  exact ⟨rfl, e, he, (List.mem_replicate.mp htag).2⟩

theorem mem_drainTLS {e : WriteEntry Nat} : ∀ (rooms : List Nat) (drain : List (WriteEntry Nat))
    (offset : Nat), e ∈ (WriteBuffer.drainTLS rooms drain offset).drain → e ∈ drain
  | [], drain, offset, h => h
  | _ :: _, [], offset, h => h
  | room :: rooms, entry :: drain, offset, h => by
      rw [WriteBuffer.drainTLS] at h
      dsimp only at h
      split at h
      next => exact h
      next =>
        split at h
        next => exact List.mem_cons_of_mem _ (mem_drainTLS rooms drain 0 h)
        next => exact h

theorem mem_account {e : WriteEntry Nat} : ∀ (drain : List (WriteEntry Nat)) (offset sent : Nat),
    e ∈ (WriteBuffer.account drain offset sent).1 → e ∈ drain
  | [], _, _, h => h
  | entry :: drain, offset, sent, h => by
      rw [WriteBuffer.account] at h
      dsimp only at h
      split at h
      next => exact h
      next =>
        split at h
        next => exact List.mem_cons_of_mem _ (mem_account drain 0 _ h)
        next => exact h

theorem mem_flushDrain {wb : WriteBuffer Nat} {tls : Bool} {rooms : List Nat}
    {e : WriteEntry Nat} (h : e ∈ (wb.flushDrain tls rooms).drain) : e ∈ wb.drain := by
  unfold WriteBuffer.flushDrain at h
  split at h
  next => exact mem_drainTLS rooms wb.drain wb.offset h
  next =>
    rw [WriteBuffer.drainVectored] at h
    dsimp only at h
    split at h
    next => exact h
    next => exact mem_account wb.drain wb.offset _ h

theorem mem_swap {wb : WriteBuffer Nat} {e : WriteEntry Nat}
    (h : e ∈ wb.swap.drain ++ wb.swap.queue) : e ∈ wb.drain ++ wb.queue := by
  unfold WriteBuffer.swap at h
  split at h
  next hswap => exact List.mem_append.mpr (List.mem_append.mp h).symm
  next => exact h

/-! ## Steps -/

section

variable {readers : Nat} {s : Descriptors σ}

/-- Bytes of entries that belong to the connection of the descriptor. -/
theorem Kept.write (h : Kept readers s) {owner : Nat} {drain : List (WriteEntry Nat)}
    (hdrain : ∀ e ∈ drain, e.callback = some owner) (offset : Nat) (accepted : Bytes) :
    Kept readers { s with written := s.written ++ writtenBytes owner drain offset accepted } := by
  refine ⟨h.bound, h.calls, h.queued, h.routed, fun w hw => ?_⟩
  rcases List.mem_append.mp hw with hw | hw
  · exact h.written w hw
  · obtain ⟨howner, e, he, hsent⟩ := mem_writtenBytes hw
    rw [hsent, hdrain e he, howner]

theorem Kept.flushWrite (h : Kept readers s) (tls : Nat → Bool) (fd : Nat) (rooms : List Nat) :
    Kept readers (s.flushWrite tls fd rooms) := by
  unfold Descriptors.flushWrite
  cases hbuffer : s.buffers fd with
  | none => exact h
  | some wb =>
      have hswap : ∀ e ∈ wb.swap.drain ++ wb.swap.queue, ∀ o ∈ s.owner fd, e.callback = some o :=
        fun e he => h.queued fd wb hbuffer e (mem_swap he)
      dsimp only
      cases howner : s.owner fd with
      | none =>
          refine h.setBuffer fd _ fun _ _ _ _ o ho => ?_
          rw [howner] at ho
          cases ho
      | some owner =>
          have hdrain : ∀ e ∈ wb.swap.drain, e.callback = some owner := fun e he =>
            hswap e (List.mem_append_left _ he) owner howner
          refine Kept.write (h.setBuffer fd _ ?_) hdrain _ _
          rintro wb' hwb' e he o ho
          cases hwb'
          refine hswap e ?_ o ho
          rcases List.mem_append.mp he with he | he
          · exact List.mem_append_left _ (mem_flushDrain he)
          · exact List.mem_append_right _ he

theorem Kept.queueWrite (h : Kept readers s) {fd : Nat} {entry : WriteEntry Nat}
    (hentry : ∀ o ∈ s.owner fd, entry.callback = some o) : Kept readers (s.queueWrite fd entry) := by
  refine h.setBuffer fd _ ?_
  rintro wb hwb e he o ho
  cases hwb
  rw [← List.append_assoc] at he
  rcases List.mem_append.mp he with he | he
  · cases hbuffer : s.buffers fd with
    | none =>
        rw [hbuffer] at he
        exact absurd he List.not_mem_nil
    | some wb =>
        rw [hbuffer] at he
        exact h.queued fd wb hbuffer e he o ho
  · rw [List.mem_singleton.mp he]
    exact hentry o ho

/-- The reader remembers the session that it has checked. -/
theorem Kept.route (h : Kept readers s) {session : σ} {fd : Nat} (hnew : s.IsNew fd) :
    Kept readers
      { s with routing := Function.update s.routing (fd % readers) (some (session, fd)) } := by
  refine ⟨h.bound, h.calls, h.queued, fun reader x fd' hr => ?_, h.written⟩
  dsimp only at hr
  by_cases heq : reader = fd % readers
  · subst heq
    rw [Function.update_self] at hr
    cases hr
    exact ⟨rfl, hnew⟩
  · rw [Function.update_of_ne heq] at hr
    exact h.routed reader x fd' hr

/-- What `send` has in hand belongs to its connection. -/
theorem Kept.trying (h : Kept readers s) {session : σ} {handle : ConnectionHandle}
    {entry : WriteEntry Nat} (hcall : s.call session = some (.trying handle entry)) :
    entry.callback = some handle.connection ∧ ∀ o ∈ s.owner handle.fd, o = handle.connection :=
  h.calls session handle entry (by rw [hcall]; rfl)

variable [DecidableEq σ]

/-- The reader binds the connection, which no other reader has checked. -/
theorem Kept.bind (h : Kept readers s) {reader : Nat} {session : σ} {fd : Nat}
    (hr : s.routing reader = some (session, fd)) :
    Kept readers
      ({ s with routing := Function.update s.routing reader none }.addConnection session fd) := by
  obtain ⟨hreader, hnew⟩ := h.routed reader session fd hr
  have hrest : ∀ {reader' x fd'},
      Function.update s.routing reader none reader' = some (x, fd') →
      reader' ≠ reader ∧ s.routing reader' = some (x, fd') := by
    intro reader' x fd' hr'
    by_cases heq : reader' = reader
    · rw [heq, Function.update_self] at hr'
      cases hr'
    · rw [Function.update_of_ne heq] at hr'
      exact ⟨heq, hr'⟩
  have hreleased : Kept readers { s with routing := Function.update s.routing reader none } :=
    ⟨h.bound, h.calls, h.queued, fun _ _ _ hr' => h.routed _ _ _ (hrest hr').2, h.written⟩
  refine hreleased.addConnection hnew fun reader' x fd' hr' heq => ?_
  obtain ⟨hne, hr'⟩ := hrest hr'
  exact hne ((h.routed reader' x fd' hr').1.symm.trans (heq ▸ hreader))

theorem Kept.sendInline (h : Kept readers s) {session : σ} {handle : ConnectionHandle}
    {entry : WriteEntry Nat} (hcall : s.call session = some (.trying handle entry)) {owner : Nat}
    (howner : s.owner handle.fd = some owner) (accepted : Bytes) {next : Option HandlerCall}
    (hnext : ∀ c ∈ next, ∃ rest, c = .queueing handle { entry with msg := rest }) :
    Kept readers ({ s with
      written := s.written ++ writtenBytes owner [entry] 0 accepted }.setCall session next) := by
  obtain ⟨htag, hsame⟩ := h.trying hcall
  have hentry : ∀ e ∈ [entry], e.callback = some owner := by
    intro e he
    rw [List.mem_singleton.mp he, htag, hsame owner howner]
  refine (h.write hentry 0 accepted).setCall session next fun handle' entry' hsending => ?_
  obtain ⟨c, hc, hsending⟩ := Option.bind_eq_some_iff.mp hsending
  obtain ⟨rest, rfl⟩ := hnext c hc
  cases hsending
  exact ⟨htag, hsame⟩

theorem Kept.step (h : Kept readers s) (tls : Nat → Bool) {i : DescriptorStep σ}
    (hi : s.Separate i) : Kept readers (step readers tls i s) := by
  have hstep : Stepped readers tls s i (Descriptors.step readers tls i s) := stepped_step i
  generalize Descriptors.step readers tls i s = t at hstep ⊢
  cases hstep with
  | wait => exact h
  | accept => exact h.accept hi
  | reject hr => exact h.reject hr
  | refuse hr => exact h.reject hr
  | route hnew _ => exact h.route hnew
  | bind hr _ => exact h.bind hr
  | @connect session fd hr hnew _ =>
      refine h.addConnection hnew fun reader x fd' hrouting heq => ?_
      rw [heq] at hrouting
      have hreader := (h.routed reader x fd hrouting).1
      rw [← hreader, hr] at hrouting
      cases hrouting
  | @send session _ handle _ hc hv =>
      refine h.setCall session _ fun handle' entry hcall => ?_
      cases hcall
      refine ⟨rfl, fun o ho => ?_⟩
      rw [(h.bound session handle hc hv).1] at ho
      exact (Option.some.inj ho).symm
  | @lost session => exact h.setHandler session _ fun _ hnone _ => by cases hnone
  | @pass session _ _ handle entry hcall =>
      refine h.setCall session _ fun handle' entry' hcall' => ?_
      cases hcall'
      exact h.trying hcall
  | sendInline hcall howner accepted hnext => exact h.sendInline hcall howner accepted hnext
  | @queueWrite session handle entry hcall =>
      obtain ⟨htag, howner⟩ := h.calls session handle entry (by rw [hcall]; rfl)
      have hqueued : Kept readers (s.queueWrite handle.fd entry) :=
        h.queueWrite fun o ho => by rw [htag, howner o ho]
      exact hqueued.setCall session none fun _ _ hnone => by cases hnone
  | flush => exact h.flushWrite tls _ _
  | close hr =>
      have hclosed := h.closeDescriptor hr
      exact ⟨hclosed.bound, hclosed.calls, hclosed.queued, hclosed.routed, hclosed.written⟩
  | @erase i fd =>
      have herased := h.setBuffer fd none fun _ hnone => by cases hnone
      exact ⟨herased.bound, herased.calls, herased.queued, herased.routed, herased.written⟩
  | @disconnect session handle _ hc hv =>
      have hquiet : Kept readers (s.setHandler session ⟨some handle, true, false⟩) :=
        h.setHandler session _ fun _ hc' _ => ⟨hc.trans hc', hv⟩
      exact hquiet.setCall session _ fun _ _ hnone => by cases hnone
  | @forget session => exact h.setHandler session _ fun _ hnone _ => by cases hnone
  | @closeHandle session _ _ hr =>
      exact (h.closeDescriptor hr).setCall session _ fun _ _ hnone => by cases hnone
  | @eraseHandle session handle _ =>
      have herased := h.setBuffer handle.fd none fun _ hnone => by cases hnone
      have hforgot := herased.setHandler session { s.handler session with connection := none }
        fun _ hnone _ => by cases hnone
      exact hforgot.setCall session none fun _ _ hnone => by cases hnone

end

/-- In every run in which a number is given again only when nothing that was sent to it is
left, every byte goes to the connection that its message was sent on. -/
theorem run_private [DecidableEq σ] {readers : Nat} {tls : Nat → Bool} {s : Descriptors σ}
    (h : Reached new (step readers tls) Separate s) : s.Private := by
  have hkept : Kept readers s :=
    h.invariant (P := Kept readers) (kept_new readers) fun s i hi hs => hs.step tls hi
  exact hkept.written

/-- A connection is accepted, bound and written to, and closed. -/
def testSteps : List (DescriptorStep Unit) :=
  [.accept 0, .route () 0, .bind 0, .send () (ascii "8=FIX"), .trySend () false 10, .close 0, .erase 0]

theorem unused_of_idle {s : Descriptors Unit} {fd : Nat} (hcall : (s.call ()).isNone = true)
    (hpending : ¬s.Pending fd) : s.Unused fd := by
  refine ⟨fun session handle entry hsending => ?_, hpending⟩
  rw [Option.isNone_iff_eq_none.mp hcall] at hsending
  cases hsending

/-- The number is given again after that. -/
theorem run_private_test :
    (runOf (step 1 fun _ => false) new (testSteps ++ [.accept 0])).Private := by
  have hallowed : AllowedAlong (step 1 fun _ => false) Separate (new : Descriptors Unit)
      (testSteps ++ [.accept 0]) :=
    ⟨unused_of_idle rfl (by decide), True.intro, True.intro, True.intro, True.intro, True.intro,
      True.intro, unused_of_idle (by decide) (by decide), True.intro⟩
  exact run_private (Reached.init.along hallowed)

/-- The connection is lost while a message is in hand, and its number is given again. -/
def reusedSteps : List (DescriptorStep Unit) :=
  [.accept 0, .route () 0, .bind 0, .send () (ascii "8=FIX"), .close 0, .accept 0,
    .trySend () false 10]

theorem not_run_private : ¬∀ (σ : Type) (_ : DecidableEq σ) (readers : Nat) (tls : Nat → Bool)
    (s : Descriptors σ), Reached new (step readers tls) (fun _ _ => True) s → s.Private := by
  intro hall
  have hreached : Reached (new : Descriptors Unit) (step 1 fun _ => false) (fun _ _ => True)
      (runOf (step 1 fun _ => false) new reusedSteps) :=
    Reached.init.runOf (fun _ _ => True.intro) reusedSteps
  have hprivate := hall Unit inferInstance 1 (fun _ => false) _ hreached
  have hwritten : ((runOf (step 1 fun _ => false) new reusedSteps :
      Descriptors Unit).written.head?.map fun w => (w.owner, w.sentOn)) = some (1, some 0) := by
    decide
  obtain ⟨w, hw, htags⟩ := Option.map_eq_some_iff.mp hwritten
  obtain ⟨howner, hsent⟩ := Prod.mk.inj htags
  have hsame := hprivate w (List.mem_of_mem_head? hw)
  rw [howner, hsent] at hsame
  exact absurd hsame (by decide)

end Descriptors

end OpenFix
