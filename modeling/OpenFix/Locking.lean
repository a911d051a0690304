import Mathlib.Logic.Function.Basic
import OpenFix.Lib.AssocList
import OpenFix.Lib.Mutex
import OpenFix.Outbound

/-!
# The locks of the I/O layer

A `NetworkHandler` and the write buffers of a `ReaderThread` have a mutex each
that a thread must not take twice.  The maps of a reader have one that it may.

What a message was sent for runs as a callback: after the message went out inline,
when all mutexes are released again, or in a flush, under the mutex of the write
buffers.  Here a callback is the list of the calls of `send` and `disconnect` that
it makes.  It may be long, and the messages that it sends have callbacks again.
The one of `sendLogout` calls `Session::terminate`, which disconnects.

One thread is followed through an operation.  Of the others it sees only that a
`try_lock` fails.
-/

namespace OpenFix

open Mutex

namespace Locking

/-- A mutex of the I/O layer. -/
inductive Lock (σ : Type) where
  /-- `NetworkHandler::m_mutex`. -/
  | handler (session : σ)
  /-- `ReaderThread::m_mutex`. -/
  | reader (r : Nat)
  /-- `ReaderThread::m_writeMutex`. -/
  | write (r : Nat)
deriving DecidableEq

/-- Only the mutex of a reader is a `recursive_mutex`. -/
def Lock.reentrant {σ : Type} : Lock σ → Bool
  | .reader _ => true
  | .handler _ | .write _ => false

/-- What a callback does. -/
inductive Action (σ : Type) where
  /-- `NetworkHandler::disconnect`. -/
  | disconnect (session : σ)
  /-- `NetworkHandler::send`.  Another thread may have the lock that it tries to take, and the
  socket has this much room. -/
  | send (session : σ) (msg : Bytes) (locked : Bool) (room : Nat) (callback : List (Action σ))

/-- The callback of `sendLogout`. -/
def terminate {σ : Type} (session : σ) : List (Action σ) := [.disconnect session]

/-- `ConnectionHandle`. -/
structure Handle where
  reader : Nat
  fd : Nat
  tls : Bool
deriving DecidableEq

/-- `NetworkHandler`. -/
structure Handler where
  connection : Option Handle
  valid : Bool
  connected : Bool
deriving DecidableEq

/-- `ReaderThread`. -/
structure Reader (σ : Type) where
  /-- `m_buffer`. -/
  texts : List (Nat × Bytes)
  connections : List (Nat × σ)
  unknownConnections : List Nat
  writeBuffers : List (Nat × WriteBuffer (List (Action σ)))

/-- The state of the I/O layer. -/
structure Layer (σ : Type) where
  handler : σ → Handler
  reader : Nat → Reader σ
  /-- `Network::hasTLS`. -/
  tls : Nat → Bool

/-- How a socket answers the writes of a flush: with this much room each time, and the last
write may have failed for another reason than a lack of room. -/
structure Writes where
  rooms : List Nat
  fails : Bool

/-! ## What is done under a mutex -/

namespace Layer

variable {σ : Type}

def setHandler [DecidableEq σ] (session : σ) (f : Handler → Handler) (s : Layer σ) : Layer σ :=
  { s with handler := Function.update s.handler session (f (s.handler session)) }

def setReader (r : Nat) (f : Reader σ → Reader σ) (s : Layer σ) : Layer σ :=
  { s with reader := Function.update s.reader r (f (s.reader r)) }

def setWriteBuffer (r fd : Nat) (wb : WriteBuffer (List (Action σ))) (s : Layer σ) : Layer σ :=
  s.setReader r fun reader =>
    { reader with writeBuffers := AssocList.set fd wb reader.writeBuffers }

/-- `NetworkHandler::invalidate`. -/
def invalidate [DecidableEq σ] (session : σ) (s : Layer σ) : Layer σ :=
  s.setHandler session fun handler => { handler with valid := false, connected := false }

/-- `ReaderThread::disconnect` under the mutex of the reader. -/
def close [DecidableEq σ] (r fd : Nat) (s : Layer σ) : Layer σ :=
  let s := { s with tls := Function.update s.tls fd false }
  let s := s.setReader r fun reader => { reader with texts := AssocList.erase fd reader.texts }
  match AssocList.find? fd (s.reader r).connections with
  | some session => (s.invalidate session).setReader r fun reader =>
      { reader with connections := AssocList.erase fd reader.connections }
  | none => s.setReader r fun reader =>
      { reader with unknownConnections := reader.unknownConnections.erase fd }

/-- `ReaderThread::disconnect` under the mutex of the write buffers. -/
def eraseWriteBuffer (r fd : Nat) (s : Layer σ) : Layer σ :=
  s.setReader r fun reader =>
    { reader with writeBuffers := AssocList.erase fd reader.writeBuffers }

/-- Something is queued for the descriptor. -/
def pending (r fd : Nat) (s : Layer σ) : Bool :=
  match AssocList.find? fd (s.reader r).writeBuffers with
  | some wb => !wb.queue.isEmpty || !wb.drain.isEmpty
  | none => false

/-- `ReaderThread::trySend` under the lock: whether the message went out, and what is left
of it otherwise. -/
def trySend (r fd : Nat) (msg : Bytes) (room : Nat) (s : Layer σ) : Bool × Bytes :=
  if s.pending r fd then (false, msg)
  else
    let ret := min room msg.length
    if ret = msg.length then (true, msg) else (false, msg.drop ret)

/-- `ReaderThread::queueWrite` under the lock. -/
def queueWrite (r fd : Nat) (entry : WriteEntry (List (Action σ))) (s : Layer σ) : Layer σ :=
  let wb := (AssocList.find? fd (s.reader r).writeBuffers).getD ⟨[], [], 0⟩
  s.setWriteBuffer r fd { wb with queue := wb.queue ++ [entry] }

/-- What `ReaderThread::flushWrite` writes: the callbacks that it runs, and what it leaves. -/
def flush (r fd : Nat) (writes : Writes) (s : Layer σ) : List (Action σ) × Layer σ :=
  match AssocList.find? fd (s.reader r).writeBuffers with
  | none => ([], s)
  | some wb =>
      let wb := wb.swap
      let d := wb.flushDrain (s.tls fd) writes.rooms
      let left : WriteBuffer (List (Action σ)) :=
        if writes.fails ∧ d.drain ≠ [] then ⟨[], [], d.offset⟩ else ⟨wb.queue, d.drain, d.offset⟩
      (d.fired.flatten, s.setWriteBuffer r fd left)

end Layer

/-! ## The operations -/

section

variable {σ : Type} [DecidableEq σ]

namespace ReaderThread

def disconnect (r fd : Nat) : LockM (Lock σ) (Layer σ) PUnit := do
  withLock Lock.reentrant (.reader r) (update (Layer.close r fd))
  withLock Lock.reentrant (.write r) (update (Layer.eraseWriteBuffer r fd))

/-- Whether the message went out, and what is left of it otherwise. -/
def trySend (r fd : Nat) (msg : Bytes) (locked : Bool) (room : Nat) :
    LockM (Lock σ) (Layer σ) (Bool × Bytes) :=
  if locked then pure (false, msg)
  else withLock Lock.reentrant (.write r) do
    let s ← read
    pure (s.trySend r fd msg room)

def queueWrite (r fd : Nat) (entry : WriteEntry (List (Action σ))) :
    LockM (Lock σ) (Layer σ) PUnit :=
  withLock Lock.reentrant (.write r) (update (Layer.queueWrite r fd entry))

end ReaderThread

/-- `ConnectionHandle::trySendInline`. -/
def Handle.trySendInline (handle : Handle) (msg : Bytes) (locked : Bool) (room : Nat) :
    LockM (Lock σ) (Layer σ) (Bool × Bytes) :=
  if handle.tls then pure (false, msg)
  else ReaderThread.trySend handle.reader handle.fd msg locked room

namespace NetworkHandler

/-- What `send` does under the mutex.  It tells whether the callback is left for after that. -/
def sendLocked (session : σ) (msg : Bytes) (locked : Bool) (room : Nat)
    (callback : List (Action σ)) : LockM (Lock σ) (Layer σ) Bool :=
  withLock Lock.reentrant (.handler session) do
    let s ← read
    match (s.handler session).connection with
    | none => pure false
    | some handle =>
        if (s.handler session).valid then do
          let (sent, rest) ← handle.trySendInline msg locked room
          if sent then pure true
          else do
            ReaderThread.queueWrite handle.reader handle.fd ⟨rest, some callback⟩
            pure false
        else do
          update (Layer.setHandler session fun handler => { handler with connection := none })
          pure false

def disconnect (session : σ) : LockM (Lock σ) (Layer σ) PUnit :=
  withLock Lock.reentrant (.handler session) do
    update (Layer.setHandler session fun handler => { handler with connected := false })
    let s ← read
    match (s.handler session).connection with
    | none => pure ⟨⟩
    | some handle => do
        if (s.handler session).valid then ReaderThread.disconnect handle.reader handle.fd
        update (Layer.setHandler session fun handler => { handler with connection := none })

end NetworkHandler

mutual

/-- A call of a callback. -/
def Action.run : Action σ → LockM (Lock σ) (Layer σ) PUnit
  | .disconnect session => NetworkHandler.disconnect session
  | .send session msg locked room callback => do
      if ← NetworkHandler.sendLocked session msg locked room callback then runActions callback

/-- All calls of a callback, in order. -/
def runActions : List (Action σ) → LockM (Lock σ) (Layer σ) PUnit
  | [] => pure ⟨⟩
  | action :: actions => do
      action.run
      runActions actions

end

namespace ReaderThread

/-- The callbacks run before the flush is over.  What they do next to it makes no difference
for it: they would need the mutex to look at the buffer. -/
def flushWrite (r fd : Nat) (writes : Writes) : LockM (Lock σ) (Layer σ) PUnit := do
  let s ← read
  update fun _ => (s.flush r fd writes).2
  runActions (s.flush r fd writes).1

def flushAll (r : Nat) (writes : Nat → Writes) : List Nat → LockM (Lock σ) (Layer σ) PUnit
  | [] => pure ⟨⟩
  | fd :: fds => do
      flushWrite r fd (writes fd)
      flushAll r writes fds

def flushWrites (r : Nat) (writes : Nat → Writes) : LockM (Lock σ) (Layer σ) PUnit :=
  withLock Lock.reentrant (.write r) do
    let s ← read
    flushAll r writes (AssocList.keys (s.reader r).writeBuffers)

/-- The branch of `process` for a descriptor that can be written to. -/
def writable (r fd : Nat) (writes : Writes) : LockM (Lock σ) (Layer σ) PUnit :=
  withLock Lock.reentrant (.write r) (flushWrite r fd writes)

end ReaderThread

/-- An operation of the I/O layer. -/
inductive Operation (σ : Type) where
  /-- `NetworkHandler::send` or `NetworkHandler::disconnect`. -/
  | call (action : Action σ)
  /-- `ReaderThread::disconnect`. -/
  | disconnect (r fd : Nat)
  | flushWrites (r : Nat) (writes : Nat → Writes)
  | writable (r fd : Nat) (writes : Writes)

def Operation.run : Operation σ → LockM (Lock σ) (Layer σ) PUnit
  | .call action => action.run
  | .disconnect r fd => ReaderThread.disconnect r fd
  | .flushWrites r writes => ReaderThread.flushWrites r writes
  | .writable r fd writes => ReaderThread.writable r fd writes

/-! ## The operations without their locks -/

namespace Layer

def sendLocked (session : σ) (msg : Bytes) (locked : Bool) (room : Nat)
    (callback : List (Action σ)) (s : Layer σ) : Bool × Layer σ :=
  match (s.handler session).connection with
  | none => (false, s)
  | some handle =>
      if (s.handler session).valid then
        let r := if handle.tls || locked then (false, msg)
          else s.trySend handle.reader handle.fd msg room
        if r.1 then (true, s)
        else (false, s.queueWrite handle.reader handle.fd ⟨r.2, some callback⟩)
      else (false, s.setHandler session fun handler => { handler with connection := none })

def disconnect (session : σ) (s : Layer σ) : Layer σ :=
  let s := s.setHandler session fun handler => { handler with connected := false }
  match (s.handler session).connection with
  | none => s
  | some handle =>
      let s := if (s.handler session).valid then
          (s.close handle.reader handle.fd).eraseWriteBuffer handle.reader handle.fd
        else s
      s.setHandler session fun handler => { handler with connection := none }

end Layer

mutual

/-- What a call does to the state. -/
def Action.effect : Action σ → Layer σ → Layer σ
  | .disconnect session, s => s.disconnect session
  | .send session msg locked room callback, s =>
      let r := s.sendLocked session msg locked room callback
      if r.1 then effects callback r.2 else r.2

def effects : List (Action σ) → Layer σ → Layer σ
  | [], s => s
  | action :: actions, s => effects actions (action.effect s)

end

/-! ## Where a thread waits for itself -/

/-- The session has a valid connection on the reader whose write buffers the thread has. -/
def blocked (held : Option Nat) (session : σ) (s : Layer σ) : Bool :=
  match (s.handler session).connection with
  | none => false
  | some handle => (s.handler session).valid && held == some handle.reader

mutual

/-- A call concerns a session whose connection is valid, when its turn comes, on the reader
whose write buffers the thread has. -/
def Action.blocks (held : Option Nat) : Action σ → Layer σ → Bool
  | .disconnect session, s => blocked held session s
  | .send session msg locked room callback, s =>
      let r := s.sendLocked session msg locked room callback
      blocked held session s || r.1 && actionsBlock held callback r.2

def actionsBlock (held : Option Nat) : List (Action σ) → Layer σ → Bool
  | [], _ => false
  | action :: actions, s => action.blocks held s || actionsBlock held actions (action.effect s)

end

/-- The callbacks of a flush of these descriptors. -/
def flushesBlock (r : Nat) (writes : Nat → Writes) : List Nat → Layer σ → Bool
  | [], _ => false
  | fd :: fds, s =>
      let f := s.flush r fd (writes fd)
      actionsBlock (some r) f.1 f.2 || flushesBlock r writes fds (effects f.1 f.2)

/-- Only a flush has callbacks that run under the mutex of the write buffers. -/
def Operation.blocks : Operation σ → Layer σ → Bool
  | .call _, _ | .disconnect _ _, _ => false
  | .flushWrites r writes, s => flushesBlock r writes (AssocList.keys (s.reader r).writeBuffers) s
  | .writable r fd writes, s =>
      let f := s.flush r fd writes
      actionsBlock (some r) f.1 f.2

/-- The thread holds no mutex of a handler, and of the write buffers those of this reader. -/
structure Holds (t : Thread (Lock σ) (Layer σ)) (held : Option Nat) : Prop where
  handler : ∀ session, .handler session ∉ t.held
  write : ∀ r, .write r ∈ t.held ↔ held = some r

variable {t : Thread (Lock σ) (Layer σ)} {held : Option Nat}

/-- A change under the mutex of the write buffers. -/
theorem settles_write (r : Nat) (f : Layer σ → Layer σ) (t : Thread (Lock σ) (Layer σ)) :
    Settles (withLock Lock.reentrant (.write r) (update f)) t ⟨⟩ (t.set (f t.state))
      (.write r ∈ t.held) := by
  have h : Settles (withLock Lock.reentrant (.write r) (update f)) t ⟨⟩ (t.set (f t.state))
      (.write r ∈ t.held ∨ False) :=
    Settles.withLock_or rfl fun _ => settles_update f (t.push (.write r))
  exact h.congr (Iff.of_eq (or_false _))

theorem ReaderThread.settles_disconnect (r fd : Nat) (t : Thread (Lock σ) (Layer σ)) :
    Settles (ReaderThread.disconnect r fd) t ⟨⟩
      (t.set ((t.state.close r fd).eraseWriteBuffer r fd)) (.write r ∈ t.held) := by
  have hclose : Settles (withLock Lock.reentrant (.reader r) (update (Layer.close r fd))) t ⟨⟩
      (t.set (t.state.close r fd)) False :=
    Settles.withLock (settles_update (Layer.close r fd) (t.push (.reader r))) fun _ => rfl
  exact hclose.then (settles_write r (Layer.eraseWriteBuffer r fd) (t.set (t.state.close r fd)))

theorem ReaderThread.settles_trySend (r fd : Nat) (msg : Bytes) (locked : Bool) (room : Nat)
    (t : Thread (Lock σ) (Layer σ)) :
    Settles (ReaderThread.trySend r fd msg locked room) t
      (if locked then (false, msg) else t.state.trySend r fd msg room) t
      (locked = false ∧ .write r ∈ t.held) := by
  rw [ReaderThread.trySend]
  cases locked with
  | true => exact (settles_pure _ t).congr (by simp)
  | false =>
      have hsection : Settles (do let s ← read; pure (s.trySend r fd msg room))
          (t.push (.write r)) (t.state.trySend r fd msg room) (t.push (.write r)) False :=
        Settles.then (f := fun s : Layer σ => pure (s.trySend r fd msg room))
          (settles_read _) (settles_pure _ _)
      exact (Settles.withLock_or rfl fun _ => hsection).congr (by simp)

theorem ReaderThread.settles_queueWrite (r fd : Nat) (entry : WriteEntry (List (Action σ)))
    (t : Thread (Lock σ) (Layer σ)) :
    Settles (ReaderThread.queueWrite r fd entry) t ⟨⟩ (t.set (t.state.queueWrite r fd entry))
      (.write r ∈ t.held) := settles_write r (Layer.queueWrite r fd entry) t

theorem Handle.settles_trySendInline (handle : Handle) (msg : Bytes) (locked : Bool) (room : Nat)
    (t : Thread (Lock σ) (Layer σ)) :
    Settles (handle.trySendInline msg locked room) t
      (if handle.tls || locked then (false, msg)
        else t.state.trySend handle.reader handle.fd msg room) t
      ((handle.tls || locked) = false ∧ .write handle.reader ∈ t.held) := by
  rw [Handle.trySendInline]
  cases handle.tls with
  | true => exact (settles_pure _ t).congr (by simp)
  | false => exact ReaderThread.settles_trySend handle.reader handle.fd msg locked room t

/-- `send` waits for itself where it would write to a connection or queue for it. -/
theorem NetworkHandler.settles_sendLocked (h : Holds t held) (session : σ) (msg : Bytes)
    (locked : Bool) (room : Nat) (callback : List (Action σ)) :
    Settles (NetworkHandler.sendLocked session msg locked room callback) t
      (t.state.sendLocked session msg locked room callback).1
      (t.set (t.state.sendLocked session msg locked room callback).2)
      (blocked held session t.state = true) := by
  refine Settles.withLock ?_ fun hmem => absurd hmem (h.handler session)
  refine (settles_read _).then ?_
  rw [Thread.push_state, Layer.sendLocked, blocked]
  cases (t.state.handler session).connection with
  | none => exact (settles_pure false _).congr (by simp)
  | some handle =>
      dsimp only
      cases (t.state.handler session).valid with
      | false => exact (settles_update _ _).then ((settles_pure false _).congr (by simp))
      | true =>
          rw [if_pos rfl, if_pos rfl, Bool.true_and]
          have hinline := handle.settles_trySendInline msg locked room (t.push (.handler session))
          have hmem : .write handle.reader ∈ (t.push (.handler session)).held ↔
              (held == some handle.reader) = true := by simp [h.write]
          rw [hmem, Thread.push_state] at hinline
          generalize hr : (if handle.tls || locked then (false, msg)
            else t.state.trySend handle.reader handle.fd msg room) = r at hinline
          obtain ⟨sent, rest⟩ := r
          cases sent with
          | true =>
              have hfree : (handle.tls || locked) = false := by
                cases htls : handle.tls || locked with
                | false => rfl
                | true =>
                    rw [htls, if_pos rfl] at hr
                    cases hr
              exact (hinline.bind fun _ => settles_pure true _).congr (by simp [hfree])
          | false =>
              have hqueue := ReaderThread.settles_queueWrite handle.reader handle.fd
                ⟨rest, some callback⟩ (t.push (.handler session))
              rw [hmem] at hqueue
              exact (hinline.bind fun _ => hqueue.bind fun _ => settles_pure false _).congr
                (by simp)

theorem NetworkHandler.settles_disconnect (h : Holds t held) (session : σ) :
    Settles (NetworkHandler.disconnect session) t ⟨⟩ (t.set (t.state.disconnect session))
      (blocked held session t.state = true) := by
  refine Settles.withLock ?_ fun hmem => absurd hmem (h.handler session)
  refine (settles_update _ _).then ((settles_read _).then ?_)
  rw [Layer.disconnect, blocked]
  have hsame : ∀ s : Layer σ, (s.setHandler session fun handler =>
      { handler with connected := false }).handler session =
        { s.handler session with connected := false } := by
    intro s
    simp [Layer.setHandler]
  simp only [Thread.set_state, Thread.push_state, hsame]
  cases hconnection : (t.state.handler session).connection with
  | none => exact (settles_pure _ _).congr (by simp)
  | some handle =>
      dsimp only
      cases (t.state.handler session).valid with
      | false => exact (settles_pure _ _).then ((settles_update _ _).congr (by simp))
      | true =>
          have hreader := ReaderThread.settles_disconnect handle.reader handle.fd
            ((t.set (t.state.setHandler session fun handler =>
              { handler with connected := false })).push (.handler session))
          have hmem : .write handle.reader ∈ ((t.set (t.state.setHandler session fun handler =>
              { handler with connected := false })).push (.handler session)).held ↔
                (held == some handle.reader) = true := by simp [h.write]
          rw [hmem] at hreader
          exact (hreader.bind fun _ => settles_update _ _).congr (by simp)

omit [DecidableEq σ] in
theorem Holds.set (h : Holds t held) (s : Layer σ) : Holds (t.set s) held := ⟨h.handler, h.write⟩

mutual

/-- A call waits for itself where it concerns a session that is blocked, and otherwise does
what it does without locks. -/
theorem Action.settles_run (action : Action σ) {t : Thread (Lock σ) (Layer σ)}
    (h : Holds t held) :
    Settles action.run t ⟨⟩ (t.set (action.effect t.state)) (action.blocks held t.state = true) := by
  cases action with
  | disconnect session =>
      rw [Action.run, Action.effect, Action.blocks]
      exact NetworkHandler.settles_disconnect h session
  | send session msg locked room callback =>
      have hsend := NetworkHandler.settles_sendLocked h session msg locked room callback
      rw [Action.run, Action.effect, Action.blocks]
      generalize t.state.sendLocked session msg locked room callback = r at hsend
      obtain ⟨sent, s⟩ := r
      cases sent with
      | true =>
          have hcallback := settles_runActions callback (h.set s)
          exact (hsend.bind fun _ => hcallback).congr (by simp)
      | false =>
          have hend : Settles (if false = true then runActions callback else pure PUnit.unit)
              (t.set s) PUnit.unit (t.set s) False := settles_pure PUnit.unit (t.set s)
          exact (hsend.bind fun _ => hend).congr (by simp)

theorem settles_runActions (actions : List (Action σ)) {t : Thread (Lock σ) (Layer σ)}
    (h : Holds t held) :
    Settles (runActions actions) t ⟨⟩ (t.set (effects actions t.state))
      (actionsBlock held actions t.state = true) := by
  cases actions with
  | nil =>
      rw [runActions, effects, actionsBlock]
      exact (settles_pure _ _).congr (by simp)
  | cons action actions =>
      have hfirst := action.settles_run h
      have hrest := settles_runActions actions (h.set (action.effect t.state))
      rw [runActions, effects, actionsBlock]
      exact (hfirst.bind fun _ => hrest).congr (by simp)

end

omit [DecidableEq σ] in
theorem blocked_none (session : σ) (s : Layer σ) : blocked none session s = false := by
  rw [blocked]
  cases (s.handler session).connection with
  | none => rfl
  | some handle => simp

mutual

/-- Without the mutex of any write buffers a call does not wait for itself. -/
theorem Action.blocks_none (action : Action σ) (s : Layer σ) : action.blocks none s = false := by
  cases action with
  | disconnect session =>
      rw [Action.blocks, blocked_none]
  | send session msg locked room callback =>
      rw [Action.blocks, blocked_none, actionsBlock_none callback]
      simp

theorem actionsBlock_none (actions : List (Action σ)) (s : Layer σ) :
    actionsBlock none actions s = false := by
  cases actions with
  | nil => rw [actionsBlock]
  | cons action actions =>
      rw [actionsBlock, action.blocks_none, actionsBlock_none actions]
      rfl

end

omit [DecidableEq σ] in
/-- A thread that holds only mutexes that it may take again. -/
theorem holds_none (h : ∀ l ∈ t.held, l.reentrant = true) : Holds t none := by
  constructor
  · intro session hmem
    have hreentrant := h _ hmem
    cases hreentrant
  · intro r
    constructor
    · intro hmem
      have hreentrant := h _ hmem
      cases hreentrant
    · intro hnone
      cases hnone

omit [DecidableEq σ] in
/-- It takes the mutex of the write buffers. -/
theorem Holds.push (h : Holds t none) (r : Nat) : Holds (t.push (.write r)) (some r) := by
  constructor
  · intro session hmem
    rw [Thread.push_held] at hmem
    cases hmem with
    | tail _ hmem => exact h.handler session hmem
  · intro r'
    have hnone : .write r' ∉ t.held := fun hmem => by
      have hheld := (h.write r').mp hmem
      cases hheld
    rw [Thread.push_held, List.mem_cons, Option.some.injEq, Lock.write.injEq]
    constructor
    · intro hmem
      exact (hmem.resolve_right hnone).symm
    · intro hr
      exact .inl hr.symm

theorem ReaderThread.settles_flushWrite (h : Holds t held) (r fd : Nat) (writes : Writes) :
    Settles (ReaderThread.flushWrite r fd writes) t ⟨⟩
      (t.set (effects (t.state.flush r fd writes).1 (t.state.flush r fd writes).2))
      (actionsBlock held (t.state.flush r fd writes).1 (t.state.flush r fd writes).2 = true) :=
  (settles_read t).then ((settles_update _ t).then
    (settles_runActions (t.state.flush r fd writes).1 (h.set (t.state.flush r fd writes).2)))

/-- What a flush of these descriptors does to the state. -/
def flushes (r : Nat) (writes : Nat → Writes) : List Nat → Layer σ → Layer σ
  | [], s => s
  | fd :: fds, s =>
      let f := s.flush r fd (writes fd)
      flushes r writes fds (effects f.1 f.2)

theorem ReaderThread.settles_flushAll (r : Nat) (writes : Nat → Writes) (fds : List Nat) :
    ∀ {t : Thread (Lock σ) (Layer σ)}, Holds t (some r) →
      Settles (ReaderThread.flushAll r writes fds) t ⟨⟩ (t.set (flushes r writes fds t.state))
        (flushesBlock r writes fds t.state = true) := by
  induction fds with
  | nil =>
      intro t h
      exact (settles_pure _ t).congr (by simp [flushesBlock])
  | cons fd fds ih =>
      intro t h
      have hfirst := ReaderThread.settles_flushWrite h r fd (writes fd)
      have hrest := ih (h.set (effects (t.state.flush r fd (writes fd)).1
        (t.state.flush r fd (writes fd)).2))
      exact (hfirst.bind fun _ => hrest).congr (by simp [flushesBlock])

/-- What an operation does to the state. -/
def Operation.effect : Operation σ → Layer σ → Layer σ
  | .call action, s => action.effect s
  | .disconnect r fd, s => (s.close r fd).eraseWriteBuffer r fd
  | .flushWrites r writes, s => flushes r writes (AssocList.keys (s.reader r).writeBuffers) s
  | .writable r fd writes, s => effects (s.flush r fd writes).1 (s.flush r fd writes).2

/-- An operation of a thread that holds no other mutex waits for itself where a callback that
it flushes is blocked, and otherwise releases all that it took. -/
theorem Operation.settles_run (op : Operation σ) (h : Holds t none) :
    Settles op.run t ⟨⟩ (t.set (op.effect t.state)) (op.blocks t.state = true) := by
  cases op with
  | call action =>
      refine (action.settles_run h).congr ?_
      rw [action.blocks_none, Operation.blocks]
  | disconnect r fd =>
      refine (ReaderThread.settles_disconnect r fd t).congr ?_
      rw [h.write, Operation.blocks]
      simp
  | flushWrites r writes =>
      have hflush := ReaderThread.settles_flushAll r writes
        (AssocList.keys (t.state.reader r).writeBuffers) (h.push r)
      refine Settles.withLock ((settles_read _).then hflush) fun hmem => ?_
      have hheld := (h.write r).mp hmem
      cases hheld
  | writable r fd writes =>
      have hflush := ReaderThread.settles_flushWrite (h.push r) r fd writes
      refine hflush.withLock fun hmem => ?_
      have hheld := (h.write r).mp hmem
      cases hheld

/-- A thread that starts with none of the mutexes that it may not take twice takes one twice
if and only if it flushes a callback that concerns a session with a valid connection on the
flushing reader. -/
theorem not_stuck_iff (op : Operation σ) (t : Thread (Lock σ) (Layer σ))
    (h : ∀ l ∈ t.held, l.reentrant = true) : ¬Stuck op.run t ↔ op.blocks t.state = false := by
  rw [(op.settles_run (holds_none h)).stuck_iff, Bool.not_eq_true]

end

/-! ## The logout -/

section

variable {κ : Type}

/-- A message that is alone goes out when there is room for it, and its callback runs. -/
theorem flushDrain_singleton (tls : Bool) {msg : Bytes} (hmsg : msg ≠ []) (callback : κ)
    {room : Nat} (hroom : msg.length ≤ room) :
    (WriteBuffer.flushDrain ⟨[], [⟨msg, some callback⟩], 0⟩ tls [room]).fired = [callback] := by
  have hpos := List.length_pos_iff.mpr hmsg
  have hret : min room (msg.length - 0) = msg.length := by omega
  have hne : msg.length ≠ 0 := by omega
  rw [WriteBuffer.flushDrain]
  cases tls with
  | true =>
      rw [if_pos rfl, WriteBuffer.drainTLS]
      simp only [hret, if_neg hne, Nat.zero_add, le_refl, if_true]
      rfl
  | false =>
      rw [if_neg Bool.false_ne_true, WriteBuffer.drainVectored]
      have hbytes : (bytesOf (([⟨msg, some callback⟩] : List (WriteEntry κ)).take maxWriteIovecs)).drop 0
          = msg := by simp [bytesOf, maxWriteIovecs]
      simp only [hbytes, List.headD_cons, min_eq_right hroom, if_neg hne, WriteBuffer.account,
        Nat.sub_zero, le_refl, if_true]
      rfl

end

/-- Over TLS, the flush that writes the logout of a session waits for itself. -/
theorem logout_blocks {σ : Type} [DecidableEq σ] {s : Layer σ} {session : σ} {handle : Handle}
    (hconnection : (s.handler session).connection = some handle)
    (hvalid : (s.handler session).valid = true) (htls : handle.tls = true)
    (hidle : s.pending handle.reader handle.fd = false) {msg : Bytes} (hmsg : msg ≠ [])
    (locked : Bool) {room : Nat} (hroom : msg.length ≤ room) (fails : Bool) :
    (Operation.writable handle.reader handle.fd ⟨[room], fails⟩).blocks
      ((Action.send session msg locked room (terminate session)).effect s) = true := by
  let entry : WriteEntry (List (Action σ)) := ⟨msg, some (terminate session)⟩
  have heffect : (Action.send session msg locked room (terminate session)).effect s =
      s.queueWrite handle.reader handle.fd entry := by
    simp [Action.effect, Layer.sendLocked, hconnection, hvalid, htls, entry]
  -- What was queued before has gone out.
  obtain ⟨offset, hbuffer⟩ : ∃ offset, AssocList.find? handle.fd
      ((s.queueWrite handle.reader handle.fd entry).reader handle.reader).writeBuffers =
        some ⟨[entry], [], offset⟩ := by
    rw [Layer.queueWrite, Layer.setWriteBuffer, Layer.setReader]
    simp only [Function.update_self, AssocList.find?_set_self, Option.some.injEq]
    rw [Layer.pending] at hidle
    cases hfind : AssocList.find? handle.fd (s.reader handle.reader).writeBuffers with
    | none => exact ⟨0, rfl⟩
    | some wb =>
        rw [hfind] at hidle
        simp only [Bool.or_eq_false_iff, Bool.not_eq_false', List.isEmpty_iff] at hidle
        exact ⟨wb.offset, by simp [hidle.1, hidle.2]⟩
  have hfired := fun tls => flushDrain_singleton tls hmsg (terminate session) hroom
  rw [heffect, Operation.blocks, Layer.flush, hbuffer]
  simp only [WriteBuffer.swap, ne_eq, List.cons_ne_nil, not_false_eq_true, and_self, if_true, entry,
    hfired]
  simp [terminate, actionsBlock, Action.blocks, blocked, Layer.setWriteBuffer, Layer.setReader,
    Layer.queueWrite, hconnection, hvalid]

/-- Session 0 has a connection with TLS on reader 0, session 1 one without on reader 1, and
nothing is queued. -/
def connected : Layer Nat where
  handler session := if session = 0 then ⟨some ⟨0, 5, true⟩, true, true⟩
    else ⟨some ⟨1, 6, false⟩, true, true⟩
  reader r := if r = 0 then ⟨[], [(5, 0)], [], []⟩ else ⟨[], [(6, 1)], [], []⟩
  tls fd := fd = 5

/-- Session 0 sends a message whose callback sends on session 1 and closes its connection, and
the flush of reader 0 writes it. -/
theorem not_stuck_iff_test :
    ¬Stuck (Operation.flushWrites 0 fun _ => ⟨[9], false⟩).run
      ⟨[.reader 0], (Action.send 0 (ascii "35=0") false 9
        [.send 1 (ascii "35=1") false 2 [], .disconnect 1]).effect connected⟩ :=
  (not_stuck_iff _ _ (by decide)).mpr (by decide +kernel)

/-- The callback of a logout runs under the mutex that it needs. -/
theorem not_forall_not_stuck :
    ¬∀ (op : Operation Nat) (t : Thread (Lock Nat) (Layer Nat)),
      (∀ l ∈ t.held, l.reentrant = true) → ¬Stuck op.run t := by
  intro h
  exact h (.flushWrites 0 fun _ => ⟨[9], false⟩)
    ⟨[], (Action.send 0 (ascii "35=5") false 9 (terminate 0)).effect connected⟩
    (fun l hl => by cases hl) ⟨.write 0, _, rfl⟩

end Locking

end OpenFix
