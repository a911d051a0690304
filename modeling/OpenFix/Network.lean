import OpenFix.Fields

/-!
# The network handler of a session

A handler holds a connection, named by its descriptor, and two flags.
`setConnection` is called when a connection is established and `invalidate` when
it is lost.  `disconnect` closes the descriptor, and closing invalidates the
handler.

That a handler is only connected while it has a valid connection is a field of
the structure.
-/

namespace OpenFix

structure NetworkHandler where
  connection : Option Nat
  valid : Bool
  connected : Bool
  stopped : Bool
  /-- A connected handler has a valid connection. -/
  wf : connected = true → connection.isSome = true ∧ valid = true

namespace NetworkHandler

/-- A handler as it is constructed. -/
def new : NetworkHandler := ⟨none, true, false, false, fun h => nomatch h⟩

def setConnection (n : NetworkHandler) (connection : Option Nat) : NetworkHandler :=
  ⟨connection, true, connection.isSome, n.stopped, fun h => ⟨h, rfl⟩⟩

def invalidate (n : NetworkHandler) : NetworkHandler :=
  ⟨n.connection, false, false, n.stopped, fun h => nomatch h⟩

/-- Close the connection, if there is a valid one, and forget it. -/
def disconnect (n : NetworkHandler) : NetworkHandler :=
  ⟨none, n.valid && n.connection.isNone, false, n.stopped, fun h => nomatch h⟩

/-- A connection that turned out to be invalid is forgotten. -/
def dropInvalid (n : NetworkHandler) (h : n.valid = false) : NetworkHandler :=
  ⟨none, false, n.connected, n.stopped, fun hc => absurd (n.wf hc).2 (by simp [h])⟩

def setStopped (n : NetworkHandler) : NetworkHandler :=
  ⟨n.connection, n.valid, n.connected, true, n.wf⟩

@[simp] theorem connected_disconnect (n : NetworkHandler) : n.disconnect.connected = false := rfl

end NetworkHandler

end OpenFix
