import OpenFix.Framing
import OpenFix.Lib.Run

/-!
# The end of a stream

One call of `ReadBuffer::read` receives until `recv` gives nothing, and collects the
messages on the way.  It leaves by three exits.  Where there is nothing more for now, and
where `recv` fails, the messages are returned.  Where the peer has closed, the call throws,
and the messages that it found, which are not in the buffer any more, reach nobody.
-/

namespace OpenFix

namespace ReadBuffer

/-- What is done with the buffers of a reader thread. -/
inductive Input where
  | read (fd : Nat) (chunks : List Chunk) (stop : RecvEnd)
  | clear (fd : Nat)

def step : Input → ReadBuffer → ReadBuffer
  | .read fd chunks stop, m => (m.read fd chunks stop).2
  | .clear fd, m => m.clear fd

/-- The buffers that calls of `read` and `clear` leave, in any order. -/
def Used (m : ReadBuffer) : Prop := Run.Reached new step (fun _ _ => True) m

/-- The messages that the caller of `read` gets: none of a call that throws. -/
def delivered : Except String (List Bytes) → List Bytes
  | .ok msgs => msgs
  | .error _ => []

/-- The messages that are complete in what is buffered and what is received. -/
def complete (m : ReadBuffer) (fd : Nat) (chunks : List Chunk) : List Bytes :=
  (framer.run (m.buffer fd ++ chunks.flatMap Chunk.bytes)).1

/-- What the buffers hold waits for more. -/
def Waiting (m : ReadBuffer) : Prop := ∀ fd, framer.next (m.buffer fd) = none

theorem waiting_new : Waiting new := fun _ => Framer.next_nil

theorem Waiting.insert {m : ReadBuffer} (h : m.Waiting) {fd : Nat} {buffer : Bytes}
    (hbuffer : framer.next buffer = none) : Waiting ⟨m.bufferMap.insert fd buffer⟩ := by
  intro fd'
  by_cases heq : fd' = fd
  · subst heq
    rw [buffer_insert]
    exact hbuffer
  · have hsame : ReadBuffer.buffer ⟨m.bufferMap.insert fd buffer⟩ fd' = m.buffer fd' := by
      rw [ReadBuffer.buffer, SortedMap.find?_insert_ne _ heq]
      rfl
    rw [hsame]
    exact h fd'

theorem Waiting.clear {m : ReadBuffer} (h : m.Waiting) (fd : Nat) : (m.clear fd).Waiting := by
  intro fd'
  rw [ReadBuffer.buffer, ReadBuffer.clear, SortedMap.find?_filterKeys]
  split
  · exact h fd'
  · exact Framer.next_nil

/-- The rounds of a call find what is complete, and leave what is not. -/
theorem Waiting.readLoop_eq {m : ReadBuffer} (h : m.Waiting) (fd : Nat) (chunks : List Chunk) :
    readLoop (m.buffer fd) [] chunks =
      ((framer.run (m.buffer fd ++ chunks.flatMap Chunk.bytes)).2, m.complete fd chunks) := by
  rw [ReadBuffer.readLoop_eq, Framer.feed_eq_run (h fd), List.nil_append, complete,
    List.flatMap_def]

theorem Waiting.read {m : ReadBuffer} (h : m.Waiting) (fd : Nat) (chunks : List Chunk)
    (stop : RecvEnd) : (m.read fd chunks stop).2.Waiting := by
  rw [ReadBuffer.read, h.readLoop_eq]
  cases stop with
  | wouldBlock => exact h.insert (framer.next_run _)
  | failed => exact h.insert Framer.next_nil
  | closed => exact h.insert (framer.next_run _)

theorem Used.waiting {m : ReadBuffer} (h : m.Used) : m.Waiting := by
  refine Run.Reached.invariant waiting_new (fun m input _ hm => ?_) h
  cases input with
  | read fd chunks stop => exact hm.read fd chunks stop
  | clear fd => exact hm.clear fd

/-- A call delivers what is complete, unless it ends because the peer has closed and something
is complete. -/
theorem read_delivers_iff {m : ReadBuffer} (h : m.Used) (fd : Nat) (chunks : List Chunk)
    (stop : RecvEnd) :
    delivered (m.read fd chunks stop).1 = m.complete fd chunks ↔
      stop ≠ .closed ∨ m.complete fd chunks = [] := by
  rw [read, h.waiting.readLoop_eq]
  cases stop with
  | wouldBlock =>
      constructor
      · intro _
        exact .inl (by decide)
      · intro _
        rfl
  | failed =>
      constructor
      · intro _
        exact .inl (by decide)
      · intro _
        rfl
  | closed =>
      constructor
      · intro hnone
        exact .inr hnone.symm
      · intro hnone
        rcases hnone with hne | hnone
        · exact absurd rfl hne
        · exact hnone.symm

/-- A logout, and the end of the stream behind it. -/
def logoutChunk : Chunk :=
  ⟨(ascii "8=FIX.4.4|9=5|35=5|10=161|").map fun b =>
    if b = externalSohChar then internalSohChar else b, by decide, by decide⟩

theorem read_delivers_iff_test :
    delivered (new.read 5 [logoutChunk] .failed).1 = new.complete 5 [logoutChunk] ↔
      RecvEnd.failed ≠ .closed ∨ new.complete 5 [logoutChunk] = [] :=
  read_delivers_iff .init 5 [logoutChunk] .failed

/-- The logout that comes right before the end of the stream is lost. -/
theorem not_read_delivers : ¬∀ m : ReadBuffer, m.Used → ∀ (fd : Nat) (chunks : List Chunk)
    (stop : RecvEnd), delivered (m.read fd chunks stop).1 = m.complete fd chunks := by
  intro h
  have hlost := h new .init 5 [logoutChunk] .closed
  exact absurd hlost (by decide)

end ReadBuffer

end OpenFix
