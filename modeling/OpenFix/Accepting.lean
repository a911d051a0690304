import Mathlib.Data.List.Nodup
import OpenFix.Lib.Run

/-!
# Accepting connections

A listening socket is registered edge-triggered with the reader that owns it.  The kernel
keeps the connections that nobody has accepted in a backlog, and an arrival makes the
socket ready.  `epoll_wait` reports that once, however many have arrived by then, and not
again before the next arrival.  The reader answers an event with one call of
`Network::accept`, which takes one connection of the backlog at most.

An event for a listening socket has no bit but `EPOLLIN`.  The calls that
`Network::accept` makes of the kernel and of the TLS library may fail, and their
outcomes come with the step.
-/

namespace OpenFix

/-- What the calls in `Network::accept` come out with. -/
inductive AcceptOutcome where
  /-- `::accept` gives no descriptor, and the connection stays in the backlog. -/
  | failed
  /-- `::accept` gives no descriptor, because the client has gone. -/
  | aborted
  /-- `::accept` gives a descriptor.  It may turn out not to be non-blocking, its address may
  not be printed, and TLS may not be set up for it. -/
  | opened (nonBlocking address tls : Bool)
deriving Repr, DecidableEq

/-- A listening socket with its clients, which are numbered in the order they come. -/
structure Listener where
  /-- The clients that came. -/
  arrivals : Nat
  /-- Those that wait to be accepted. -/
  backlog : List Nat
  /-- There is an edge that `epoll_wait` has not reported. -/
  ready : Bool
  /-- The reader has an event that it has not handled. -/
  reported : Bool
  /-- `m_unknownConnections`: who was accepted. -/
  accepted : List Nat
  /-- Whose connection came to an end instead. -/
  refused : List Nat
deriving Repr, DecidableEq

inductive ListenerStep where
  /-- A client connects. -/
  | arrive
  /-- `epoll_wait` reports the socket. -/
  | report
  /-- The reader handles the event. -/
  | handle (outcome : AcceptOutcome)
deriving Repr, DecidableEq

namespace Listener

def new : Listener := ⟨0, [], false, false, [], []⟩

def arrive (s : Listener) : Listener :=
  { s with arrivals := s.arrivals + 1, backlog := s.backlog ++ [s.arrivals], ready := true }

def report (s : Listener) : Listener :=
  if s.ready then { s with ready := false, reported := true } else s

/-- `Network::accept`. -/
def accept (outcome : AcceptOutcome) (s : Listener) : Listener :=
  match s.backlog with
  | [] => s
  | client :: backlog =>
      match outcome with
      | .failed => s
      | .aborted => { s with backlog := backlog, refused := s.refused ++ [client] }
      | .opened nonBlocking address tls =>
          let s := { s with backlog := backlog }
          if !nonBlocking then { s with refused := s.refused ++ [client] }
          else if !address then { s with refused := s.refused ++ [client] }
          else if !tls then { s with refused := s.refused ++ [client] }
          else { s with accepted := s.accepted ++ [client] }

/-- What `ReaderThread::process` does with an event for the socket. -/
def handle (outcome : AcceptOutcome) (s : Listener) : Listener :=
  if s.reported then { s with reported := false }.accept outcome else s

def step : ListenerStep → Listener → Listener
  | .arrive, s => s.arrive
  | .report, s => s.report
  | .handle outcome, s => s.handle outcome

/-! ## What a step leaves -/

/-- The client is not kept waiting. -/
def Answered (s : Listener) (client : Nat) : Prop := client ∈ s.accepted ∨ client ∈ s.refused

/-- A step that handles an event answers all clients that were waiting. -/
def Drains (s : Listener) : ListenerStep → Prop
  | .handle outcome =>
      s.reported = true → ∀ client ∈ s.backlog, (s.handle outcome).Answered client
  | _ => True

/-- An event finds one client waiting at most, and `::accept` takes it. -/
def Single (s : Listener) : ListenerStep → Prop
  | .handle outcome => s.reported = true →
      s.backlog = [] ∨ s.backlog.length = 1 ∧ outcome ≠ .failed
  | _ => True

/-- The reader has nothing to do for the socket. -/
def Idle (s : Listener) : Prop := s.ready = false ∧ s.reported = false

/-- Each client is in one place. -/
structure Sound (s : Listener) : Prop where
  nodup : s.backlog.Nodup
  answered : ∀ client ∈ s.backlog, ¬s.Answered client
  bounded : ∀ client, client ∈ s.backlog ∨ s.Answered client → client < s.arrivals

theorem sound_new : new.Sound where
  nodup := List.nodup_nil
  answered client h := by cases h
  bounded client h := by
    rcases h with h | h
    · cases h
    · rcases h with h | h
      · cases h
      · cases h

/-- What one call of `Network::accept` does. -/
theorem accept_cons (outcome : AcceptOutcome) {s : Listener} {client : Nat} {backlog : List Nat}
    (h : s.backlog = client :: backlog) :
    (outcome = .failed ∧ s.accept outcome = s) ∨
      (outcome ≠ .failed ∧ (s.accept outcome).backlog = backlog ∧
        (s.accept outcome).arrivals = s.arrivals ∧
        ∀ c, (s.accept outcome).Answered c ↔ s.Answered c ∨ c = client) := by
  have hrefused : ∀ c, (c ∈ s.accepted ∨ c ∈ s.refused ++ [client]) ↔ s.Answered c ∨ c = client := by
    intro c
    rw [List.mem_append, List.mem_singleton, ← or_assoc]
    rfl
  have haccepted : ∀ c, (c ∈ s.accepted ++ [client] ∨ c ∈ s.refused) ↔ s.Answered c ∨ c = client := by
    intro c
    rw [List.mem_append, List.mem_singleton, or_right_comm]
    rfl
  rw [accept, h]
  cases outcome with
  | failed => exact .inl ⟨rfl, rfl⟩
  | aborted => exact .inr ⟨by decide, rfl, rfl, hrefused⟩
  | opened nonBlocking address tls =>
      refine .inr ⟨(by intro hfailed; cases hfailed), ?_⟩
      cases nonBlocking with
      | false => exact ⟨rfl, rfl, hrefused⟩
      | true =>
          cases address with
          | false => exact ⟨rfl, rfl, hrefused⟩
          | true =>
              cases tls with
              | false => exact ⟨rfl, rfl, hrefused⟩
              | true => exact ⟨rfl, rfl, haccepted⟩

theorem accept_nil (outcome : AcceptOutcome) {s : Listener} (h : s.backlog = []) :
    s.accept outcome = s := by
  rw [accept, h]

theorem Sound.accept {s : Listener} (h : s.Sound) (outcome : AcceptOutcome) :
    (s.accept outcome).Sound := by
  cases hbacklog : s.backlog with
  | nil =>
      rw [accept_nil outcome hbacklog]
      exact h
  | cons client backlog =>
      rcases accept_cons outcome hbacklog with ⟨-, heq⟩ | ⟨-, hleft, harrivals, hanswered⟩
      · rw [heq]
        exact h
      · have hnodup := h.nodup
        rw [hbacklog, List.nodup_cons] at hnodup
        have hmem : ∀ c ∈ backlog, c ∈ s.backlog := fun c hc =>
          hbacklog ▸ List.mem_cons_of_mem client hc
        refine ⟨hleft ▸ hnodup.2, fun c hc => ?_, fun c hc => ?_⟩
        · rw [hleft] at hc
          rw [hanswered]
          intro hans
          rcases hans with hans | heq
          · exact h.answered c (hmem c hc) hans
          · rw [heq] at hc
            exact hnodup.1 hc
        · rw [harrivals]
          rw [hleft, hanswered] at hc
          rcases hc with hc | hc | heq
          · exact h.bounded c (.inl (hmem c hc))
          · exact h.bounded c (.inr hc)
          · rw [heq]
            exact h.bounded client (.inl (hbacklog ▸ List.mem_cons_self))

theorem Sound.step {s : Listener} (h : s.Sound) (i : ListenerStep) : (step i s).Sound := by
  cases i with
  | arrive =>
      have hfresh : ∀ c, c ∈ s.backlog ∨ s.Answered c → c ≠ s.arrivals := by
        intro c hc heq
        have hlt := h.bounded c hc
        omega
      refine ⟨?_, fun c hc => ?_, fun c hc => ?_⟩
      · refine h.nodup.append (List.nodup_singleton _) fun c hc hmem => ?_
        exact hfresh c (.inl hc) (List.mem_singleton.mp hmem)
      · rcases List.mem_append.mp hc with hc | hc
        · exact h.answered c hc
        · intro hans
          exact hfresh c (.inr hans) (List.mem_singleton.mp hc)
      · show c < s.arrivals + 1
        rcases hc with hc | hc
        · rcases List.mem_append.mp hc with hc | hc
          · exact Nat.lt_succ_of_lt (h.bounded c (.inl hc))
          · rw [List.mem_singleton.mp hc]
            exact Nat.lt_succ_self _
        · exact Nat.lt_succ_of_lt (h.bounded c (.inr hc))
  | report =>
      rw [Listener.step, report]
      split
      next => exact ⟨h.nodup, h.answered, h.bounded⟩
      next => exact h
  | handle outcome =>
      rw [Listener.step, handle]
      split
      next =>
        have hsame : Sound { s with reported := false } := ⟨h.nodup, h.answered, h.bounded⟩
        exact hsame.accept outcome
      next => exact h

/-- A call of `Network::accept` answers all clients if and only if it finds one at most and
takes it. -/
theorem Sound.accept_answers_iff {s : Listener} (h : s.Sound) (outcome : AcceptOutcome) :
    (∀ client ∈ s.backlog, (s.accept outcome).Answered client) ↔
      s.backlog = [] ∨ s.backlog.length = 1 ∧ outcome ≠ .failed := by
  have hunanswered := h.answered
  have hnodup := h.nodup
  cases hbacklog : s.backlog with
  | nil =>
      constructor
      · intro _
        exact .inl rfl
      · intro _ c hc
        cases hc
  | cons client backlog =>
      rw [hbacklog] at hunanswered hnodup
      have hself : client ∈ client :: backlog := List.mem_cons_self
      rcases accept_cons outcome hbacklog with ⟨hfailed, heq⟩ | ⟨hfailed, -, -, hanswered⟩
      · rw [heq]
        constructor
        · intro hall
          exact absurd (hall client hself) (hunanswered client hself)
        · intro hsingle
          rcases hsingle with hnil | ⟨-, hne⟩
          · cases hnil
          · exact absurd hfailed hne
      · constructor
        · intro hall
          refine .inr ⟨?_, hfailed⟩
          -- A second client is neither the one that was taken nor an earlier one.
          cases backlog with
          | nil => rfl
          | cons other backlog =>
              have hmem : other ∈ client :: other :: backlog :=
                List.mem_cons_of_mem _ List.mem_cons_self
              rcases (hanswered other).mp (hall other hmem) with hans | heq
              · exact absurd hans (hunanswered other hmem)
              · rw [heq] at hnodup
                exact absurd List.mem_cons_self (List.nodup_cons.mp hnodup).1
        · intro hsingle c hc
          rcases hsingle with hnil | ⟨hlength, -⟩
          · cases hnil
          · rw [List.length_cons, Nat.add_eq_right, List.length_eq_zero_iff] at hlength
            rw [hlength, List.mem_singleton] at hc
            exact (hanswered c).mpr (.inr hc)

theorem Sound.drains_iff {s : Listener} (h : s.Sound) (i : ListenerStep) :
    s.Drains i ↔ s.Single i := by
  cases i with
  | arrive => exact Iff.rfl
  | report => exact Iff.rfl
  | handle outcome =>
      rw [Drains, Single]
      refine imp_congr_right fun hreported => ?_
      rw [handle, if_pos hreported]
      have hsame : Sound { s with reported := false } := ⟨h.nodup, h.answered, h.bounded⟩
      exact hsame.accept_answers_iff outcome

/-- Nobody waits while the reader is idle. -/
theorem idle_step {s : Listener} (h : s.Idle → s.backlog = []) {i : ListenerStep}
    (hsingle : s.Single i) : (step i s).Idle → (step i s).backlog = [] := by
  cases i with
  | arrive =>
      intro hidle
      cases hidle.1
  | report =>
      rw [step, report]
      split
      next =>
        intro hidle
        cases hidle.2
      next => exact h
  | handle outcome =>
      rw [step, handle]
      split
      next hreported =>
        intro _
        rcases hsingle hreported with hnil | ⟨hlength, hne⟩
        · rw [accept_nil (s := { s with reported := false }) outcome hnil]
          exact hnil
        · obtain ⟨client, hbacklog⟩ := List.length_eq_one_iff.mp hlength
          rcases accept_cons (s := { s with reported := false }) outcome hbacklog with
            ⟨hfailed, -⟩ | ⟨-, hleft, -⟩
          · exact absurd hfailed hne
          · exact hleft
      next => exact h

/-! ## Runs -/

open Run

/-- Every event of the run answers all clients that wait then, and at no time does a client
wait while the reader is idle. -/
def AcceptsAll (steps : List ListenerStep) : Prop :=
  AllowedAlong step Drains new steps ∧
    ∀ before after, steps = before ++ after → (runOf step new before).Idle →
      (runOf step new before).backlog = []

theorem allowedAlong_iff {s : Listener} (h : s.Sound) (steps : List ListenerStep) :
    AllowedAlong step Drains s steps ↔ AllowedAlong step Single s steps := by
  induction steps generalizing s with
  | nil => exact Iff.rfl
  | cons i steps ih =>
      rw [AllowedAlong, AllowedAlong, h.drains_iff i, ih (h.step i)]

theorem AllowedAlong.idle {s : Listener} (hs : s.Idle → s.backlog = []) {before : List ListenerStep}
    (after : List ListenerStep) (h : AllowedAlong step Single s (before ++ after)) :
    (runOf step s before).Idle → (runOf step s before).backlog = [] := by
  induction before generalizing s with
  | nil => exact hs
  | cons i before ih => exact ih (idle_step hs h.1) h.2

/-- In a run all pending clients are accepted or refused if and only if no event finds two of
them, or has `::accept` leave the one where it is. -/
theorem acceptsAll_iff (steps : List ListenerStep) :
    AcceptsAll steps ↔ AllowedAlong step Single new steps := by
  constructor
  · intro ⟨hdrains, _⟩
    exact (allowedAlong_iff sound_new steps).mp hdrains
  · intro hsingle
    refine ⟨(allowedAlong_iff sound_new steps).mpr hsingle, fun before after hsteps => ?_⟩
    rw [hsteps] at hsingle
    exact AllowedAlong.idle (fun _ => rfl) after hsingle

/-- Two clients come before the event is reported, and the second one waits. -/
theorem not_acceptsAll : ¬∀ steps, AcceptsAll steps := by
  intro h
  have hidle := (h [.arrive, .arrive, .report, .handle (.opened true true true)]).2
    [.arrive, .arrive, .report, .handle (.opened true true true)] [] rfl
  have hwaits : [1] = ([] : List Nat) := hidle ⟨rfl, rfl⟩
  cases hwaits

end Listener

end OpenFix
