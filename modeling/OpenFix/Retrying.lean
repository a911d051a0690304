import OpenFix.Lib.Run
import OpenFix.Writer

/-!
# A file that does not open

A flush that cannot open its file leaves what it has formatted in the buffer of the
instance, for a later flush.  The dirty flag is already cleared, so the next flush
does not come before the next write, and then it finds something queued and swaps:
what is new goes to the file, and what is older waits in the queue.

`Retains` is what should hold between two steps, and `retains_iff` says which runs
keep it.  Nothing is reset here and no message is logged.
-/

namespace OpenFix

/-- An instance and its stream, with everything that was written to it. -/
structure RetryState where
  writer : WriterInstance
  /-- `m_stream.is_open()`. -/
  isOpen : Bool
  written : Bytes

/-- A call of one of the threads. -/
inductive RetryStep where
  | write (text : Bytes)
  | writeRaw (hdr body : Bytes)
  /-- The writer thread goes on with its flush, and the file opens if it tries that. -/
  | flush (opens : Bool)

namespace WriterInstance

/-- The text that a flush has for the file. -/
def pending (w : WriterInstance) : Bytes := w.buffer ++ w.logEntryBuffer.flatMap LogEntry.format

/-- What a flush leaves that could not open the file. -/
def keep (w : WriterInstance) : WriterInstance :=
  { w with buffer := w.format w.pending, logEntryBuffer := [], phase := .idle }

end WriterInstance

/-- The flush is about to empty the file. -/
def FlushPhase.wipes : FlushPhase → Bool
  | .resetting | .wiping => true
  | .idle | .seen | .entered | .keeping | .swapped => false

namespace RetryState

def new (formatFIXMessages : Bool) : RetryState := ⟨.new formatFIXMessages, false, []⟩

/-- One step of `flushInstances`, with the stream. -/
def flush (opens : Bool) (s : RetryState) : RetryState :=
  match s.writer.phase with
  | .swapped =>
      if s.writer.pending = [] then
        { s with writer := { s.writer with logEntryBuffer := [], phase := .idle } }
      else if s.isOpen || opens then
        { s with writer := { s.writer.output with phase := .idle }, isOpen := true }
      else { s with writer := s.writer.keep }
  | .wiping => { s with writer := s.writer.flushStep, isOpen := false }
  | _ => { s with writer := s.writer.flushStep }

/-- A call of `write` or `writeRaw`. -/
def append (w : WriterInstance) (data : Bytes) (s : RetryState) : RetryState :=
  { s with writer := w, written := s.written ++ data }

def next : RetryStep → RetryState → RetryState
  | .write text, s => s.append (s.writer.write text) text
  | .writeRaw hdr body, s => s.append (s.writer.writeRaw hdr body) (hdr ++ body)
  | .flush opens, s => s.flush opens

/-- The mutex is free for the call. -/
def Possible (s : RetryState) : RetryStep → Prop
  | .write _ | .writeRaw _ _ => s.writer.phase.locked = false
  | .flush _ => True

/-- The file, the buffer and the queue are what was written, in this order, and what is
not in the file gets there once a flush can open it. -/
structure Retains (s : RetryState) : Prop where
  order : s.writer.file ++ s.writer.buffer ++ s.writer.queue = s.written
  written : s.writer.buffer ++ s.writer.queue ≠ [] →
    ∃ n, ((flush true)^[n] s).writer.file = s.written

/-! ## The condition -/

/-- The flush is about to find that the file does not open. -/
structure Fails (s : RetryState) (opens : Bool) : Prop where
  phase : s.writer.phase = .swapped
  isOpen : s.isOpen = false
  opens : opens = false
  pending : s.writer.pending ≠ []

/-- Nothing is written behind a buffer that was kept, and nothing that the formatting of
the instance would replace. -/
structure Accepts (w : WriterInstance) (data : Bytes) : Prop where
  behind : w.phase ≠ .swapped → w.buffer = [] ∨ data = []
  clean : w.formatFIXMessages = true → internalSohChar ∉ data

/-- A file may fail to open only for an instance that is dirty with an empty queue. -/
def Careful (s : RetryState) : RetryStep → Prop
  | .write text => Accepts s.writer text
  | .writeRaw hdr body => Accepts s.writer (hdr ++ body)
  | .flush opens => Fails s opens → s.writer.dirty = true ∧ s.writer.queue = []

/-! ## What a step of the flush does -/

/-- A flush that can open the file is the flush of an instance whose file always opens. -/
theorem writer_flush {s : RetryState} {opens : Bool} (h : ¬Fails s opens) :
    (s.flush opens).writer = s.writer.flushStep := by
  obtain ⟨⟨buffer, queue, logEntryQueue, logEntryBuffer, shouldReset, dirty, fmt, file, phase,
    resets⟩, isOpen, written⟩ := s
  cases phase with
  | swapped =>
      unfold flush WriterInstance.flushStep
      dsimp only
      split
      next hpending =>
        obtain ⟨hbuffer, hentries⟩ := List.append_eq_nil_iff.mp hpending
        dsimp only at hbuffer hentries
        simp [WriterInstance.output, WriterInstance.format, hbuffer, hentries]
      next hpending =>
        split
        next => rfl
        next hopen =>
          rw [Bool.or_eq_true, not_or, Bool.not_eq_true, Bool.not_eq_true] at hopen
          exact (h ⟨rfl, hopen.1, hopen.2, hpending⟩).elim
  | idle | seen | entered | resetting | wiping | keeping => rfl

theorem writer_flush_of_fails {s : RetryState} {opens : Bool} (h : Fails s opens) :
    (s.flush opens).writer = s.writer.keep := by
  obtain ⟨hphase, hopen, hopens, hpending⟩ := h
  simp only [flush, hphase]
  rw [if_neg hpending, hopen, hopens]
  rfl

theorem written_flush (s : RetryState) (opens : Bool) : (s.flush opens).written = s.written := by
  unfold flush
  split
  next =>
    split
    next => rfl
    next => split <;> rfl
  next => rfl
  next => rfl

theorem not_fails_true (s : RetryState) : ¬Fails s true := fun h => Bool.noConfusion h.opens

theorem writer_iterate_flush (s : RetryState) (n : Nat) :
    ((flush true)^[n] s).writer = WriterInstance.flushStep^[n] s.writer := by
  induction n generalizing s with
  | zero => rfl
  | succ n ih =>
      rw [Function.iterate_succ_apply, ih, writer_flush s.not_fails_true,
        ← Function.iterate_succ_apply]

end RetryState

/-! ## The invariant -/

namespace WriterInstance

/-- What careful steps keep. -/
structure InOrder (written : Bytes) (w : WriterInstance) : Prop where
  logs : w.logEntryQueue = [] ∧ w.logEntryBuffer = []
  noReset : w.shouldReset = false ∧ w.phase.wipes = false
  order : w.file ++ w.buffer ++ w.queue = written
  clean : w.formatFIXMessages = true → internalSohChar ∉ written
  /-- Nothing is queued behind a buffer that was kept, and it will be seen. -/
  buffered : w.phase ≠ .swapped → w.buffer ≠ [] →
    w.queue = [] ∧ (w.phase.locked = true ∨ w.dirty = true)
  queued : w.queue ≠ [] → w.phase.locked = true ∨ w.dirty = true

variable {written : Bytes} {w : WriterInstance}

theorem inOrder_new (formatFIXMessages : Bool) : InOrder [] (.new formatFIXMessages) where
  logs := ⟨rfl, rfl⟩
  noReset := ⟨rfl, rfl⟩
  order := rfl
  clean := fun _ => List.not_mem_nil
  buffered := fun _ h => (h rfl).elim
  queued := fun h => (h rfl).elim

theorem InOrder.pending_eq (h : InOrder written w) : w.pending = w.buffer := by
  rw [pending, h.logs.2, List.flatMap_nil, List.append_nil]

/-- Formatting does not change the buffer. -/
theorem InOrder.format_buffer (h : InOrder written w) : w.format w.buffer = w.buffer := by
  refine (w.format_eq_self_iff w.buffer).mpr fun hfmt hmem => h.clean hfmt ?_
  rw [← h.order]
  exact List.mem_append_left _ (List.mem_append_right _ hmem)

theorem InOrder.append (h : InOrder written w) {data : Bytes}
    (hdata : RetryState.Accepts w data) :
    InOrder (written ++ data) { w with queue := w.queue ++ data, dirty := true } where
  logs := h.logs
  noReset := h.noReset
  order := by
    show w.file ++ w.buffer ++ (w.queue ++ data) = written ++ data
    rw [← h.order]
    simp only [List.append_assoc]
  clean := fun hfmt hmem => (List.mem_append.mp hmem).elim (h.clean hfmt) (hdata.clean hfmt)
  buffered := by
    intro hphase hbuffer
    have hnil : data = [] := (hdata.behind hphase).resolve_left hbuffer
    exact ⟨by rw [hnil, List.append_nil, (h.buffered hphase hbuffer).1], .inr rfl⟩
  queued := fun _ => .inr rfl

/-- A flush that could not open the file for an instance that is dirty again. -/
theorem InOrder.keep (h : InOrder written w) (hdirty : w.dirty = true) (hqueue : w.queue = []) :
    InOrder written w.keep := by
  have hbuffer : w.keep.buffer = w.buffer := by
    show w.format w.pending = w.buffer
    rw [h.pending_eq, h.format_buffer]
  refine ⟨⟨h.logs.1, rfl⟩, ⟨h.noReset.1, rfl⟩, ?_, h.clean,
    fun _ _ => ⟨hqueue, .inr hdirty⟩, fun _ => .inr hdirty⟩
  rw [hbuffer]
  exact h.order

/-- A swap moves the queue behind the file. -/
theorem InOrder.swap (h : InOrder written w) (hphase : w.phase = .keeping) :
    InOrder written { w.swap with phase := .swapped } := by
  have hout : w.phase ≠ .swapped := by
    rw [hphase]
    decide
  by_cases hqueue : w.queue = []
  · have hswap : w.swap = w := by
      rw [WriterInstance.swap, if_neg (not_not.mpr hqueue), if_neg (not_not.mpr h.logs.1)]
    rw [hswap]
    exact ⟨h.logs, ⟨h.noReset.1, rfl⟩, h.order, h.clean,
      fun hne => (hne rfl).elim, fun hne => (hne hqueue).elim⟩
  · have hbuffer : w.buffer = [] := by
      by_contra hbuffer
      exact hqueue (h.buffered hout hbuffer).1
    rw [w.swap_eq h.logs.1 hbuffer]
    refine ⟨h.logs, ⟨h.noReset.1, rfl⟩, ?_, h.clean, fun hne => (hne rfl).elim,
      fun hne => (hne rfl).elim⟩
    have horder := h.order
    rw [hbuffer, List.append_nil] at horder
    rw [List.append_nil]
    exact horder

/-- The file gets the buffer. -/
theorem InOrder.output (h : InOrder written w) (hphase : w.phase = .swapped) :
    InOrder written { w.output with phase := .idle } := by
  have hfile : w.output.file = w.file ++ w.buffer := by
    show w.file ++ w.format w.pending = _
    rw [h.pending_eq, h.format_buffer]
  refine ⟨⟨h.logs.1, rfl⟩, ⟨h.noReset.1, rfl⟩, ?_, h.clean,
    fun _ hne => (hne rfl).elim, fun hqueue => ?_⟩
  · show w.output.file ++ [] ++ w.queue = written
    rw [hfile, List.append_nil]
    exact h.order
  · rcases h.queued hqueue with hlocked | hdirty
    · rw [hphase] at hlocked
      cases hlocked
    · exact .inr hdirty

theorem InOrder.flushStep (h : InOrder written w) : InOrder written w.flushStep := by
  unfold WriterInstance.flushStep
  split
  next hphase =>
    split
    next hdirty =>
      exact ⟨h.logs, ⟨h.noReset.1, rfl⟩, h.order, h.clean,
        fun _ hbuffer => ⟨(h.buffered (by rw [hphase]; decide) hbuffer).1, .inr hdirty⟩,
        fun _ => .inr hdirty⟩
    next => exact h
  next hphase =>
    exact ⟨h.logs, ⟨h.noReset.1, rfl⟩, h.order, h.clean,
      fun _ hbuffer => ⟨(h.buffered (by rw [hphase]; decide) hbuffer).1, .inl rfl⟩,
      fun _ => .inl rfl⟩
  next hphase =>
    rw [if_neg (by rw [h.noReset.1]; decide)]
    exact ⟨h.logs, ⟨h.noReset.1, rfl⟩, h.order, h.clean,
      fun _ hbuffer => ⟨(h.buffered (by rw [hphase]; decide) hbuffer).1, .inl rfl⟩,
      fun _ => .inl rfl⟩
  next hphase =>
    have hwipes := h.noReset.2
    rw [hphase] at hwipes
    cases hwipes
  next hphase =>
    have hwipes := h.noReset.2
    rw [hphase] at hwipes
    cases hwipes
  next hphase => exact h.swap hphase
  next hphase => exact h.output hphase

/-! ## A later flush -/

/-- Flushing on, with a file that opens, writes the rest. -/
def Settles (written : Bytes) (w : WriterInstance) : Prop := ∃ n, (flushStep^[n] w).file = written

/-- The steps until the flush that has nothing left to do. -/
def stepsLeft : FlushPhase → Bool → Nat
  | .idle, false => 0
  | .swapped, false => 1
  | .keeping, false => 2
  | .entered, false => 3
  | .seen, _ => 4
  | .idle, true => 5
  | .swapped, true => 6
  | .keeping, true => 7
  | .entered, true => 8
  | .resetting, _ | .wiping, _ => 9

theorem InOrder.stepsLeft_flushStep (h : InOrder written w) (hleft : stepsLeft w.phase w.dirty ≠ 0) :
    stepsLeft w.flushStep.phase w.flushStep.dirty < stepsLeft w.phase w.dirty := by
  have hswap : w.swap.dirty = w.dirty := by
    simp only [WriterInstance.swap]
    split <;> split <;> rfl
  have hwipes := h.noReset.2
  cases hphase : w.phase with
  | resetting | wiping =>
      rw [hphase] at hwipes
      cases hwipes
  | idle | seen | entered | keeping | swapped =>
      cases hdirty : w.dirty with
      | false => simp_all [WriterInstance.flushStep, stepsLeft, h.noReset.1, WriterInstance.output]
      | true => simp_all [WriterInstance.flushStep, stepsLeft, h.noReset.1, WriterInstance.output]

/-- An instance that is not dirty between two flushes has nothing left. -/
theorem InOrder.file_eq (h : InOrder written w) (hphase : w.phase = .idle)
    (hdirty : w.dirty = false) : w.file = written := by
  have hseen : ¬(w.phase.locked = true ∨ w.dirty = true) := by
    rw [hphase, hdirty]
    decide
  have hbuffer : w.buffer = [] := by
    by_contra hne
    exact hseen (h.buffered (by rw [hphase]; decide) hne).2
  have hqueue : w.queue = [] := by
    by_contra hne
    exact hseen (h.queued hne)
  have horder := h.order
  rwa [hbuffer, hqueue, List.append_nil, List.append_nil] at horder

theorem InOrder.settles (h : InOrder written w) : Settles written w := by
  induction hn : stepsLeft w.phase w.dirty using Nat.strong_induction_on generalizing w with
  | h n ih =>
      by_cases hleft : stepsLeft w.phase w.dirty = 0
      · have hdone : w.phase = .idle ∧ w.dirty = false := by
          revert hleft
          cases w.phase with
          | idle => cases w.dirty with
            | false => exact fun _ => ⟨rfl, rfl⟩
            | true => exact fun hleft => by cases hleft
          | seen | entered | resetting | wiping | keeping | swapped =>
              cases w.dirty with
              | false | true => exact fun hleft => by cases hleft
        exact ⟨0, h.file_eq hdone.1 hdone.2⟩
      · obtain ⟨k, hk⟩ := ih _ (hn ▸ h.stepsLeft_flushStep hleft) h.flushStep rfl
        exact ⟨k + 1, hk⟩

/-! ## What no flush writes -/

/-- What is in the buffer and in the queue when the next flush does not write all of it. -/
def Leaves (dirty : Bool) (buffer queue : Bytes) : FlushPhase → Prop
  | .idle => if dirty then buffer ≠ [] ∧ queue ≠ [] else buffer ++ queue ≠ []
  | .seen => buffer ≠ [] ∧ queue ≠ []
  | .entered | .keeping => dirty = false ∧ buffer ≠ [] ∧ queue ≠ []
  | .swapped => dirty = false ∧ queue ≠ []
  | .resetting | .wiping => False

theorem Leaves.ne_nil {dirty : Bool} {buffer queue : Bytes} {phase : FlushPhase}
    (h : Leaves dirty buffer queue phase) : buffer ++ queue ≠ [] := by
  intro hnil
  obtain ⟨rfl, rfl⟩ := List.append_eq_nil_iff.mp hnil
  cases phase with
  | idle =>
      cases dirty with
      | false => exact h rfl
      | true => exact h.1 rfl
  | seen => exact h.1 rfl
  | entered | keeping => exact h.2.1 rfl
  | swapped => exact h.2 rfl
  | resetting | wiping => exact h

/-- Something is left that the next flushes do not write. -/
structure Starved (written : Bytes) (w : WriterInstance) : Prop where
  logs : w.logEntryQueue = [] ∧ w.logEntryBuffer = []
  reset : w.shouldReset = false
  length : w.file.length + w.buffer.length + w.queue.length = written.length
  left : Leaves w.dirty w.buffer w.queue w.phase

theorem Starved.flushStep (h : Starved written w) : Starved written w.flushStep := by
  obtain ⟨⟨hlog, hlogBuffer⟩, hreset, hlength, hleft⟩ := h
  unfold WriterInstance.flushStep
  split
  next hphase =>
    rw [hphase] at hleft
    split
    next hdirty =>
      rw [hdirty] at hleft
      exact ⟨⟨hlog, hlogBuffer⟩, hreset, hlength, hleft⟩
    next hdirty => exact ⟨⟨hlog, hlogBuffer⟩, hreset, hlength, by rw [hphase]; exact hleft⟩
  next hphase =>
    rw [hphase] at hleft
    exact ⟨⟨hlog, hlogBuffer⟩, hreset, hlength, rfl, hleft⟩
  next hphase =>
    rw [hphase] at hleft
    rw [if_neg (by rw [hreset]; decide)]
    exact ⟨⟨hlog, hlogBuffer⟩, hreset, hlength, hleft⟩
  next hphase =>
    rw [hphase] at hleft
    exact hleft.elim
  next hphase =>
    rw [hphase] at hleft
    exact hleft.elim
  next hphase =>
    rw [hphase] at hleft
    obtain ⟨hdirty, hbuffer, hqueue⟩ := hleft
    -- The older text goes from the buffer to the queue.
    have hswap : w.swap = { w with queue := w.buffer, buffer := w.queue } := by
      rw [WriterInstance.swap, if_pos hqueue]
      exact if_neg (not_not.mpr hlog)
    rw [hswap]
    refine ⟨⟨hlog, hlogBuffer⟩, hreset, ?_, hdirty, hbuffer⟩
    rw [← hlength]
    exact Nat.add_right_comm _ _ _
  next hphase =>
    rw [hphase] at hleft
    obtain ⟨hdirty, hqueue⟩ := hleft
    refine ⟨⟨hlog, rfl⟩, hreset, ?_, ?_⟩
    · show (w.file ++ w.format w.pending).length + 0 + w.queue.length = written.length
      rw [List.length_append, length_format, pending, hlogBuffer, List.flatMap_nil, List.append_nil,
        Nat.add_zero, hlength]
    · show Leaves w.dirty [] w.queue .idle
      rw [hdirty]
      exact hqueue

theorem Starved.not_settles (h : Starved written w) : ¬Settles written w := by
  rintro ⟨n, hn⟩
  have hstarved : Starved written (WriterInstance.flushStep^[n] w) := by
    clear hn
    induction n with
    | zero => exact h
    | succ n ih =>
        rw [Function.iterate_succ_apply']
        exact ih.flushStep
  obtain ⟨-, -, hlength, hleft⟩ := hstarved
  rw [hn] at hlength
  refine hleft.ne_nil (List.append_eq_nil_iff.mpr ⟨?_, ?_⟩)
  · exact List.length_eq_zero_iff.mp (by omega)
  · exact List.length_eq_zero_iff.mp (by omega)

/-- No flush writes a separator to a file that is formatted. -/
theorem not_mem_flushStep (hfmt : w.formatFIXMessages = true) (h : internalSohChar ∉ w.file) :
    internalSohChar ∉ w.flushStep.file := by
  have hswap : w.swap.file = w.file := by
    simp only [WriterInstance.swap]
    split <;> split <;> rfl
  unfold WriterInstance.flushStep
  split
  next => split <;> exact h
  next => exact h
  next => exact h
  next => exact h
  next => exact List.not_mem_nil
  next =>
    show internalSohChar ∉ w.swap.file
    rwa [hswap]
  next =>
    intro hmem
    rcases List.mem_append.mp hmem with hfile | hpending
    · exact h hfile
    · rw [format, if_pos hfmt] at hpending
      obtain ⟨b, -, hb⟩ := List.mem_map.mp hpending
      split at hb
      next => exact absurd hb (by decide)
      next hne => exact hne hb

theorem not_settles_of_mem (hfmt : w.formatFIXMessages = true) (h : internalSohChar ∉ w.file)
    (hwritten : internalSohChar ∈ written) : ¬Settles written w := by
  rintro ⟨n, hn⟩
  have hclean : (flushStep^[n] w).formatFIXMessages = true ∧
      internalSohChar ∉ (flushStep^[n] w).file := by
    clear hn
    induction n with
    | zero => exact ⟨hfmt, h⟩
    | succ n ih =>
        rw [Function.iterate_succ_apply', formatFIXMessages_flushStep]
        exact ⟨ih.1, not_mem_flushStep ih.1 ih.2⟩
  rw [hn] at hclean
  exact hclean.2 hwritten

end WriterInstance

/-! ## Runs -/

namespace RetryState

open WriterInstance

/-- The state is what careful steps leave. -/
def Tidy (s : RetryState) : Prop := s.writer.InOrder s.written

theorem settles_iff (s : RetryState) :
    (∃ n, ((flush true)^[n] s).writer.file = s.written) ↔ s.writer.Settles s.written := by
  simp only [writer_iterate_flush, Settles]

theorem Tidy.retains {s : RetryState} (h : s.Tidy) : s.Retains :=
  ⟨h.order, fun _ => s.settles_iff.mpr h.settles⟩

theorem writer_writeRaw (w : WriterInstance) (hdr body : Bytes) :
    w.writeRaw hdr body = w.write (hdr ++ body) := by
  rw [writeRaw, write, List.append_assoc]

theorem Tidy.next {s : RetryState} {i : RetryStep} (hpossible : s.Possible i)
    (hcareful : s.Careful i) (h : s.Tidy) : (next i s).Tidy := by
  cases i with
  | write text => exact InOrder.append h hcareful
  | writeRaw hdr body =>
      show WriterInstance.InOrder (s.written ++ (hdr ++ body)) (s.writer.writeRaw hdr body)
      rw [writer_writeRaw]
      exact InOrder.append h hcareful
  | flush opens =>
      show WriterInstance.InOrder (s.flush opens).written (s.flush opens).writer
      rw [written_flush]
      by_cases hfails : Fails s opens
      · rw [writer_flush_of_fails hfails]
        exact InOrder.keep h (hcareful hfails).1 (hcareful hfails).2
      · rw [writer_flush hfails]
        exact InOrder.flushStep h

/-- What a text leaves that is written behind the buffer, or that is formatted. -/
theorem not_retains_append {s : RetryState} {data : Bytes} (hfree : s.writer.phase.locked = false)
    (h : s.Tidy) (hnot : ¬Accepts s.writer data) :
    ¬(s.append (s.writer.write data) data).Retains := by
  intro hretains
  have hdata : data ≠ [] := by
    rintro rfl
    exact hnot ⟨fun _ => .inr rfl, fun _ => List.not_mem_nil⟩
  have hqueue : s.writer.queue ++ data ≠ [] := fun hnil => hdata (List.append_eq_nil_iff.mp hnil).2
  have hsettles : (s.writer.write data).Settles (s.written ++ data) :=
    (settles_iff _).mp (hretains.written fun hnil => hqueue (List.append_eq_nil_iff.mp hnil).2)
  by_cases hclean : s.writer.formatFIXMessages = true → internalSohChar ∉ data
  · have hbehind : s.writer.phase ≠ .swapped ∧ s.writer.buffer ≠ [] := by
      by_contra hno
      refine hnot ⟨fun hphase => .inl ?_, hclean⟩
      by_contra hbuffer
      exact hno ⟨hphase, hbuffer⟩
    refine Starved.not_settles (w := s.writer.write data) ⟨h.logs, h.noReset.1, ?_, ?_⟩ hsettles
    · show s.writer.file.length + s.writer.buffer.length + (s.writer.queue ++ data).length = _
      rw [← h.order]
      simp only [List.length_append, Nat.add_assoc]
    · have hwipes := h.noReset.2
      obtain ⟨hphase, hbuffer⟩ := hbehind
      show Leaves true s.writer.buffer (s.writer.queue ++ data) s.writer.phase
      cases hp : s.writer.phase with
      | idle | seen => exact ⟨hbuffer, hqueue⟩
      | entered | keeping =>
          rw [hp] at hfree
          cases hfree
      | resetting | wiping =>
          rw [hp] at hwipes
          cases hwipes
      | swapped => exact (hphase hp).elim
  · obtain ⟨hfmt, hmem⟩ := Classical.not_imp.mp hclean
    have hfile : internalSohChar ∉ s.writer.file := by
      intro hmem
      refine h.clean hfmt ?_
      rw [← h.order]
      exact List.mem_append_left _ (List.mem_append_left _ hmem)
    exact not_settles_of_mem (w := s.writer.write data) hfmt hfile
      (List.mem_append_right _ (not_not.mp hmem)) hsettles

/-- What a file leaves that does not open. -/
theorem not_retains_flush {s : RetryState} {opens : Bool} (h : s.Tidy) (hfails : Fails s opens)
    (hnot : ¬(s.writer.dirty = true ∧ s.writer.queue = [])) : ¬(s.flush opens).Retains := by
  intro hretains
  have hbuffer : s.writer.keep.buffer = s.writer.buffer := by
    show s.writer.format s.writer.pending = s.writer.buffer
    rw [h.pending_eq, h.format_buffer]
  have hne : s.writer.buffer ≠ [] := by
    rw [← h.pending_eq]
    exact hfails.pending
  have hwritten := hretains.written
  rw [settles_iff, writer_flush_of_fails hfails, written_flush] at hwritten
  refine Starved.not_settles (w := s.writer.keep) ⟨⟨h.logs.1, rfl⟩, h.noReset.1, ?_, ?_⟩
    (hwritten fun hnil => hne ?_)
  · rw [hbuffer, ← h.order]
    simp only [List.length_append]
    rfl
  · rw [hbuffer]
    show Leaves s.writer.dirty s.writer.buffer s.writer.queue .idle
    cases hdirty : s.writer.dirty with
    | false => exact fun hnil => hne (List.append_eq_nil_iff.mp hnil).1
    | true => exact ⟨hne, fun hqueue => hnot ⟨hdirty, hqueue⟩⟩
  · rw [← hbuffer]
    exact (List.append_eq_nil_iff.mp hnil).1

theorem not_retains_of_not_careful {s : RetryState} {i : RetryStep} (hpossible : s.Possible i)
    (hnot : ¬s.Careful i) (h : s.Tidy) : ¬(RetryState.next i s).Retains := by
  cases i with
  | write text => exact not_retains_append hpossible h hnot
  | writeRaw hdr body =>
      show ¬(s.append (s.writer.writeRaw hdr body) (hdr ++ body)).Retains
      rw [writer_writeRaw]
      exact not_retains_append hpossible h hnot
  | flush opens =>
      obtain ⟨hfails, hstuck⟩ := Classical.not_imp.mp hnot
      exact not_retains_flush h hfails hstuck

/-- A run keeps the order of what is written, and loses nothing, exactly if a file only fails
to open for an instance that is dirty with an empty queue, nothing is written behind the buffer
that is kept then, and the formatting of the instance has nothing to replace. -/
theorem retains_iff (formatFIXMessages : Bool) {steps : List RetryStep}
    (h : Run.AllowedAlong next Possible (new formatFIXMessages) steps) :
    (∀ before, before <+: steps → (Run.runOf next (new formatFIXMessages) before).Retains) ↔
      Run.AllowedAlong next Careful (new formatFIXMessages) steps := by
  have htidy : (new formatFIXMessages).Tidy := inOrder_new formatFIXMessages
  refine Run.holds_along_iff (fun s i hpossible hcareful hs => ?_) (fun s hs => hs.retains)
    (fun s i hpossible hcareful hs => ?_) htidy h
  · exact hs.next hpossible hcareful
  · exact not_retains_of_not_careful hpossible hcareful hs

/-- The file does not open at first, while a write of no text marks the instance. -/
def retriedSteps : List RetryStep :=
  .write (ascii "a") :: List.replicate 4 (.flush true) ++
    .write [] :: .flush false :: List.replicate 5 (.flush true)

theorem retains_iff_test :
    Run.AllowedAlong next Careful (new false) retriedSteps ∧
      ∀ before, before <+: retriedSteps → (Run.runOf next (new false) before).Retains := by
  have hpossible : Run.AllowedAlong next Possible (new false) retriedSteps := by
    repeat' constructor
  have hopens : ∀ s, Careful s (.flush true) := fun s h => by cases h.opens
  have hwrites : Accepts (new false).writer (ascii "a") :=
    ⟨fun _ => .inl rfl, fun h => by cases h⟩
  have hmarks : ∀ {w : WriterInstance}, w.formatFIXMessages = false → Accepts w [] :=
    fun hfmt => ⟨fun _ => .inr rfl, fun h => by rw [hfmt] at h; cases h⟩
  have hcareful : Run.AllowedAlong next Careful (new false) retriedSteps :=
    ⟨hwrites, hopens _, hopens _, hopens _, hopens _, hmarks rfl, fun _ => ⟨rfl, rfl⟩, hopens _,
      hopens _, hopens _, hopens _, hopens _, trivial⟩
  exact ⟨hcareful, (retains_iff false hpossible).mpr hcareful⟩

/-- The file does not open for the first text, and the second one comes before it. -/
def reorderedSteps : List RetryStep :=
  .write (ascii "a") :: List.replicate 4 (.flush true) ++
    .flush false :: .write (ascii "b") :: List.replicate 5 (.flush true)

theorem not_retains : ¬∀ (formatFIXMessages : Bool) (steps : List RetryStep),
    Run.AllowedAlong next Possible (new formatFIXMessages) steps →
      ∀ before, before <+: steps →
        (Run.runOf next (new formatFIXMessages) before).Retains := by
  intro h
  have hpossible : Run.AllowedAlong next Possible (new false) reorderedSteps := by
    repeat' constructor
  have horder := (h false reorderedSteps hpossible _ List.prefix_rfl).order
  exact absurd horder (by decide)

end RetryState

end OpenFix
