import OpenFix.Timestamp

/-!
# The file writer

Whoever has something for a file appends it to the queue of a `WriterInstance`,
and the writer thread moves the queue to the file in `flushInstances`.  `reset`
takes no lock: it raises a flag that the next flush acts on.

The calls run next to each other, so a flush is a machine that takes one step at
a time, and so is a reset between its two stores.  A call of `write` holds the
mutex from begin to end and is one step, which the flush does not allow while it
holds the mutex itself.  Files open whenever they are opened, and what the stream
object holds of its state is not modelled.
-/

namespace OpenFix

/-! ## What is written -/

/-- `YYYYMMDD-HH:MM:SS.uuuuuu`. -/
def formatTimestampMicros (epochUs : Int) : Bytes :=
  let epochS := epochUs.tdiv 1000000
  let us := epochUs.tmod 1000000
  let date := civilFromDays (epochS / 86400)
  let sec := epochS % 86400
  (padDigits 4 date.1 ++ padDigits 2 date.2.1 ++ padDigits 2 date.2.2 ++ ascii "-" ++
    padDigits 2 (sec / 3600) ++ ascii ":" ++ padDigits 2 (sec / 60 % 60) ++ ascii ":" ++
    padDigits 2 (sec % 60) ++ ascii "." ++
    (if us < 0 then ascii "-" ++ padDigits 5 (-us) else padDigits 6 us)).take 24

structure LogEntry where
  epochUs : Int
  inbound : Bool
  msg : Bytes

/-- The line of the log that an entry becomes. -/
def LogEntry.format (entry : LogEntry) : Bytes :=
  formatTimestampMicros entry.epochUs ++
    ascii (if entry.inbound then " RECV: " else " SENT: ") ++ entry.msg ++ [10]

/-- How far the writer thread is in `flushInstances`. -/
inductive FlushPhase where
  /-- It is not at this instance. -/
  | idle
  /-- It found the instance dirty. -/
  | seen
  /-- It took the mutex and cleared the dirty flag. -/
  | entered
  /-- It found the reset flag. -/
  | resetting
  /-- It cleared the reset flag. -/
  | wiping
  /-- It did not find the reset flag. -/
  | keeping
  /-- It swapped the buffers and released the mutex. -/
  | swapped
deriving Repr, DecidableEq

/-- The mutex of the instance is held. -/
def FlushPhase.locked : FlushPhase → Bool
  | .entered | .resetting | .wiping | .keeping => true
  | .idle | .seen | .swapped => false

/-! ## An instance and its flush -/

structure WriterInstance where
  buffer : Bytes
  queue : Bytes
  logEntryQueue : List LogEntry
  logEntryBuffer : List LogEntry
  shouldReset : Bool
  dirty : Bool
  formatFIXMessages : Bool
  /-- What the file holds. -/
  file : Bytes
  phase : FlushPhase
  /-- The calls of `reset` that are between their two stores. -/
  resets : Nat

namespace WriterInstance

/-- An instance as it is constructed, on an empty file. -/
def new (formatFIXMessages : Bool) : WriterInstance :=
  ⟨[], [], [], [], false, false, formatFIXMessages, [], .idle, 0⟩

def write (w : WriterInstance) (text : Bytes) : WriterInstance :=
  { w with queue := w.queue ++ text, dirty := true }

def writeRaw (w : WriterInstance) (hdr body : Bytes) : WriterInstance :=
  { w with queue := w.queue ++ hdr ++ body, dirty := true }

def writeMessage (w : WriterInstance) (entry : LogEntry) : WriterInstance :=
  { w with logEntryQueue := w.logEntryQueue ++ [entry], dirty := true }

/-- A call of `reset` that nothing disturbs. -/
def reset (w : WriterInstance) : WriterInstance := { w with shouldReset := true, dirty := true }

/-- What the file gets for a buffer. -/
def format (w : WriterInstance) (buffer : Bytes) : Bytes :=
  if w.formatFIXMessages then
    buffer.map fun b => if b = internalSohChar then externalSohChar else b
  else buffer

/-- Empty everything and truncate the file. -/
def wipe (w : WriterInstance) : WriterInstance :=
  { w with queue := [], buffer := [], logEntryQueue := [], logEntryBuffer := [], file := [] }

/-- Exchange what is queued for the buffers, unless nothing is. -/
def swap (w : WriterInstance) : WriterInstance :=
  let w := if w.queue ≠ [] then { w with queue := w.buffer, buffer := w.queue } else w
  if w.logEntryQueue ≠ [] then
    { w with logEntryQueue := w.logEntryBuffer, logEntryBuffer := w.logEntryQueue }
  else w

/-- Append the buffer and the formatted entries to the file. -/
def output (w : WriterInstance) : WriterInstance :=
  { w with
    file := w.file ++ w.format (w.buffer ++ w.logEntryBuffer.flatMap LogEntry.format)
    buffer := []
    logEntryBuffer := [] }

/-- One step of `flushInstances`. -/
def flushStep (w : WriterInstance) : WriterInstance :=
  match w.phase with
  | .idle => if w.dirty then { w with phase := .seen } else w
  | .seen => { w with phase := .entered, dirty := false }
  | .entered => { w with phase := if w.shouldReset then .resetting else .keeping }
  | .resetting => { w with phase := .wiping, shouldReset := false }
  | .wiping => { w.wipe with phase := .idle }
  | .keeping => { w.swap with phase := .swapped }
  | .swapped => { w.output with phase := .idle }

/-- A flush that nothing disturbs. -/
def flushInstances (w : WriterInstance) : WriterInstance :=
  if !w.dirty then w
  else
    let w := { w with dirty := false }
    if w.shouldReset then { w with shouldReset := false }.wipe
    else w.swap.output

/-- An undisturbed flush is the run of its steps. -/
theorem flushInstances_eq (w : WriterInstance) (h : w.phase = .idle) :
    ∃ n, flushStep^[n] w = w.flushInstances := by
  obtain ⟨buffer, queue, logEntryQueue, logEntryBuffer, shouldReset, dirty, fmt, file, phase,
    resets⟩ := w
  subst h
  cases dirty with
  | false => exact ⟨0, rfl⟩
  | true =>
      refine ⟨5, ?_⟩
      cases shouldReset with
      | true => rfl
      | false =>
          simp only [Function.iterate_succ, Function.iterate_zero, Function.comp, id, flushStep,
            flushInstances, swap, if_true, Bool.not_true, Bool.false_eq_true, if_false]
          split <;> split <;> rfl

end WriterInstance

/-! ## Runs -/

/-- A step of one of the threads. -/
inductive WriterStep where
  | write (text : Bytes)
  | writeRaw (hdr body : Bytes)
  | writeMessage (entry : LogEntry)
  /-- The first store of `reset`. -/
  | resetFlag
  /-- The second store of `reset`. -/
  | resetDirty
  /-- The writer thread goes on with its flush. -/
  | flush

namespace WriterInstance

/-- What a step does, when it can be taken. -/
def step (w : WriterInstance) : WriterStep → Option WriterInstance
  | .write text => if w.phase.locked then none else some (w.write text)
  | .writeRaw hdr body => if w.phase.locked then none else some (w.writeRaw hdr body)
  | .writeMessage entry => if w.phase.locked then none else some (w.writeMessage entry)
  | .resetFlag => some { w with shouldReset := true, resets := w.resets + 1 }
  | .resetDirty =>
      if w.resets = 0 then none else some { w with dirty := true, resets := w.resets - 1 }
  | .flush => some w.flushStep

end WriterInstance

/-- Every step but that of the message log. -/
def WriterStep.IsText : WriterStep → Prop
  | .writeMessage _ => False
  | _ => True

/-- The data that a step writes. -/
def WriterStep.data : WriterStep → Bytes
  | .write text => text
  | .writeRaw hdr body => hdr ++ body
  | .writeMessage _ | .resetFlag | .resetDirty | .flush => []

/-- What was written since the last reset, and the part of it that was written while
the reset was waiting for a flush. -/
structure Ledger where
  written : Bytes
  waiting : Bytes

/-- The entry of a step that finds the instance like this. -/
def Ledger.step (l : Ledger) (w : WriterInstance) : WriterStep → Ledger
  | .resetFlag => ⟨[], []⟩
  | s => ⟨l.written ++ s.data, if w.shouldReset then l.waiting ++ s.data else l.waiting⟩

/-- A run of the threads from a new instance that logs no message, with its ledger. -/
inductive WriterRun (formatFIXMessages : Bool) : Ledger → WriterInstance → Prop where
  | new : WriterRun formatFIXMessages ⟨[], []⟩ (.new formatFIXMessages)
  | step {l : Ledger} {w w' : WriterInstance} (s : WriterStep) (h : WriterRun formatFIXMessages l w)
      (htext : s.IsText) (hs : w.step s = some w') : WriterRun formatFIXMessages (l.step w s) w'

/-! ## The invariant -/

namespace WriterInstance

/-- A reset has not emptied the file yet. -/
def Awaits (w : WriterInstance) : Prop :=
  w.shouldReset = true ∨ w.phase = .resetting ∨ w.phase = .wiping

/-- What the threads keep. -/
structure Sound (l : Ledger) (w : WriterInstance) : Prop where
  logs : w.logEntryQueue = [] ∧ w.logEntryBuffer = []
  buffer : w.phase ≠ .swapped → w.buffer = []
  /-- What waits is dropped. -/
  waiting : w.Awaits → l.written = l.waiting
  /-- What did not wait is in the file, the buffer and the queue. -/
  kept : ¬w.Awaits → ∃ kept, l.written = l.waiting ++ kept ++ w.buffer ++ w.queue ∧
    w.file = w.format kept
  /-- A reset that waits will be seen. -/
  noticed : w.shouldReset = true →
    w.dirty = true ∨ 0 < w.resets ∨ w.phase = .entered ∨ w.phase = .resetting
  /-- What is queued will be seen. -/
  queued : w.queue ≠ [] → w.phase.locked = true ∨ w.dirty = true

theorem format_append (w : WriterInstance) (a b : Bytes) :
    w.format (a ++ b) = w.format a ++ w.format b := by
  unfold format
  split
  · exact List.map_append
  · rfl

theorem length_format (w : WriterInstance) (b : Bytes) : (w.format b).length = b.length := by
  unfold format
  split
  · exact List.length_map _
  · rfl

/-! ## What the steps keep -/

/-- A call of `write` or `writeRaw`. -/
theorem Sound.append {l : Ledger} {w : WriterInstance} (h : Sound l w) (data : Bytes)
    (hfree : w.phase.locked = false) :
    Sound ⟨l.written ++ data, if w.shouldReset then l.waiting ++ data else l.waiting⟩
      { w with queue := w.queue ++ data, dirty := true } := by
  have hphase : w.phase ≠ .resetting ∧ w.phase ≠ .wiping := by
    constructor
    · intro hp
      rw [hp] at hfree
      cases hfree
    · intro hp
      rw [hp] at hfree
      cases hfree
  refine ⟨h.logs, h.buffer, fun hawaits => ?_, fun hfresh => ?_, fun _ => .inl rfl,
    fun _ => .inr rfl⟩
  · rcases hawaits with hreset | hp | hp
    · rw [h.waiting (.inl hreset), if_pos hreset]
    · exact (hphase.1 hp).elim
    · exact (hphase.2 hp).elim
  · obtain ⟨kept, hwritten, hfile⟩ := h.kept hfresh
    refine ⟨kept, ?_, hfile⟩
    rw [if_neg fun hreset => hfresh (.inl hreset), hwritten]
    simp only [List.append_assoc]

theorem Sound.resetFlag {l : Ledger} {w : WriterInstance} (h : Sound l w) :
    Sound ⟨[], []⟩ { w with shouldReset := true, resets := w.resets + 1 } :=
  ⟨h.logs, h.buffer, fun _ => rfl, fun hfresh => (hfresh (.inl rfl)).elim,
    fun _ => .inr (.inl (Nat.succ_pos _)), h.queued⟩

theorem Sound.resetDirty {l : Ledger} {w : WriterInstance} (h : Sound l w) :
    Sound l { w with dirty := true, resets := w.resets - 1 } :=
  ⟨h.logs, h.buffer, h.waiting, h.kept, fun _ => .inl rfl, fun _ => .inr rfl⟩

/-- With an empty buffer and no entries, a swap moves the queue to the buffer. -/
theorem swap_eq (w : WriterInstance) (hlog : w.logEntryQueue = []) (hbuffer : w.buffer = []) :
    w.swap = { w with queue := [], buffer := w.queue } := by
  obtain ⟨buffer, queue, logEntryQueue, logEntryBuffer, shouldReset, dirty, fmt, file, phase,
    resets⟩ := w
  subst hlog
  subst hbuffer
  unfold swap
  cases queue with
  | nil => rfl
  | cons b rest => rfl

section

variable {l : Ledger} {w : WriterInstance}

/-- A step that only moves the phase on, and may clear the dirty flag. -/
theorem Sound.move (h : Sound l w) {phase : FlushPhase} {dirty : Bool}
    (hbefore : w.phase ≠ .resetting ∧ w.phase ≠ .wiping)
    (hafter : phase ≠ .resetting ∧ phase ≠ .wiping) (hbuffer : w.buffer = [])
    (hnoticed : w.shouldReset = true → dirty = true ∨ phase = .entered)
    (hqueued : w.queue ≠ [] → phase.locked = true ∨ dirty = true) :
    Sound l { w with phase := phase, dirty := dirty } := by
  have hawaits : WriterInstance.Awaits { w with phase := phase, dirty := dirty } ↔ w.Awaits := by
    simp only [Awaits, hbefore.1, hbefore.2, hafter.1, hafter.2]
  refine ⟨h.logs, fun _ => hbuffer, fun ha => h.waiting (hawaits.mp ha),
    fun ha => h.kept fun hw => ha (hawaits.mpr hw), fun hreset => ?_, hqueued⟩
  rcases hnoticed hreset with hd | he
  · exact .inl hd
  · exact .inr (.inr (.inl he))

/-- A reset that waits is not seen by the step that is under way. -/
theorem Sound.noticed_later (h : Sound l w) (hphase : w.phase ≠ .entered ∧ w.phase ≠ .resetting)
    (hreset : w.shouldReset = true) : w.dirty = true ∨ 0 < w.resets := by
  rcases h.noticed hreset with hd | hr | he | he
  · exact .inl hd
  · exact .inr hr
  · exact (hphase.1 he).elim
  · exact (hphase.2 he).elim

/-- What did not wait is kept while the reset flag is down and nothing is wiped. -/
theorem Sound.kept_of_fresh (h : Sound l w) (hphase : w.phase ≠ .resetting ∧ w.phase ≠ .wiping)
    (hfresh : w.shouldReset ≠ true) :
    ∃ kept, l.written = l.waiting ++ kept ++ w.buffer ++ w.queue ∧ w.file = w.format kept := by
  refine h.kept ?_
  rintro (hreset | hp | hp)
  · exact hfresh hreset
  · exact hphase.1 hp
  · exact hphase.2 hp

/-- The flush found the reset flag. -/
theorem Sound.findReset (h : Sound l w) (hp : w.phase = .entered) (hreset : w.shouldReset = true) :
    Sound l { w with phase := .resetting } where
  logs := h.logs
  buffer _ := h.buffer (by rw [hp]; decide)
  waiting _ := h.waiting (.inl hreset)
  kept hfresh := (hfresh (.inl hreset)).elim
  noticed _ := .inr (.inr (.inr rfl))
  queued _ := .inl rfl

/-- It takes the flag down, and what waits is still to be dropped. -/
theorem Sound.takeReset (h : Sound l w) (hp : w.phase = .resetting) :
    Sound l { w with phase := .wiping, shouldReset := false } where
  logs := h.logs
  buffer _ := h.buffer (by rw [hp]; decide)
  waiting _ := h.waiting (.inr (.inl hp))
  kept hfresh := (hfresh (.inr (.inr rfl))).elim
  noticed hreset := by cases hreset
  queued _ := .inl rfl

theorem Sound.wiped (h : Sound l w) (hp : w.phase = .wiping) :
    Sound l { w.wipe with phase := .idle } where
  logs := ⟨rfl, rfl⟩
  buffer _ := rfl
  waiting _ := h.waiting (.inr (.inr hp))
  kept _ := by
    refine ⟨[], ?_, ?_⟩
    · simp [wipe, h.waiting (.inr (.inr hp))]
    · simp [wipe, format]
  noticed hreset := by
    rcases h.noticed_later (by rw [hp]; decide) hreset with hd | hr
    · exact .inl hd
    · exact .inr (.inl hr)
  queued hq := (hq rfl).elim

theorem Sound.swapped (h : Sound l w) (hp : w.phase = .keeping) :
    Sound l { w.swap with phase := .swapped } := by
  have hbuffer := h.buffer (by rw [hp]; decide)
  rw [w.swap_eq h.logs.1 hbuffer]
  constructor
  case logs => exact h.logs
  case buffer => exact fun hne => (hne rfl).elim
  case waiting =>
    rintro (hreset | hp' | hp')
    · exact h.waiting (.inl hreset)
    · cases hp'
    · cases hp'
  case kept =>
    intro hfresh
    obtain ⟨kept, hwritten, hfile⟩ :=
      h.kept_of_fresh (by rw [hp]; decide) fun hreset => hfresh (.inl hreset)
    refine ⟨kept, ?_, hfile⟩
    rw [hwritten, hbuffer]
    simp
  case noticed =>
    intro hreset
    rcases h.noticed_later (by rw [hp]; decide) hreset with hd | hr
    · exact .inl hd
    · exact .inr (.inl hr)
  case queued => exact fun hq => (hq rfl).elim

theorem Sound.flushed (h : Sound l w) (hp : w.phase = .swapped) :
    Sound l { w.output with phase := .idle } := by
  obtain ⟨hlog, hlogBuffer⟩ := h.logs
  constructor
  case logs => exact ⟨hlog, rfl⟩
  case buffer => exact fun _ => rfl
  case waiting =>
    rintro (hreset | hp' | hp')
    · exact h.waiting (.inl hreset)
    · cases hp'
    · cases hp'
  case kept =>
    intro hfresh
    obtain ⟨kept, hwritten, hfile⟩ :=
      h.kept_of_fresh (by rw [hp]; decide) fun hreset => hfresh (.inl hreset)
    refine ⟨kept ++ w.buffer, ?_, ?_⟩
    · rw [hwritten]
      simp [output]
    · change w.file ++ w.format (w.buffer ++ w.logEntryBuffer.flatMap LogEntry.format) =
        w.format (kept ++ w.buffer)
      rw [hlogBuffer, List.flatMap_nil, List.append_nil, hfile, format_append]
  case noticed =>
    intro hreset
    rcases h.noticed_later (by rw [hp]; decide) hreset with hd | hr
    · exact .inl hd
    · exact .inr (.inl hr)
  case queued =>
    intro hq
    rcases h.queued hq with hl | hd
    · rw [hp] at hl
      cases hl
    · exact .inr hd

/-- A step of the flush. -/
theorem Sound.flush (h : Sound l w) : Sound l w.flushStep := by
  unfold flushStep
  split
  next hp =>
    split
    next hdirty =>
      have hsound : Sound l { w with phase := .seen, dirty := w.dirty } :=
        h.move (by rw [hp]; decide) (by decide) (h.buffer (by rw [hp]; decide))
          (fun _ => .inl hdirty) fun _ => .inr hdirty
      exact hsound
    next => exact h
  next hp =>
    exact h.move (by rw [hp]; decide) (by decide) (h.buffer (by rw [hp]; decide))
      (fun _ => .inr rfl) fun _ => .inl rfl
  next hp =>
    split
    next hreset => exact h.findReset hp hreset
    next hreset =>
      have hsound : Sound l { w with phase := .keeping, dirty := w.dirty } :=
        h.move (by rw [hp]; decide) (by decide) (h.buffer (by rw [hp]; decide))
          (fun hr => (hreset hr).elim) fun _ => .inl rfl
      exact hsound
  next hp => exact h.takeReset hp
  next hp => exact h.wiped hp
  next hp => exact h.swapped hp
  next hp => exact h.flushed hp

end

theorem Sound.step {l : Ledger} {w w' : WriterInstance} (h : Sound l w) {s : WriterStep}
    (htext : s.IsText) (hs : w.step s = some w') : Sound (l.step w s) w' := by
  have hidle : ∀ {l' : Ledger}, l' = ⟨l.written ++ [], if w.shouldReset then l.waiting ++ [] else
      l.waiting⟩ → l' = l := by
    rintro _ rfl
    simp
  cases s with
  | write text =>
      simp only [WriterInstance.step] at hs
      split at hs
      next => cases hs
      next hfree =>
        cases hs
        exact h.append text (by simpa using hfree)
  | writeRaw hdr body =>
      simp only [WriterInstance.step] at hs
      split at hs
      next => cases hs
      next hfree =>
        cases hs
        have hraw : w.writeRaw hdr body = { w with queue := w.queue ++ (hdr ++ body), dirty := true } := by
          rw [writeRaw, List.append_assoc]
        rw [hraw]
        exact h.append (hdr ++ body) (by simpa using hfree)
  | writeMessage entry => exact htext.elim
  | resetFlag =>
      cases hs
      exact h.resetFlag
  | resetDirty =>
      simp only [WriterInstance.step] at hs
      split at hs
      next => cases hs
      next =>
        cases hs
        rw [show l.step w .resetDirty = l from hidle rfl]
        exact h.resetDirty
  | flush =>
      cases hs
      rw [show l.step w .flush = l from hidle rfl]
      exact h.flush

theorem formatFIXMessages_flushStep (w : WriterInstance) :
    w.flushStep.formatFIXMessages = w.formatFIXMessages := by
  have hswap : w.swap.formatFIXMessages = w.formatFIXMessages := by
    simp only [swap]
    split <;> split <;> rfl
  unfold flushStep
  split
  next => split <;> rfl
  next => rfl
  next => rfl
  next => rfl
  next => rfl
  next => exact hswap
  next => rfl

theorem formatFIXMessages_step {w w' : WriterInstance} {s : WriterStep} (h : w.step s = some w') :
    w'.formatFIXMessages = w.formatFIXMessages := by
  cases s with
  | flush =>
      cases h
      exact w.formatFIXMessages_flushStep
  | _ =>
      simp only [WriterInstance.step, Option.some.injEq] at h
      first
      | (subst h; rfl)
      | (split at h
         · cases h
         · cases h
           rfl)

/-! ## Whole runs -/

theorem sound_of_run {fmt : Bool} {l : Ledger} {w : WriterInstance} (h : WriterRun fmt l w) :
    Sound l w ∧ w.formatFIXMessages = fmt := by
  induction h with
  | new =>
      exact ⟨⟨⟨rfl, rfl⟩, fun _ => rfl, fun _ => rfl, fun _ => ⟨[], rfl, by simp [new, format]⟩,
        (fun h => Bool.noConfusion h), fun h => (h rfl).elim⟩, rfl⟩
  | step s _ htext hs ih => exact ⟨ih.1.step htext hs, (formatFIXMessages_step hs).trans ih.2⟩

/-- An undisturbed flush of a sound instance whose threads are done. -/
theorem Sound.flushInstances {l : Ledger} {w : WriterInstance} (h : Sound l w)
    (hidle : w.phase = .idle) (hresets : w.resets = 0) :
    ∃ kept, l.written = l.waiting ++ kept ∧ w.flushInstances.file = w.format kept := by
  have hawaits : w.Awaits ↔ w.shouldReset = true := by simp [Awaits, hidle]
  have hbuffer := h.buffer (by rw [hidle]; decide)
  unfold WriterInstance.flushInstances
  cases hdirty : w.dirty with
  | false =>
      -- Nothing is left to do.
      have hreset : ¬w.Awaits := by
        intro ha
        rcases h.noticed (hawaits.mp ha) with hd | hr | he | he
        · rw [hdirty] at hd
          cases hd
        · omega
        · rw [hidle] at he
          cases he
        · rw [hidle] at he
          cases he
      have hqueue : w.queue = [] := by
        by_contra hq
        rcases h.queued hq with hl | hd
        · rw [hidle] at hl
          cases hl
        · rw [hdirty] at hd
          cases hd
      obtain ⟨kept, hwritten, hfile⟩ := h.kept hreset
      exact ⟨kept, by simpa [hbuffer, hqueue] using hwritten, hfile⟩
  | true =>
      cases hreset : w.shouldReset with
      | true => exact ⟨[], by simp [h.waiting (hawaits.mpr hreset)], by simp [wipe, format]⟩
      | false =>
          obtain ⟨kept, hwritten, hfile⟩ := h.kept fun ha => by
            rw [hawaits.mp ha] at hreset
            cases hreset
          refine ⟨kept ++ w.queue, by simpa [hbuffer] using hwritten, ?_⟩
          simp only [Bool.not_true, Bool.false_eq_true, if_false]
          rw [swap_eq { w with shouldReset := false, dirty := false } h.logs.1 hbuffer, format_append,
            ← hfile]
          simp only [output, h.logs.2, List.flatMap_nil, List.append_nil]
          rfl

/-! ## What a flush leaves in the file -/

/-- Formatting leaves exactly the texts without separators alone. -/
theorem format_eq_self_iff (w : WriterInstance) (b : Bytes) :
    w.format b = b ↔ (w.formatFIXMessages = true → internalSohChar ∉ b) := by
  unfold format
  split
  next hfmt =>
    constructor
    · rintro hb - hmem
      have hout : internalSohChar ∈ b.map fun c => if c = internalSohChar then externalSohChar else c := by
        rwa [hb]
      obtain ⟨c, -, hc⟩ := List.mem_map.mp hout
      split at hc
      next => exact absurd hc (by decide)
      next hne => exact hne hc
    · intro hno
      refine (List.map_congr_left fun c hc => ?_).trans (List.map_id b)
      have hne : c ≠ internalSohChar := by
        rintro rfl
        exact hno hfmt hc
      exact if_neg hne
  next hfmt => simp [hfmt]

/-- After a last flush the file holds what was written since the last reset exactly if
nothing was written while that reset waited for a flush, and the formatting of the
instance has nothing to replace. -/
theorem flushInstances_file_iff {fmt : Bool} {l : Ledger} {w : WriterInstance}
    (h : WriterRun fmt l w) (hidle : w.phase = .idle) (hresets : w.resets = 0) :
    w.flushInstances.file = l.written ↔
      l.waiting = [] ∧ (fmt = true → internalSohChar ∉ l.written) := by
  obtain ⟨hsound, rfl⟩ := sound_of_run h
  obtain ⟨kept, hwritten, hfile⟩ := hsound.flushInstances hidle hresets
  rw [hfile, hwritten]
  constructor
  · intro heq
    have hwaiting : l.waiting = [] := by
      have hlen := congrArg List.length heq
      rw [length_format, List.length_append] at hlen
      exact List.length_eq_zero_iff.mp (by omega)
    rw [hwaiting, List.nil_append] at heq ⊢
    exact ⟨rfl, (w.format_eq_self_iff kept).mp heq⟩
  · rintro ⟨hwaiting, hclean⟩
    rw [hwaiting, List.nil_append] at hclean ⊢
    exact (w.format_eq_self_iff kept).mpr hclean

/-- An instance that was written to after a reset was flushed. -/
def flushedWriter : WriterInstance :=
  (flushStep^[5] { new false with shouldReset := true, dirty := true }).write (ascii "a")

theorem writerRun_flushedWriter : WriterRun false ⟨ascii "a", []⟩ flushedWriter := by
  have hnew : WriterRun false ⟨[], []⟩ (.new false) := .new
  have hreset := hnew.step .resetFlag trivial rfl
  have hdirty := hreset.step .resetDirty trivial rfl
  have hflush : ∀ {l : Ledger} {w : WriterInstance}, WriterRun false l w →
      WriterRun false (l.step w .flush) w.flushStep := fun h => h.step .flush trivial rfl
  exact (hflush (hflush (hflush (hflush (hflush hdirty))))).step (.write (ascii "a")) trivial rfl

/-- A last flush keeps what was written. -/
theorem flushInstances_file_test : flushedWriter.flushInstances.file = ascii "a" ↔
    ([] : Bytes) = [] ∧ (false = true → internalSohChar ∉ ascii "a") :=
  flushInstances_file_iff writerRun_flushedWriter rfl rfl

/-- What is written between a reset and the next flush is lost. -/
theorem not_flushInstances_file : ¬∀ (fmt : Bool) (l : Ledger) (w : WriterInstance),
    WriterRun fmt l w → w.phase = .idle → w.resets = 0 → w.flushInstances.file = l.written := by
  intro h
  have hnew : WriterRun false ⟨[], []⟩ (.new false) := .new
  have hreset := hnew.step .resetFlag trivial rfl
  have hdirty := hreset.step .resetDirty trivial rfl
  have hwrite := hdirty.step (.write (ascii "a")) trivial rfl
  have hfile := h _ _ _ hwrite rfl rfl
  exact absurd hfile (by decide)

end WriterInstance

end OpenFix
