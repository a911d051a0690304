import OpenFix.Store

/-!
# What the records of a store decode to

The handle of a session calls its store at any time, and the writer thread flushes
at any time.  The file, the buffer of the flush and the queue hold whole records,
in the order of the calls, so what is in the file at any moment is what the first
of the calls wrote.  Its data are the last numbers and the last text of each
sequence number.
-/

namespace OpenFix

/-- A call of a store that writes a record. -/
inductive StoreCall where
  | store (seqnum : Int32) (msg : Text)
  | setSenderSeqNum (num : Int32)
  | setTargetSeqNum (num : Int32)

namespace StoreCall

def op : StoreCall → StoreOp
  | .store seqnum msg => .store seqnum.toInt msg.bytes
  | .setSenderSeqNum num => .setSenderSeqNum num.toInt
  | .setTargetSeqNum num => .setTargetSeqNum num.toInt

/-- The sender number that the call sets. -/
def sender? : StoreCall → Option Int
  | .setSenderSeqNum num => some num.toInt
  | .store _ _ | .setTargetSeqNum _ => none

/-- The target number that the call sets. -/
def target? : StoreCall → Option Int
  | .setTargetSeqNum num => some num.toInt
  | .store _ _ | .setSenderSeqNum _ => none

/-- The text that the call stores under a number. -/
def message? (seqnum : Int) : StoreCall → Option Bytes
  | .store num msg => if num.toInt = seqnum then some msg.bytes else none
  | .setSenderSeqNum _ | .setTargetSeqNum _ => none

theorem storable_op (c : StoreCall) : c.op.Storable := by
  cases c with
  | store seqnum msg => exact ⟨StoredCache.isInt_toInt seqnum, msg.length_lt⟩
  | setSenderSeqNum num => exact StoredCache.isInt_toInt num
  | setTargetSeqNum num => exact StoredCache.isInt_toInt num

/-- The records of some calls. -/
def records (calls : List StoreCall) : Bytes := (calls.map op).flatMap StoreOp.record

@[simp] theorem records_nil : records [] = [] := rfl

@[simp] theorem records_append (calls calls' : List StoreCall) :
    records (calls ++ calls') = records calls ++ records calls' := by
  simp [records]

end StoreCall

/-- A file loads as the last numbers and the last texts that some calls wrote. -/
def Decodes (file : Bytes) (calls : List StoreCall) : Prop :=
  ∃ data, StoreHandle.load file = .ok data ∧
    data.senderSeqNum = (calls.filterMap StoreCall.sender?).getLast?.getD 1 ∧
    data.targetSeqNum = (calls.filterMap StoreCall.target?).getLast?.getD 1 ∧
    ∀ seqnum, data.messages.find? seqnum =
      (calls.filterMap (StoreCall.message? seqnum)).getLast?

/-! ## The data of the records -/

namespace StoreCall

/-- The last of the values that elements of a list set replaces the one before. -/
theorem getLast?_filterMap_cons {α β : Type} (f : α → Option β) (a : α) (l : List α) :
    ((a :: l).filterMap f).getLast? = (l.filterMap f).getLast?.or (f a) := by
  cases hf : f a with
  | none => rw [List.filterMap_cons_none hf, Option.or_none]
  | some b =>
      rw [List.filterMap_cons_some hf, List.getLast?_cons]
      cases (l.filterMap f).getLast? with
      | none => rfl
      | some c => rfl

theorem sender_foldl (calls : List StoreCall) (data : SessionData) :
    ((calls.map op).foldl StoreOp.apply data).senderSeqNum =
      (calls.filterMap sender?).getLast?.getD data.senderSeqNum := by
  induction calls generalizing data with
  | nil => rfl
  | cons c calls ih =>
      rw [List.map_cons, List.foldl_cons, ih, getLast?_filterMap_cons]
      cases (calls.filterMap sender?).getLast? with
      | some num => rfl
      | none =>
          cases c with
          | store seqnum msg => rfl
          | setSenderSeqNum num => rfl
          | setTargetSeqNum num => rfl

theorem target_foldl (calls : List StoreCall) (data : SessionData) :
    ((calls.map op).foldl StoreOp.apply data).targetSeqNum =
      (calls.filterMap target?).getLast?.getD data.targetSeqNum := by
  induction calls generalizing data with
  | nil => rfl
  | cons c calls ih =>
      rw [List.map_cons, List.foldl_cons, ih, getLast?_filterMap_cons]
      cases (calls.filterMap target?).getLast? with
      | some num => rfl
      | none =>
          cases c with
          | store seqnum msg => rfl
          | setSenderSeqNum num => rfl
          | setTargetSeqNum num => rfl

theorem messages_foldl (calls : List StoreCall) (data : SessionData) (seqnum : Int) :
    ((calls.map op).foldl StoreOp.apply data).messages.find? seqnum =
      (calls.filterMap (message? seqnum)).getLast?.or (data.messages.find? seqnum) := by
  induction calls generalizing data with
  | nil => rfl
  | cons c calls ih =>
      have hstep : (StoreOp.apply data c.op).messages.find? seqnum =
          (message? seqnum c).or (data.messages.find? seqnum) := by
        cases c with
        | store num msg =>
            show (data.messages.insert num.toInt msg.bytes).find? seqnum = _
            by_cases hnum : num.toInt = seqnum
            · rw [hnum, SortedMap.find?_insert_self, message?, if_pos hnum, Option.some_or]
            · rw [SortedMap.find?_insert_ne _ (Ne.symm hnum), message?, if_neg hnum, Option.none_or]
        | setSenderSeqNum num => rfl
        | setTargetSeqNum num => rfl
      rw [List.map_cons, List.foldl_cons, ih, getLast?_filterMap_cons, Option.or_assoc, hstep]

/-- The records of some calls decode to what the calls wrote. -/
theorem decodes_records (calls : List StoreCall) : Decodes (records calls) calls := by
  have hstorable : ∀ o ∈ calls.map op, o.Storable := by
    intro o ho
    obtain ⟨c, -, rfl⟩ := List.mem_map.mp ho
    exact c.storable_op
  refine ⟨_, StoreHandle.load_records hstorable, ?_, ?_, fun seqnum => ?_⟩
  · exact sender_foldl calls .new
  · exact target_foldl calls .new
  · rw [messages_foldl]
    exact Option.or_none

end StoreCall

/-! ## Calls and flushes -/

/-- Calls of the store of a session on an empty file, between the steps of flushes. -/
inductive StoreRun : List StoreCall → WriterInstance → Prop where
  | new : StoreRun [] (.new false)
  | call {calls : List StoreCall} {w : WriterInstance} (c : StoreCall) (h : StoreRun calls w)
      (hfree : w.phase.locked = false) : StoreRun (calls ++ [c]) (c.op.run w)
  | flush {calls : List StoreCall} {w : WriterInstance} (h : StoreRun calls w) :
      StoreRun calls w.flushStep

/-- The file, the buffer and the queue hold the records of some calls each. -/
structure Aligned (written swapped queued : List StoreCall) (w : WriterInstance) : Prop where
  file : w.file = StoreCall.records written
  buffer : w.buffer = StoreCall.records swapped
  queue : w.queue = StoreCall.records queued
  raw : w.formatFIXMessages = false
  logs : w.logEntryQueue = [] ∧ w.logEntryBuffer = []
  noReset : w.shouldReset = false ∧ w.phase ≠ .resetting ∧ w.phase ≠ .wiping
  /-- Only a flush that goes on has something in the buffer. -/
  between : w.phase ≠ .swapped → swapped = []
  /-- What is queued will be seen. -/
  noticed : queued ≠ [] → w.phase.locked = true ∨ w.dirty = true

namespace Aligned

variable {written swapped queued : List StoreCall} {w : WriterInstance}

theorem call (h : Aligned written swapped queued w) (c : StoreCall) :
    Aligned written swapped (queued ++ [c]) (c.op.run w) := by
  rw [StoreOp.run_eq c.storable_op]
  exact {
    file := h.file
    buffer := h.buffer
    queue := by
      show w.queue ++ c.op.record = _
      rw [h.queue, StoreCall.records_append]
      simp [StoreCall.records]
    raw := h.raw
    logs := h.logs
    noReset := h.noReset
    between := h.between
    noticed := fun _ => .inr rfl }

/-- A step that only moves the flush on. -/
theorem move (h : Aligned written swapped queued w) {phase : FlushPhase} (dirty : Bool)
    (hphase : phase ≠ .resetting ∧ phase ≠ .wiping) (hswapped : w.phase ≠ .swapped)
    (hnoticed : queued ≠ [] → phase.locked = true ∨ dirty = true) :
    Aligned written swapped queued { w with phase := phase, dirty := dirty } where
  file := h.file
  buffer := h.buffer
  queue := h.queue
  raw := h.raw
  logs := h.logs
  noReset := ⟨h.noReset.1, hphase⟩
  between _ := h.between hswapped
  noticed := hnoticed

/-- The swap moves what is queued to the buffer. -/
theorem swap (h : Aligned written swapped queued w) (hp : w.phase = .keeping) :
    Aligned written queued [] { w.swap with phase := .swapped } := by
  obtain rfl := h.between (by rw [hp]; decide)
  rw [w.swap_eq h.logs.1 h.buffer]
  exact {
    file := h.file
    buffer := h.queue
    queue := rfl
    raw := h.raw
    logs := h.logs
    noReset := ⟨h.noReset.1, by simp, by simp⟩
    between := fun hne => (hne rfl).elim
    noticed := fun hne => (hne rfl).elim }

/-- The output appends what is in the buffer to the file. -/
theorem output (h : Aligned written swapped queued w) (hp : w.phase = .swapped) :
    Aligned (written ++ swapped) [] queued { w.output with phase := .idle } where
  file := by
    show w.file ++ w.format (w.buffer ++ w.logEntryBuffer.flatMap LogEntry.format) = _
    rw [WriterInstance.format, if_neg (by rw [h.raw]; decide), h.logs.2, h.file, h.buffer]
    simp
  buffer := rfl
  queue := h.queue
  raw := h.raw
  logs := ⟨h.logs.1, rfl⟩
  noReset := ⟨h.noReset.1, by simp, by simp⟩
  between _ := rfl
  noticed hne := by
    rcases h.noticed hne with hlocked | hdirty
    · rw [hp] at hlocked
      cases hlocked
    · exact .inr hdirty

theorem flushStep (h : Aligned written swapped queued w) :
    ∃ written' swapped' queued', Aligned written' swapped' queued' w.flushStep ∧
      written' ++ swapped' ++ queued' = written ++ swapped ++ queued := by
  unfold WriterInstance.flushStep
  split
  next hp =>
    split
    next hdirty =>
      exact ⟨written, swapped, queued,
        h.move w.dirty (by decide) (by rw [hp]; decide) fun _ => .inr hdirty, rfl⟩
    next => exact ⟨written, swapped, queued, h, rfl⟩
  next hp =>
    exact ⟨written, swapped, queued,
      h.move _ (by decide) (by rw [hp]; decide) fun _ => .inl rfl, rfl⟩
  next hp =>
    rw [if_neg (by rw [h.noReset.1]; decide)]
    exact ⟨written, swapped, queued,
      h.move w.dirty (by decide) (by rw [hp]; decide) fun _ => .inl rfl, rfl⟩
  next hp => exact (h.noReset.2.1 hp).elim
  next hp => exact (h.noReset.2.2 hp).elim
  next hp =>
    obtain rfl := h.between (by rw [hp]; decide)
    exact ⟨written, queued, [], h.swap hp, by simp⟩
  next hp => exact ⟨written ++ swapped, [], queued, h.output hp, by simp⟩

end Aligned

/-- At any time the file has the records of the first calls, and the buffer and the
queue have those of the others. -/
theorem StoreRun.aligned {calls : List StoreCall} {w : WriterInstance} (h : StoreRun calls w) :
    ∃ written swapped queued, Aligned written swapped queued w ∧
      calls = written ++ swapped ++ queued := by
  induction h with
  | new =>
      exact ⟨[], [], [], ⟨rfl, rfl, rfl, rfl, ⟨rfl, rfl⟩, ⟨rfl, by decide, by decide⟩,
        fun _ => rfl, fun hne => (hne rfl).elim⟩, rfl⟩
  | call c _ _ ih =>
      obtain ⟨written, swapped, queued, h, rfl⟩ := ih
      exact ⟨written, swapped, queued ++ [c], h.call c, by simp⟩
  | flush _ ih =>
      obtain ⟨written, swapped, queued, h, rfl⟩ := ih
      obtain ⟨written', swapped', queued', h', heq⟩ := h.flushStep
      exact ⟨written', swapped', queued', h', heq.symm⟩

/-- At any time the file decodes to what the first of the calls wrote, and these are all
the calls once the writer has nothing more to do. -/
theorem StoreRun.decodes {calls : List StoreCall} {w : WriterInstance} (h : StoreRun calls w) :
    ∃ written pending, calls = written ++ pending ∧ Decodes w.file written ∧
      (w.phase = .idle → w.dirty = false → pending = []) := by
  obtain ⟨written, swapped, queued, ha, rfl⟩ := h.aligned
  refine ⟨written, swapped ++ queued, by simp, ?_, fun hidle hclean => ?_⟩
  · rw [ha.file]
    exact StoreCall.decodes_records written
  · obtain rfl := ha.between (by rw [hidle]; decide)
    by_contra hne
    rcases ha.noticed hne with hlocked | hdirty
    · rw [hidle] at hlocked
      cases hlocked
    · rw [hclean] at hdirty
      cases hdirty

/-- A message and a number below 0 are stored, and flushed once. -/
theorem StoreRun.decodes_test :
    ∃ written pending, [.store 1 ⟨[56, 61], by decide⟩, .setSenderSeqNum (-2)] =
        written ++ pending ∧
      Decodes ((StoreHandle.setSenderSeqNum (StoreHandle.store (.new false) 1 [56, 61])
        (-2)).flushStep.flushStep.flushStep.flushStep.flushStep).file written ∧
      (FlushPhase.idle = .idle → false = false → pending = []) :=
  (((((((StoreRun.new.call (.store 1 ⟨[56, 61], by decide⟩) rfl).call
    (.setSenderSeqNum (-2)) rfl).flush).flush).flush).flush).flush).decodes

end OpenFix
