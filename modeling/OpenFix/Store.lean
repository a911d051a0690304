import OpenFix.Cache
import OpenFix.Writer

/-!
# The session store

A `StoreHandle` writes records to a file: the text of a message under its number,
or one of the two sequence numbers.  `load` reads the records back, and a later
one replaces an earlier.  The numbers and lengths are copied as they lie in
memory, which is with the lowest byte first.

The cache and its file change at different times.  A `StoredCache` is both, with
the flushes of the writer thread as steps of their own.
-/

namespace OpenFix

/-! ## Records -/

/-- The bytes of an `int`. -/
def intBytes (num : Int) : Bytes := leBytes 4 (num % 4294967296).toNat

/-- The `int` with these bytes. -/
def intOfBytes (bytes : Bytes) : Int := i32 (ofLeBytes bytes)

theorem length_intBytes (num : Int) : (intBytes num).length = 4 := length_leBytes 4 _

theorem intOfBytes_intBytes {num : Int} (h₀ : -2147483648 ≤ num) (h₁ : num < 2147483648) :
    intOfBytes (intBytes num) = num := by
  have hlt : (num % 4294967296).toNat < 256 ^ 4 := by omega
  rw [intOfBytes, intBytes, ofLeBytes_leBytes hlt]
  unfold i32
  omega

structure SessionData where
  messages : SortedMap Int Bytes
  senderSeqNum : Int
  targetSeqNum : Int

namespace SessionData

/-- The data of a store without records. -/
def new : SessionData := ⟨.empty, 1, 1⟩

end SessionData

namespace StoreHandle

def store (w : WriterInstance) (seqnum : Int) (msg : Bytes) : WriterInstance :=
  w.writeRaw (0 :: (intBytes seqnum ++ leBytes 8 msg.length)) msg

def setSenderSeqNum (w : WriterInstance) (num : Int) : WriterInstance :=
  w.write (1 :: intBytes num)

def setTargetSeqNum (w : WriterInstance) (num : Int) : WriterInstance :=
  w.write (2 :: intBytes num)

def reset (w : WriterInstance) : WriterInstance := w.reset

/-- Read `length` bytes, or fail. -/
def read (length : Nat) (file : Bytes) (failure : String) : Except String (Bytes × Bytes) :=
  if length ≤ file.length then .ok (file.take length, file.drop length) else .error failure

/-- The loop of `load`.  A round reads a byte at least. -/
def loadLoop : Nat → Bytes → SessionData → Except String SessionData
  | 0, _, ret => .ok ret
  | _, [], ret => .ok ret
  | fuel + 1, type :: file, ret =>
      if type = 1 ∨ type = 2 then do
        let (bytes, file) ← read 4 file "Data file corrupted; unable to parse seqnum"
        let seqNum := intOfBytes bytes
        loadLoop fuel file
          (if type = 1 then { ret with senderSeqNum := seqNum }
            else { ret with targetSeqNum := seqNum })
      else if type = 0 then do
        let (bytes, file) ← read 4 file "Data file corrupted; unable to parse message seqnum"
        let seqNum := intOfBytes bytes
        let (bytes, file) ← read 8 file "Data file corrupted; unable to parse message length"
        let (msg, file) ← read (ofLeBytes bytes) file
          "Data file corrupted; unable to read complete message"
        loadLoop fuel file { ret with messages := ret.messages.insert seqNum msg }
      else loadLoop fuel file ret

/-- The data in a file.  A file that does not exist is as good as an empty one. -/
def load (file : Bytes) : Except String SessionData :=
  loadLoop file.length file .new

end StoreHandle

namespace StoreOp

/-- The call of the store on its writer. -/
def run (w : WriterInstance) : StoreOp → WriterInstance
  | .store seqnum wire => StoreHandle.store w seqnum wire
  | .setSenderSeqNum num => StoreHandle.setSenderSeqNum w num
  | .setTargetSeqNum num => StoreHandle.setTargetSeqNum w num
  | .reset => StoreHandle.reset w

/-- The record that a call writes. -/
def record : StoreOp → Bytes
  | .store seqnum wire => 0 :: (intBytes seqnum ++ leBytes 8 wire.length) ++ wire
  | .setSenderSeqNum num => 1 :: intBytes num
  | .setTargetSeqNum num => 2 :: intBytes num
  | .reset => []

/-- What a record makes of the data. -/
def apply (data : SessionData) : StoreOp → SessionData
  | .store seqnum wire => { data with messages := data.messages.insert seqnum wire }
  | .setSenderSeqNum num => { data with senderSeqNum := num }
  | .setTargetSeqNum num => { data with targetSeqNum := num }
  | .reset => data

/-- A number is an `int`. -/
def IsInt (num : Int) : Prop := -2147483648 ≤ num ∧ num < 2147483648

/-- The numbers of a call are `int`s and its text has a length, and it writes. -/
def Storable : StoreOp → Prop
  | .store seqnum wire => IsInt seqnum ∧ wire.length < 18446744073709551616
  | .setSenderSeqNum num | .setTargetSeqNum num => IsInt num
  | .reset => False

end StoreOp

/-! ## Reading records back -/

namespace StoreHandle

theorem read_append {bytes rest : Bytes} {length : Nat} (h : bytes.length = length)
    (failure : String) : read length (bytes ++ rest) failure = .ok (bytes, rest) := by
  subst h
  unfold read
  rw [if_pos (by simp), List.take_left, List.drop_left]

theorem loadLoop_record {op : StoreOp} (hop : op.Storable) (rest : Bytes) (data : SessionData)
    (fuel : Nat) :
    loadLoop (fuel + 1) (op.record ++ rest) data = loadLoop fuel rest (op.apply data) := by
  have hnum : ∀ {num : Int}, StoreOp.IsInt num → ∀ rest failure,
      read 4 (intBytes num ++ rest) failure = .ok (intBytes num, rest) := fun _ rest failure =>
    read_append (length_intBytes _) failure
  cases op with
  | store seqnum wire =>
      obtain ⟨hseq, hlen⟩ := hop
      have hlength : ofLeBytes (leBytes 8 wire.length) = wire.length := ofLeBytes_leBytes (by omega)
      simp only [StoreOp.record, List.cons_append, List.append_assoc, loadLoop]
      rw [if_neg (by decide), if_pos trivial, hnum hseq]
      simp only [bind, Except.bind]
      rw [read_append (length_leBytes 8 wire.length)]
      dsimp only
      rw [hlength, read_append rfl]
      dsimp only
      rw [intOfBytes_intBytes hseq.1 hseq.2]
      rfl
  | setSenderSeqNum num =>
      simp only [StoreOp.record, List.cons_append, loadLoop]
      rw [if_pos (.inl trivial), hnum hop]
      simp only [bind, Except.bind]
      rw [intOfBytes_intBytes hop.1 hop.2]
      rfl
  | setTargetSeqNum num =>
      simp only [StoreOp.record, List.cons_append, loadLoop]
      rw [if_pos (.inr trivial), hnum hop]
      simp only [bind, Except.bind]
      rw [intOfBytes_intBytes hop.1 hop.2]
      rfl
  | reset => exact hop.elim

theorem loadLoop_records : ∀ {ops : List StoreOp}, (∀ op ∈ ops, op.Storable) →
    ∀ (data : SessionData) (fuel : Nat), ops.length ≤ fuel →
      loadLoop fuel (ops.flatMap StoreOp.record) data = .ok (ops.foldl StoreOp.apply data)
  | [], _, data, fuel, _ => by
      cases fuel with
      | zero => rfl
      | succ fuel => rfl
  | op :: ops, h, data, fuel + 1, hfuel => by
      rw [List.flatMap_cons, loadLoop_record (h op (List.mem_cons_self ..)),
        loadLoop_records (fun op hop => h op (List.mem_cons_of_mem _ hop)) _ fuel
          (by simpa using hfuel)]
      rfl

/-- Records that were written are read back. -/
theorem load_records {ops : List StoreOp} (h : ∀ op ∈ ops, op.Storable) :
    load (ops.flatMap StoreOp.record) = .ok (ops.foldl StoreOp.apply .new) := by
  refine loadLoop_records h .new _ ?_
  induction ops with
  | nil => exact le_refl _
  | cons op ops ih =>
      have hop : 1 ≤ op.record.length := by
        have := h op (List.mem_cons_self ..)
        cases op with
        | reset => exact this.elim
        | _ => simp [StoreOp.record]
      have := ih fun op hop => h op (List.mem_cons_of_mem _ hop)
      rw [List.flatMap_cons, List.length_append, List.length_cons]
      omega

end StoreHandle

/-! ## A cache and its file -/

namespace MemoryCache

/-- A cache that takes over the data of a store. -/
def load (c : MemoryCache) (data : SessionData) : MemoryCache :=
  { c with
    messages := data.messages
    senderSeqNum := data.senderSeqNum
    targetSeqNum := data.targetSeqNum
    seqNumsDirty := false
    pendingStoreSeqNums := [] }

end MemoryCache

/-- A `std::string`, whose length is a `size_t`. -/
structure Text where
  bytes : Bytes
  length_lt : bytes.length < 18446744073709551616

/-- A call of the cache, or a flush of the writer thread. -/
inductive CacheOp where
  | cache (seqnum : Int32) (wire : Text)
  | nextSenderSeqNum
  | nextTargetSeqNum
  | setSenderSeqNum (num : Int32)
  | setTargetSeqNum (num : Int32)
  | reset
  | flushSeqNums
  | flushInstances

/-- What a call makes of the cache. -/
def CacheOp.onCache (c : MemoryCache) : CacheOp → MemoryCache
  | .cache seqnum wire => c.cache seqnum.toInt wire.bytes
  | .nextSenderSeqNum => c.nextSenderSeqNum
  | .nextTargetSeqNum => c.nextTargetSeqNum
  | .setSenderSeqNum num => c.setSenderSeqNum num.toInt
  | .setTargetSeqNum num => c.setTargetSeqNum num.toInt
  | .reset => c.reset
  | .flushSeqNums => c.flushSeqNums
  | .flushInstances => c

/-- A cache with the writer of its store. -/
structure StoredCache where
  cache : MemoryCache
  writer : WriterInstance

namespace StoredCache

/-- A fresh cache, on an empty file. -/
def new : StoredCache := ⟨.new, .new false⟩

/-- The cache goes through the call, and its calls of the store go to the writer. -/
def step (s : StoredCache) : CacheOp → StoredCache
  | .flushInstances => { s with writer := s.writer.flushInstances }
  | op =>
      let c := op.onCache s.cache
      ⟨c, (c.store.drop s.cache.store.length).foldl StoreOp.run s.writer⟩

def run (s : StoredCache) (ops : List CacheOp) : StoredCache := ops.foldl step s

/-- A fresh cache that is loaded from the file. -/
def reload (s : StoredCache) : Except String MemoryCache := do
  return MemoryCache.new.load (← StoreHandle.load s.writer.file)

/-- A fresh cache that is loaded from the file has the numbers and the messages of the
cache in memory. -/
def Reloads (s : StoredCache) : Prop :=
  ∃ c, s.reload = .ok c ∧ c.senderSeqNum = s.cache.senderSeqNum ∧
    c.targetSeqNum = s.cache.targetSeqNum ∧ c.messages = s.cache.messages

end StoredCache

/-! ## Which calls are kept -/

/-- What the calls so far have left to do. -/
structure Progress where
  /-- The writer did not flush since the last reset. -/
  waiting : Bool
  /-- Something is for `flushSeqNums` to write. -/
  unsaved : Bool
  /-- No number was set since the last reset. -/
  untouched : Bool

namespace Progress

def new : Progress := ⟨false, false, false⟩

def step (p : Progress) : CacheOp → Progress
  | .cache _ _ => { p with unsaved := true }
  | .nextSenderSeqNum | .nextTargetSeqNum | .setSenderSeqNum _ | .setTargetSeqNum _ =>
      { p with unsaved := true, untouched := false }
  | .reset => ⟨true, false, true⟩
  | .flushSeqNums => { p with unsaved := false }
  | .flushInstances => { p with waiting := false }

end Progress

/-- No `flushSeqNums` writes anything while a reset waits for the writer. -/
def FlushedInTime : Progress → List CacheOp → Prop
  | _, [] => True
  | p, op :: ops => (op = .flushSeqNums → p.waiting = true → p.unsaved = false) ∧
      FlushedInTime (p.step op) ops

/-! ## The writer between its calls -/

namespace WriterInstance

/-- No call is in progress, and what is left is known to the next flush. -/
structure AtRest (w : WriterInstance) : Prop where
  raw : w.formatFIXMessages = false
  logs : w.logEntryQueue = [] ∧ w.logEntryBuffer = []
  buffer : w.buffer = []
  queued : w.queue ≠ [] → w.dirty = true
  noticed : w.shouldReset = true → w.dirty = true

/-- What the file holds after the next flush. -/
def content (w : WriterInstance) : Bytes := if w.shouldReset then [] else w.file ++ w.queue

theorem AtRest.flushInstances {w : WriterInstance} (h : w.AtRest) :
    w.flushInstances.AtRest ∧ w.flushInstances.file = w.content ∧
      w.flushInstances.shouldReset = false ∧ w.flushInstances.queue = [] := by
  have hclean : ∀ {v : WriterInstance}, v.formatFIXMessages = false → v.logEntryQueue = [] →
      v.logEntryBuffer = [] → v.buffer = [] → v.queue = [] → v.shouldReset = false → v.AtRest :=
    fun hraw hq hb hbuf hqueue hreset => ⟨hraw, ⟨hq, hb⟩, hbuf, fun h => (h hqueue).elim,
      fun h => Bool.noConfusion (hreset.symm.trans h)⟩
  unfold WriterInstance.flushInstances content
  cases hdirty : w.dirty with
  | false =>
      have hqueue : w.queue = [] := by
        by_contra hne
        exact Bool.noConfusion (hdirty.symm.trans (h.queued hne))
      have hreset : w.shouldReset = false := by
        cases hr : w.shouldReset with
        | false => rfl
        | true => exact Bool.noConfusion (hdirty.symm.trans (h.noticed hr))
      simp only [Bool.not_false, if_true, hreset, hqueue, List.append_nil, Bool.false_eq_true, if_false]
      exact ⟨h, trivial, trivial, trivial⟩
  | true =>
      cases hreset : w.shouldReset with
      | true => exact ⟨hclean h.raw rfl rfl rfl rfl rfl, rfl, rfl, rfl⟩
      | false =>
          simp only [Bool.not_true, Bool.false_eq_true, if_false]
          rw [swap_eq { w with shouldReset := false, dirty := false } h.logs.1 h.buffer]
          refine ⟨hclean h.raw h.logs.1 rfl rfl rfl rfl, ?_, rfl, rfl⟩
          simp [output, format, h.raw, h.logs.2]

end WriterInstance

namespace StoreOp

/-- A call that writes appends its record to the queue. -/
theorem run_eq {op : StoreOp} (h : op.Storable) (w : WriterInstance) :
    op.run w = w.write op.record := by
  cases op with
  | store seqnum wire => simp [run, StoreHandle.store, WriterInstance.writeRaw, WriterInstance.write, record]
  | setSenderSeqNum num => rfl
  | setTargetSeqNum num => rfl
  | reset => exact h.elim

theorem foldl_run : ∀ {ops : List StoreOp}, (∀ op ∈ ops, op.Storable) →
    ∀ {w : WriterInstance}, w.AtRest → w.shouldReset = false →
      (ops.foldl run w).AtRest ∧ (ops.foldl run w).shouldReset = false ∧
        (ops.foldl run w).content = w.content ++ ops.flatMap record
  | [], _, w, hw, hreset => ⟨hw, hreset, by simp⟩
  | op :: ops, h, w, hw, hreset => by
      have hwrite : (w.write op.record).AtRest :=
        ⟨hw.raw, hw.logs, hw.buffer, fun _ => rfl, fun _ => rfl⟩
      obtain ⟨hrest, hreset', hcontent⟩ :=
        foldl_run (fun op hop => h op (List.mem_cons_of_mem _ hop)) hwrite hreset
      rw [List.foldl_cons, run_eq (h op (List.mem_cons_self ..))]
      refine ⟨hrest, hreset', ?_⟩
      rw [hcontent]
      simp [WriterInstance.content, WriterInstance.write, hreset]

end StoreOp

/-! ## The invariant -/

namespace StoredCache

/-- The data that the file holds after the next flush of the writer. -/
def dataOf (recs : List StoreOp) : SessionData := recs.foldl StoreOp.apply .new

/-- The cache, its progress and the records of its file. -/
structure Synced (p : Progress) (recs : List StoreOp) (s : StoredCache) : Prop where
  rest : s.writer.AtRest
  waiting : s.writer.shouldReset = p.waiting
  content : s.writer.content = recs.flatMap StoreOp.record
  storable : ∀ op ∈ recs, op.Storable
  empty : p.waiting = true → recs = []
  ints : StoreOp.IsInt s.cache.senderSeqNum ∧ StoreOp.IsInt s.cache.targetSeqNum
  texts : ∀ k wire, s.cache.messages.find? k = some wire → (StoreOp.store k wire).Storable
  pending : ∀ k ∈ s.cache.pendingStoreSeqNums, (s.cache.messages.find? k).isSome
  saved : p.unsaved = false → s.cache.pendingStoreSeqNums = [] ∧ s.cache.seqNumsDirty = false
  numbers : s.cache.seqNumsDirty = false → p.untouched = false →
    (dataOf recs).senderSeqNum = s.cache.senderSeqNum ∧
      (dataOf recs).targetSeqNum = s.cache.targetSeqNum
  messages : ∀ k, k ∉ s.cache.pendingStoreSeqNums →
    (dataOf recs).messages.find? k = s.cache.messages.find? k

theorem synced_new : Synced .new [] .new where
  rest := ⟨rfl, ⟨rfl, rfl⟩, rfl, fun h => (h rfl).elim, fun h => Bool.noConfusion h⟩
  waiting := rfl
  content := rfl
  storable := by simp
  empty h := Bool.noConfusion h
  ints := by
    constructor <;> constructor <;> decide
  texts _ _ h := by cases h
  pending _ h := by cases h
  saved _ := ⟨rfl, rfl⟩
  numbers _ _ := ⟨rfl, rfl⟩
  messages _ _ := rfl

theorem isInt_zero : StoreOp.IsInt 0 := ⟨by decide, by decide⟩

theorem isInt_i32 (x : Int) : StoreOp.IsInt (i32 x) := i32_range x

theorem isInt_toInt (x : Int32) : StoreOp.IsInt x.toInt := by
  have h₀ := x.le_toInt
  have h₁ := x.toInt_lt
  exact ⟨by omega, by omega⟩

/-- A call that sets a number. -/
theorem Synced.setNumber {p : Progress} {recs : List StoreOp} {s : StoredCache} (h : Synced p recs s)
    {c : MemoryCache} (hsender : StoreOp.IsInt c.senderSeqNum) (htarget : StoreOp.IsInt c.targetSeqNum)
    (hmessages : c.messages = s.cache.messages)
    (hpending : c.pendingStoreSeqNums = s.cache.pendingStoreSeqNums) (hdirty : c.seqNumsDirty = true) :
    Synced { p with unsaved := true, untouched := false } recs ⟨c, s.writer⟩ where
  rest := h.rest
  waiting := h.waiting
  content := h.content
  storable := h.storable
  empty := h.empty
  ints := ⟨hsender, htarget⟩
  texts := by
    dsimp only
    rw [hmessages]
    exact h.texts
  pending := by
    dsimp only
    rw [hmessages, hpending]
    exact h.pending
  saved hu := Bool.noConfusion hu
  numbers hd := Bool.noConfusion (hdirty.symm.trans hd)
  messages := by
    dsimp only
    rw [hmessages, hpending]
    exact h.messages

theorem Synced.cache {p : Progress} {recs : List StoreOp} {s : StoredCache} (h : Synced p recs s)
    (seqnum : Int32) (wire : Text) :
    Synced { p with unsaved := true } recs ⟨s.cache.cache seqnum.toInt wire.bytes, s.writer⟩ where
  rest := h.rest
  waiting := h.waiting
  content := h.content
  storable := h.storable
  empty := h.empty
  ints := h.ints
  texts k v hk := by
    by_cases hne : k = seqnum.toInt
    · subst hne
      rw [MemoryCache.messages_cache, SortedMap.find?_insert_self] at hk
      cases hk
      exact ⟨isInt_toInt seqnum, wire.length_lt⟩
    · rw [MemoryCache.messages_cache, SortedMap.find?_insert_ne _ hne] at hk
      exact h.texts k v hk
  pending k hk := by
    by_cases hne : k = seqnum.toInt
    · rw [MemoryCache.messages_cache, hne, SortedMap.find?_insert_self]
      rfl
    · rw [MemoryCache.messages_cache, SortedMap.find?_insert_ne _ hne]
      simp only [MemoryCache.cache, List.mem_append, List.mem_singleton] at hk
      exact h.pending k (hk.resolve_right hne)
  saved hu := Bool.noConfusion hu
  numbers := h.numbers
  messages k hk := by
    simp only [MemoryCache.cache, List.mem_append, List.mem_singleton, not_or] at hk
    rw [MemoryCache.messages_cache, SortedMap.find?_insert_ne _ hk.2]
    exact h.messages k hk.1

theorem Synced.reset {p : Progress} {recs : List StoreOp} {s : StoredCache} (h : Synced p recs s) :
    Synced ⟨true, false, true⟩ [] ⟨s.cache.reset, s.writer.reset⟩ where
  rest := ⟨h.rest.raw, h.rest.logs, h.rest.buffer, fun _ => rfl, fun _ => rfl⟩
  waiting := rfl
  content := rfl
  storable := by simp
  empty _ := rfl
  ints := ⟨isInt_zero, isInt_zero⟩
  texts _ _ hk := by cases hk
  pending _ hk := by cases hk
  saved _ := ⟨rfl, rfl⟩
  numbers _ hu := Bool.noConfusion hu
  messages _ _ := rfl

theorem Synced.flushInstances {p : Progress} {recs : List StoreOp} {s : StoredCache}
    (h : Synced p recs s) :
    Synced { p with waiting := false } recs ⟨s.cache, s.writer.flushInstances⟩ := by
  obtain ⟨hrest, hfile, hreset, hqueue⟩ := h.rest.flushInstances
  exact {
    rest := hrest
    waiting := hreset
    content := by
      dsimp only
      rw [WriterInstance.content, hreset, if_neg (by decide), hfile, hqueue, List.append_nil, h.content]
    storable := h.storable
    empty := fun hw => Bool.noConfusion hw
    ints := h.ints
    texts := h.texts
    pending := h.pending
    saved := h.saved
    numbers := h.numbers
    messages := h.messages }

/-- The records of a `flushSeqNums`. -/
def flushed (c : MemoryCache) : List StoreOp :=
  c.pendingOps ++ if c.seqNumsDirty then
    [.setSenderSeqNum c.senderSeqNum, .setTargetSeqNum c.targetSeqNum] else []

theorem store_flushSeqNums (c : MemoryCache) : c.flushSeqNums.store = c.store ++ flushed c := by
  unfold MemoryCache.flushSeqNums flushed
  split
  · simp
  · simp

/-- What the records of pending texts make of the messages. -/
theorem find?_apply_pending (c : MemoryCache) (k : Int) : ∀ (pending : List Int) (data : SessionData),
    ((pending.filterMap fun seq => (c.messages.find? seq).map (StoreOp.store seq)).foldl
      StoreOp.apply data).messages.find? k =
        if k ∈ pending ∧ (c.messages.find? k).isSome then c.messages.find? k
        else data.messages.find? k
  | [], data => by simp
  | seq :: pending, data => by
      have ih := find?_apply_pending c k pending
      cases hfind : c.messages.find? seq with
      | none =>
          rw [List.filterMap_cons_none (by simp [hfind]), ih data]
          by_cases hk : k = seq
          · subst hk
            simp [hfind]
          · simp [hk]
      | some wire =>
          rw [List.filterMap_cons_some (by simp [hfind]; rfl), List.foldl_cons, ih]
          by_cases hk : k = seq
          · subst hk
            simp [hfind, StoreOp.apply]
          · simp [hk, StoreOp.apply, SortedMap.find?_insert_ne]

/-- The records of pending texts leave the numbers alone. -/
theorem numbers_apply_pending (c : MemoryCache) : ∀ (pending : List Int) (data : SessionData),
    ((pending.filterMap fun seq => (c.messages.find? seq).map (StoreOp.store seq)).foldl
      StoreOp.apply data).senderSeqNum = data.senderSeqNum ∧
    ((pending.filterMap fun seq => (c.messages.find? seq).map (StoreOp.store seq)).foldl
      StoreOp.apply data).targetSeqNum = data.targetSeqNum
  | [], data => ⟨rfl, rfl⟩
  | seq :: pending, data => by
      cases hfind : c.messages.find? seq with
      | none =>
          rw [List.filterMap_cons_none (by simp [hfind])]
          exact numbers_apply_pending c pending data
      | some wire =>
          rw [List.filterMap_cons_some (by simp [hfind]; rfl), List.foldl_cons]
          exact numbers_apply_pending c pending _

theorem storable_flushed {p : Progress} {recs : List StoreOp} {s : StoredCache}
    (h : Synced p recs s) : ∀ op ∈ flushed s.cache, op.Storable := by
  intro op hop
  rcases List.mem_append.mp hop with hop | hop
  · obtain ⟨k, -, hk⟩ := List.mem_filterMap.mp hop
    obtain ⟨wire, hwire, rfl⟩ := Option.map_eq_some_iff.mp hk
    exact h.texts k wire hwire
  · split at hop
    next =>
      simp only [List.mem_cons, List.not_mem_nil, or_false] at hop
      rcases hop with rfl | rfl
      · exact h.ints.1
      · exact h.ints.2
    next => cases hop

theorem dataOf_append (recs recs' : List StoreOp) :
    dataOf (recs ++ recs') = recs'.foldl StoreOp.apply (dataOf recs) := List.foldl_append ..

theorem numbers_dataOf_flushed {c : MemoryCache} {recs : List StoreOp}
    (h : c.seqNumsDirty = false → (dataOf recs).senderSeqNum = c.senderSeqNum ∧
      (dataOf recs).targetSeqNum = c.targetSeqNum) :
    (dataOf (recs ++ flushed c)).senderSeqNum = c.senderSeqNum ∧
      (dataOf (recs ++ flushed c)).targetSeqNum = c.targetSeqNum := by
  rw [flushed, ← List.append_assoc, dataOf_append]
  cases hdirty : c.seqNumsDirty with
  | true => exact ⟨rfl, rfl⟩
  | false =>
      obtain ⟨hsender, htarget⟩ := numbers_apply_pending c c.pendingStoreSeqNums (dataOf recs)
      rw [dataOf_append]
      exact ⟨hsender.trans (h hdirty).1, htarget.trans (h hdirty).2⟩

theorem messages_dataOf_flushed {c : MemoryCache} {recs : List StoreOp} {k : Int}
    (hpending : ∀ k ∈ c.pendingStoreSeqNums, (c.messages.find? k).isSome)
    (h : k ∉ c.pendingStoreSeqNums → (dataOf recs).messages.find? k = c.messages.find? k) :
    (dataOf (recs ++ flushed c)).messages.find? k = c.messages.find? k := by
  have hnumbers : (dataOf (recs ++ flushed c)).messages = (dataOf (recs ++ c.pendingOps)).messages := by
    rw [flushed, ← List.append_assoc, dataOf_append]
    split
    · rfl
    · rfl
  rw [hnumbers, dataOf_append, MemoryCache.pendingOps, find?_apply_pending]
  by_cases hk : k ∈ c.pendingStoreSeqNums
  · rw [if_pos ⟨hk, hpending k hk⟩]
  · rw [if_neg fun hboth => hk hboth.1, h hk]

/-- A `flushSeqNums` that has nothing to write, or whose writer has no reset waiting. -/
theorem Synced.flushSeqNums {p : Progress} {recs : List StoreOp} {s : StoredCache}
    (h : Synced p recs s) (htime : p.waiting = true → p.unsaved = false) :
    Synced { p with unsaved := false } (recs ++ flushed s.cache)
      ⟨s.cache.flushSeqNums, (flushed s.cache).foldl StoreOp.run s.writer⟩ := by
  have hstorable := storable_flushed h
  obtain ⟨hsender, htarget, hmessages, -⟩ := s.cache.flushSeqNums_keeps
  have hpending : s.cache.flushSeqNums.pendingStoreSeqNums = [] ∧
      s.cache.flushSeqNums.seqNumsDirty = false := by
    unfold MemoryCache.flushSeqNums
    split
    next => exact ⟨rfl, rfl⟩
    next hdirty => exact ⟨rfl, by simpa using hdirty⟩
  have hnothing : p.waiting = true → flushed s.cache = [] := by
    intro hw
    obtain ⟨hnone, hdirty⟩ := h.saved (htime hw)
    simp [flushed, MemoryCache.pendingOps, hnone, hdirty]
  have hwriter : ((flushed s.cache).foldl StoreOp.run s.writer).AtRest ∧
      ((flushed s.cache).foldl StoreOp.run s.writer).shouldReset = p.waiting ∧
      ((flushed s.cache).foldl StoreOp.run s.writer).content =
        s.writer.content ++ (flushed s.cache).flatMap StoreOp.record := by
    cases hw : p.waiting with
    | true =>
        rw [hnothing hw]
        exact ⟨h.rest, h.waiting.trans hw, by simp⟩
    | false => exact StoreOp.foldl_run hstorable h.rest (h.waiting.trans hw)
  exact {
    rest := hwriter.1
    waiting := hwriter.2.1
    content := by rw [hwriter.2.2, h.content, List.flatMap_append]
    storable := fun op hop => (List.mem_append.mp hop).elim (h.storable op) (hstorable op)
    empty := fun hw => by rw [h.empty hw, hnothing hw]; rfl
    ints := by
      dsimp only
      rw [hsender, htarget]
      exact h.ints
    texts := by
      dsimp only
      rw [hmessages]
      exact h.texts
    pending := fun k hk => by
      dsimp only at hk
      rw [hpending.1] at hk
      cases hk
    saved := fun _ => hpending
    numbers := fun _ hu => by
      dsimp only
      rw [hsender, htarget]
      exact numbers_dataOf_flushed fun hd => h.numbers hd hu
    messages := fun k _ => by
      dsimp only
      rw [hmessages]
      exact messages_dataOf_flushed h.pending fun hk => h.messages k hk }

/-- A call that leaves the store alone, or calls it. -/
theorem step_eq {s : StoredCache} (op : CacheOp) (ops : List StoreOp) (hop : op ≠ .flushInstances)
    (h : (op.onCache s.cache).store = s.cache.store ++ ops) :
    s.step op = ⟨op.onCache s.cache, ops.foldl StoreOp.run s.writer⟩ := by
  cases op with
  | flushInstances => exact (hop rfl).elim
  | _ =>
      simp only [step]
      rw [h, List.drop_left]

theorem Synced.step {p : Progress} {recs : List StoreOp} {s : StoredCache} (h : Synced p recs s)
    {op : CacheOp} (htime : op = .flushSeqNums → p.waiting = true → p.unsaved = false) :
    ∃ recs', Synced (p.step op) recs' (s.step op) := by
  cases op with
  | cache seqnum wire =>
      rw [step_eq (.cache seqnum wire) [] (by simp) (by simp [CacheOp.onCache, MemoryCache.cache])]
      exact ⟨recs, h.cache seqnum wire⟩
  | nextSenderSeqNum =>
      rw [step_eq .nextSenderSeqNum [] (by simp) (by simp [CacheOp.onCache, MemoryCache.nextSenderSeqNum,
        MemoryCache.setSenderSeqNum])]
      exact ⟨recs, h.setNumber (isInt_i32 _) h.ints.2 rfl rfl rfl⟩
  | nextTargetSeqNum =>
      rw [step_eq .nextTargetSeqNum [] (by simp) (by simp [CacheOp.onCache, MemoryCache.nextTargetSeqNum,
        MemoryCache.setTargetSeqNum])]
      exact ⟨recs, h.setNumber h.ints.1 (isInt_i32 _) rfl rfl rfl⟩
  | setSenderSeqNum num =>
      rw [step_eq (.setSenderSeqNum num) [] (by simp) (by simp [CacheOp.onCache, MemoryCache.setSenderSeqNum])]
      exact ⟨recs, h.setNumber (isInt_toInt num) h.ints.2 rfl rfl rfl⟩
  | setTargetSeqNum num =>
      rw [step_eq (.setTargetSeqNum num) [] (by simp) (by simp [CacheOp.onCache, MemoryCache.setTargetSeqNum])]
      exact ⟨recs, h.setNumber h.ints.1 (isInt_toInt num) rfl rfl rfl⟩
  | reset =>
      rw [step_eq .reset [.reset] (by simp) rfl]
      exact ⟨[], h.reset⟩
  | flushSeqNums =>
      rw [step_eq .flushSeqNums _ (by simp) (store_flushSeqNums s.cache)]
      exact ⟨_, h.flushSeqNums (htime rfl)⟩
  | flushInstances => exact ⟨recs, h.flushInstances⟩

theorem Synced.run : ∀ {ops : List CacheOp} {p : Progress} {recs : List StoreOp} {s : StoredCache},
    Synced p recs s → FlushedInTime p ops →
      ∃ recs', Synced (ops.foldl Progress.step p) recs' (s.run ops)
  | [], _, recs, _, h, _ => ⟨recs, h⟩
  | op :: ops, _, _, _, h, htime => by
      obtain ⟨recs, hstep⟩ := h.step htime.1
      exact hstep.run htime.2

/-- After a flush of the writer the file has what was saved. -/
theorem Synced.load {p : Progress} {recs : List StoreOp} {s : StoredCache} (h : Synced p recs s)
    (hsaved : p.unsaved = false) (htouched : p.untouched = false) :
    StoreHandle.load s.writer.flushInstances.file = .ok (dataOf recs) ∧
      (dataOf recs).senderSeqNum = s.cache.senderSeqNum ∧
      (dataOf recs).targetSeqNum = s.cache.targetSeqNum ∧
      (dataOf recs).messages = s.cache.messages := by
  obtain ⟨hpending, hdirty⟩ := h.saved hsaved
  obtain ⟨hsender, htarget⟩ := h.numbers hdirty htouched
  obtain ⟨-, hfile, -, -⟩ := h.rest.flushInstances
  refine ⟨?_, hsender, htarget, SortedMap.ext_find? fun k => h.messages k ?_⟩
  · rw [hfile, h.content, StoreHandle.load_records h.storable]
    rfl
  · rw [hpending]
    exact List.not_mem_nil

/-- A cache that is loaded from the file goes on with it. -/
theorem Synced.reopen {p : Progress} {recs : List StoreOp} {s : StoredCache} (h : Synced p recs s)
    (hsaved : p.unsaved = false) (htouched : p.untouched = false) :
    Synced .new recs ⟨MemoryCache.new.load (dataOf recs),
      { WriterInstance.new false with file := s.writer.flushInstances.file }⟩ := by
  obtain ⟨-, hsender, htarget, hmessages⟩ := h.load hsaved htouched
  obtain ⟨-, hfile, -, -⟩ := h.rest.flushInstances
  exact {
    rest := ⟨rfl, ⟨rfl, rfl⟩, rfl, fun hq => (hq rfl).elim, fun hr => Bool.noConfusion hr⟩
    waiting := rfl
    content := by
      change s.writer.flushInstances.file ++ [] = _
      rw [List.append_nil, hfile, h.content]
    storable := h.storable
    empty := fun hw => Bool.noConfusion hw
    ints := by
      change StoreOp.IsInt (dataOf recs).senderSeqNum ∧ StoreOp.IsInt (dataOf recs).targetSeqNum
      rw [hsender, htarget]
      exact h.ints
    texts := by
      change ∀ k wire, (dataOf recs).messages.find? k = some wire → _
      rw [hmessages]
      exact h.texts
    pending := fun k hk => by cases hk
    saved := fun _ => ⟨rfl, rfl⟩
    numbers := fun _ _ => ⟨rfl, rfl⟩
    messages := fun _ _ => rfl }

/-- Calls that are followed by `flushSeqNums` and a flush of the writer can be reloaded,
if no `flushSeqNums` wrote anything while a reset was waiting for the writer, and a
number was set since the last reset. -/
theorem run_reloads (ops : List CacheOp) (htime : FlushedInTime .new (ops ++ [.flushSeqNums]))
    (htouched : (ops.foldl Progress.step .new).untouched = false) :
    (StoredCache.new.run (ops ++ [.flushSeqNums, .flushInstances])).Reloads := by
  obtain ⟨recs, h⟩ := synced_new.run htime
  rw [List.foldl_append] at h
  have hend : StoredCache.new.run (ops ++ [.flushSeqNums, .flushInstances]) =
      (StoredCache.new.run (ops ++ [.flushSeqNums])).step .flushInstances := by
    simp [run]
  generalize hs : StoredCache.new.run (ops ++ [.flushSeqNums]) = s at h hend
  obtain ⟨hload, hsender, htarget, hmessages⟩ := h.load rfl htouched
  rw [hend]
  refine ⟨MemoryCache.new.load (dataOf recs), ?_, hsender, htarget, hmessages⟩
  change (do return MemoryCache.new.load (← StoreHandle.load s.writer.flushInstances.file)) = _
  rw [hload]
  rfl

/-- A message is sent, and the numbers and its text are there again. -/
theorem run_reloads_test :
    (StoredCache.new.run ([.cache 1 ⟨[56, 61], by decide⟩, .nextSenderSeqNum] ++
      [.flushSeqNums, .flushInstances])).Reloads :=
  run_reloads _ (by simp [FlushedInTime, Progress.new, Progress.step]) rfl

/-- A cache that is reset has the numbers 0, and one that is loaded from the empty file
has the numbers 1. -/
theorem not_run_reloads :
    ¬∀ ops, (StoredCache.new.run (ops ++ [.flushSeqNums, .flushInstances])).Reloads := by
  intro h
  obtain ⟨c, hc, hsender, -, -⟩ := h [.reset]
  have hload : (StoredCache.new.run ([.reset] ++ [.flushSeqNums, .flushInstances])).reload =
      .ok (MemoryCache.new.load .new) := rfl
  rw [hload] at hc
  cases hc
  exact absurd hsender (by decide)

end StoredCache

end OpenFix
