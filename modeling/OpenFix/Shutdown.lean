import OpenFix.Numbering

/-!
# Stopping an application

`Application::stop` stops each session, then the network, then the store.
`Session::stop` brings the store up to date before it disconnects.  Until the readers
are done a message may still be handed over, and a tick that found the session enabled
still goes on, but nothing brings the store up to date again.

A message, the two parts of a tick and the parts of `stop` are each one step here.
-/

namespace OpenFix

open Effect Run

/-! ## The records of a log -/

namespace StoreOp

/-- The records of a file after some calls. -/
def recordsAfter (recs log : List StoreOp) : List StoreOp :=
  log.foldl (fun recs op => if op = .reset then [] else recs ++ [op]) recs

/-- No record is written while a reset waits for the writer. -/
def InTime : Bool → List StoreOp → Prop
  | _, [] => True
  | waiting, op :: ops =>
      (op ≠ .reset → waiting = false) ∧ InTime (waiting || decide (op = .reset)) ops

instance decidableInTime : (waiting : Bool) → (ops : List StoreOp) → Decidable (InTime waiting ops)
  | _, [] => .isTrue True.intro
  | waiting, op :: ops =>
      @instDecidableAnd _ _ inferInstance (decidableInTime (waiting || decide (op = .reset)) ops)

/-- The numbers were written since the last reset. -/
def numbersKept (log : List StoreOp) : Bool :=
  log.foldl (fun kept op =>
    match op with
    | .reset => false
    | .setTargetSeqNum _ => true
    | .store _ _ | .setSenderSeqNum _ => kept) true

instance : DecidablePred IsInt := fun num =>
  inferInstanceAs (Decidable (-2147483648 ≤ num ∧ num < 2147483648))

instance : DecidablePred Storable
  | .store seqnum wire =>
      inferInstanceAs (Decidable (IsInt seqnum ∧ wire.length < 18446744073709551616))
  | .setSenderSeqNum num | .setTargetSeqNum num => inferInstanceAs (Decidable (IsInt num))
  | .reset => .isFalse id

/-- The call writes what the cache holds. -/
def Agrees (c : MemoryCache) : StoreOp → Prop
  | .store seqnum wire => c.messages.find? seqnum = some wire
  | .setSenderSeqNum num => num = c.senderSeqNum
  | .setTargetSeqNum num => num = c.targetSeqNum
  | .reset => False

instance (c : MemoryCache) : DecidablePred (Agrees c)
  | .store seqnum wire => inferInstanceAs (Decidable (c.messages.find? seqnum = some wire))
  | .setSenderSeqNum num => inferInstanceAs (Decidable (num = c.senderSeqNum))
  | .setTargetSeqNum num => inferInstanceAs (Decidable (num = c.targetSeqNum))
  | .reset => .isFalse id

theorem recordsAfter_append (recs log log' : List StoreOp) :
    recordsAfter recs (log ++ log') = recordsAfter (recordsAfter recs log) log' :=
  List.foldl_append ..

theorem recordsAfter_of_no_reset {recs : List StoreOp} : ∀ {ops : List StoreOp},
    .reset ∉ ops → recordsAfter recs ops = recs ++ ops
  | [], _ => (List.append_nil recs).symm
  | op :: ops, h => by
      rw [List.mem_cons, not_or] at h
      rw [← List.singleton_append, recordsAfter_append, recordsAfter_of_no_reset h.2,
        ← List.append_assoc]
      exact congrArg (· ++ ops) (if_neg (Ne.symm h.1))

theorem numbersKept_append_singleton (log : List StoreOp) (op : StoreOp) :
    numbersKept (log ++ [op]) =
      match op with
      | .reset => false
      | .setTargetSeqNum _ => true
      | .store _ _ | .setSenderSeqNum _ => numbersKept log := by
  rw [numbersKept, List.foldl_append]
  rfl

theorem numbersKept_append_stores : ∀ {ops : List StoreOp} (log : List StoreOp),
    (∀ op ∈ ops, ∃ seqnum wire, op = .store seqnum wire) →
      numbersKept (log ++ ops) = numbersKept log
  | [], log, _ => by rw [List.append_nil]
  | op :: ops, log, h => by
      obtain ⟨seqnum, wire, rfl⟩ := h op List.mem_cons_self
      have hrest : ∀ op ∈ ops, ∃ seqnum wire, op = .store seqnum wire := fun op hop =>
        h op (List.mem_cons_of_mem _ hop)
      rw [List.append_cons, numbersKept_append_stores (log ++ [StoreOp.store seqnum wire]) hrest,
        numbersKept_append_singleton]

theorem file_run (w : WriterInstance) (op : StoreOp) : (op.run w).file = w.file := by
  cases op with
  | _ => rfl

theorem file_foldl_run : ∀ (ops : List StoreOp) (w : WriterInstance),
    (ops.foldl run w).file = w.file
  | [], _ => rfl
  | op :: ops, w => (file_foldl_run ops (op.run w)).trans (file_run w op)

end StoreOp

/-! ## The writer -/

/-- What the file holds after the next flush, as records. -/
structure WriterInstance.HasRecords (recs : List StoreOp) (w : WriterInstance) : Prop where
  rest : w.AtRest
  content : w.content = recs.flatMap StoreOp.record
  storable : ∀ op ∈ recs, op.Storable
  waiting : w.shouldReset = true → recs = []

namespace WriterInstance.HasRecords

variable {recs : List StoreOp} {w : WriterInstance}

theorem run (h : HasRecords recs w) {op : StoreOp} (hstorable : op ≠ .reset → op.Storable)
    (htime : op ≠ .reset → w.shouldReset = false) :
    HasRecords (StoreOp.recordsAfter recs [op]) (op.run w) ∧
      (op.run w).shouldReset = (w.shouldReset || decide (op = .reset)) := by
  by_cases hop : op = .reset
  · subst hop
    refine ⟨⟨⟨h.rest.raw, h.rest.logs, h.rest.buffer, fun _ => rfl, fun _ => rfl⟩, rfl,
      fun op hmem => absurd hmem List.not_mem_nil, fun _ => rfl⟩, ?_⟩
    change true = (w.shouldReset || true)
    rw [Bool.or_true]
  · have hstorable := hstorable hop
    have htime := htime hop
    have hall : ∀ op' ∈ [op], op'.Storable := by
      intro op' hmem
      rw [List.mem_singleton.mp hmem]
      exact hstorable
    obtain ⟨hrest, hreset, hcontent⟩ := StoreOp.foldl_run hall h.rest htime
    have hrecs : StoreOp.recordsAfter recs [op] = recs ++ [op] := if_neg hop
    rw [hrecs]
    refine ⟨⟨hrest, ?_, fun op' hmem => ?_, fun hw => ?_⟩, ?_⟩
    · rw [List.flatMap_append, ← h.content]
      exact hcontent
    · rcases List.mem_append.mp hmem with hmem | hmem
      · exact h.storable op' hmem
      · exact hall op' hmem
    · exact Bool.noConfusion (hreset.symm.trans hw)
    · rw [htime, Bool.false_or, decide_eq_false hop]
      exact hreset

theorem foldl_run : ∀ {ops : List StoreOp} {recs : List StoreOp} {w : WriterInstance},
    HasRecords recs w → (∀ op ∈ ops, op ≠ .reset → op.Storable) →
    StoreOp.InTime w.shouldReset ops →
      HasRecords (StoreOp.recordsAfter recs ops) (ops.foldl StoreOp.run w)
  | [], _, _, h, _, _ => h
  | op :: ops, recs, w, h, hstorable, htime => by
      obtain ⟨hop, hreset⟩ := h.run (hstorable op List.mem_cons_self) htime.1
      have hrest := htime.2
      rw [← hreset] at hrest
      exact hop.foldl_run (fun op' hmem => hstorable op' (List.mem_cons_of_mem _ hmem)) hrest

theorem flushInstances (h : HasRecords recs w) :
    HasRecords recs w.flushInstances ∧ w.flushInstances.file = recs.flatMap StoreOp.record := by
  obtain ⟨hrest, hfile, hreset, hqueue⟩ := h.rest.flushInstances
  refine ⟨⟨hrest, ?_, h.storable, fun hw => Bool.noConfusion (hreset.symm.trans hw)⟩,
    hfile.trans h.content⟩
  rw [WriterInstance.content, hreset, if_neg (by decide), hfile, hqueue, List.append_nil, h.content]

end WriterInstance.HasRecords

/-! ## What the store has of the cache -/

/-- The data is what the cache holds. -/
structure SessionData.Matches (data : SessionData) (c : MemoryCache) : Prop where
  sender : data.senderSeqNum = c.senderSeqNum
  target : data.targetSeqNum = c.targetSeqNum
  messages : data.messages = c.messages

/-- What a cache that began with some records did not leave to the next `flushSeqNums`,
the store has. -/
structure MemoryCache.Backed (recs : List StoreOp) (c : MemoryCache) : Prop where
  pending : ∀ k ∈ c.pendingStoreSeqNums, (c.messages.find? k).isSome
  numbers : c.seqNumsDirty = false → StoreOp.numbersKept c.store = true →
    (StoredCache.dataOf (StoreOp.recordsAfter recs c.store)).senderSeqNum = c.senderSeqNum ∧
      (StoredCache.dataOf (StoreOp.recordsAfter recs c.store)).targetSeqNum = c.targetSeqNum
  messages : ∀ k, k ∉ c.pendingStoreSeqNums →
    (StoredCache.dataOf (StoreOp.recordsAfter recs c.store)).messages.find? k = c.messages.find? k

namespace MemoryCache.Backed

variable {recs : List StoreOp} {c : MemoryCache}

/-- A number is set. -/
theorem set (h : Backed recs c) (sender target : Int) :
    Backed recs { c with senderSeqNum := sender, targetSeqNum := target, seqNumsDirty := true } :=
  ⟨h.pending, fun hdirty => Bool.noConfusion hdirty, h.messages⟩

theorem queue (h : Backed recs c) (queue : SortedMap Int Message) :
    Backed recs { c with inboundQueue := queue } :=
  ⟨h.pending, h.numbers, h.messages⟩

theorem cache (h : Backed recs c) (seqnum : Int) (wire : Bytes) : Backed recs (c.cache seqnum wire) where
  pending k hk := by
    by_cases hne : k = seqnum
    · rw [MemoryCache.messages_cache, hne, SortedMap.find?_insert_self]
      rfl
    · rw [MemoryCache.messages_cache, SortedMap.find?_insert_ne _ hne]
      rcases List.mem_append.mp hk with hk | hk
      · exact h.pending k hk
      · exact (hne (List.mem_singleton.mp hk)).elim
  numbers := h.numbers
  messages k hk := by
    rw [MemoryCache.cache, List.mem_append, List.mem_singleton, not_or] at hk
    rw [MemoryCache.messages_cache, SortedMap.find?_insert_ne _ hk.2]
    exact h.messages k hk.1

theorem reset (c : MemoryCache) : Backed recs c.reset := by
  have hrecs : StoreOp.recordsAfter recs c.reset.store = [] := by
    rw [MemoryCache.reset, StoreOp.recordsAfter_append]
    rfl
  refine ⟨fun k hk => absurd hk List.not_mem_nil, fun _ hkept => ?_, fun k _ => ?_⟩
  · rw [MemoryCache.reset, StoreOp.numbersKept_append_singleton] at hkept
    cases hkept
  · rw [hrecs]
    rfl

/-- `flushSeqNums` leaves nothing to do. -/
theorem flushSeqNums (h : Backed recs c) : Backed recs c.flushSeqNums ∧
    (StoreOp.numbersKept c.flushSeqNums.store = true →
      (StoredCache.dataOf (StoreOp.recordsAfter recs c.flushSeqNums.store)).Matches c.flushSeqNums) := by
  obtain ⟨hsender, htarget, hmessages, -⟩ := c.flushSeqNums_keeps
  have hpending : c.flushSeqNums.pendingStoreSeqNums = [] := by
    unfold MemoryCache.flushSeqNums
    split
    · rfl
    · rfl
  have hstores : ∀ op ∈ c.pendingOps, ∃ seqnum wire, op = .store seqnum wire := by
    intro op hop
    obtain ⟨seqnum, -, hop⟩ := List.mem_filterMap.mp hop
    obtain ⟨wire, -, rfl⟩ := Option.map_eq_some_iff.mp hop
    exact ⟨seqnum, wire, rfl⟩
  have hno : StoreOp.reset ∉ StoredCache.flushed c := by
    intro hmem
    rcases List.mem_append.mp hmem with hmem | hmem
    · obtain ⟨seqnum, wire, hreset⟩ := hstores _ hmem
      cases hreset
    · split at hmem
      next => simp at hmem
      next => cases hmem
  have hrecs : StoreOp.recordsAfter recs c.flushSeqNums.store =
      StoreOp.recordsAfter recs c.store ++ StoredCache.flushed c := by
    rw [StoredCache.store_flushSeqNums, StoreOp.recordsAfter_append,
      StoreOp.recordsAfter_of_no_reset hno]
  have hkept : c.seqNumsDirty = false → StoreOp.numbersKept c.flushSeqNums.store = true →
      StoreOp.numbersKept c.store = true := by
    intro hdirty hflushed
    rw [StoredCache.store_flushSeqNums, StoredCache.flushed, hdirty, if_neg (by decide),
      List.append_nil, StoreOp.numbersKept_append_stores _ hstores] at hflushed
    exact hflushed
  have hnumbers : StoreOp.numbersKept c.flushSeqNums.store = true →
      (StoredCache.dataOf (StoreOp.recordsAfter recs c.flushSeqNums.store)).senderSeqNum =
          c.flushSeqNums.senderSeqNum ∧
        (StoredCache.dataOf (StoreOp.recordsAfter recs c.flushSeqNums.store)).targetSeqNum =
          c.flushSeqNums.targetSeqNum := by
    intro hflushed
    rw [hrecs, hsender, htarget]
    exact StoredCache.numbers_dataOf_flushed fun hdirty => h.numbers hdirty (hkept hdirty hflushed)
  have htexts : ∀ k, (StoredCache.dataOf (StoreOp.recordsAfter recs
      c.flushSeqNums.store)).messages.find? k = c.flushSeqNums.messages.find? k := by
    intro k
    rw [hrecs, hmessages]
    exact StoredCache.messages_dataOf_flushed h.pending (h.messages k)
  refine ⟨⟨fun k hk => ?_, fun _ => hnumbers, fun k _ => htexts k⟩, fun hflushed => ?_⟩
  · rw [hpending] at hk
    cases hk
  · obtain ⟨hs, ht⟩ := hnumbers hflushed
    exact ⟨hs, ht, SortedMap.ext_find? htexts⟩

end MemoryCache.Backed

/-! ## What a session does to its cache -/

namespace Session

/-- The calls of the store are added to the log, and what the store has stays backed. -/
structure Backs (s t : Session) : Prop where
  log : s.cache.store <+: t.cache.store
  backed : ∀ recs, s.cache.Backed recs → t.cache.Backed recs

theorem Backs.of_same {s t : Session} (h : t.cache = s.cache) : Backs s t :=
  ⟨h ▸ List.prefix_rfl, fun _ hs => h ▸ hs⟩

instance : Std.Refl Backs := ⟨fun _ => .of_same rfl⟩

instance : IsTrans Session Backs where
  trans _ _ _ h h' := ⟨h.log.trans h'.log, fun recs hs => h'.backed recs (h.backed recs hs)⟩

theorem backs_flush (s : Session) : Backs s { s with cache := s.cache.flushSeqNums } where
  log := by
    dsimp only
    rw [StoredCache.store_flushSeqNums]
    exact List.prefix_append _ _
  backed _ h := h.flushSeqNums.1

theorem backs_reset : Keeps Backs reset :=
  keeps_bind (keeps_modify fun _ => .of_same rfl) fun _ =>
    keeps_modify fun s => ⟨List.prefix_append _ _, fun _ _ => .reset s.cache⟩

theorem backs_setSender (s : Session) (num : Int) :
    Backs s { s with cache := s.cache.setSenderSeqNum num } :=
  ⟨List.prefix_rfl, fun _ h => h.set num s.cache.targetSeqNum⟩

theorem backs_setTarget (s : Session) (num : Int) :
    Backs s { s with cache := s.cache.setTargetSeqNum num } :=
  ⟨List.prefix_rfl, fun _ h => h.set s.cache.senderSeqNum num⟩

theorem backs_disconnect : Keeps Backs networkDisconnect := by
  unfold networkDisconnect
  refine keeps_bind keeps_get fun s => ?_
  refine keeps_bind (keeps_modify fun s => .of_same rfl) fun _ => ?_
  cases s.network.connection with
  | none => exact keeps_pure _
  | some fd => exact keeps_ite (fun _ => keeps_modify fun _ => .of_same rfl) fun _ => keeps_pure _

theorem backs_sending : OpenToSending Backs where
  refl := Std.Refl.refl
  trans := IsTrans.trans
  book h := .of_same h.cache
  transmit _ _ _ := .of_same rfl
  dropInvalid _ _ := .of_same rfl
  terminate _ := keeps_bind (keeps_modify fun _ => .of_same rfl) fun _ =>
    keeps_bind backs_disconnect fun _ => keeps_modify fun _ => .of_same rfl
  cache {s _} _ := ⟨List.prefix_rfl, fun _ h => (h.cache _ _).set _ s.cache.targetSeqNum⟩
  disconnect := backs_disconnect
  kill _ := .of_same rfl
  stopped _ := .of_same rfl
  flush := backs_flush

theorem backs_inbound (env : Env) : OpenToInbound env Backs where
  toOpenToSending := backs_sending
  states _ _ := .of_same rfl
  nextTarget s := backs_setTarget s _
  setTarget s num _ _ := backs_setTarget s num
  queueInbound _ _ _ := ⟨List.prefix_rfl, fun _ h => h.queue _⟩
  eraseInbound _ := ⟨List.prefix_rfl, fun _ h => h.queue _⟩
  reset := backs_reset
  calls call _ := by
    cases call with
    | send msg => exact backs_sending.send env msg none
    | setSenderSeqNum num => exact keeps_modify fun s => backs_setSender s num
    | setTargetSeqNum num => exact keeps_modify fun s => backs_setTarget s num
    | start => exact backs_sending.modify fun _ => ⟨rfl, rfl, rfl, rfl⟩
    | stop => exact backs_sending.stop
    | throw => exact keeps_throw _
  handled _ _ _ := .of_same rfl

/-- The gates of `onNetworkUpdate`. -/
def beginUpdate (env : Env) : SessionM Bool := do
  if !(← get).enabled then return false
  else do
    let now ← getEpochMillis env
    if now - (← get).lastUpdate < 1 then return false
    else do
      modify fun s => { s with lastUpdate := now }
      return true

/-- What `onNetworkUpdate` does behind its gates. -/
def finishUpdate (env : Env) : SessionM Unit :=
  tryCatch (do
    modifyCache MemoryCache.flushSeqNums
    internalUpdate env) fun e =>
      match e with
      | .undefined what => throw (.undefined what)
      | _ => pure ()

/-- A tick is its two parts. -/
theorem onNetworkUpdate_eq (env : Env) : onNetworkUpdate env =
    beginUpdate env >>= fun begun => if begun then finishUpdate env else pure () := by
  unfold onNetworkUpdate beginUpdate
  rw [bind_assoc]
  refine bind_congr fun s => ?_
  split
  · rfl
  · rw [bind_assoc]
    refine bind_congr fun now => ?_
    rw [bind_assoc]
    refine bind_congr fun t => ?_
    split
    · rfl
    · rfl

theorem backs_beginUpdate (env : Env) : Keeps Backs (beginUpdate env) := by
  unfold beginUpdate
  refine keeps_bind keeps_get fun _ => keeps_ite (fun _ => keeps_pure _) fun _ => ?_
  refine keeps_bind (backs_sending.getEpochMillis env) fun now => keeps_bind keeps_get fun _ => ?_
  refine keeps_ite (fun _ => keeps_pure _) fun _ => ?_
  exact keeps_bind (keeps_modify fun _ => .of_same rfl) fun _ => keeps_pure _

theorem backs_finishUpdate (env : Env) : Keeps Backs (finishUpdate env) := by
  have hdown : ∀ time, Keeps Backs (updateDisconnected env time) := by
    intro time
    refine keeps_bind (keeps_modify fun _ => .of_same rfl) fun _ => keeps_bind keeps_get fun _ => ?_
    refine keeps_ite (fun _ => keeps_bind ?_ fun _ => keeps_modify fun _ => .of_same rfl) fun _ =>
      keeps_pure _
    exact keeps_networkStart env fun _ _ => .of_same rfl
  refine keeps_tryCatch (keeps_bind (keeps_modify backs_flush) fun _ => ?_) fun e => ?_
  · exact backs_sending.internalUpdate backs_reset hdown (backs_inbound env).updateHeartbeats
  · cases e with
    | undefined what => exact keeps_throw _
    | _ => exact keeps_pure _

theorem backs_networkStop : Keeps Backs networkStop := by
  unfold networkStop
  refine keeps_bind keeps_get fun _ => keeps_ite (fun _ => keeps_pure _) fun _ => ?_
  exact keeps_bind (keeps_modify fun _ => .of_same rfl) fun _ => backs_disconnect

end Session

/-! ## The stop -/

/-- How far `Application::stop` is. -/
inductive StopPhase where
  | running
  /-- The session is disabled. -/
  | disabled
  /-- `flushSeqNums` was called. -/
  | flushed
  /-- The handler is stopped. -/
  | disconnected
  /-- The readers are done. -/
  | joined
  /-- The writer thread is done, and what it left is in the file. -/
  | stored
  /-- The update thread is done. -/
  | stopped
deriving Repr, DecidableEq

namespace StopPhase

/-- The readers run. -/
def isReading : StopPhase → Bool
  | .running | .disabled | .flushed | .disconnected => true
  | .joined | .stored | .stopped => false

/-- `flushSeqNums` was called. -/
def isFlushed : StopPhase → Bool
  | .running | .disabled => false
  | .flushed | .disconnected | .joined | .stored | .stopped => true

/-- The writer thread is done. -/
def isStored : StopPhase → Bool
  | .stored | .stopped => true
  | .running | .disabled | .flushed | .disconnected | .joined => false

end StopPhase

/-- A session of an application that is stopped at some time. -/
structure Shutdown where
  stored : StoredSession
  phase : StopPhase
  /-- The ticks that are between their two parts. -/
  ticks : Nat

inductive ShutdownStep where
  /-- The application sends a message. -/
  | send (msg : Message)
  | connected (fd : Nat)
  | disconnected
  | inbound (text : Bytes)
  | beginUpdate
  | finishUpdate
  /-- The writer thread flushes. -/
  | flushInstances
  /-- `Application::stop` goes on. -/
  | stop

def ShutdownStep.isStop : ShutdownStep → Bool
  | .stop => true
  | .send _ | .connected _ | .disconnected | .inbound _ | .beginUpdate | .finishUpdate
  | .flushInstances => false

namespace Shutdown

/-- A session on a file with some records, as it is constructed. -/
def new (settings : SessionSettings) (recs : List StoreOp) : Shutdown :=
  let file := recs.flatMap StoreOp.record
  ⟨⟨StoredSession.load settings file, { WriterInstance.new false with file := file }⟩, .running, 0⟩

/-- What a step makes of the session. -/
def sessionAfter (env : Env) (s : Shutdown) : ShutdownStep → Session
  | .send msg => after (Session.send env msg none) s.stored.session
  | .connected fd =>
      if s.phase.isReading then Session.next env (.connected fd) s.stored.session
      else s.stored.session
  | .disconnected =>
      if s.phase.isReading then Session.next env .disconnected s.stored.session
      else s.stored.session
  | .inbound text =>
      if s.phase.isReading then Session.next env (.inbound text) s.stored.session
      else s.stored.session
  | .beginUpdate => after (Session.beginUpdate env) s.stored.session
  | .finishUpdate =>
      if s.ticks = 0 then s.stored.session else after (Session.finishUpdate env) s.stored.session
  | .flushInstances => s.stored.session
  | .stop =>
      match s.phase with
      | .running => { s.stored.session with enabled := false }
      | .disabled => after (Session.modifyCache MemoryCache.flushSeqNums) s.stored.session
      | .flushed => after Session.networkStop s.stored.session
      | .disconnected | .joined | .stored | .stopped => s.stored.session

/-- The tick goes past its gates. -/
def begun (env : Env) (s : Shutdown) : Bool :=
  match (Session.beginUpdate env).run s.stored.session with
  | .ok begun _ => begun
  | .error _ _ => false

/-- `Application::stop` goes on, with what its step made of the session. -/
def stop (s : Shutdown) (stored : StoredSession) : Shutdown :=
  match s.phase with
  | .running => { s with stored := stored, phase := .disabled }
  | .disabled => { s with stored := stored, phase := .flushed }
  | .flushed => { s with stored := stored, phase := .disconnected }
  | .disconnected => { s with stored := stored, phase := .joined }
  | .joined =>
      { s with stored := { stored with writer := stored.writer.flushInstances }, phase := .stored }
  | .stored => if s.ticks = 0 then { s with stored := stored, phase := .stopped } else s
  | .stopped => s

def step (env : Env) (i : ShutdownStep) (s : Shutdown) : Shutdown :=
  if s.phase = .stopped then s
  else
    let stored := s.stored.advance (s.sessionAfter env i)
    match i with
    | .beginUpdate =>
        { s with stored := stored, ticks := if s.begun env then s.ticks + 1 else s.ticks }
    | .finishUpdate => { s with stored := stored, ticks := s.ticks - 1 }
    | .flushInstances =>
        if s.phase.isStored then s
        else { s with stored := { stored with writer := stored.writer.flushInstances } }
    | .stop => s.stop stored
    | .send _ | .connected _ | .disconnected | .inbound _ => { s with stored := stored }

/-- The parts of `Session::stop`, one after the other. -/
theorem stop_eq : Session.stop = (do
    modify fun s => { s with enabled := false }
    Session.modifyCache MemoryCache.flushSeqNums
    Session.networkStop) := rfl

/-- What is loaded from the file is what the session holds. -/
def Persisted (s : Shutdown) : Prop :=
  ∃ data, StoreHandle.load s.stored.writer.file = .ok data ∧ data.Matches s.stored.session.cache

/-- The calls of the store that a step makes. -/
def calls (env : Env) (s : Shutdown) (i : ShutdownStep) : List StoreOp :=
  (s.sessionAfter env i).cache.store.drop s.stored.session.cache.store.length

/-- A record is an `int` or a `std::string`, none is written while a reset waits for the
writer, and the numbers were written since the last reset when `flushSeqNums` is called at
the end.  From then on no step changes what the cache holds, or writes anything else. -/
structure Safe (env : Env) (s : Shutdown) (i : ShutdownStep) : Prop where
  storable : ∀ op ∈ s.calls env i, op ≠ .reset → op.Storable
  inTime : StoreOp.InTime s.stored.writer.shouldReset (s.calls env i)
  kept : s.phase = .disabled → i.isStop = true →
    StoreOp.numbersKept (s.sessionAfter env i).cache.store = true
  settled : s.phase.isFlushed = true →
    (s.sessionAfter env i).cache.senderSeqNum = s.stored.session.cache.senderSeqNum ∧
      (s.sessionAfter env i).cache.targetSeqNum = s.stored.session.cache.targetSeqNum ∧
      (s.sessionAfter env i).cache.messages = s.stored.session.cache.messages ∧
      ∀ op ∈ s.calls env i, op.Agrees s.stored.session.cache

instance (env : Env) (s : Shutdown) (i : ShutdownStep) : Decidable (Safe env s i) :=
  decidable_of_iff
    ((∀ op ∈ s.calls env i, op ≠ .reset → op.Storable) ∧
      StoreOp.InTime s.stored.writer.shouldReset (s.calls env i) ∧
      (s.phase = .disabled → i.isStop = true →
        StoreOp.numbersKept (s.sessionAfter env i).cache.store = true) ∧
      (s.phase.isFlushed = true →
        (s.sessionAfter env i).cache.senderSeqNum = s.stored.session.cache.senderSeqNum ∧
        (s.sessionAfter env i).cache.targetSeqNum = s.stored.session.cache.targetSeqNum ∧
        (s.sessionAfter env i).cache.messages = s.stored.session.cache.messages ∧
        ∀ op ∈ s.calls env i, op.Agrees s.stored.session.cache))
    ⟨fun ⟨hstorable, htime, hkept, hsettled⟩ => ⟨hstorable, htime, hkept, hsettled⟩,
      fun h => ⟨h.storable, h.inTime, h.kept, h.settled⟩⟩

end Shutdown

/-! ## What is kept -/

/-- The cache and the writer of a session that began with some records. -/
structure StoredSession.Backed (recs : List StoreOp) (s : StoredSession) : Prop where
  cache : s.session.cache.Backed recs
  writer : s.writer.HasRecords (StoreOp.recordsAfter recs s.session.cache.store)

theorem StoredSession.Backed.advance {recs : List StoreOp} {s : StoredSession} (h : s.Backed recs)
    {t : Session} {ops : List StoreOp} (hbacks : Session.Backs s.session t)
    (hops : ops = t.cache.store.drop s.session.cache.store.length)
    (hstorable : ∀ op ∈ ops, op ≠ .reset → op.Storable)
    (htime : StoreOp.InTime s.writer.shouldReset ops) :
    (s.advance t).Backed recs ∧ t.cache.store = s.session.cache.store ++ ops := by
  obtain ⟨ops', hlog⟩ := hbacks.log
  have hsame : ops = ops' := by rw [hops, ← hlog, List.drop_left]
  subst hsame
  refine ⟨⟨hbacks.backed recs h.cache, ?_⟩, hlog.symm⟩
  change WriterInstance.HasRecords (StoreOp.recordsAfter recs t.cache.store)
    ((t.cache.store.drop s.session.cache.store.length).foldl StoreOp.run s.writer)
  rw [← hops, ← hlog, StoreOp.recordsAfter_append]
  exact h.writer.foldl_run hstorable htime

/-- Calls that write what the cache holds change nothing. -/
theorem matches_recordsAfter {c : MemoryCache} : ∀ {ops recs : List StoreOp},
    (StoredCache.dataOf recs).Matches c → (∀ op ∈ ops, op.Agrees c) →
      (StoredCache.dataOf (StoreOp.recordsAfter recs ops)).Matches c
  | [], _, h, _ => h
  | op :: ops, recs, h, hagrees => by
      have hop := hagrees op List.mem_cons_self
      have hrecs : StoreOp.recordsAfter recs [op] = recs ++ [op] := by
        refine StoreOp.recordsAfter_of_no_reset fun hmem => ?_
        rw [← List.mem_singleton.mp hmem] at hop
        exact hop
      have hstep : (StoredCache.dataOf (StoreOp.recordsAfter recs [op])).Matches c := by
        rw [hrecs, StoredCache.dataOf_append]
        cases op with
        | store seqnum wire =>
            refine ⟨h.sender, h.target, SortedMap.ext_find? fun k => ?_⟩
            change ((StoredCache.dataOf recs).messages.insert seqnum wire).find? k = _
            by_cases hk : k = seqnum
            · rw [hk, SortedMap.find?_insert_self]
              exact hop.symm
            · rw [SortedMap.find?_insert_ne _ hk, h.messages]
        | setSenderSeqNum num => exact ⟨hop, h.target, h.messages⟩
        | setTargetSeqNum num => exact ⟨h.sender, hop, h.messages⟩
        | reset => exact hop.elim
      have hrest := matches_recordsAfter hstep fun op' hmem => hagrees op' (List.mem_cons_of_mem _ hmem)
      exact hrest

namespace Shutdown

/-- What holds of a run from some records. -/
structure Inv (recs : List StoreOp) (s : Shutdown) : Prop where
  backed : s.stored.Backed recs
  flushed : s.phase.isFlushed = true →
    (StoredCache.dataOf (StoreOp.recordsAfter recs s.stored.session.cache.store)).Matches
      s.stored.session.cache
  persisted : s.phase.isStored = true → s.Persisted

theorem inv_new {settings : SessionSettings} {recs : List StoreOp} (hrecs : ∀ op ∈ recs, op.Storable) :
    Inv recs (new settings recs) := by
  have hload : StoredSession.load settings (recs.flatMap StoreOp.record) =
      { Session.new settings with cache := MemoryCache.new.load (StoredCache.dataOf recs) } := by
    unfold StoredSession.load
    rw [StoreHandle.load_records hrecs]
    rfl
  have hcache : (new settings recs).stored.session.cache =
      MemoryCache.new.load (StoredCache.dataOf recs) := congrArg Session.cache hload
  refine ⟨⟨?_, ?_⟩, fun h => Bool.noConfusion h, fun h => Bool.noConfusion h⟩
  · rw [hcache]
    exact ⟨fun k hk => absurd hk List.not_mem_nil, fun _ _ => ⟨rfl, rfl⟩, fun _ _ => rfl⟩
  · rw [hcache]
    exact {
      rest := ⟨rfl, ⟨rfl, rfl⟩, rfl, fun hq => (hq rfl).elim, fun hr => Bool.noConfusion hr⟩
      content := List.append_nil _
      storable := hrecs
      waiting := fun hr => Bool.noConfusion hr }

theorem backs_sessionAfter (env : Env) (s : Shutdown) (i : ShutdownStep) :
    Session.Backs s.stored.session (s.sessionAfter env i) := by
  cases i with
  | send msg => exact Session.backs_sending.send env msg none _
  | connected fd =>
      rw [sessionAfter]
      split
      · exact .of_same rfl
      · exact .of_same rfl
  | disconnected =>
      rw [sessionAfter]
      split
      · exact .of_same rfl
      · exact .of_same rfl
  | inbound text =>
      rw [sessionAfter]
      split
      · exact (Session.backs_inbound env).onNetworkMessage (fun _ _ _ => .of_same rfl)
          (fun _ _ _ => .of_same rfl) text _
      · exact .of_same rfl
  | beginUpdate => exact Session.backs_beginUpdate env _
  | finishUpdate =>
      rw [sessionAfter]
      split
      · exact .of_same rfl
      · exact Session.backs_finishUpdate env _
  | flushInstances => exact .of_same rfl
  | stop =>
      rw [sessionAfter]
      cases s.phase with
      | disabled => exact Session.backs_flush _
      | flushed => exact Session.backs_networkStop _
      | _ => exact .of_same rfl

theorem file_advance (s : StoredSession) (t : Session) : (s.advance t).writer.file = s.writer.file :=
  StoreOp.file_foldl_run _ _

/-- A flush of the writer keeps what is backed. -/
theorem backed_flushInstances {recs : List StoreOp} {s : StoredSession} (h : s.Backed recs) :
    ({ s with writer := s.writer.flushInstances } : StoredSession).Backed recs :=
  ⟨h.cache, h.writer.flushInstances.1⟩

/-- What the session does in a safe step. -/
theorem Inv.advance {recs : List StoreOp} {env : Env} {s : Shutdown} (h : Inv recs s)
    {i : ShutdownStep} (hsafe : s.Safe env i) :
    Inv recs { s with stored := s.stored.advance (s.sessionAfter env i) } := by
  obtain ⟨hbacked, hlog⟩ := h.backed.advance (backs_sessionAfter env s i) rfl hsafe.storable hsafe.inTime
  have hmatches : s.phase.isFlushed = true → ∀ {data : SessionData},
      data.Matches s.stored.session.cache → data.Matches (s.sessionAfter env i).cache := by
    intro hphase data hdata
    obtain ⟨hsender, htarget, hmessages, -⟩ := hsafe.settled hphase
    exact ⟨hdata.sender.trans hsender.symm, hdata.target.trans htarget.symm,
      hdata.messages.trans hmessages.symm⟩
  refine ⟨hbacked, fun hphase => ?_, fun hphase => ?_⟩
  · refine hmatches hphase ?_
    change (StoredCache.dataOf (StoreOp.recordsAfter recs (s.sessionAfter env i).cache.store)).Matches _
    rw [hlog, StoreOp.recordsAfter_append]
    exact matches_recordsAfter (h.flushed hphase) (hsafe.settled hphase).2.2.2
  · obtain ⟨data, hload, hdata⟩ := h.persisted hphase
    have hflushed : s.phase.isFlushed = true := by
      change s.phase.isStored = true at hphase
      cases hp : s.phase with
      | stored => rfl
      | stopped => rfl
      | _ =>
          rw [hp] at hphase
          cases hphase
    refine ⟨data, ?_, hmatches hflushed hdata⟩
    exact (congrArg StoreHandle.load (file_advance _ _)).trans hload

theorem Inv.stop {recs : List StoreOp} {env : Env} {s : Shutdown} (h : Inv recs s)
    (hsafe : s.Safe env .stop) :
    Inv recs (s.stop (s.stored.advance (s.sessionAfter env .stop))) := by
  have hadvance := h.advance hsafe
  unfold Shutdown.stop
  split
  next => exact ⟨hadvance.backed, fun hp => Bool.noConfusion hp, fun hp => Bool.noConfusion hp⟩
  next hphase =>
    refine ⟨hadvance.backed, fun _ => ?_, fun hp => Bool.noConfusion hp⟩
    have hafter : (s.sessionAfter env .stop).cache = s.stored.session.cache.flushSeqNums := by
      unfold sessionAfter
      rw [hphase]
      rfl
    have hkept := hsafe.kept hphase rfl
    rw [hafter] at hkept
    change (StoredCache.dataOf (StoreOp.recordsAfter recs (s.sessionAfter env .stop).cache.store)).Matches
      (s.sessionAfter env .stop).cache
    rw [hafter]
    exact h.backed.cache.flushSeqNums.2 hkept
  next hphase =>
    exact ⟨hadvance.backed, fun _ => hadvance.flushed (by rw [hphase]; rfl), fun hp => Bool.noConfusion hp⟩
  next hphase =>
    exact ⟨hadvance.backed, fun _ => hadvance.flushed (by rw [hphase]; rfl), fun hp => Bool.noConfusion hp⟩
  next hphase =>
    have hflushed := hadvance.flushed (by rw [hphase]; rfl)
    refine ⟨backed_flushInstances hadvance.backed, fun _ => hflushed, fun _ => ?_⟩
    obtain ⟨-, hfile⟩ := hadvance.backed.writer.flushInstances
    refine ⟨_, ?_, hflushed⟩
    dsimp only
    rw [hfile]
    exact StoreHandle.load_records hadvance.backed.writer.storable
  next hphase =>
    split
    next =>
      exact ⟨hadvance.backed, fun _ => hadvance.flushed (by rw [hphase]; rfl),
        fun _ => hadvance.persisted (by rw [hphase]; rfl)⟩
    next => exact h
  next => exact h

theorem Inv.step {recs : List StoreOp} {env : Env} {s : Shutdown} (h : Inv recs s)
    {i : ShutdownStep} (hsafe : s.Safe env i) : Inv recs (step env i s) := by
  have hadvance := h.advance hsafe
  unfold Shutdown.step
  split
  next => exact h
  next =>
    cases i with
    | beginUpdate => exact ⟨hadvance.backed, hadvance.flushed, hadvance.persisted⟩
    | finishUpdate => exact ⟨hadvance.backed, hadvance.flushed, hadvance.persisted⟩
    | flushInstances =>
        dsimp only
        split
        next => exact h
        next hstored =>
          exact ⟨backed_flushInstances hadvance.backed, hadvance.flushed, fun hp => (hstored hp).elim⟩
    | stop => exact h.stop hsafe
    | _ => exact hadvance

/-- When a stop has come to its end and every step was safe, the file has what the
session holds. -/
theorem run_persisted {env : Env} {recs : List StoreOp} {s : Shutdown}
    (hrecs : ∀ op ∈ recs, op.Storable)
    (h : Reached (new env.settings recs) (step env) (Safe env) s) (hphase : s.phase = .stopped) :
    s.Persisted := by
  have hinv : Inv recs s := h.invariant (P := Inv recs) (inv_new hrecs) fun s i hi hs => hs.step hi
  exact hinv.persisted (by rw [hphase]; rfl)

/-- An acceptor is stopped after a logon and an order. -/
def quietStop : List ShutdownStep :=
  [.connected 3, .inbound testLogon, .inbound testOrder, .flushInstances, .stop, .stop, .stop,
    .stop, .stop, .stop]

theorem run_persisted_test :
    (runOf (step (testEnv acceptorSettings)) (new acceptorSettings []) quietStop).Persisted := by
  have hallowed : AllowedAlong (step (testEnv acceptorSettings)) (Safe (testEnv acceptorSettings))
      (new acceptorSettings []) quietStop := by decide +kernel
  have hnone : ∀ op ∈ ([] : List StoreOp), op.Storable := fun op hop => absurd hop List.not_mem_nil
  exact run_persisted hnone (Reached.init.along hallowed) (by decide +kernel)

/-- The order comes in after `flushSeqNums`, and before the handler is stopped. -/
def lateOrder : List ShutdownStep :=
  [.connected 3, .inbound testLogon, .stop, .stop, .inbound testOrder, .stop, .stop, .stop, .stop]

theorem not_run_persisted : ¬∀ (env : Env) (recs : List StoreOp) (s : Shutdown),
    (∀ op ∈ recs, op.Storable) →
    Reached (new env.settings recs) (step env) (fun _ _ => True) s → s.phase = .stopped →
      s.Persisted := by
  intro hall
  have hreached : Reached (new (testEnv acceptorSettings).settings []) (step (testEnv acceptorSettings))
      (fun _ _ => True) (runOf (step (testEnv acceptorSettings)) (new acceptorSettings []) lateOrder) :=
    Reached.init.runOf (fun _ _ => True.intro) lateOrder
  obtain ⟨data, hload, hdata⟩ := hall _ [] _ (fun op hop => absurd hop List.not_mem_nil) hreached
    (by decide +kernel)
  have hstored : (StoreHandle.load (runOf (step (testEnv acceptorSettings)) (new acceptorSettings [])
      lateOrder).stored.writer.file).map SessionData.targetSeqNum = .ok 2 := by decide +kernel
  have hmemory : (runOf (step (testEnv acceptorSettings)) (new acceptorSettings [])
      lateOrder).stored.session.cache.targetSeqNum = 3 := by decide +kernel
  rw [hload] at hstored
  have htarget : data.targetSeqNum = 2 := Except.ok.inj hstored
  have hmatch := hdata.target
  rw [htarget, hmemory] at hmatch
  cases hmatch

end Shutdown

end OpenFix
