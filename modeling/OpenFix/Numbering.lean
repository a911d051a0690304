import OpenFix.Connection
import OpenFix.Sending
import OpenFix.Store

/-!
# The numbers of what is sent

Whatever a session does, its cache goes through a few steps: a message is sent
under the sender number, the target number is set, the queue of early messages
changes, or the store is brought up to date.  Only the first of them touches the
sender number and the texts.

`Passed` says what the messages sent so far make of both.  The number is an
`int`, so it is the next one only until it wraps.
-/

namespace OpenFix

open Effect

/-- The event of a reset. -/
def Event.isReset : Event → Bool
  | .reset => true
  | _ => false

/-! ## Messages that were passed through `send` -/

/-- The sender number and the texts after the messages that were sent so far. -/
inductive Passed : List Message → Int → SortedMap Int Bytes → Prop where
  | none : Passed [] 1 .empty
  | send {passed : List Message} {sender : Int} {texts : SortedMap Int Bytes} {m : Message}
      (h : Passed passed sender texts)
      (hm : m.header.field? Field.msgSeqNum = some (toChars sender)) :
      Passed (passed ++ [m]) (i32 (sender + 1)) (texts.insert sender (m.toString true))

namespace Passed

variable {passed : List Message} {sender : Int} {texts : SortedMap Int Bytes}

theorem sender_eq (h : Passed passed sender texts) (hlt : passed.length < 2147483647) :
    sender = passed.length + 1 := by
  induction h with
  | none => rfl
  | @send passed sender texts m h hm ih =>
      rw [List.length_append, List.length_singleton] at hlt ⊢
      have hsender := ih (by omega)
      rw [hsender, i32_of_range (by omega) (by omega)]
      omega

/-- Before the number wraps, the keys are the numbers below it. -/
theorem mem_keys_iff (h : Passed passed sender texts) (hlt : passed.length < 2147483647) {k : Int} :
    k ∈ texts.keys ↔ 1 ≤ k ∧ k < sender := by
  induction h with
  | none =>
      simp only [SortedMap.keys_empty, List.not_mem_nil, false_iff]
      omega
  | @send passed sender texts m h hm ih =>
      rw [List.length_append, List.length_singleton] at hlt
      have hsender := h.sender_eq (by omega)
      rw [SortedMap.mem_keys_insert, ih (by omega), i32_of_range (by omega) (by omega)]
      omega

/-- Before the number wraps, each text is kept under its number. -/
theorem kept (h : Passed passed sender texts) (hlt : passed.length < 2147483647) {i : Nat}
    {m : Message} (hm : passed[i]? = some m) :
    m.HasSeqNum (i + 1) ∧ texts.find? (i + 1) = some (m.toString true) := by
  induction h with
  | none => cases hm
  | @send passed sender texts last h hlast ih =>
      rw [List.length_append, List.length_singleton] at hlt
      have hsender := h.sender_eq (by omega)
      rcases Nat.lt_or_ge i passed.length with hi | hi
      · rw [List.getElem?_append_left hi] at hm
        rw [SortedMap.find?_insert_ne _ (by omega)]
        exact ih (by omega) hm
      · obtain ⟨rfl, rfl⟩ : i = passed.length ∧ m = last := by
          rw [List.getElem?_append_right hi] at hm
          obtain ⟨hi', hget⟩ := List.getElem?_eq_some_iff.mp hm
          rw [List.length_singleton] at hi'
          rw [List.getElem_singleton] at hget
          exact ⟨by omega, hget.symm⟩
        rw [← hsender, SortedMap.find?_insert_self]
        refine ⟨FieldMap.getIntField_eq.mpr ⟨_, hlast, ?_⟩, rfl⟩
        exact FieldMap.intOf_toChars (by omega) (by omega)

/-- The numbers that were used stay in the cache, also when the number wraps. -/
theorem mem_keys (h : Passed passed sender texts) {i : Nat} (hi : i < passed.length)
    (hlt : i < 2147483647) : (i + 1 : Int) ∈ texts.keys := by
  induction h with
  | none => exact absurd hi (Nat.not_lt_zero _)
  | @send passed sender texts m h hm ih =>
      rw [SortedMap.mem_keys_insert]
      rw [List.length_append, List.length_singleton] at hi
      rcases Nat.lt_or_ge i passed.length with hless | hge
      · exact .inr (ih hless)
      · obtain rfl : i = passed.length := by omega
        exact .inl (h.sender_eq hlt).symm

/-- Where fewer texts are cached than there are positive numbers, as many were sent. -/
theorem length_lt (h : Passed passed sender texts) (hfew : texts.keys.length < 2147483647) :
    passed.length < 2147483647 := by
  by_contra hge
  have hsub : (List.range 2147483647).map (fun i : Nat => (i + 1 : Int)) ⊆ texts.keys := by
    intro k hk
    obtain ⟨i, hi, rfl⟩ := List.mem_map.mp hk
    rw [List.mem_range] at hi
    exact h.mem_keys (by omega) hi
  have hnodup : ((List.range 2147483647).map (fun i : Nat => (i + 1 : Int))).Nodup :=
    List.nodup_range.map fun i j hij => by omega
  have hlen := List.Nodup.length_le_of_subset hnodup hsub
  rw [List.length_map, List.length_range] at hlen
  omega

end Passed

/-! ## What a session does to its cache -/

/-- A step of the cache, and the message that it sends, if it does. -/
inductive CacheStep : MemoryCache → Option Message → MemoryCache → Prop where
  | send {c : MemoryCache} {m : Message}
      (hm : m.header.field? Field.msgSeqNum = some (toChars c.senderSeqNum)) :
      CacheStep c (some m) (c.cache c.senderSeqNum (m.toString true)).nextSenderSeqNum
  | setTarget {c : MemoryCache} {num : Int} (h : StoreOp.IsInt num) :
      CacheStep c none (c.setTargetSeqNum num)
  | queue {c : MemoryCache} (queue : SortedMap Int Message) :
      CacheStep c none { c with inboundQueue := queue }
  | flush {c : MemoryCache} : CacheStep c none c.flushSeqNums

/-- Steps of the cache, and the messages that they send. -/
inductive CacheRun : MemoryCache → List Message → MemoryCache → Prop where
  | refl (c : MemoryCache) : CacheRun c [] c
  | step {c d e : MemoryCache} {ms : List Message} {m : Option Message} (h : CacheRun c ms d)
      (hstep : CacheStep d m e) : CacheRun c (ms ++ m.toList) e

namespace CacheRun

variable {c d e : MemoryCache} {ms ms' : List Message}

theorem trans (h : CacheRun c ms d) (h' : CacheRun d ms' e) : CacheRun c (ms ++ ms') e := by
  induction h' with
  | refl => rwa [List.append_nil]
  | step _ hstep ih =>
      rw [← List.append_assoc]
      exact ih.step hstep

theorem single {m : Option Message} (h : CacheStep c m d) : CacheRun c m.toList d :=
  (CacheRun.refl c).step h

theorem passed (h : CacheRun c ms d) {passed : List Message}
    (hc : Passed passed c.senderSeqNum c.messages) :
    Passed (passed ++ ms) d.senderSeqNum d.messages := by
  induction h with
  | refl => rwa [List.append_nil]
  | @step d e ms m _ hstep ih =>
      rw [← List.append_assoc]
      cases hstep with
      | send hm => exact ih.send hm
      | setTarget =>
          rw [Option.toList_none, List.append_nil]
          exact ih
      | queue =>
          rw [Option.toList_none, List.append_nil]
          exact ih
      | flush =>
          obtain ⟨hsender, -, hmessages, -⟩ := d.flushSeqNums_keeps
          rw [Option.toList_none, List.append_nil, hsender, hmessages]
          exact ih

end CacheRun

namespace Session

/-- Without a reset, the cache went through a few steps. -/
def Numbers (s t : Session) : Prop :=
  ∃ ev, t.events = s.events ++ ev ∧ (Event.reset ∉ ev → ∃ ms, CacheRun s.cache ms t.cache)

theorem Numbers.of_same {s t : Session} (hcache : t.cache = s.cache) {ev : List Event}
    (hev : t.events = s.events ++ ev) : Numbers s t :=
  ⟨ev, hev, fun _ => ⟨[], hcache ▸ .refl _⟩⟩

theorem Numbers.of_step {s t : Session} {m : Option Message} (h : CacheStep s.cache m t.cache)
    (hev : t.events = s.events) : Numbers s t :=
  ⟨[], by rw [hev, List.append_nil], fun _ => ⟨_, .single h⟩⟩

instance : Std.Refl Numbers := ⟨fun _ => .of_same rfl (List.append_nil _).symm⟩

instance : IsTrans Session Numbers where
  trans s t u := by
    intro ⟨ev, hev, h⟩ ⟨ev', hev', h'⟩
    refine ⟨ev ++ ev', by rw [hev', hev, List.append_assoc], fun hno => ?_⟩
    rw [List.mem_append, not_or] at hno
    obtain ⟨ms, hms⟩ := h hno.1
    obtain ⟨ms', hms'⟩ := h' hno.2
    exact ⟨ms ++ ms', hms.trans hms'⟩

theorem numbers_record (e : Event) (s : Session) :
    Numbers s { s with events := s.events ++ [e] } := .of_same rfl rfl

theorem numbers_disconnect : Keeps Numbers networkDisconnect := by
  unfold networkDisconnect
  refine keeps_bind keeps_get fun s => ?_
  refine keeps_bind (keeps_modify fun s => .of_same rfl (List.append_nil _).symm) fun _ => ?_
  cases s.network.connection with
  | none => exact keeps_pure _
  | some fd =>
      exact keeps_ite (fun _ => keeps_modify (numbers_record (.disconnect fd))) fun _ =>
        keeps_pure _

theorem numbers_sending : OpenToSending Numbers where
  refl := Std.Refl.refl
  trans := IsTrans.trans
  book h := .of_same h.cache (by rw [h.events, List.append_nil])
  transmit s fd msg := numbers_record (.transmit fd msg) s
  dropInvalid _ _ := .of_same rfl (List.append_nil _).symm
  terminate reason := by
    refine keeps_bind (keeps_modify (numbers_record (.terminate reason))) fun _ => ?_
    exact keeps_bind numbers_disconnect fun _ =>
      keeps_modify fun _ => .of_same rfl (List.append_nil _).symm
  cache hm := .of_step (.send hm) rfl
  disconnect := numbers_disconnect
  kill _ := .of_same rfl (List.append_nil _).symm
  stopped _ := .of_same rfl (List.append_nil _).symm
  flush _ := .of_step .flush rfl

/-- A delegate that sets no number. -/
def KeepsNumbers (env : Env) : Prop :=
  ∀ num, ¬env.Makes (.setSenderSeqNum num) ∧ ¬env.Makes (.setTargetSeqNum num)

theorem numbers_inbound {env : Env} (henv : KeepsNumbers env) : OpenToInbound env Numbers where
  toOpenToSending := numbers_sending
  states _ _ := .of_same rfl (List.append_nil _).symm
  nextTarget _ := .of_step (.setTarget (i32_range _)) rfl
  setTarget _ _ h₀ h₁ := .of_step (.setTarget ⟨h₀, h₁⟩) rfl
  queueInbound _ _ _ := .of_step (.queue _) rfl
  eraseInbound _ := .of_step (.queue _) rfl
  reset s := ⟨[.reset], rfl, fun hno => (hno List.mem_cons_self).elim⟩
  calls call hmakes := by
    cases call with
    | send msg => exact numbers_sending.send env msg none
    | setSenderSeqNum num => exact ((henv num).1 hmakes).elim
    | setTargetSeqNum num => exact ((henv num).2 hmakes).elim
    | start => exact numbers_sending.modify fun _ => ⟨rfl, rfl, rfl, rfl⟩
    | stop => exact numbers_sending.stop
    | throw => exact keeps_throw _
  handled s e _ := numbers_record e s

/-- An input of the session. -/
theorem numbers_input {env : Env} (henv : KeepsNumbers env) (i : Input) :
    Keeps Numbers (input env i) := by
  cases i with
  | connected fd => exact fun s => .of_same rfl rfl
  | disconnected => exact fun s => .of_same rfl (List.append_nil _).symm
  | inbound text =>
      exact (numbers_inbound henv).onNetworkMessage
        (fun s msg k => numbers_record (.onMessage msg k) s)
        (fun s msg k => numbers_record (.process msg k) s) text
  | tick => exact (numbers_inbound henv).tick fun s fd => .of_same rfl rfl

end Session

/-! ## A session on its store -/

/-- A session and the writer of its store. -/
structure StoredSession where
  session : Session
  writer : WriterInstance

/-- What happens to a session. -/
inductive Activity where
  /-- The application sends a message. -/
  | send (msg : Message)
  | input (i : Input)
  /-- The writer thread flushes. -/
  | flushInstances
  /-- The session is stopped, the writer flushes, and a session is constructed. -/
  | restart

namespace StoredSession

/-- `Session::Session`: a session as it is constructed on a store file. -/
def load (settings : SessionSettings) (file : Bytes) : Session :=
  let s := Session.new settings
  match StoreHandle.load file with
  | .ok data => { s with cache := s.cache.load data }
  | .error _ => s

/-- A fresh session, on an empty file. -/
def new (settings : SessionSettings) : StoredSession := ⟨Session.new settings, .new false⟩

/-- The calls of the store that the session made go to the writer. -/
def advance (s : StoredSession) (t : Session) : StoredSession :=
  ⟨t, (t.cache.store.drop s.session.cache.store.length).foldl StoreOp.run s.writer⟩

def restart (env : Env) (s : StoredSession) : StoredSession :=
  let s := s.advance (after Session.stop s.session)
  let file := s.writer.flushInstances.file
  -- The clock goes on: the readings of the session before are not read again.
  ⟨{ load env.settings file with clockReads := s.session.clockReads },
    { WriterInstance.new false with file := file }⟩

def next (env : Env) : Activity → StoredSession → StoredSession
  | .send msg, s => s.advance (after (Session.send env msg none) s.session)
  | .input i, s => s.advance (Session.next env i s.session)
  | .flushInstances, s => { s with writer := s.writer.flushInstances }
  | .restart, s => s.restart env

/-- The messages that an activity passes through `send`.  A message of the application is passed
when it can be stamped, and where it cannot `send` throws.  The messages that the session sends
while it handles an input are those that its cache went through. -/
inductive Passes (env : Env) (s : StoredSession) : Activity → List Message → Prop where
  | send {msg m : Message} (hm : Session.Stamped env s.session.cache.senderSeqNum msg m)
      (hcache : (next env (.send msg) s).session.cache =
        (s.session.cache.cache s.session.cache.senderSeqNum (m.toString true)).nextSenderSeqNum) :
      Passes env s (.send msg) [m]
  | refused {msg : Message} {e : Exn} {ms : Int}
      (hstamp : Session.stampHeader env.settings s.session.cache.senderSeqNum ms msg.header =
        .error e)
      (hcache : (next env (.send msg) s).session.cache = s.session.cache) :
      Passes env s (.send msg) []
  | input {i : Input} {ms : List Message}
      (hrun : CacheRun s.session.cache ms (next env (.input i) s).session.cache) :
      Passes env s (.input i) ms
  | flushInstances : Passes env s .flushInstances []
  | restart : Passes env s .restart []

/-- What `Ordinary` asks of the session after an activity, computed. -/
def isOrdinary (t : Session) : Bool :=
  t.events.all (fun e => !e.isReset) && t.cache.messages.keys.length < 2147483647 &&
    t.cache.messages.entries.all fun entry => entry.2.length < 18446744073709551616

/-- No reset is recorded, fewer texts are cached than there are positive numbers, and
each of them is a `std::string`. -/
structure Ordinary (env : Env) (s : StoredSession) (a : Activity) : Prop where
  noReset : Event.reset ∉ (next env a s).session.events
  few : (next env a s).session.cache.messages.keys.length < 2147483647
  texts : ∀ k wire, (next env a s).session.cache.messages.find? k = some wire →
    wire.length < 18446744073709551616

theorem isOrdinary_iff {env : Env} {s : StoredSession} {a : Activity} :
    isOrdinary (next env a s).session = true ↔ Ordinary env s a := by
  unfold isOrdinary
  simp only [Bool.and_eq_true, List.all_eq_true, decide_eq_true_eq]
  constructor
  · intro ⟨⟨hevents, hfew⟩, htexts⟩
    refine ⟨fun hreset => ?_, hfew, fun k wire hk => ?_⟩
    · have hnot := hevents _ hreset
      cases hnot
    · exact htexts (k, wire) (SortedMap.find?_eq_some_iff.mp hk)
  · intro h
    refine ⟨⟨fun e he => ?_, h.few⟩, fun entry hentry => ?_⟩
    · cases e with
      | reset => exact (h.noReset he).elim
      | _ => rfl
    · exact h.texts entry.1 entry.2 (SortedMap.find?_eq_some_iff.mpr hentry)

instance (env : Env) (s : StoredSession) (a : Activity) : Decidable (Ordinary env s a) :=
  decidable_of_iff _ isOrdinary_iff

/-- The store has, or will have, what the cache has. -/
def InStore (c : MemoryCache) (w : WriterInstance) : Prop :=
  ∃ p recs, StoredCache.Synced p recs ⟨c, w⟩ ∧ p.waiting = false ∧ p.untouched = false

theorem InStore.step {c d : MemoryCache} {w : WriterInstance} {m : Option Message}
    (h : InStore c w) (hstep : CacheStep c m d)
    (hm : ∀ msg ∈ m, (msg.toString true).length < 18446744073709551616) :
    ∃ ops, d.store = c.store ++ ops ∧ InStore d (ops.foldl StoreOp.run w) := by
  obtain ⟨p, recs, hsynced, hwaiting, huntouched⟩ := h
  cases hstep with
  | @send msg hcarries =>
      have hint := hsynced.ints
      have hcached := hsynced.cache (Int32.ofInt c.senderSeqNum) ⟨msg.toString true, hm msg rfl⟩
      rw [Int32.toInt_ofInt_of_le hint.1.1 hint.1.2] at hcached
      exact ⟨[], (List.append_nil _).symm, _, recs,
        hcached.setNumber (i32_range _) hint.2 rfl rfl rfl, hwaiting, rfl⟩
  | @setTarget num hnum =>
      have hint := hsynced.ints
      exact ⟨[], (List.append_nil _).symm, _, recs, hsynced.setNumber hint.1 hnum rfl rfl rfl,
        hwaiting, rfl⟩
  | queue queue =>
      have hsame : StoredCache.Synced p recs ⟨{ c with inboundQueue := queue }, w⟩ :=
        ⟨hsynced.rest, hsynced.waiting, hsynced.content, hsynced.storable, hsynced.empty,
          hsynced.ints, hsynced.texts, hsynced.pending, hsynced.saved, hsynced.numbers,
          hsynced.messages⟩
      exact ⟨[], (List.append_nil _).symm, p, recs, hsame, hwaiting, huntouched⟩
  | flush =>
      have htime : p.waiting = true → p.unsaved = false := fun hw =>
        Bool.noConfusion (hwaiting.symm.trans hw)
      exact ⟨_, StoredCache.store_flushSeqNums c, _, _, hsynced.flushSeqNums htime, hwaiting,
        huntouched⟩

/-- The calls of the store that a run of the cache makes go to the writer. -/
theorem InStore.run {c d : MemoryCache} {w : WriterInstance} {ms : List Message}
    (h : InStore c w) (hrun : CacheRun c ms d)
    (hm : ∀ msg ∈ ms, (msg.toString true).length < 18446744073709551616) :
    ∃ ops, d.store = c.store ++ ops ∧ InStore d (ops.foldl StoreOp.run w) := by
  induction hrun with
  | refl => exact ⟨[], (List.append_nil _).symm, h⟩
  | @step d e ms m _ hstep ih =>
      obtain ⟨ops, hops, hd⟩ := ih fun msg hmem => hm msg (List.mem_append_left _ hmem)
      obtain ⟨ops', hops', he⟩ := hd.step hstep fun msg hmem =>
        hm msg (List.mem_append_right _ (Option.mem_toList.mpr hmem))
      refine ⟨ops ++ ops', by rw [hops', hops, List.append_assoc], ?_⟩
      rw [List.foldl_append]
      exact he

/-- The runs of ordinary activities, with the messages that they passed through `send`. -/
inductive Sent (env : Env) : List Message → StoredSession → Prop where
  | new : Sent env [] (new env.settings)
  | step {passed ms : List Message} {s : StoredSession} {a : Activity} (h : Sent env passed s)
      (hordinary : Ordinary env s a) (hpasses : Passes env s a ms) :
      Sent env (passed ++ ms) (next env a s)

/-- What holds of a session and its store when these messages were passed. -/
structure Inv (passed : List Message) (s : StoredSession) : Prop where
  passed : Passed passed s.session.cache.senderSeqNum s.session.cache.messages
  few : s.session.cache.messages.keys.length < 2147483647
  inStore : InStore s.session.cache s.writer
  noReset : Event.reset ∉ s.session.events

theorem inv_new (settings : SessionSettings) : Inv [] (new settings) where
  passed := .none
  few := by
    change 0 < 2147483647
    decide
  inStore := ⟨.new, [], StoredCache.synced_new, rfl, rfl⟩
  noReset := List.not_mem_nil

/-- The session does something to its cache. -/
theorem Inv.advance {passed ms : List Message} {s : StoredSession} (h : Inv passed s) {t : Session}
    (hrun : CacheRun s.session.cache ms t.cache) (hreset : Event.reset ∉ t.events)
    (hfew : t.cache.messages.keys.length < 2147483647)
    (htexts : ∀ k wire, t.cache.messages.find? k = some wire →
      wire.length < 18446744073709551616) : Inv (passed ++ ms) (s.advance t) := by
  have hafter := hrun.passed h.passed
  have hlen := hafter.length_lt hfew
  have hm : ∀ msg ∈ ms, (msg.toString true).length < 18446744073709551616 := by
    intro msg hmem
    obtain ⟨i, hi, hget⟩ := List.mem_iff_getElem.mp (List.mem_append_right passed hmem)
    obtain ⟨-, hfind⟩ := hafter.kept hlen (List.getElem?_eq_some_iff.mpr ⟨hi, hget⟩)
    exact htexts _ _ hfind
  obtain ⟨ops, hops, hstore⟩ := h.inStore.run hrun hm
  refine ⟨hafter, hfew, ?_, hreset⟩
  change InStore t.cache
    ((t.cache.store.drop s.session.cache.store.length).foldl StoreOp.run s.writer)
  rw [hops, List.drop_left]
  exact hstore

theorem stop_cache (s : Session) : (after Session.stop s).cache = s.cache.flushSeqNums := by
  refine after_eq_of_ends (P := fun t : Session => t.cache = s.cache.flushSeqNums) ?_
  unfold Session.stop Session.networkStop
  rw [ends_bind, ends_modify, ends_bind, Session.ends_modifyCache, ends_bind, ends_get]
  split
  · rfl
  · rw [ends_bind, ends_modify]
    exact (Session.networkDisconnect_ends _).mono (fun _ _ ht => ht.2.1) fun _ _ hf => hf.elim

theorem Inv.restart {passed : List Message} {s : StoredSession} (h : Inv passed s) (env : Env) :
    Inv passed (s.restart env) := by
  obtain ⟨p, recs, hsynced, hwaiting, huntouched⟩ := h.inStore
  have htime : p.waiting = true → p.unsaved = false := fun hw =>
    Bool.noConfusion (hwaiting.symm.trans hw)
  have hflushed := hsynced.flushSeqNums htime
  obtain ⟨hload, hsender, htarget, hmessages⟩ := hflushed.load rfl huntouched
  have hstopped : s.advance (after Session.stop s.session) = ⟨after Session.stop s.session,
      (StoredCache.flushed s.session.cache).foldl StoreOp.run s.writer⟩ := by
    unfold StoredSession.advance
    rw [stop_cache, StoredCache.store_flushSeqNums, List.drop_left]
  obtain ⟨hkeepsSender, hkeepsTarget, hkeepsMessages, -⟩ := s.session.cache.flushSeqNums_keeps
  unfold StoredSession.restart
  rw [hstopped]
  unfold StoredSession.load
  dsimp only
  rw [hload]
  refine ⟨?_, ?_, ?_, List.not_mem_nil⟩
  · change Passed passed (StoredCache.dataOf _).senderSeqNum (StoredCache.dataOf _).messages
    rw [hsender, hmessages, hkeepsSender, hkeepsMessages]
    exact h.passed
  · change (StoredCache.dataOf _).messages.keys.length < 2147483647
    rw [hmessages, hkeepsMessages]
    exact h.few
  · exact ⟨_, _, hflushed.reopen rfl huntouched, rfl, rfl⟩

/-- A message of the application is passed, or `send` throws. -/
theorem passes_send (env : Env) (s : StoredSession) (msg : Message) :
    ∃ ms, Passes env s (.send msg) ms ∧
      CacheRun s.session.cache ms (next env (.send msg) s).session.cache := by
  refine after_eq_of_ends (P := fun t : Session => t = after (Session.send env msg none) s.session →
    ∃ ms, Passes env s (.send msg) ms ∧ CacheRun s.session.cache ms t.cache) ?_ rfl
  refine (Session.send_cache env msg none s.session).mono ?_ ?_
  · rintro _ t ⟨m, hstamped, hcache⟩ rfl
    obtain ⟨_, header, hstamp, rfl⟩ := id hstamped
    have hcarries := (Session.stampHeader_ok hstamp).msgSeqNum
    refine ⟨_, .send hstamped hcache, ?_⟩
    rw [hcache]
    exact CacheRun.single (.send hcarries)
  · rintro e t ⟨hcache, ms, hstamp⟩ rfl
    refine ⟨_, .refused hstamp hcache, ?_⟩
    rw [hcache]
    exact CacheRun.refl _

/-- An ordinary activity keeps what holds of a session and its store, with what it passes. -/
theorem Inv.next {env : Env} (henv : Session.KeepsNumbers env) {passed : List Message}
    {s : StoredSession} (h : Inv passed s) {a : Activity} (hordinary : Ordinary env s a) :
    ∃ ms, Passes env s a ms ∧ Inv (passed ++ ms) (next env a s) := by
  obtain ⟨hreset, hfew, htexts⟩ := hordinary
  cases a with
  | send msg =>
      obtain ⟨ms, hpasses, hrun⟩ := passes_send env s msg
      exact ⟨ms, hpasses, h.advance hrun hreset hfew htexts⟩
  | input i =>
      obtain ⟨ev, hev, hrun⟩ := Session.numbers_input henv i s.session
      have hnone : Event.reset ∉ ev := by
        intro hmem
        refine hreset ?_
        show Event.reset ∈ (after (Session.input env i) s.session).events
        rw [hev]
        exact List.mem_append_right _ hmem
      obtain ⟨ms, hrun⟩ := hrun hnone
      exact ⟨ms, .input hrun, h.advance hrun hreset hfew htexts⟩
  | flushInstances =>
      obtain ⟨p, recs, hsynced, hwaiting, huntouched⟩ := h.inStore
      refine ⟨[], .flushInstances, ?_⟩
      rw [List.append_nil]
      exact ⟨h.passed, h.few, ⟨_, recs, hsynced.flushInstances, rfl, huntouched⟩, h.noReset⟩
  | restart =>
      refine ⟨[], .restart, ?_⟩
      rw [List.append_nil]
      exact h.restart env

/-- Every run without resets has passed some messages through `send`. -/
theorem sent_of_reached {env : Env} (henv : Session.KeepsNumbers env) {s : StoredSession}
    (h : Run.Reached (new env.settings) (next env) (Ordinary env) s) :
    ∃ passed, Sent env passed s ∧ Inv passed s := by
  induction h with
  | init => exact ⟨[], .new, inv_new env.settings⟩
  | step _ hordinary ih =>
      obtain ⟨passed, hsent, hinv⟩ := ih
      obtain ⟨ms, hpasses, hnext⟩ := hinv.next henv hordinary
      exact ⟨passed ++ ms, hsent.step hordinary hpasses, hnext⟩

end StoredSession

/-! ## Gapless numbers -/

namespace Session

/-- The cache stayed. -/
def SameCache (s t : Session) : Prop := t.cache = s.cache

instance : Std.Refl SameCache := ⟨fun _ => rfl⟩

instance : IsTrans Session SameCache := ⟨fun _ _ _ h h' => Eq.trans h' h⟩

/-- What only transmits leaves the cache alone. -/
theorem sameCache : OpenToTransmitting SameCache where
  refl := Std.Refl.refl
  trans := IsTrans.trans
  book h := h.cache
  transmit _ _ _ := rfl
  dropInvalid _ _ := rfl
  terminate reason s := after_eq_of_ends
    ((terminate_ends reason s).mono (fun _ _ ht => ht.2.1) fun _ _ hf => hf.elim)

/-- The numbers of the messages that were passed through `send` are gapless, and their texts
can be replayed. -/
structure Gapless (env : Env) (passed : List Message) (s : Session) : Prop where
  sender : s.cache.senderSeqNum = passed.length + 1
  keys : ∀ k, k ∈ s.cache.messages.keys ↔ 1 ≤ k ∧ k < s.cache.senderSeqNum
  passed : ∀ (i : Nat) (m : Message), passed[i]? = some m → m.HasSeqNum (i + 1) ∧
    s.cache.messages.find? (i + 1) = some (m.toString true)
  /-- The next one gets the next number, whether it can be transmitted or not. -/
  send : ∀ msg callback, Ends (Session.send env msg callback) s
    (fun _ t => ∃ m, Stamped env s.cache.senderSeqNum msg m ∧
      t.cache = (s.cache.cache s.cache.senderSeqNum (m.toString true)).nextSenderSeqNum)
    fun _ t => t.cache = s.cache
  recovery : ∀ beginSeqNo endSeqNo, SameCache s (after (runMessageRecovery env beginSeqNo endSeqNo) s)
  gapFill : ∀ seqno newSeqno gapfill, SameCache s (after (sendSequenceReset env seqno newSeqno gapfill) s)

end Session

namespace StoredSession

/-- Every session that a run without resets reaches has gapless numbers, those of the messages
that the run passed through `send`, as long as they do not wrap. -/
theorem run_gapless {env : Env} (henv : Session.KeepsNumbers env) {s : StoredSession}
    (h : Run.Reached (new env.settings) (next env) (Ordinary env) s) :
    ∃ passed, Sent env passed s ∧ Session.Gapless env passed s.session := by
  obtain ⟨passed, hsent, hinv⟩ := sent_of_reached henv h
  have hlen := hinv.passed.length_lt hinv.few
  exact ⟨passed, hsent, {
    sender := hinv.passed.sender_eq hlen
    keys := fun k => hinv.passed.mem_keys_iff hlen
    passed := fun i m hm => hinv.passed.kept hlen hm
    send := fun msg callback =>
      (Session.send_cache env msg callback s.session).mono (fun _ _ ht => ht) fun _ _ ht => ht.1
    recovery := fun beginSeqNo endSeqNo =>
      Session.sameCache.runMessageRecovery env beginSeqNo endSeqNo s.session
    gapFill := fun seqno newSeqno gapfill =>
      Session.sameCache.sendSequenceReset env seqno newSeqno gapfill s.session }⟩

theorem keepsNumbers_testEnv (settings : SessionSettings) :
    Session.KeepsNumbers (testEnv settings) := by
  intro num
  constructor
  · intro ⟨d, hd, _⟩
    cases hd
  · intro ⟨d, hd, _⟩
    cases hd

/-- An order is sent before there is a connection, and one after a restart. -/
theorem run_gapless_test :
    ∃ passed, Sent (testEnv acceptorSettings) passed
        (Run.runOf (next (testEnv acceptorSettings)) (new acceptorSettings)
          [.send (testMessage (ascii "D")), .restart, .send (testMessage (ascii "D"))]) ∧
      Session.Gapless (testEnv acceptorSettings) passed
        (Run.runOf (next (testEnv acceptorSettings)) (new acceptorSettings)
          [.send (testMessage (ascii "D")), .restart, .send (testMessage (ascii "D"))]).session :=
  run_gapless (keepsNumbers_testEnv acceptorSettings)
    (Run.Reached.init.along (by decide +kernel))

/-- A run of the session without a reset. -/
abbrev WithoutReset (env : Env) : StoredSession → Prop :=
  Run.Reached (new env.settings) (next env)
    fun s a => Event.reset ∉ (next env a s).session.events

theorem withoutReset_send {env : Env} {s : StoredSession} (h : WithoutReset env s)
    (hreset : Event.reset ∉ s.session.events) (msg : Message) :
    WithoutReset env (next env (.send msg) s) ∧
      Event.reset ∉ (next env (.send msg) s).session.events := by
  have hrecords : Session.Records (fun e => e ≠ .reset) s.session
      (after (Session.send env msg none) s.session) := by
    refine (Session.records_sending fun e he => ?_).send env msg none s.session
    intro hreset
    subst hreset
    exact he
  obtain ⟨ev, hev, hall⟩ := hrecords
  have hnext : Event.reset ∉ (next env (.send msg) s).session.events := by
    change Event.reset ∉ (after (Session.send env msg none) s.session).events
    rw [hev, List.mem_append, not_or]
    exact ⟨hreset, fun hmem => hall _ hmem rfl⟩
  exact ⟨h.step hnext, hnext⟩

/-- The application sends one message over and over. -/
theorem withoutReset_sends (env : Env) {msg : Message} (hroom : msg.header.Room 2) (n : Nat) :
    ∃ s, WithoutReset env s ∧ Event.reset ∉ s.session.events ∧
      s.session.cache.senderSeqNum = i32 (n + 1) := by
  induction n with
  | zero => exact ⟨_, .init, List.not_mem_nil, rfl⟩
  | succ n ih =>
      obtain ⟨s, hs, hreset, hsender⟩ := ih
      obtain ⟨hnext, hreset'⟩ := withoutReset_send hs hreset msg
      refine ⟨_, hnext, hreset', ?_⟩
      have hsend := after_eq_of_ends ((Session.send_sender env hroom none s.session).mono
        (fun _ _ ht => ht) fun _ _ hf => hf.elim)
      change (after (Session.send env msg none) s.session).cache.senderSeqNum = _
      rw [hsend, hsender]
      unfold i32
      omega

/-- Message 2147483647 is kept under its number, and the next number is -2147483648. -/
theorem not_run_gapless : ¬∀ (env : Env) (s : StoredSession), Session.KeepsNumbers env →
    WithoutReset env s → ∃ passed, Session.Gapless env passed s.session := by
  intro hall
  have hroom : (testMessage (ascii "D")).header.Room 2 := by
    unfold FieldMap.Room
    decide
  obtain ⟨s, hs, hreset, hsender⟩ := withoutReset_sends (testEnv acceptorSettings) hroom 2147483646
  have hlast : s.session.cache.senderSeqNum = 2147483647 := hsender
  obtain ⟨hnext, -⟩ := withoutReset_send hs hreset (testMessage (ascii "D"))
  obtain ⟨passed, hgapless⟩ := hall _ _ (keepsNumbers_testEnv acceptorSettings) hnext
  have hkeys := hgapless.keys
  have hsend := after_eq_of_ends (P := fun t : Session => ∃ m : Message, t.cache =
      (s.session.cache.cache s.session.cache.senderSeqNum (m.toString true)).nextSenderSeqNum)
    (((Session.send_cache (testEnv acceptorSettings) (testMessage (ascii "D")) none s.session).and
      (Session.send_sender (testEnv acceptorSettings) hroom none s.session)).mono
      (fun _ t ht => ht.1.imp fun _ hm => hm.2) fun _ _ hf => hf.2.elim)
  obtain ⟨m, hm⟩ := hsend
  have hcache : (next (testEnv acceptorSettings) (.send (testMessage (ascii "D"))) s).session.cache =
      (s.session.cache.cache 2147483647 (m.toString true)).nextSenderSeqNum := by
    rw [← hlast]
    exact hm
  rw [hcache] at hkeys
  have hmem : (2147483647 : Int) ∈ (s.session.cache.messages.insert 2147483647 (m.toString true)).keys :=
    SortedMap.mem_keys_insert.mpr (.inl rfl)
  have hless : (2147483647 : Int) < i32 (s.session.cache.senderSeqNum + 1) :=
    ((hkeys 2147483647).mp hmem).2
  rw [hlast] at hless
  exact absurd hless (by decide)

end StoredSession

end OpenFix
