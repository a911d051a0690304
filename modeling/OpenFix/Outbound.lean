import OpenFix.Bytes

/-!
# The write path of a connection

`NetworkHandler::send` holds the mutex of the handler while it tries to send a
message inline and queues what the socket did not take.  The reader thread moves
the queue to the drain and writes that out, with `SSL_write` message by message
or with `writev` for up to 64 of them.

The threads run next to each other, so a call of `send` takes three steps: it
takes the mutex, it tries to send, and it queues.  A flush holds the mutex of the
write buffers from begin to end and is one step, and while it does `try_lock`
fails.  The callback of a message that went out inline runs after the mutex of
the handler was released, which is a step of its own.

What a socket takes of a write is as much as it has room for.  Without room the
write would block.
-/

namespace OpenFix

/-- A message to send.  Its text is not empty. -/
structure MsgPacket (κ : Type) where
  msg : Bytes
  ne_nil : msg ≠ []
  callback : Option κ

structure WriteEntry (κ : Type) where
  msg : Bytes
  callback : Option κ

structure WriteBuffer (κ : Type) where
  queue : List (WriteEntry κ)
  drain : List (WriteEntry κ)
  /-- What the socket has of the first entry. -/
  offset : Nat

/-- How far a call of `send` is that holds the mutex of the handler. -/
inductive SendCall (κ : Type) where
  /-- It has not tried to send yet. -/
  | trying (entry : WriteEntry κ)
  /-- It has this to queue. -/
  | queueing (entry : WriteEntry κ)

/-- What a call has not handed on. -/
def SendCall.entry {κ : Type} : SendCall κ → WriteEntry κ
  | .trying entry | .queueing entry => entry

/-- A connection with its threads. -/
structure Outbound (κ : Type) where
  buffer : WriteBuffer κ
  call : Option (SendCall κ)
  /-- The callbacks that calls of `send` still have to run. -/
  pending : List κ
  /-- What the socket has accepted. -/
  accepted : Bytes
  /-- The callbacks that were run, in order. -/
  fired : List κ
  /-- The messages, in the order in which their calls took the mutex. -/
  sent : List (WriteEntry κ)

/-- The bytes of entries. -/
def bytesOf {κ : Type} (entries : List (WriteEntry κ)) : Bytes := entries.flatMap WriteEntry.msg

/-- `MAX_WRITE_IOVECS`. -/
def maxWriteIovecs : Nat := 64

/-! ## The flush -/

/-- What a flush leaves in the drain, and what it did. -/
structure Drained (κ : Type) where
  drain : List (WriteEntry κ)
  offset : Nat
  accepted : Bytes
  fired : List κ

namespace WriteBuffer

variable {κ : Type}

/-- The loop with `SSL_write`, where `rooms` is what the socket has room for each time. -/
def drainTLS : List Nat → List (WriteEntry κ) → Nat → Drained κ
  | [], drain, offset => ⟨drain, offset, [], []⟩
  | _ :: _, [], offset => ⟨[], offset, [], []⟩
  | room :: rooms, entry :: drain, offset =>
      let ret := min room (entry.msg.length - offset)
      if ret = 0 then ⟨entry :: drain, offset, [], []⟩
      else if entry.msg.length ≤ offset + ret then
        let d := drainTLS rooms drain 0
        { d with
          accepted := (entry.msg.drop offset).take ret ++ d.accepted
          fired := entry.callback.toList ++ d.fired }
      else ⟨entry :: drain, offset + ret, (entry.msg.drop offset).take ret, []⟩

/-- The accounting for `sent` bytes after `writev`. -/
def account : List (WriteEntry κ) → Nat → Nat → List (WriteEntry κ) × Nat × List κ
  | [], offset, _ => ([], offset, [])
  | entry :: drain, offset, sent =>
      if sent = 0 then (entry :: drain, offset, [])
      else
        let remaining := entry.msg.length - offset
        if remaining ≤ sent then
          let r := account drain 0 (sent - remaining)
          (r.1, r.2.1, entry.callback.toList ++ r.2.2)
        else (entry :: drain, offset + sent, [])

/-- The write with `writev`. -/
def drainVectored (room : Nat) (drain : List (WriteEntry κ)) (offset : Nat) : Drained κ :=
  let iovs := (bytesOf (drain.take maxWriteIovecs)).drop offset
  let ret := min room iovs.length
  if ret = 0 then ⟨drain, offset, [], []⟩
  else
    let r := account drain offset ret
    ⟨r.1, r.2.1, iovs.take ret, r.2.2⟩

/-- Move the queue to the drain, unless there is still something in that. -/
def swap (wb : WriteBuffer κ) : WriteBuffer κ :=
  if wb.drain = [] ∧ wb.queue ≠ [] then ⟨wb.drain, wb.queue, 0⟩ else wb

/-- What `flushWrite` does with the drain. -/
def flushDrain (wb : WriteBuffer κ) (tls : Bool) (rooms : List Nat) : Drained κ :=
  if tls then drainTLS rooms wb.drain wb.offset
  else drainVectored (rooms.headD 0) wb.drain wb.offset

end WriteBuffer

namespace Outbound

variable {κ : Type}

def new : Outbound κ := ⟨⟨[], [], 0⟩, none, [], [], [], []⟩

/-- `trySend`, once it has the lock. -/
def trySend (o : Outbound κ) (entry : WriteEntry κ) (room : Nat) : Outbound κ :=
  if o.buffer.queue ≠ [] ∨ o.buffer.drain ≠ [] then { o with call := some (.queueing entry) }
  else
    let ret := min room entry.msg.length
    if ret = entry.msg.length then
      { o with
        call := none
        pending := o.pending ++ entry.callback.toList
        accepted := o.accepted ++ entry.msg }
    else
      { o with
        call := some (.queueing { entry with msg := entry.msg.drop ret })
        accepted := o.accepted ++ entry.msg.take ret }

def queueWrite (o : Outbound κ) (entry : WriteEntry κ) : Outbound κ :=
  { o with call := none, buffer := { o.buffer with queue := o.buffer.queue ++ [entry] } }

def flushWrite (o : Outbound κ) (tls : Bool) (rooms : List Nat) : Outbound κ :=
  let wb := o.buffer.swap
  let d := wb.flushDrain tls rooms
  { o with
    buffer := ⟨wb.queue, d.drain, d.offset⟩
    accepted := o.accepted ++ d.accepted
    fired := o.fired ++ d.fired }

end Outbound

/-- A step of one of the threads. -/
inductive OutboundStep (κ : Type) where
  /-- A call of `send` takes the mutex. -/
  | send (packet : MsgPacket κ)
  /-- The call tries to send inline.  The lock may be taken. -/
  | trySend (locked : Bool) (room : Nat)
  /-- The call queues what it has left. -/
  | queueWrite
  /-- A call that has released the mutex runs its callback. -/
  | callback (i : Nat)
  /-- The reader thread flushes. -/
  | flush (rooms : List Nat)

namespace Outbound

variable {κ : Type}

/-- What a step does.  A thread whose turn it is not waits. -/
def step (tls : Bool) : OutboundStep κ → Outbound κ → Outbound κ
  | .send packet, o =>
      match o.call with
      | some _ => o
      | none =>
          let entry : WriteEntry κ := ⟨packet.msg, packet.callback⟩
          { o with call := some (.trying entry), sent := o.sent ++ [entry] }
  | .trySend locked room, o =>
      match o.call with
      | some (.trying entry) =>
          -- A TLS connection never sends inline.
          if tls || locked then { o with call := some (.queueing entry) } else o.trySend entry room
      | _ => o
  | .queueWrite, o =>
      match o.call with
      | some (.queueing entry) => o.queueWrite entry
      | _ => o
  | .callback i, o =>
      match o.pending[i]? with
      | some callback => { o with pending := o.pending.eraseIdx i, fired := o.fired ++ [callback] }
      | none => o
  | .flush rooms, o => o.flushWrite tls rooms

/-- The entries that are not finished, in the order in which they go out. -/
def line (o : Outbound κ) : List (WriteEntry κ) :=
  o.buffer.drain ++ (o.buffer.queue ++ (o.call.map SendCall.entry).toList)

/-- The bytes that are held but not accepted: the drain from the offset on, the queue, and
what a call of `send` has not queued. -/
def unsent (o : Outbound κ) : Bytes :=
  (bytesOf o.buffer.drain).drop o.buffer.offset ++
    (bytesOf o.buffer.queue ++ bytesOf (o.call.map SendCall.entry).toList)

end Outbound

/-- The messages whose last byte is among the first `n`. -/
def covered {κ : Type} : Nat → List (WriteEntry κ) → List (WriteEntry κ)
  | _, [] => []
  | n, entry :: entries =>
      if entry.msg.length ≤ n then entry :: covered (n - entry.msg.length) entries else []

/-! ## Entries and their bytes -/

section

variable {κ : Type}

@[simp] theorem bytesOf_nil : bytesOf ([] : List (WriteEntry κ)) = [] := rfl

@[simp] theorem bytesOf_cons (e : WriteEntry κ) (es : List (WriteEntry κ)) :
    bytesOf (e :: es) = e.msg ++ bytesOf es := rfl

@[simp] theorem bytesOf_append (es es' : List (WriteEntry κ)) :
    bytesOf (es ++ es') = bytesOf es ++ bytesOf es' := List.flatMap_append

/-- An offset is into the first entry. -/
def InFirst (entries : List (WriteEntry κ)) (offset : Nat) : Prop :=
  ∀ e ∈ entries.head?, offset < e.msg.length

theorem InFirst.le {entries : List (WriteEntry κ)} {offset : Nat} (h : InFirst entries offset)
    (hne : entries ≠ []) : offset ≤ (bytesOf entries).length := by
  cases entries with
  | nil => exact (hne rfl).elim
  | cons e es =>
      have := h e rfl
      rw [bytesOf_cons, List.length_append]
      omega

/-- The messages in front of an offset into the first of the others. -/
theorem covered_append : ∀ (done rest : List (WriteEntry κ)) {k : Nat}, InFirst rest k →
    covered ((bytesOf done).length + k) (done ++ rest) = done
  | [], [], k, _ => by simp [covered]
  | [], e :: rest, k, h => by
      have := h e rfl
      simp only [bytesOf_nil, List.length_nil, Nat.zero_add, List.nil_append, covered]
      rw [if_neg (by omega)]
  | e :: done, rest, k, h => by
      have ih := covered_append done rest h
      simp only [bytesOf_cons, List.length_append, List.cons_append, covered]
      rw [if_pos (by omega), Nat.add_assoc, Nat.add_sub_cancel_left, ih]

/-- Cut the front off the first entry. -/
def trim (t : Nat) : List (WriteEntry κ) → List (WriteEntry κ)
  | [] => []
  | e :: es => { e with msg := e.msg.drop t } :: es

theorem bytesOf_trim {t : Nat} : ∀ {entries : List (WriteEntry κ)}, InFirst entries t →
    bytesOf (trim t entries) = (bytesOf entries).drop t
  | [], _ => by simp [trim]
  | e :: es, h => by
      have := h e rfl
      rw [trim, bytesOf_cons, bytesOf_cons, List.drop_append_of_le_length (by omega)]

theorem trim_zero : ∀ entries : List (WriteEntry κ), trim 0 entries = entries
  | [] => rfl
  | _ :: _ => rfl

/-! ## What a flush does to the drain -/

/-- The first entries are finished, and the offset moves on into the next one. -/
structure Drains (drain : List (WriteEntry κ)) (offset : Nat) (d : Drained κ) : Prop where
  finished : ∃ done, drain = done ++ d.drain ∧ d.fired = done.filterMap WriteEntry.callback ∧
    offset + d.accepted.length = (bytesOf done).length + d.offset
  bytes : (bytesOf drain).drop offset = d.accepted ++ (bytesOf d.drain).drop d.offset
  inFirst : InFirst d.drain d.offset
  empty : d.drain = [] → d.offset = 0

section

variable {drain : List (WriteEntry κ)} {e : WriteEntry κ} {offset : Nat}

theorem Drains.refl (hfirst : InFirst drain offset) (hempty : drain = [] → offset = 0) :
    Drains drain offset ⟨drain, offset, [], []⟩ where
  finished := ⟨[], rfl, rfl, by simp⟩
  bytes := rfl
  inFirst := hfirst
  empty := hempty

/-- A part of the first entry goes out. -/
theorem Drains.part {n : Nat} (h : offset + n < e.msg.length) :
    Drains (e :: drain) offset ⟨e :: drain, offset + n, (e.msg.drop offset).take n, []⟩ where
  finished := by
    refine ⟨[], rfl, rfl, ?_⟩
    dsimp only
    rw [List.length_take, List.length_drop, bytesOf_nil, List.length_nil]
    omega
  bytes := by
    dsimp only
    rw [bytesOf_cons, List.drop_append_of_le_length (by omega),
      List.drop_append_of_le_length (by omega), ← List.append_assoc, ← List.drop_drop,
      List.take_append_drop]
  inFirst := by
    intro e' he'
    cases he'
    exact h
  empty h := by cases h

/-- The first entry is finished. -/
theorem Drains.cons {d : Drained κ} (hle : offset ≤ e.msg.length) (h : Drains drain 0 d) :
    Drains (e :: drain) offset
      ⟨d.drain, d.offset, e.msg.drop offset ++ d.accepted, e.callback.toList ++ d.fired⟩ where
  finished := by
    obtain ⟨done, hdrain, hfired, hlen⟩ := h.finished
    refine ⟨e :: done, by rw [hdrain]; rfl, ?_, ?_⟩
    · dsimp only
      rw [hfired, List.filterMap_cons]
      cases e.callback with
      | none => rfl
      | some callback => rfl
    · dsimp only
      rw [bytesOf_cons, List.length_append, List.length_append, List.length_drop]
      omega
  bytes := by
    have hbytes := h.bytes
    rw [List.drop_zero] at hbytes
    dsimp only
    rw [bytesOf_cons, List.drop_append_of_le_length hle, hbytes, List.append_assoc]
  inFirst := h.inFirst
  empty := h.empty

namespace WriteBuffer

theorem drainTLS_drains : ∀ (rooms : List Nat) {drain : List (WriteEntry κ)} {offset : Nat},
    (∀ e ∈ drain, e.msg ≠ []) → InFirst drain offset → (drain = [] → offset = 0) →
      Drains drain offset (drainTLS rooms drain offset)
  | [], drain, offset, _, hfirst, hempty => .refl hfirst hempty
  | room :: rooms, [], offset, _, hfirst, hempty => .refl hfirst hempty
  | room :: rooms, e :: drain, offset, hne, hfirst, hempty => by
      have hoffset := hfirst e rfl
      rw [drainTLS]
      dsimp only
      split
      next => exact .refl hfirst hempty
      next hret =>
        split
        next hfull =>
          have hall : (e.msg.drop offset).take (min room (e.msg.length - offset)) =
              e.msg.drop offset := List.take_of_length_le (by rw [List.length_drop]; omega)
          have hrest : ∀ e ∈ drain, e.msg ≠ [] := fun e he => hne e (List.mem_cons_of_mem _ he)
          have hzero : InFirst drain 0 := fun e he =>
            List.length_pos_iff.mpr (hrest e (List.mem_of_mem_head? he))
          rw [hall]
          exact .cons (by omega) (drainTLS_drains rooms hrest hzero fun _ => rfl)
        next hpart => exact .part (by omega)

theorem account_drains : ∀ {drain : List (WriteEntry κ)} {offset sent : Nat},
    (∀ e ∈ drain, e.msg ≠ []) → InFirst drain offset → (drain = [] → offset = 0) →
      offset + sent ≤ (bytesOf drain).length →
      Drains drain offset ⟨(account drain offset sent).1, (account drain offset sent).2.1,
        ((bytesOf drain).drop offset).take sent, (account drain offset sent).2.2⟩
  | [], offset, sent, _, hfirst, hempty, _ => by
      have hnil : ((bytesOf ([] : List (WriteEntry κ))).drop offset).take sent = [] := by simp
      rw [hnil]
      exact .refl hfirst hempty
  | e :: drain, offset, sent, hne, hfirst, hempty, hlen => by
      have hoffset := hfirst e rfl
      rw [bytesOf_cons, List.length_append] at hlen
      rw [account, bytesOf_cons, List.drop_append_of_le_length (by omega)]
      split
      next hzero =>
        rw [hzero, List.take_zero]
        exact .refl hfirst hempty
      next hsent =>
        dsimp only
        split
        next hfull =>
          have hrest : ∀ e ∈ drain, e.msg ≠ [] := fun e he => hne e (List.mem_cons_of_mem _ he)
          have hzero : InFirst drain 0 := fun e he =>
            List.length_pos_iff.mpr (hrest e (List.mem_of_mem_head? he))
          have hleft : 0 + (sent - (e.msg.length - offset)) ≤ (bytesOf drain).length := by omega
          have ih := account_drains hrest hzero (fun _ => rfl) hleft
          have htake : (e.msg.drop offset ++ bytesOf drain).take sent = e.msg.drop offset ++
              ((bytesOf drain).drop 0).take (sent - (e.msg.length - offset)) := by
            rw [List.take_append, List.take_of_length_le (by rw [List.length_drop]; omega),
              List.length_drop, List.drop_zero]
          rw [htake]
          exact .cons (by omega) ih
        next hpart =>
          rw [List.take_append_of_le_length (by rw [List.length_drop]; omega)]
          exact .part (by omega)

theorem drainVectored_drains (room : Nat) {drain : List (WriteEntry κ)} {offset : Nat}
    (hne : ∀ e ∈ drain, e.msg ≠ []) (hfirst : InFirst drain offset) (hempty : drain = [] → offset = 0) :
    Drains drain offset (drainVectored room drain offset) := by
  rw [drainVectored]
  dsimp only
  split
  next => exact .refl hfirst hempty
  next hret =>
    have hsplit : bytesOf drain = bytesOf (drain.take maxWriteIovecs) ++
        bytesOf (drain.drop maxWriteIovecs) := by
      rw [← bytesOf_append, List.take_append_drop]
    have hle : offset ≤ (bytesOf (drain.take maxWriteIovecs)).length := by
      by_contra hlt
      rw [List.drop_eq_nil_of_le (by omega)] at hret
      exact hret (Nat.min_zero room)
    have hlen : ((bytesOf (drain.take maxWriteIovecs)).drop offset).length + offset =
        (bytesOf (drain.take maxWriteIovecs)).length := by
      rw [List.length_drop]
      omega
    have htake : ((bytesOf (drain.take maxWriteIovecs)).drop offset).take
        (min room ((bytesOf (drain.take maxWriteIovecs)).drop offset).length) =
        ((bytesOf drain).drop offset).take
          (min room ((bytesOf (drain.take maxWriteIovecs)).drop offset).length) := by
      rw [hsplit, List.drop_append_of_le_length hle, List.take_append_of_le_length (by omega)]
    rw [htake]
    refine account_drains hne hfirst hempty ?_
    rw [hsplit, List.length_append]
    omega

theorem flushDrain_drains {wb : WriteBuffer κ} (tls : Bool) (rooms : List Nat)
    (hne : ∀ e ∈ wb.drain, e.msg ≠ []) (hfirst : InFirst wb.drain wb.offset)
    (hempty : wb.drain = [] → wb.offset = 0) :
    Drains wb.drain wb.offset (wb.flushDrain tls rooms) := by
  rw [flushDrain]
  split
  · exact drainTLS_drains rooms hne hfirst hempty
  · exact drainVectored_drains _ hne hfirst hempty

end WriteBuffer

end

/-! ## The invariant -/

namespace Outbound

/-- The messages are the finished ones and the others, and the first `t` bytes of the
first of those went out inline. -/
structure Sound (o : Outbound κ) (done rest : List (WriteEntry κ)) (t : Nat) : Prop where
  sent : o.sent = done ++ rest
  line : o.line = trim t rest
  accepted : o.accepted = bytesOf done ++ (bytesOf rest).take (t + o.buffer.offset)
  inFirst : InFirst rest (t + o.buffer.offset)
  ne_nil : ∀ e ∈ rest, e.msg ≠ []
  drained : o.buffer.drain = [] → o.buffer.offset = 0
  idle : rest = [] → t = 0
  callbacks : (o.fired ++ o.pending).Perm (done.filterMap WriteEntry.callback)

theorem sound_new : Sound (new : Outbound κ) [] [] 0 :=
  ⟨rfl, rfl, rfl, (fun e he => by cases he), (fun e he => by cases he), fun _ => rfl, fun _ => rfl,
    List.Perm.refl _⟩

section

variable {o : Outbound κ} {done rest : List (WriteEntry κ)} {t : Nat}

theorem mem_trim (h : Sound o done rest t) : ∀ e ∈ trim t rest, e.msg ≠ [] := by
  cases rest with
  | nil =>
      intro e he
      cases he
  | cons p rest =>
      intro e he
      rcases List.mem_cons.mp he with rfl | he
      · have := h.inFirst p rfl
        exact List.ne_nil_of_length_pos (by rw [List.length_drop]; omega)
      · exact h.ne_nil e (List.mem_cons_of_mem _ he)

theorem inFirst_drain (h : Sound o done rest t) : InFirst o.buffer.drain o.buffer.offset := by
  intro e he
  have hline := h.line
  cases hdrain : o.buffer.drain with
  | nil =>
      rw [hdrain] at he
      cases he
  | cons e' drain =>
      rw [hdrain] at he
      cases he
      rw [Outbound.line, hdrain] at hline
      cases hrest : rest with
      | nil =>
          rw [hrest] at hline
          cases hline
      | cons p ps =>
          rw [hrest] at hline
          have hhead := (List.cons.inj hline).1
          have := h.inFirst p (by rw [hrest]; rfl)
          rw [hhead, List.length_drop]
          omega

theorem bytesOf_line (h : Sound o done rest t) : bytesOf o.line = (bytesOf rest).drop t := by
  rw [h.line]
  refine bytesOf_trim fun e he => ?_
  have := h.inFirst e he
  omega

/-- The held bytes are the line from the offset on. -/
theorem unsent_eq (h : Sound o done rest t) : o.unsent = (bytesOf o.line).drop o.buffer.offset := by
  have hle : o.buffer.offset ≤ (bytesOf o.buffer.drain).length := by
    by_cases hdrain : o.buffer.drain = []
    · rw [h.drained hdrain]
      exact Nat.zero_le _
    · exact (inFirst_drain h).le hdrain
  rw [unsent, Outbound.line, bytesOf_append, bytesOf_append, List.drop_append_of_le_length hle]

/-- What the socket has and what is held are the messages. -/
theorem Sound.bytes (h : Sound o done rest t) : o.accepted ++ o.unsent = bytesOf o.sent := by
  rw [unsent_eq h, bytesOf_line h, List.drop_drop, h.accepted, h.sent, bytesOf_append,
    List.append_assoc, List.take_append_drop]

/-- The callbacks of finished messages ran or are about to. -/
theorem Sound.covered (h : Sound o done rest t) :
    (o.fired ++ o.pending).Perm
      ((covered o.accepted.length o.sent).filterMap WriteEntry.callback) := by
  have hlen : o.accepted.length = (bytesOf done).length + (t + o.buffer.offset) := by
    have hle : t + o.buffer.offset ≤ (bytesOf rest).length := by
      by_cases hrest : rest = []
      · have hline := h.line
        rw [hrest] at hline
        have hdrain : o.buffer.drain = [] := (List.append_eq_nil_iff.mp hline).1
        rw [h.idle hrest, h.drained hdrain]
        exact Nat.zero_le _
      · exact h.inFirst.le hrest
    rw [h.accepted, List.length_append, List.length_take, Nat.min_eq_left hle]
  rw [hlen, h.sent, covered_append done rest h.inFirst]
  exact h.callbacks

/-- A call takes the mutex. -/
theorem Sound.send (h : Sound o done rest t) (hcall : o.call = none) (packet : MsgPacket κ) :
    Sound { o with
        call := some (.trying ⟨packet.msg, packet.callback⟩)
        sent := o.sent ++ [⟨packet.msg, packet.callback⟩] }
      done (rest ++ [⟨packet.msg, packet.callback⟩]) t := by
  have hline := h.line
  rw [Outbound.line, hcall] at hline
  simp only [Option.map_none, Option.toList_none, List.append_nil] at hline
  have hpos := List.length_pos_iff.mpr packet.ne_nil
  cases hrest : rest with
  | nil =>
      rw [hrest] at hline
      have ht := h.idle hrest
      obtain ⟨hdrain, hqueue⟩ := List.append_eq_nil_iff.mp hline
      have hoffset := h.drained hdrain
      refine ⟨by rw [h.sent, hrest, List.append_assoc], ?_, ?_, ?_, ?_, h.drained,
        (fun hnil => by simp at hnil), h.callbacks⟩
      · simp only [Outbound.line, hdrain, hqueue, ht, Option.map_some, SendCall.entry]
        rfl
      · dsimp only
        rw [h.accepted, hrest, ht, hoffset]
        rfl
      · intro e he
        cases he
        rw [ht, hoffset]
        exact hpos
      · intro e he
        rw [List.nil_append, List.mem_singleton] at he
        rw [he]
        exact packet.ne_nil
  | cons p ps =>
      have hfirst := h.inFirst p (by rw [hrest]; rfl)
      refine ⟨by rw [h.sent, hrest, List.append_assoc], ?_, ?_, ?_, ?_, h.drained,
        (fun hnil => by simp at hnil), h.callbacks⟩
      · simp only [Outbound.line, Option.map_some, SendCall.entry, Option.toList_some]
        rw [← List.append_assoc, hline, hrest]
        rfl
      · dsimp only
        rw [h.accepted, hrest, bytesOf_append, List.take_append_of_le_length]
        rw [bytesOf_cons, List.length_append]
        omega
      · intro e he
        cases he
        exact hfirst
      · intro e he
        rcases List.mem_append.mp he with he | he
        · exact h.ne_nil e (hrest ▸ he)
        · rw [List.mem_singleton.mp he]
          exact packet.ne_nil

/-- What moves between the queue, the drain and a call makes no difference. -/
theorem Sound.move (h : Sound o done rest t) {o' : Outbound κ} (hsent : o'.sent = o.sent)
    (hline : o'.line = o.line) (haccepted : o'.accepted = o.accepted)
    (hoffset : o'.buffer.offset = o.buffer.offset)
    (hdrained : o'.buffer.drain = [] → o'.buffer.offset = 0)
    (hcallbacks : (o'.fired ++ o'.pending).Perm (o.fired ++ o.pending)) : Sound o' done rest t :=
  ⟨hsent.trans h.sent, hline.trans h.line, by rw [haccepted, hoffset, h.accepted],
    hoffset ▸ h.inFirst, h.ne_nil, hdrained, h.idle, hcallbacks.trans h.callbacks⟩

/-- An inline send. -/
theorem Sound.trySend (h : Sound o done rest t) {entry : WriteEntry κ}
    (hcall : o.call = some (.trying entry)) (room : Nat) :
    ∃ done rest t, Sound (o.trySend entry room) done rest t := by
  have hqueueing : Sound { o with call := some (.queueing entry) } done rest t :=
    h.move rfl (by simp [Outbound.line, hcall, SendCall.entry]) rfl rfl h.drained (List.Perm.refl _)
  rw [Outbound.trySend]
  split
  next => exact ⟨done, rest, t, hqueueing⟩
  next hempty =>
    rw [not_or, not_not, not_not] at hempty
    obtain ⟨hqueue, hdrain⟩ := hempty
    have hoffset := h.drained hdrain
    have hline := h.line
    simp only [Outbound.line, hqueue, hdrain, hcall, Option.map_some, SendCall.entry,
      Option.toList_some, List.nil_append] at hline
    -- The message is the only one that is not finished.
    obtain ⟨p, hrest, hentry⟩ : ∃ p, rest = [p] ∧ entry = { p with msg := p.msg.drop t } := by
      cases rest with
      | nil => cases hline
      | cons p ps =>
          obtain ⟨hhead, htail⟩ := List.cons.inj hline
          exact ⟨p, by rw [← htail], hhead⟩
    have hfirst := h.inFirst p (by rw [hrest]; rfl)
    have haccepted := h.accepted
    rw [hoffset, Nat.add_zero, hrest, bytesOf_cons, bytesOf_nil, List.append_nil] at haccepted
    dsimp only
    split
    next hfull =>
      refine ⟨done ++ [p], [], 0, ?_, ?_, ?_, ?_, ?_, h.drained, fun _ => rfl, ?_⟩
      · rw [List.append_nil, ← hrest]
        exact h.sent
      · simp [Outbound.line, hqueue, hdrain, trim]
      · dsimp only
        rw [haccepted, hentry, List.append_assoc, List.take_append_drop]
        simp
      · intro e he
        cases he
      · intro e he
        cases he
      · dsimp only
        rw [← List.append_assoc, List.filterMap_append]
        refine h.callbacks.append ?_
        cases hcallback : p.callback with
        | none => simp [hentry, hcallback]
        | some callback => simp [hentry, hcallback]
    next hpart =>
      refine ⟨done, rest, t + min room entry.msg.length, h.sent, ?_, ?_, ?_, h.ne_nil, h.drained, ?_,
        h.callbacks⟩
      · simp only [Outbound.line, hqueue, hdrain, Option.map_some, SendCall.entry,
          Option.toList_some, List.nil_append]
        rw [hrest, hentry, trim, List.drop_drop]
      · dsimp only
        rw [haccepted, hoffset, hrest, hentry, Nat.add_zero, bytesOf_cons, bytesOf_nil,
          List.append_nil, List.append_assoc, List.take_add]
      · intro e he
        rw [hrest] at he
        cases he
        dsimp only
        rw [hentry, List.length_drop] at hpart ⊢
        omega
      · intro hnil
        rw [hrest] at hnil
        cases hnil

/-- The swap moves the queue to an empty drain. -/
theorem Sound.swap (h : Sound o done rest t) :
    Sound { o with buffer := o.buffer.swap } done rest t := by
  refine h.move rfl ?_ rfl ?_ ?_ (List.Perm.refl _)
  · simp only [Outbound.line, WriteBuffer.swap]
    split
    next hempty => simp [hempty.1]
    next => rfl
  · simp only [WriteBuffer.swap]
    split
    next hempty => exact (h.drained hempty.1).symm
    next => rfl
  · simp only [WriteBuffer.swap]
    split
    next hempty => exact fun _ => rfl
    next => exact h.drained

section

variable {d : Drained κ}

/-- The socket has the next bytes. -/
theorem Sound.accepted_drain (h : Sound o done rest t)
    (hd : Drains o.buffer.drain o.buffer.offset d) : o.accepted ++ d.accepted =
      bytesOf done ++ (bytesOf rest).take (t + o.buffer.offset + d.accepted.length) := by
  have hbytes := unsent_eq h
  rw [bytesOf_line h, List.drop_drop, Outbound.unsent, hd.bytes, List.append_assoc] at hbytes
  have hafter : (bytesOf rest).take (t + o.buffer.offset + d.accepted.length) =
      (bytesOf rest).take (t + o.buffer.offset) ++
        ((bytesOf rest).drop (t + o.buffer.offset)).take d.accepted.length := List.take_add
  rw [h.accepted, hafter, ← hbytes, List.take_left, List.append_assoc]

/-- What is drained goes on from the buffer to the socket. -/
def drain (o : Outbound κ) (d : Drained κ) : Outbound κ :=
  { o with
    buffer := ⟨o.buffer.queue, d.drain, d.offset⟩
    accepted := o.accepted ++ d.accepted
    fired := o.fired ++ d.fired }

/-- No message is finished. -/
theorem Sound.drain_nil (h : Sound o done rest t) (hd : Drains o.buffer.drain o.buffer.offset d)
    (hdrain : o.buffer.drain = d.drain) (hfired : d.fired = [])
    (hlen : o.buffer.offset + d.accepted.length = d.offset) :
    Sound (o.drain d) done rest t := by
  have hline : d.drain ++ (o.buffer.queue ++ (o.call.map SendCall.entry).toList) = trim t rest := by
    rw [← hdrain]
    exact h.line
  constructor
  case sent => exact h.sent
  case line => exact hline
  case accepted =>
    refine (h.accepted_drain hd).trans ?_
    rw [Nat.add_assoc, hlen]
    rfl
  case inFirst =>
    intro p hp
    have hbefore := h.inFirst p hp
    change t + d.offset < p.msg.length
    cases hrest : d.drain with
    | nil =>
        have hoffset := hd.empty hrest
        omega
    | cons e drain =>
        cases rest with
        | nil => cases hp
        | cons p' ps =>
            cases hp
            rw [hrest] at hline
            have hhead := (List.cons.inj hline).1
            have hfront := hd.inFirst e (by rw [hrest]; rfl)
            rw [hhead, List.length_drop] at hfront
            omega
  case ne_nil => exact h.ne_nil
  case drained => exact hd.empty
  case idle => exact h.idle
  case callbacks =>
    change ((o.fired ++ d.fired) ++ o.pending).Perm _
    rw [hfired, List.append_nil]
    exact h.callbacks

/-- The first message is finished, and perhaps others behind it. -/
theorem Sound.drain_cons {p e : WriteEntry κ} {ps finished : List (WriteEntry κ)}
    (h : Sound o done (p :: ps) t) (hd : Drains o.buffer.drain o.buffer.offset d)
    (hdrain : o.buffer.drain = e :: finished ++ d.drain)
    (hfired : d.fired = (e :: finished).filterMap WriteEntry.callback)
    (hlen : o.buffer.offset + d.accepted.length = (bytesOf (e :: finished)).length + d.offset) :
    Sound (o.drain d) (done ++ p :: finished)
      (d.drain ++ (o.buffer.queue ++ (o.call.map SendCall.entry).toList)) 0 := by
  have hline := h.line
  rw [Outbound.line, hdrain] at hline
  rw [List.cons_append, List.cons_append, List.append_assoc] at hline
  obtain ⟨hhead, htail⟩ := List.cons.inj hline
  have hfirst := h.inFirst p rfl
  have hps : ∀ e ∈ ps, e.msg ≠ [] := fun e he => h.ne_nil e (List.mem_cons_of_mem _ he)
  constructor
  case sent =>
    rw [List.append_assoc, List.cons_append, htail]
    exact h.sent
  case line =>
    rw [trim_zero]
    rfl
  case accepted =>
    have hcount : t + o.buffer.offset + d.accepted.length =
        (bytesOf (p :: finished)).length + d.offset := by
      rw [hhead] at hlen
      rw [bytesOf_cons, List.length_append] at hlen ⊢
      dsimp only at hlen
      rw [List.length_drop] at hlen
      omega
    refine (h.accepted_drain hd).trans ?_
    rw [hcount, ← htail, ← List.cons_append, bytesOf_append (p :: finished), bytesOf_append done,
      List.append_assoc, List.take_length_add_append, Nat.zero_add]
    rfl
  case inFirst =>
    intro e' he'
    change 0 + d.offset < e'.msg.length
    rw [Nat.zero_add]
    cases hrest : d.drain with
    | nil =>
        rw [hd.empty hrest]
        have hmem : e' ∈ ps := by
          rw [← htail]
          exact List.mem_append_right _ (List.mem_of_mem_head? he')
        exact List.length_pos_iff.mpr (hps e' hmem)
    | cons head drain =>
        rw [hrest] at he'
        cases he'
        exact hd.inFirst _ (by rw [hrest]; rfl)
  case ne_nil =>
    intro e' he'
    exact hps e' (htail ▸ List.mem_append_right _ he')
  case drained => exact hd.empty
  case idle => exact fun _ => rfl
  case callbacks =>
    change ((o.fired ++ d.fired) ++ o.pending).Perm _
    have hcallback : e.callback = p.callback := by rw [hhead]
    have hfinished : (done ++ p :: finished).filterMap WriteEntry.callback =
        done.filterMap WriteEntry.callback ++ d.fired := by
      rw [hfired, List.filterMap_append]
      simp only [List.filterMap_cons, hcallback]
    rw [hfinished, List.append_assoc]
    refine (List.Perm.append_left _ List.perm_append_comm).trans ?_
    rw [← List.append_assoc]
    exact h.callbacks.append_right _

theorem Sound.drain (h : Sound o done rest t) (hd : Drains o.buffer.drain o.buffer.offset d) :
    ∃ done rest t, Sound (o.drain d) done rest t := by
  obtain ⟨finished, hdrain, hfired, hlen⟩ := hd.finished
  cases finished with
  | nil =>
      rw [bytesOf_nil, List.length_nil, Nat.zero_add] at hlen
      exact ⟨done, rest, t, h.drain_nil hd hdrain hfired hlen⟩
  | cons e finished =>
      cases rest with
      | nil =>
          have hline := h.line
          rw [Outbound.line, hdrain] at hline
          cases hline
      | cons p ps => exact ⟨_, _, _, h.drain_cons hd hdrain hfired hlen⟩

end

/-- A flush. -/
theorem Sound.flushWrite (h : Sound o done rest t) (tls : Bool) (rooms : List Nat) :
    ∃ done rest t, Sound (o.flushWrite tls rooms) done rest t := by
  have hswap := h.swap
  have hne : ∀ e ∈ o.buffer.swap.drain, e.msg ≠ [] := by
    intro e he
    have hmem : e ∈ Outbound.line { o with buffer := o.buffer.swap } := List.mem_append_left _ he
    rw [hswap.line] at hmem
    exact mem_trim hswap e hmem
  exact hswap.drain
    (WriteBuffer.flushDrain_drains tls rooms hne (inFirst_drain hswap) hswap.drained)

end

/-- What a step keeps. -/
theorem Sound.step {o : Outbound κ} {done rest : List (WriteEntry κ)} {t : Nat}
    (h : Sound o done rest t) (tls : Bool) (s : OutboundStep κ) :
    ∃ done rest t, Sound (step tls s o) done rest t := by
  cases s with
  | send packet =>
      rw [Outbound.step]
      split
      next => exact ⟨done, rest, t, h⟩
      next hcall => exact ⟨done, _, t, h.send hcall packet⟩
  | trySend locked room =>
      rw [Outbound.step]
      split
      next entry hcall =>
        split
        · exact ⟨done, rest, t, h.move rfl (by simp [Outbound.line, hcall, SendCall.entry]) rfl rfl
            h.drained (List.Perm.refl _)⟩
        · exact h.trySend hcall room
      next => exact ⟨done, rest, t, h⟩
  | queueWrite =>
      rw [Outbound.step]
      split
      next entry hcall =>
        exact ⟨done, rest, t, h.move rfl
          (by simp [Outbound.line, Outbound.queueWrite, hcall, SendCall.entry]) rfl rfl h.drained
          (List.Perm.refl _)⟩
      next => exact ⟨done, rest, t, h⟩
  | callback i =>
      rw [Outbound.step]
      split
      next callback hget =>
        obtain ⟨hi, hcallback⟩ := List.getElem?_eq_some_iff.mp hget
        refine ⟨done, rest, t, h.move rfl rfl rfl rfl h.drained ?_⟩
        dsimp only
        rw [List.append_assoc]
        refine List.Perm.append_left _ ?_
        have hsplit : o.pending.take i ++ o.pending[i] :: o.pending.drop (i + 1) = o.pending := by
          rw [← List.drop_eq_getElem_cons hi, List.take_append_drop]
        have hmiddle : (o.pending[i] :: (o.pending.take i ++ o.pending.drop (i + 1))).Perm
            (o.pending.take i ++ o.pending[i] :: o.pending.drop (i + 1)) := List.perm_middle.symm
        rw [hsplit, ← List.eraseIdx_eq_take_drop_succ, hcallback] at hmiddle
        exact hmiddle
      next => exact ⟨done, rest, t, h⟩
  | flush rooms => exact h.flushWrite tls rooms

/-- A run of the threads on a new connection. -/
def run (tls : Bool) (steps : List (OutboundStep κ)) : Outbound κ :=
  steps.foldl (fun o s => step tls s o) .new

theorem sound_run (tls : Bool) (steps : List (OutboundStep κ)) :
    ∃ done rest t, Sound (run tls steps) done rest t := by
  have hfrom : ∀ (steps : List (OutboundStep κ)) {o : Outbound κ} {done rest : List (WriteEntry κ)}
      {t : Nat}, Sound o done rest t →
        ∃ done rest t, Sound (steps.foldl (fun o s => step tls s o) o) done rest t := by
    intro steps
    induction steps with
    | nil => exact fun h => ⟨_, _, _, h⟩
    | cons s steps ih =>
        intro o done rest t h
        obtain ⟨done', rest', t', h'⟩ := h.step tls s
        exact ih h'
  exact hfrom steps sound_new

/-- After any steps of the threads, what the socket has accepted and what is held are the
messages in order.  The callbacks that ran or that a call is about to run are, each once,
those of the messages whose last byte was accepted, and all have run when nothing is held. -/
theorem run_fifo (tls : Bool) (steps : List (OutboundStep κ)) :
    (run tls steps).accepted ++ (run tls steps).unsent = bytesOf (run tls steps).sent ∧
      ((run tls steps).fired ++ (run tls steps).pending).Perm
        ((covered (run tls steps).accepted.length (run tls steps).sent).filterMap
          WriteEntry.callback) ∧
      ((run tls steps).unsent = [] → (run tls steps).pending = [] →
        (run tls steps).fired.Perm ((run tls steps).sent.filterMap WriteEntry.callback)) := by
  obtain ⟨done, rest, t, h⟩ := sound_run tls steps
  refine ⟨h.bytes, h.covered, fun hunsent hpending => ?_⟩
  have hcovered := h.covered
  have hbytes := h.bytes
  rw [hunsent, List.append_nil] at hbytes
  have hall := covered_append (run tls steps).sent [] (k := 0) fun e he => by cases he
  rw [List.append_nil, Nat.add_zero] at hall
  rw [hpending, List.append_nil, hbytes, hall] at hcovered
  exact hcovered

/-- Two messages go out over a socket that takes three bytes, then two, then all. -/
example : (run false [.send ⟨[1, 2, 3, 4], by decide, some 'a'⟩, .trySend false 3, .queueWrite,
    .send ⟨[5, 6], by decide, some 'b'⟩, .trySend false 9, .queueWrite, .flush [2], .flush [9]]).fired =
      ['a', 'b'] := by decide

end Outbound

end

end OpenFix
