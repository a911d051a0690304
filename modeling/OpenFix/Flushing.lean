import OpenFix.Outbound

/-!
# When a flush stops

`flushWrite` writes out the drain, after it has moved the queue there if the drain was
empty.  With TLS it goes on message by message until the socket refuses or cuts a write,
or the drain is empty.  Without TLS it makes one call of `writev` for at most 64
messages.  What is in the queue behind a drain that was not empty is left for another
flush, and so is what is behind the 64 messages.

A write comes out with a number of bytes, is refused with `EAGAIN`, or fails, and
`flushWrite` drops everything after a failure.  The outcomes of the writes of a call are
given by their position.
-/

namespace OpenFix

/-- What `SSL_write` or `writev` gives. -/
inductive WriteResult where
  | wrote (n : Nat) (pos : 0 < n)
  | refused
  | failed

/-- A write to the socket. -/
structure SocketWrite where
  /-- How many bytes the socket was offered. -/
  offered : Nat
  result : WriteResult

/-- The socket takes all that it is offered. -/
def WriteResult.Takes (offered : Nat) : WriteResult → Prop
  | .wrote n _ => offered ≤ n
  | .refused | .failed => False

/-- The write was refused, or the socket took less than it was offered. -/
def SocketWrite.Held (w : SocketWrite) : Prop :=
  match w.result with
  | .wrote n _ => n < w.offered
  | .refused => True
  | .failed => False

/-- What a call of `flushWrite` leaves and what it did. -/
structure Flushed (κ : Type) where
  drained : Drained κ
  writes : List SocketWrite
  /-- A write failed. -/
  fatal : Bool

namespace WriteBuffer

variable {κ : Type}

/-- The loop with `SSL_write`. -/
def flushTLS : (Nat → WriteResult) → List (WriteEntry κ) → Nat → Flushed κ
  | _, [], offset => ⟨⟨[], offset, [], []⟩, [], false⟩
  | results, entry :: drain, offset =>
      let write : SocketWrite := ⟨entry.msg.length - offset, results 0⟩
      match results 0 with
      | .refused => ⟨⟨entry :: drain, offset, [], []⟩, [write], false⟩
      | .failed => ⟨⟨[], offset, [], []⟩, [write], true⟩
      | .wrote n _ =>
          let ret := min n (entry.msg.length - offset)
          if entry.msg.length ≤ offset + ret then
            let r := flushTLS (fun k => results (k + 1)) drain 0
            { r with
              drained := { r.drained with
                accepted := (entry.msg.drop offset).take ret ++ r.drained.accepted
                fired := entry.callback.toList ++ r.drained.fired }
              writes := write :: r.writes }
          else ⟨⟨entry :: drain, offset + ret, (entry.msg.drop offset).take ret, []⟩, [write], false⟩

/-- What is offered to `writev`. -/
def iovs (drain : List (WriteEntry κ)) (offset : Nat) : Bytes :=
  (bytesOf (drain.take maxWriteIovecs)).drop offset

/-- The one write with `writev`. -/
def flushVectored (result : WriteResult) (drain : List (WriteEntry κ)) (offset : Nat) : Flushed κ :=
  let write : SocketWrite := ⟨(iovs drain offset).length, result⟩
  match result with
  | .refused => ⟨⟨drain, offset, [], []⟩, [write], false⟩
  | .failed => ⟨⟨[], offset, [], []⟩, [write], true⟩
  | .wrote n _ =>
      let ret := min n (iovs drain offset).length
      let r := account drain offset ret
      ⟨⟨r.1, r.2.1, (iovs drain offset).take ret, r.2.2⟩, [write], false⟩

def flushWrite (wb : WriteBuffer κ) (tls : Bool) (results : Nat → WriteResult) :
    WriteBuffer κ × Flushed κ :=
  let wb := wb.swap
  if wb.drain = [] then (wb, ⟨⟨[], wb.offset, [], []⟩, [], false⟩)
  else
    let r := if tls then flushTLS results wb.drain wb.offset
      else flushVectored (results 0) wb.drain wb.offset
    (⟨if r.fatal then [] else wb.queue, r.drained.drain, r.drained.offset⟩, r)

/-! ## The property -/

/-- The messages are not empty, and the offset is into the first of them. -/
structure Proper (wb : WriteBuffer κ) : Prop where
  drain : ∀ e ∈ wb.drain, e.msg ≠ []
  queue : ∀ e ∈ wb.queue, e.msg ≠ []
  inFirst : InFirst wb.drain wb.offset

/-- A flush that leaves something without a fatal error was stopped by the socket in its last
write. -/
def StopsWithSocket (wb : WriteBuffer κ) (tls : Bool) (results : Nat → WriteResult) : Prop :=
  (wb.flushWrite tls results).2.fatal = false →
    (wb.flushWrite tls results).1.drain ≠ [] ∨ (wb.flushWrite tls results).1.queue ≠ [] →
    ∃ w ∈ (wb.flushWrite tls results).2.writes.getLast?, w.Held

/-- The socket takes each message whole. -/
def TakesEach : (Nat → WriteResult) → List (WriteEntry κ) → Nat → Prop
  | _, [], _ => True
  | results, entry :: drain, offset =>
      (results 0).Takes (entry.msg.length - offset) ∧ TakesEach (fun k => results (k + 1)) drain 0

/-- The socket takes all that it is offered in the call. -/
def TakesAll (wb : WriteBuffer κ) (tls : Bool) (results : Nat → WriteResult) : Prop :=
  if tls then TakesEach results wb.swap.drain wb.swap.offset
  else (results 0).Takes (iovs wb.swap.drain wb.swap.offset).length

/-- The call offers all that there is. -/
def OffersAll (wb : WriteBuffer κ) (tls : Bool) : Prop :=
  (wb.drain = [] ∨ wb.queue = []) ∧ (tls = true ∨ wb.swap.drain.length ≤ maxWriteIovecs)

theorem Proper.swap {wb : WriteBuffer κ} (h : wb.Proper) : wb.swap.Proper := by
  rw [WriteBuffer.swap]
  split
  next hswap =>
    refine ⟨h.queue, h.drain, fun e he => ?_⟩
    exact List.length_pos_iff.mpr (h.queue e (List.mem_of_mem_head? he))
  next => exact h

/-- What the queue holds behind a drain stays there. -/
theorem queue_swap_eq_nil_iff (wb : WriteBuffer κ) :
    wb.swap.queue = [] ↔ wb.drain = [] ∨ wb.queue = [] := by
  rw [WriteBuffer.swap]
  split
  next hswap =>
    constructor
    · intro _
      exact .inl hswap.1
    · intro _
      exact hswap.1
  next hswap =>
    constructor
    · intro hqueue
      exact .inr hqueue
    · intro hempty
      rcases hempty with hdrain | hqueue
      · exact by_contra fun hqueue => hswap ⟨hdrain, hqueue⟩
      · exact hqueue

theorem queue_swap_of_drain_eq_nil {wb : WriteBuffer κ} (h : wb.swap.drain = []) :
    wb.swap.queue = [] := by
  rw [queue_swap_eq_nil_iff]
  rw [WriteBuffer.swap] at h
  split at h
  next => exact .inr h
  next => exact .inl h

theorem not_takes_of_held {w : SocketWrite} (h : w.Held) : ¬w.result.Takes w.offered := by
  obtain ⟨offered, result⟩ := w
  intro htakes
  cases result with
  | wrote n pos => exact absurd h (Nat.not_lt.mpr htakes)
  | refused => exact htakes
  | failed => exact htakes

/-- One round of the loop with `SSL_write`. -/
theorem flushTLS_cons (results : Nat → WriteResult) (entry : WriteEntry κ)
    (drain : List (WriteEntry κ)) (offset : Nat) :
    ((results 0).Takes (entry.msg.length - offset) ∧
      (flushTLS results (entry :: drain) offset).drained.drain =
        (flushTLS (fun k => results (k + 1)) drain 0).drained.drain ∧
      (flushTLS results (entry :: drain) offset).fatal =
        (flushTLS (fun k => results (k + 1)) drain 0).fatal ∧
      (flushTLS results (entry :: drain) offset).writes =
        ⟨entry.msg.length - offset, results 0⟩ ::
          (flushTLS (fun k => results (k + 1)) drain 0).writes) ∨
    (¬(results 0).Takes (entry.msg.length - offset) ∧
      ((flushTLS results (entry :: drain) offset).fatal = true ∨
        ∃ w ∈ (flushTLS results (entry :: drain) offset).writes.getLast?, w.Held)) := by
  rw [flushTLS]
  dsimp only
  cases hresult : results 0 with
  | refused => exact .inr ⟨id, .inr ⟨_, rfl, True.intro⟩⟩
  | failed => exact .inr ⟨id, .inl rfl⟩
  | wrote n pos =>
      dsimp only
      by_cases htakes : entry.msg.length - offset ≤ n
      · rw [Nat.min_eq_right htakes, if_pos (by omega)]
        exact .inl ⟨htakes, rfl, rfl, rfl⟩
      · rw [Nat.min_eq_left (by omega), if_neg (by omega)]
        exact .inr ⟨htakes, .inr ⟨_, rfl, Nat.lt_of_not_le htakes⟩⟩

/-- The loop empties the drain when the socket takes each message, and otherwise its last
write is held or fails. -/
theorem flushTLS_spec (results : Nat → WriteResult) (drain : List (WriteEntry κ)) (offset : Nat) :
    (TakesEach results drain offset ∧
      (flushTLS results drain offset).drained.drain = [] ∧
      (flushTLS results drain offset).fatal = false ∧
      ∀ w ∈ (flushTLS results drain offset).writes, ¬w.Held) ∨
    (¬TakesEach results drain offset ∧ ((flushTLS results drain offset).fatal = true ∨
      ∃ w ∈ (flushTLS results drain offset).writes.getLast?, w.Held)) := by
  induction drain generalizing results offset with
  | nil =>
      refine .inl ⟨True.intro, rfl, rfl, fun w hw => ?_⟩
      cases hw
  | cons entry drain ih =>
      rcases flushTLS_cons results entry drain offset with
        ⟨htakes, hdrain, hfatal, hwrites⟩ | ⟨htakes, hstop⟩
      · rw [hdrain, hfatal, hwrites]
        rcases ih (fun k => results (k + 1)) 0 with ⟨hrest, hnil, hok, hfree⟩ | ⟨hrest, hstop⟩
        · refine .inl ⟨⟨htakes, hrest⟩, hnil, hok, fun w hw => ?_⟩
          rcases List.mem_cons.mp hw with heq | hw
          · rw [heq]
            exact fun hheld => not_takes_of_held hheld htakes
          · exact hfree w hw
        · refine .inr ⟨fun h => hrest h.2, hstop.imp id fun ⟨w, hw, hheld⟩ => ⟨w, ?_, hheld⟩⟩
          rw [List.getLast?_cons, Option.mem_def.mp hw]
          rfl
      · exact .inr ⟨fun h => htakes h.1, hstop⟩

theorem account_take : ∀ (n : Nat) {drain : List (WriteEntry κ)} {offset : Nat},
    (∀ e ∈ drain, e.msg ≠ []) → InFirst drain offset →
      (account drain offset ((bytesOf (drain.take n)).length - offset)).1 = drain.drop n := by
  intro n
  induction n with
  | zero =>
      intro drain offset hne hfirst
      cases drain with
      | nil => rfl
      | cons e drain =>
          rw [List.take_zero, bytesOf_nil, List.length_nil, Nat.zero_sub, account, if_pos rfl]
          rfl
  | succ n ih =>
      intro drain offset hne hfirst
      cases drain with
      | nil => rfl
      | cons e drain =>
          have hoffset := hfirst e rfl
          have hrest : ∀ e ∈ drain, e.msg ≠ [] := fun e he => hne e (List.mem_cons_of_mem _ he)
          have hzero : InFirst drain 0 := fun e he =>
            List.length_pos_iff.mpr (hrest e (List.mem_of_mem_head? he))
          rw [List.take_succ_cons, bytesOf_cons, List.length_append, account, if_neg (by omega)]
          dsimp only
          rw [if_pos (by omega)]
          have hleft : e.msg.length + (bytesOf (drain.take n)).length - offset -
              (e.msg.length - offset) = (bytesOf (drain.take n)).length - 0 := by omega
          rw [hleft]
          exact ih hrest hzero

/-- The one call of `writev` takes the messages that it is offered out of the drain, and
otherwise it is held or fails. -/
theorem flushVectored_spec (result : WriteResult) {drain : List (WriteEntry κ)} {offset : Nat}
    (hne : ∀ e ∈ drain, e.msg ≠ []) (hfirst : InFirst drain offset) :
    (result.Takes (iovs drain offset).length ∧
      (flushVectored result drain offset).drained.drain = drain.drop maxWriteIovecs ∧
      (flushVectored result drain offset).fatal = false ∧
      ∀ w ∈ (flushVectored result drain offset).writes, ¬w.Held) ∨
    (¬result.Takes (iovs drain offset).length ∧
      ((flushVectored result drain offset).fatal = true ∨
        ∃ w ∈ (flushVectored result drain offset).writes.getLast?, w.Held)) := by
  cases result with
  | refused => exact .inr ⟨id, .inr ⟨_, rfl, True.intro⟩⟩
  | failed => exact .inr ⟨id, .inl rfl⟩
  | wrote n pos =>
      by_cases htakes : (iovs drain offset).length ≤ n
      · refine .inl ⟨htakes, ?_, rfl, fun w hw => ?_⟩
        · show (account drain offset (min n (iovs drain offset).length)).1 = _
          rw [Nat.min_eq_right htakes, iovs, List.length_drop]
          exact account_take maxWriteIovecs hne hfirst
        · rw [List.mem_singleton.mp hw]
          exact Nat.not_lt.mpr htakes
      · exact .inr ⟨htakes, .inr ⟨_, rfl, Nat.lt_of_not_le htakes⟩⟩

/-- What the writes of a call come to. -/
theorem flushWrite_spec {wb : WriteBuffer κ} (h : wb.Proper) (tls : Bool)
    (results : Nat → WriteResult) (hdrain : wb.swap.drain ≠ []) :
    (wb.TakesAll tls results ∧
      (wb.flushWrite tls results).1.drain =
        (if tls then [] else wb.swap.drain.drop maxWriteIovecs) ∧
      (wb.flushWrite tls results).1.queue = wb.swap.queue ∧
      (wb.flushWrite tls results).2.fatal = false ∧
      ∀ w ∈ (wb.flushWrite tls results).2.writes, ¬w.Held) ∨
    (¬wb.TakesAll tls results ∧ ((wb.flushWrite tls results).2.fatal = true ∨
      ∃ w ∈ (wb.flushWrite tls results).2.writes.getLast?, w.Held)) := by
  have hproper := h.swap
  cases tls with
  | true =>
      rw [flushWrite]
      dsimp only
      rw [if_neg hdrain]
      rcases flushTLS_spec results wb.swap.drain wb.swap.offset with
        ⟨htakes, hnil, hok, hfree⟩ | hstop
      · refine .inl ⟨htakes, hnil, ?_, hok, hfree⟩
        show (if (flushTLS results wb.swap.drain wb.swap.offset).fatal then _ else _) = _
        rw [hok]
        rfl
      · exact .inr hstop
  | false =>
      rw [flushWrite]
      dsimp only
      rw [if_neg hdrain]
      rcases flushVectored_spec (results 0) hproper.drain hproper.inFirst with
        ⟨htakes, hdrop, hok, hfree⟩ | hstop
      · refine .inl ⟨htakes, hdrop, ?_, hok, hfree⟩
        show (if (flushVectored (results 0) wb.swap.drain wb.swap.offset).fatal then _ else _) = _
        rw [hok]
        rfl
      · exact .inr hstop

/-- A call that offers everything leaves nothing when the socket takes it, and another call
leaves something then. -/
theorem offersAll_iff {wb : WriteBuffer κ} {tls : Bool} :
    wb.OffersAll tls ↔ wb.swap.queue = [] ∧
      (if tls then [] else wb.swap.drain.drop maxWriteIovecs) = [] := by
  rw [OffersAll, queue_swap_eq_nil_iff]
  refine and_congr_right fun _ => ?_
  cases tls with
  | true => exact iff_of_true (.inl rfl) rfl
  | false =>
      rw [if_neg (by decide), List.drop_eq_nil_iff]
      exact or_iff_right (by decide)

/-- A flush stops only when the socket does, if and only if the socket stops it or it offers
everything that there is. -/
theorem stopsWithSocket_iff {wb : WriteBuffer κ} (h : wb.Proper) (tls : Bool)
    (results : Nat → WriteResult) :
    wb.StopsWithSocket tls results ↔ ¬wb.TakesAll tls results ∨ wb.OffersAll tls := by
  rw [offersAll_iff]
  by_cases hdrain : wb.swap.drain = []
  · have hqueue := queue_swap_of_drain_eq_nil hdrain
    refine iff_of_true (fun _ hleft => ?_) (.inr ⟨hqueue, ?_⟩)
    · rw [flushWrite, if_pos hdrain] at hleft
      rcases hleft with hne | hne
      · exact absurd hdrain hne
      · exact absurd hqueue hne
    · rw [hdrain, List.drop_nil, ite_self]
  · rcases flushWrite_spec h tls results hdrain with
      ⟨htakes, hleft, hqueue, hok, hfree⟩ | ⟨htakes, hstop⟩
    · rw [StopsWithSocket, hleft, hqueue]
      constructor
      · intro hstops
        refine .inr (by_contra fun hne => ?_)
        have hsome : (if tls then [] else wb.swap.drain.drop maxWriteIovecs) ≠ [] ∨
            wb.swap.queue ≠ [] := by
          by_cases hq : wb.swap.queue = []
          · exact .inl fun hnil => hne ⟨hq, hnil⟩
          · exact .inr hq
        obtain ⟨w, hw, hheld⟩ := hstops hok hsome
        exact hfree w (List.mem_of_getLast? hw) hheld
      · intro hcond _ hsome
        rcases hcond with hnot | ⟨hq, hnil⟩
        · exact absurd htakes hnot
        · rcases hsome with hne | hne
          · exact absurd hnil hne
          · exact absurd hq hne
    · refine iff_of_true (fun hok _ => ?_) (.inl htakes)
      rcases hstop with hfatal | hheld
      · rw [hok] at hfatal
        cases hfatal
      · exact hheld

/-- A message that the drain still holds, and one that came after it. -/
def behind : WriteBuffer Unit := ⟨[⟨[2], none⟩], [⟨[1], none⟩], 0⟩

theorem proper_behind : behind.Proper where
  drain e he := by
    rw [List.mem_singleton.mp he]
    exact List.cons_ne_nil _ _
  queue e he := by
    rw [List.mem_singleton.mp he]
    exact List.cons_ne_nil _ _
  inFirst e he := by
    cases he
    exact Nat.zero_lt_one

theorem stopsWithSocket_iff_test : behind.StopsWithSocket true (fun _ => .refused) ↔
    ¬behind.TakesAll true (fun _ => .refused) ∨ behind.OffersAll true :=
  stopsWithSocket_iff proper_behind true fun _ => .refused

/-- The drain goes out, and the queue behind it waits for an event. -/
theorem not_stopsWithSocket : ¬∀ wb : WriteBuffer Unit, wb.Proper →
    ∀ (tls : Bool) (results : Nat → WriteResult), wb.StopsWithSocket tls results := by
  intro h
  have hstops := h behind proper_behind true fun _ => .wrote 1 Nat.zero_lt_one
  obtain ⟨w, hw, hheld⟩ := hstops rfl (.inr (List.cons_ne_nil _ _))
  cases hw
  exact absurd hheld (Nat.lt_irrefl 1)

/-! ## The buffers of a connection -/

/-- The buffer of a connection is proper, whatever its threads have done. -/
theorem Proper.of_sound {o : Outbound κ} {done rest : List (WriteEntry κ)} {t : Nat}
    (h : Outbound.Sound o done rest t) : o.buffer.Proper := by
  have hmem := Outbound.mem_trim h
  rw [← h.line, Outbound.line] at hmem
  exact {
    drain := fun e he => hmem e (List.mem_append_left _ he)
    queue := fun e he => hmem e (List.mem_append_right _ (List.mem_append_left _ he))
    inFirst := Outbound.inFirst_drain h }

/-- A socket with room for this many bytes, each time it is written to. -/
def roomResult (rooms : List Nat) (k : Nat) : WriteResult :=
  match rooms[k]? with
  | some (n + 1) => .wrote (n + 1) (Nat.succ_pos n)
  | some 0 | none => .refused

theorem flushTLS_rooms : ∀ (rooms : List Nat) {drain : List (WriteEntry κ)} {offset : Nat},
    (∀ e ∈ drain, e.msg ≠ []) → InFirst drain offset →
      (flushTLS (roomResult rooms) drain offset).drained = drainTLS rooms drain offset ∧
        (flushTLS (roomResult rooms) drain offset).fatal = false
  | [], [], offset, _, _ => ⟨rfl, rfl⟩
  | [], e :: drain, offset, _, _ => ⟨rfl, rfl⟩
  | room :: rooms, [], offset, _, _ => ⟨rfl, rfl⟩
  | 0 :: rooms, e :: drain, offset, _, _ => by
      rw [drainTLS, Nat.zero_min]
      exact ⟨rfl, rfl⟩
  | (n + 1) :: rooms, e :: drain, offset, hne, hfirst => by
      have hoffset := hfirst e rfl
      have hrest : ∀ e ∈ drain, e.msg ≠ [] := fun e he => hne e (List.mem_cons_of_mem _ he)
      have hzero : InFirst drain 0 := fun e he =>
        List.length_pos_iff.mpr (hrest e (List.mem_of_mem_head? he))
      obtain ⟨hdrained, hfatal⟩ := flushTLS_rooms rooms hrest hzero
      have hresult : roomResult ((n + 1) :: rooms) 0 = .wrote (n + 1) (Nat.succ_pos n) := rfl
      have hshift : (fun k => roomResult ((n + 1) :: rooms) (k + 1)) = roomResult rooms := rfl
      have hret : min (n + 1) (e.msg.length - offset) ≠ 0 := by omega
      rw [flushTLS, drainTLS, hresult, hshift]
      dsimp only
      rw [if_neg hret]
      split
      next => exact ⟨by rw [hdrained], hfatal⟩
      next => exact ⟨rfl, rfl⟩

theorem flushVectored_rooms (room : Nat) {drain : List (WriteEntry κ)} {offset : Nat}
    (hne : drain ≠ []) (hfirst : InFirst drain offset) :
    (flushVectored (roomResult [room] 0) drain offset).drained = drainVectored room drain offset ∧
      (flushVectored (roomResult [room] 0) drain offset).fatal = false := by
  have hpos : 0 < (iovs drain offset).length := by
    cases drain with
    | nil => exact absurd rfl hne
    | cons e drain =>
        have hoffset := hfirst e rfl
        rw [iovs, List.length_drop, maxWriteIovecs, List.take_succ_cons, bytesOf_cons,
          List.length_append]
        omega
  cases room with
  | zero =>
      rw [drainVectored]
      dsimp only
      rw [Nat.zero_min, if_pos rfl]
      exact ⟨rfl, rfl⟩
  | succ n =>
      rw [iovs] at hpos
      rw [drainVectored]
      dsimp only
      rw [if_neg (by omega)]
      exact ⟨rfl, rfl⟩

theorem flushDrain_nil (wb : WriteBuffer κ) (h : wb.drain = []) (tls : Bool) (rooms : List Nat) :
    (wb.flushDrain tls rooms).drain = [] ∧ (wb.flushDrain tls rooms).offset = wb.offset := by
  rw [flushDrain, h]
  cases tls with
  | true =>
      cases rooms with
      | nil => exact ⟨rfl, rfl⟩
      | cons room rooms => exact ⟨rfl, rfl⟩
  | false =>
      rw [if_neg (by decide), drainVectored, List.take_nil, bytesOf_nil, List.drop_nil]
      dsimp only
      rw [List.length_nil, Nat.min_zero, if_pos rfl]
      exact ⟨rfl, rfl⟩

/-- The flush of a connection is the flush of its buffer, by a socket with this much room. -/
theorem flushWrite_rooms (o : Outbound κ) (h : o.buffer.Proper) (tls : Bool) (rooms : List Nat) :
    (o.flushWrite tls rooms).buffer = (o.buffer.flushWrite tls (roomResult rooms)).1 := by
  have hproper := h.swap
  rw [Outbound.flushWrite, flushWrite]
  dsimp only
  by_cases hdrain : o.buffer.swap.drain = []
  · obtain ⟨hnil, hoffset⟩ := flushDrain_nil o.buffer.swap hdrain tls rooms
    rw [if_pos hdrain, hnil, hoffset, ← hdrain]
  · rw [if_neg hdrain, flushDrain]
    cases tls with
    | true =>
        obtain ⟨hdrained, hfatal⟩ := flushTLS_rooms rooms hproper.drain hproper.inFirst
        simp only [if_true, hdrained, hfatal, Bool.false_eq_true, if_false]
    | false =>
        have hhead : roomResult rooms 0 = roomResult [rooms.headD 0] 0 := by
          cases rooms with
          | nil => rfl
          | cons room rooms => rfl
        obtain ⟨hdrained, hfatal⟩ := flushVectored_rooms (rooms.headD 0) hdrain hproper.inFirst
        rw [← hhead] at hdrained hfatal
        simp only [Bool.false_eq_true, if_false, hdrained, hfatal]

end WriteBuffer

end OpenFix
