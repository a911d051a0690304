import OpenFix.Lib.Run
import OpenFix.Sending

/-!
# Sends next to each other

`Session::send` holds no lock.  It reads the sender number, stamps and renders
the message, keeps the text under the number, adds one to the number and hands
the text to the network, and other threads that call `send` on the session may
run between these steps.

The number is an atomic and so is adding one to it, but reading and adding are
two steps.  The calls keep their numbers apart exactly as long as no call reads
the number between the two steps of another.
-/

namespace OpenFix

open Effect

/-! ## A call of `send` in its steps -/

/-- Where a call of `send` is. -/
inductive SendProgress where
  | called (msg : Message)
  | read (msg : Message) (epochUs epochMs seqnum : Int)
  | populated (msg : Message) (epochUs seqnum : Int)
  | cached (msg : Message) (epochUs seqnum : Int)
  | counted (msg : Message) (epochUs seqnum : Int)
  | sent (msg : Message) (seqnum : Int)
  /-- The call has thrown. -/
  | raised

namespace SendProgress

/-- The number of a call that has read it and not counted it yet. -/
def held? : SendProgress → Option Int
  | .read _ _ _ seqnum | .populated _ _ seqnum | .cached _ _ seqnum => some seqnum
  | _ => none

/-- The number of a call that is about to hand its text to the network. -/
def unsent? : SendProgress → Option Int
  | .counted _ _ seqnum => some seqnum
  | _ => none

/-- The stamped message of a call, and its number. -/
def stamped? : SendProgress → Option (Message × Int)
  | .populated msg _ seqnum | .cached msg _ seqnum | .counted msg _ seqnum | .sent msg seqnum =>
      some (msg, seqnum)
  | _ => none

/-- The message of a call that has kept its text, and its number. -/
def kept? : SendProgress → Option (Message × Int)
  | .cached msg _ seqnum | .counted msg _ seqnum | .sent msg seqnum => some (msg, seqnum)
  | _ => none

/-- The next step of a call. -/
def advance (env : Env) : SendProgress → SessionM SendProgress
  | .called msg => do
      let epochUs ← Session.currentEpochUs env
      let epochMs ← (if epochUs.tdiv 1000 = 0 then Session.getEpochMillis env
        else pure (epochUs.tdiv 1000))
      return .read msg epochUs epochMs (← Session.getSenderSeqNum)
  | .read msg epochUs epochMs seqnum => do
      let header ← liftExcept (Session.stampHeader env.settings seqnum epochMs msg.header)
      return .populated { msg with header := header } epochUs seqnum
  | .populated msg epochUs seqnum => do
      Session.modifyCache fun c => c.cache seqnum (msg.toString true)
      return .cached msg epochUs seqnum
  | .cached msg epochUs seqnum => do
      Session.modifyCache MemoryCache.nextSenderSeqNum
      return .counted msg epochUs seqnum
  | .counted msg epochUs seqnum => do
      Session.internalSend env msg none epochUs
      return .sent msg seqnum
  | .sent msg seqnum => return .sent msg seqnum
  | .raised => return .raised

/-- All steps of a call, one after the other. -/
def complete (env : Env) (p : SendProgress) : SessionM SendProgress := do
  p.advance env >>= advance env >>= advance env >>= advance env >>= advance env

/-- Keeping a text and counting it, in one step. -/
theorem modifyCache_bind (f g : MemoryCache → MemoryCache) {α : Type} (x : SessionM α) :
    (do Session.modifyCache f; Session.modifyCache g; x) =
      (do Session.modifyCache (fun c => g (f c)); x) := rfl

/-- `send` is its five steps. -/
theorem complete_eq_send (env : Env) (msg : Message) :
    (fun _ => ()) <$> complete env (.called msg) = Session.send env msg none := by
  simp only [complete, advance, Session.send, Session.populateMessage, bind_assoc, pure_bind,
    map_bind, map_pure, modifyCache_bind, bind_pure_unit]

/-- What a step of a call does to the session. -/
inductive Advanced (env : Env) (s : Session) : SendProgress → Session → SendProgress → Prop where
  | read {msg : Message} {epochUs epochMs : Int} {t : Session} (h : Session.Idle s t) :
      Advanced env s (.called msg) t (.read msg epochUs epochMs s.cache.senderSeqNum)
  | populate {msg m : Message} {epochUs epochMs seqnum : Int}
      (h : Session.Stamped env seqnum msg m) :
      Advanced env s (.read msg epochUs epochMs seqnum) s (.populated m epochUs seqnum)
  | raise {msg : Message} {epochUs epochMs seqnum : Int} :
      Advanced env s (.read msg epochUs epochMs seqnum) s .raised
  | cache {m : Message} {epochUs seqnum : Int} :
      Advanced env s (.populated m epochUs seqnum)
        { s with cache := s.cache.cache seqnum (m.toString true) } (.cached m epochUs seqnum)
  | count {m : Message} {epochUs seqnum : Int} :
      Advanced env s (.cached m epochUs seqnum) { s with cache := s.cache.nextSenderSeqNum }
        (.counted m epochUs seqnum)
  | transmit {m : Message} {epochUs seqnum : Int} {t : Session} (h : Session.Transmitted m s t) :
      Advanced env s (.counted m epochUs seqnum) t (.sent m seqnum)
  | sent {m : Message} {seqnum : Int} : Advanced env s (.sent m seqnum) s (.sent m seqnum)
  | raised : Advanced env s .raised s .raised

theorem advance_ends (env : Env) (s : Session) (call : SendProgress) :
    Ends (call.advance env) s (fun call' t => Advanced env s call t call')
      fun _ t => Advanced env s call t .raised := by
  cases call with
  | called msg =>
      refine Ends.bind ((Session.currentEpochUs_ends env s).mono (fun _ _ h => h)
        fun _ _ h => h.elim) ?_
      intro epochUs t ht
      have htime : Ends (if epochUs.tdiv 1000 = 0 then Session.getEpochMillis env
          else pure (epochUs.tdiv 1000)) t (fun _ => Session.Idle t)
          fun _ u => Advanced env s (.called msg) u .raised := by
        split
        · exact ⟨⟨rfl, rfl, rfl, rfl, rfl⟩, rfl, rfl⟩
        · exact Std.Refl.refl (r := Session.Idle) t
      refine Ends.bind htime ?_
      intro epochMs u hu
      rw [ends_bind, Session.ends_getSenderSeqNum, ends_pure, hu.cache, ht.cache]
      exact .read (IsTrans.trans s t u ht hu)
  | read msg epochUs epochMs seqnum =>
      refine Ends.bind (Session.ends_liftExcept (Q := fun header t =>
        Session.stampHeader env.settings seqnum epochMs msg.header = .ok header ∧ t = s)
        (fun header h => ⟨h, rfl⟩) fun e h => .raise) ?_
      rintro header t ⟨h, rfl⟩
      exact .populate ⟨epochMs, header, h, rfl⟩
  | populated m epochUs seqnum => exact .cache
  | cached m epochUs seqnum => exact .count
  | counted m epochUs seqnum =>
      refine Ends.bind ((Session.internalSend_ends env m epochUs s).mono (fun _ _ h => h)
        fun _ _ h => h.elim) ?_
      intro _ t ht
      exact .transmit ht
  | sent m seqnum => exact .sent
  | raised => exact .raised

end SendProgress

/-! ## Several calls at once -/

/-- A session and the calls of `send` on it. -/
structure Senders where
  session : Session
  calls : List SendProgress

namespace Senders

open SendProgress

/-- The call at a place takes its next step. -/
def step (env : Env) (i : Nat) (s : Senders) : Senders :=
  match s.calls[i]? with
  | none => s
  | some call =>
      match (call.advance env).run s.session with
      | .ok call session => ⟨session, s.calls.set i call⟩
      | .error _ session => ⟨session, s.calls.set i .raised⟩

/-- A step of a call that is there. -/
theorem step_cases (env : Env) (i : Nat) (s : Senders) :
    step env i s = s ∨ ∃ pre call post session call', s.calls = pre ++ call :: post ∧
      pre.length = i ∧ Advanced env s.session call session call' ∧
      step env i s = ⟨session, pre ++ call' :: post⟩ := by
  unfold step
  cases hcall : s.calls[i]? with
  | none => exact .inl rfl
  | some call =>
      obtain ⟨hlt, hget⟩ := List.getElem?_eq_some_iff.mp hcall
      have hcalls : s.calls = s.calls.take i ++ call :: s.calls.drop (i + 1) := by
        rw [← hget, List.getElem_cons_drop, List.take_append_drop]
      have hset : ∀ call', s.calls.set i call' =
          s.calls.take i ++ call' :: s.calls.drop (i + 1) := by
        intro call'
        rw [List.set_eq_take_append_cons_drop, if_pos hlt]
      have hends := advance_ends env s.session call
      have hlen : (s.calls.take i).length = i := List.length_take_of_le hlt.le
      unfold Ends at hends
      refine .inr ?_
      cases hrun : (call.advance env).run s.session with
      | ok call' t =>
          rw [hrun] at hends
          exact ⟨_, _, _, t, call', hcalls, hlen, hends, by simp only [hrun, hset]⟩
      | error e t =>
          rw [hrun] at hends
          exact ⟨_, _, _, t, .raised, hcalls, hlen, hends, by simp only [hrun, hset]⟩

/-! ## Consecutive numbers -/

/-- The numbers that calls have read and not counted yet. -/
def held (calls : List SendProgress) : List Int := calls.filterMap held?

/-- The numbers of the calls that are about to hand their texts to the network. -/
def unsent (calls : List SendProgress) : List Int := calls.filterMap unsent?

/-- No call reads the number while another call holds it, and the number does not
wrap. -/
structure Alone (s : Senders) (i : Nat) : Prop where
  read : ∀ msg, s.calls[i]? = some (.called msg) → held s.calls = []
  count : ∀ m epochUs seqnum, s.calls[i]? = some (.cached m epochUs seqnum) →
    s.session.cache.senderSeqNum < 2147483647

/-- `Alone`, computed. -/
def isAlone (s : Senders) (i : Nat) : Bool :=
  match s.calls[i]? with
  | some (.called _) => (held s.calls).isEmpty
  | some (.cached _ _ _) => s.session.cache.senderSeqNum < 2147483647
  | _ => true

theorem isAlone_iff {s : Senders} {i : Nat} : s.isAlone i = true ↔ Alone s i := by
  unfold isAlone
  split
  next msg hget =>
    rw [List.isEmpty_iff]
    refine ⟨fun h => ⟨fun _ _ => h, fun m epochUs seqnum hc => ?_⟩, fun h => h.read msg hget⟩
    rw [hget] at hc
    cases hc
  next m epochUs seqnum hget =>
    rw [decide_eq_true_iff]
    refine ⟨fun h => ⟨fun msg hc => ?_, fun _ _ _ _ => h⟩, fun h => h.count m epochUs seqnum hget⟩
    rw [hget] at hc
    cases hc
  next hread hcached =>
    refine ⟨fun _ => ⟨fun msg hc => (hread msg hc).elim, fun m epochUs seqnum hc => ?_⟩,
      fun _ => rfl⟩
    exact (hcached m epochUs seqnum hc).elim

instance (s : Senders) (i : Nat) : Decidable (Alone s i) := decidable_of_iff _ isAlone_iff

/-- The numbers from `k` to `k + n - 1`. -/
def numbersFrom (k : Int) (n : Nat) : List Int := (List.range n).map fun i : Nat => k + (i : Int)

theorem numbersFrom_succ (k : Int) (n : Nat) :
    numbersFrom k (n + 1) = numbersFrom k n ++ [k + n] := by
  unfold numbersFrom
  rw [List.range_succ, List.map_append, List.map_singleton]

/-- What is transmitted, and what is about to be, has the numbers that were counted,
each of them once. -/
def Numbered (start s : Session) (calls : List SendProgress) : Prop :=
  ∃ (n : Nat) (nums : List Int),
    s.cache.senderSeqNum = start.cache.senderSeqNum + n ∧
    (nums ++ unsent calls).Perm (numbersFrom start.cache.senderSeqNum n) ∧
    (start.network.connected = true →
      List.Forall₂ Message.HasSeqNum (transmittedBetween start s) nums) ∧
    (start.network.connected = false → transmittedBetween start s = [])

/-- The messages carry consecutive numbers from the first one on, and no text was
overwritten. -/
structure Consecutive (start : Session) (s : Senders) : Prop where
  numbered : Numbered start s.session s.calls
  /-- The text of every call is still there. -/
  kept : ∀ call ∈ s.calls, ∀ m seqnum, call.kept? = some (m, seqnum) →
    s.session.cache.messages.find? seqnum = some (m.toString true)
  /-- So are the texts with smaller numbers. -/
  older : ∀ k < start.cache.senderSeqNum,
    s.session.cache.messages.find? k = start.cache.messages.find? k

/-! ## The invariant -/

/-- What is known of a call. -/
structure CallInv (s : Session) (call : SendProgress) : Prop where
  stamped : ∀ m seqnum, call.stamped? = some (m, seqnum) → m.HasSeqNum seqnum
  kept : ∀ m seqnum, call.kept? = some (m, seqnum) →
    s.cache.messages.find? seqnum = some (m.toString true) ∧
      (call.held? = none → seqnum < s.cache.senderSeqNum)

/-- Nothing is known of a call that has not stamped its message. -/
theorem callInv_of_none {s : Session} {call : SendProgress} (hs : call.stamped? = none)
    (hk : call.kept? = none) : CallInv s call := by
  constructor
  · intro m seqnum h
    rw [hs] at h
    cases h
  · intro m seqnum h
    rw [hk] at h
    cases h

/-- What every step keeps. -/
structure Inv (start s : Session) (calls : List SendProgress) : Prop where
  numbered : Numbered start s calls
  older : ∀ k < start.cache.senderSeqNum,
    s.cache.messages.find? k = start.cache.messages.find? k
  network : s.network = start.network
  events : ∃ ev, s.events = start.events ++ ev
  isInt : -2147483648 ≤ s.cache.senderSeqNum ∧ s.cache.senderSeqNum < 2147483648
  window : held calls = [] ∨ held calls = [s.cache.senderSeqNum]
  calls : ∀ call ∈ calls, CallInv s call

theorem Inv.consecutive {start : Session} {s : Senders} (h : Inv start s.session s.calls) :
    Consecutive start s :=
  ⟨h.numbered, fun call hc m seqnum hk => ((h.calls call hc).kept m seqnum hk).1, h.older⟩

section

variable {start s t : Session} {pre post : List SendProgress} {call call' : SendProgress}

theorem held_middle :
    held (pre ++ call :: post) = held pre ++ (call.held?.toList ++ held post) := by
  unfold held
  rw [List.filterMap_append, List.filterMap_cons]
  cases call.held? with
  | none => rfl
  | some k => rfl

theorem unsent_middle :
    unsent (pre ++ call :: post) = unsent pre ++ (call.unsent?.toList ++ unsent post) := by
  unfold unsent
  rw [List.filterMap_append, List.filterMap_cons]
  cases call.unsent? with
  | none => rfl
  | some k => rfl

/-- The calls, when one of them is replaced. -/
theorem forall_replace {P Q : SendProgress → Prop} (h : ∀ c ∈ pre ++ call :: post, P c)
    (hother : ∀ c, c ∈ pre ∨ c ∈ post → P c → Q c) (hcall : P call → Q call') :
    ∀ c ∈ pre ++ call' :: post, Q c := by
  intro c hc
  rcases List.mem_append.mp hc with hpre | hpost
  · exact hother c (.inl hpre) (h c (List.mem_append_left _ hpre))
  · rcases List.mem_cons.mp hpost with rfl | hpost
    · exact hcall (h call (List.mem_append_right _ List.mem_cons_self))
    · exact hother c (.inr hpost) (h c (List.mem_append_right _ (List.mem_cons_of_mem _ hpost)))

/-- Where one call holds a number, it is the next one and the others hold none. -/
theorem Inv.holder (h : Inv start s (pre ++ call :: post)) {seqnum : Int}
    (hheld : call.held? = some seqnum) :
    seqnum = s.cache.senderSeqNum ∧ held pre = [] ∧ held post = [] := by
  have hw := h.window
  rw [held_middle, hheld] at hw
  rcases hw with hw | hw
  · simp at hw
  · have hlen := congrArg List.length hw
    simp only [List.length_append, Option.toList_some, List.length_cons, List.length_nil] at hlen
    have hpre : held pre = [] := List.eq_nil_of_length_eq_zero (by omega)
    have hpost : held post = [] := List.eq_nil_of_length_eq_zero (by omega)
    rw [hpre, hpost] at hw
    simp at hw
    exact ⟨hw, hpre, hpost⟩

/-- A step that leaves the cache and the log alone. -/
theorem Inv.idle (h : Inv start s (pre ++ call :: post)) (hidle : Session.Idle s t)
    (hunsent : call'.unsent? = call.unsent?)
    (hwindow : held (pre ++ call' :: post) = [] ∨
      held (pre ++ call' :: post) = [s.cache.senderSeqNum])
    (hcall : CallInv s call → CallInv s call') : Inv start t (pre ++ call' :: post) := by
  have hother : ∀ c, CallInv s c → CallInv t c := by
    intro c hc
    refine ⟨hc.stamped, ?_⟩
    rw [hidle.cache]
    exact hc.kept
  constructor
  · have hlog : transmittedBetween start t = transmittedBetween start s := by
      unfold transmittedBetween
      rw [hidle.events]
    unfold Numbered
    rw [unsent_middle, hunsent, ← unsent_middle, hidle.cache, hlog]
    exact h.numbered
  · rw [hidle.cache]
    exact h.older
  · exact hidle.network.trans h.network
  · rw [hidle.events]
    exact h.events
  · rw [hidle.cache]
    exact h.isInt
  · rw [hidle.cache]
    exact hwindow
  · exact forall_replace h.calls (fun c _ hc => hother c hc) fun hc => hother call' (hcall hc)

/-! ## The steps of one call -/

/-- The holder of the number keeps its text under it. -/
theorem Inv.cache {m : Message} {epochUs seqnum : Int}
    (h : Inv start s (pre ++ .populated m epochUs seqnum :: post)) :
    Inv start { s with cache := s.cache.cache seqnum (m.toString true) }
      (pre ++ .cached m epochUs seqnum :: post) := by
  obtain ⟨hseq, hpre, hpost⟩ := h.holder rfl
  subst hseq
  have hfind : ∀ k < s.cache.senderSeqNum,
      (s.cache.cache s.cache.senderSeqNum (m.toString true)).messages.find? k =
        s.cache.messages.find? k :=
    fun k hk => SortedMap.find?_insert_ne _ (by omega) _
  constructor
  · obtain ⟨n, nums, hn, hperm, hsent⟩ := h.numbered
    refine ⟨n, nums, hn, ?_, hsent⟩
    rw [unsent_middle] at hperm ⊢
    exact hperm
  · intro k hk
    obtain ⟨n, nums, hn, -⟩ := h.numbered
    rw [← h.older k hk]
    exact hfind k (by omega)
  · exact h.network
  · exact h.events
  · exact h.isInt
  · have hw := h.window
    rw [held_middle] at hw ⊢
    exact hw
  · refine forall_replace h.calls ?_ ?_
    · -- No other call holds a number, so the other texts have smaller ones.
      intro c hmem hc
      have hnone : c.held? = none := by
        rcases hmem with hmem | hmem
        · exact List.filterMap_eq_nil_iff.mp hpre c hmem
        · exact List.filterMap_eq_nil_iff.mp hpost c hmem
      refine ⟨hc.stamped, fun m' seqnum' hk => ?_⟩
      obtain ⟨hkept, hlt⟩ := hc.kept m' seqnum' hk
      exact ⟨(hfind seqnum' (hlt hnone)).trans hkept, hlt⟩
    · intro hc
      refine ⟨hc.stamped, ?_⟩
      intro m' seqnum' hk
      cases hk
      exact ⟨SortedMap.find?_insert_self _ _ _, fun hnone => by cases hnone⟩

/-- The holder of the number counts it. -/
theorem Inv.count {m : Message} {epochUs seqnum : Int}
    (h : Inv start s (pre ++ .cached m epochUs seqnum :: post))
    (hlt : s.cache.senderSeqNum < 2147483647) :
    Inv start { s with cache := s.cache.nextSenderSeqNum }
      (pre ++ .counted m epochUs seqnum :: post) := by
  obtain ⟨hseq, hpre, hpost⟩ := h.holder rfl
  subst hseq
  have hint := h.isInt
  have hnext : s.cache.nextSenderSeqNum.senderSeqNum = s.cache.senderSeqNum + 1 :=
    i32_of_range (by omega) (by omega)
  constructor
  · obtain ⟨n, nums, hn, hperm, hsent⟩ := h.numbered
    refine ⟨n + 1, nums, ?_, ?_, hsent⟩
    · change s.cache.nextSenderSeqNum.senderSeqNum = _
      rw [hnext, hn]
      omega
    · rw [unsent_middle] at hperm ⊢
      rw [numbersFrom_succ, ← hn, ← List.append_assoc]
      refine List.perm_middle.trans ?_
      refine (List.Perm.cons _ ?_).trans (List.perm_append_singleton _ _).symm
      rw [List.append_assoc]
      exact hperm
  · exact h.older
  · exact h.network
  · exact h.events
  · change -2147483648 ≤ s.cache.nextSenderSeqNum.senderSeqNum ∧
      s.cache.nextSenderSeqNum.senderSeqNum < 2147483648
    omega
  · left
    rw [held_middle, hpre, hpost]
    rfl
  · have hother : ∀ c, CallInv s c → CallInv { s with cache := s.cache.nextSenderSeqNum } c := by
      intro c hc
      refine ⟨hc.stamped, fun m' seqnum' hk => ?_⟩
      obtain ⟨hkept, hless⟩ := hc.kept m' seqnum' hk
      refine ⟨hkept, fun hnone => ?_⟩
      change seqnum' < s.cache.nextSenderSeqNum.senderSeqNum
      have := hless hnone
      omega
    refine forall_replace h.calls (fun c _ hc => hother c hc) fun hc => ?_
    refine ⟨hc.stamped, fun m' seqnum' hk => ?_⟩
    cases hk
    refine ⟨(hc.kept m _ rfl).1, fun _ => ?_⟩
    change s.cache.senderSeqNum < s.cache.nextSenderSeqNum.senderSeqNum
    omega

/-- A counted message is handed to the network. -/
theorem Inv.transmit {m : Message} {epochUs seqnum : Int}
    (h : Inv start s (pre ++ .counted m epochUs seqnum :: post))
    (ht : Session.Transmitted m s t) : Inv start t (pre ++ .sent m seqnum :: post) := by
  have hother : ∀ c, CallInv s c → CallInv t c := by
    intro c hc
    refine ⟨hc.stamped, ?_⟩
    rw [ht.cache]
    exact hc.kept
  obtain ⟨ev, hev⟩ := h.events
  have hlog : t.events = start.events ++ (ev ++ Session.transmission s m) := by
    rw [ht.events, hev, List.append_assoc]
  have hbetween : transmittedBetween start t =
      transmittedBetween start s ++ transmittedOf (Session.transmission s m) := by
    rw [transmittedBetween_eq hlog, transmittedBetween_eq hev]
    exact List.filterMap_append
  constructor
  · obtain ⟨n, nums, hn, hperm, hconn, hdisc⟩ := h.numbered
    refine ⟨n, nums ++ [seqnum], ?_, ?_, ?_, ?_⟩
    · rw [ht.cache]
      exact hn
    · rw [unsent_middle] at hperm ⊢
      rw [List.append_assoc]
      refine List.Perm.trans (List.Perm.append_left nums ?_) hperm
      change (seqnum :: (unsent pre ++ unsent post)).Perm (unsent pre ++ seqnum :: unsent post)
      exact List.perm_middle.symm
    · intro hc
      rw [hbetween, Session.transmittedOf_connected (h.network ▸ hc)]
      refine List.rel_append (hconn hc) (.cons ?_ .nil)
      exact (h.calls _ (List.mem_append_right _ List.mem_cons_self)).stamped m seqnum rfl
    · intro hc
      rw [hbetween, hdisc hc, Session.transmittedOf_disconnected (h.network ▸ hc)]
      rfl
  · rw [ht.cache]
    exact h.older
  · exact ht.network.trans h.network
  · exact ⟨_, hlog⟩
  · rw [ht.cache]
    exact h.isInt
  · have hw := h.window
    rw [held_middle] at hw ⊢
    rw [ht.cache]
    exact hw
  · refine forall_replace h.calls (fun c _ hc => hother c hc) fun hc => ?_
    exact ⟨(hother _ hc).stamped, (hother _ hc).kept⟩

end

/-! ## What every step keeps -/

/-- A step taken alone keeps the invariant. -/
theorem step_inv (env : Env) {start : Session} {s : Senders} {i : Nat}
    (h : Inv start s.session s.calls) (halone : Alone s i) :
    Inv start (step env i s).session (step env i s).calls := by
  rcases step_cases env i s with hsame | ⟨pre, call, post, t, call', hcalls, hlen, hadv, hstep⟩
  · rwa [hsame]
  · rw [hcalls] at h
    rw [hstep]
    have hget : s.calls[i]? = some call := by
      rw [hcalls, ← hlen, List.getElem?_append_right (Nat.le_refl _), Nat.sub_self]
      rfl
    cases hadv with
    | @read msg epochUs epochMs t hidle =>
        refine h.idle hidle rfl (.inr ?_) fun _ => callInv_of_none rfl rfl
        have hnone := halone.read _ hget
        rw [hcalls, held_middle] at hnone
        obtain ⟨hpre, hpost⟩ := List.append_eq_nil_iff.mp hnone
        obtain ⟨-, hpost⟩ := List.append_eq_nil_iff.mp hpost
        rw [held_middle, hpre, hpost]
        rfl
    | @populate msg m epochUs epochMs seqnum hstamped =>
        have hw := h.window
        rw [held_middle] at hw
        refine h.idle (Std.Refl.refl _) rfl ?_ fun _ => ⟨?_, fun _ _ hk => by cases hk⟩
        · rw [held_middle]
          exact hw
        · intro m' seqnum' hs
          cases hs
          obtain ⟨rfl, -⟩ := h.holder rfl
          exact hstamped.hasSeqNum h.isInt.1 h.isInt.2
    | raise =>
        obtain ⟨-, hpre, hpost⟩ := h.holder rfl
        refine h.idle (Std.Refl.refl _) rfl (.inl ?_) fun _ => callInv_of_none rfl rfl
        rw [held_middle, hpre, hpost]
        rfl
    | cache => exact h.cache
    | count => exact h.count (halone.count _ _ _ hget)
    | transmit ht => exact h.transmit ht
    | sent => exact h
    | raised => exact h

/-- Calls of `send` that have done nothing yet. -/
theorem inv_start {start : Session} (hint : -2147483648 ≤ start.cache.senderSeqNum ∧
    start.cache.senderSeqNum < 2147483648) (msgs : List Message) :
    Inv start start (msgs.map .called) := by
  have hheld : held (msgs.map .called) = [] := by
    unfold held
    rw [List.filterMap_map]
    exact List.filterMap_eq_nil_iff.mpr fun _ _ => rfl
  have hunsent : unsent (msgs.map .called) = [] := by
    unfold unsent
    rw [List.filterMap_map]
    exact List.filterMap_eq_nil_iff.mpr fun _ _ => rfl
  have hsame : start.events = start.events ++ [] := (List.append_nil _).symm
  have hnothing : transmittedBetween start start = [] := transmittedBetween_eq hsame
  constructor
  · refine ⟨0, [], (Int.add_zero _).symm, ?_, fun _ => ?_, fun _ => hnothing⟩
    · rw [hunsent]
      exact List.Perm.refl _
    · rw [hnothing]
      exact .nil
  · exact fun _ _ => rfl
  · rfl
  · exact ⟨[], (List.append_nil _).symm⟩
  · exact hint
  · exact .inl hheld
  · intro call hc
    obtain ⟨msg, -, rfl⟩ := List.mem_map.mp hc
    exact callInv_of_none rfl rfl

/-- Where no call reads the number while another holds it, calls of `send` next to
each other transmit consecutive numbers and overwrite no text. -/
theorem run_consecutive {env : Env} {start : Session} {msgs : List Message}
    (hint : -2147483648 ≤ start.cache.senderSeqNum ∧ start.cache.senderSeqNum < 2147483648)
    {s : Senders}
    (h : Run.Reached (⟨start, msgs.map .called⟩ : Senders) (step env) Alone s) :
    Consecutive start s := by
  have hinv : Inv start s.session s.calls :=
    h.invariant (P := fun s => Inv start s.session s.calls) (inv_start hint msgs)
      fun s i halone hs => step_inv env hs halone
  exact hinv.consecutive

/-- An order of the application and a heartbeat of the reader thread. -/
def testCalls : List Message := [testMessage (ascii "D"), testMessage MsgType.heartbeat]

/-- The heartbeat overtakes the order between counting and transmitting. -/
theorem run_consecutive_testCalls :
    Consecutive (connectedSession acceptorSettings)
      (Run.runOf (step (testEnv acceptorSettings))
        ⟨connectedSession acceptorSettings, testCalls.map .called⟩
        [0, 0, 0, 0, 1, 1, 1, 1, 1, 0]) :=
  run_consecutive (by decide +kernel) (Run.Reached.init.along (by decide +kernel))

/-! ## Numbers that are distinct -/

theorem pairwise_of_nodup {ms : List Message} {nums : List Int}
    (h : List.Forall₂ Message.HasSeqNum ms nums) (hnodup : nums.Nodup) :
    ms.Pairwise fun m m' => ∀ k, m.HasSeqNum k → ¬m'.HasSeqNum k := by
  induction h with
  | nil => exact .nil
  | @cons m num ms nums hm hms ih =>
      obtain ⟨hnot, hnodup⟩ := List.nodup_cons.mp hnodup
      refine .cons ?_ (ih hnodup)
      intro m' hmem k hk hk'
      obtain ⟨i, hi, rfl⟩ := List.mem_iff_getElem.mp hmem
      have hlen := hms.length_eq
      have hnum := hms.get hi (hlen ▸ hi)
      refine hnot ?_
      rw [Message.HasSeqNum.unique hm hk, Message.HasSeqNum.unique hk' hnum]
      exact List.getElem_mem _

/-- No two transmitted messages have one number. -/
theorem Consecutive.distinct {start : Session} {s : Senders} (h : Consecutive start s) :
    (transmittedBetween start s.session).Pairwise
      fun m m' => ∀ k, m.HasSeqNum k → ¬m'.HasSeqNum k := by
  obtain ⟨n, nums, -, hperm, hconn, hdisc⟩ := h.numbered
  cases hc : start.network.connected with
  | false =>
      rw [hdisc hc]
      exact .nil
  | true =>
      refine pairwise_of_nodup (hconn hc) ?_
      have hrange : (numbersFrom start.cache.senderSeqNum n).Nodup :=
        List.nodup_range.map fun i j hij => by omega
      exact (List.nodup_append.mp (hperm.nodup_iff.mpr hrange)).1

theorem hasSeqNum_of_toOption {m : Message} {k : Int}
    (h : (m.header.getIntField Field.msgSeqNum).toOption = some k) : m.HasSeqNum k := by
  unfold Message.HasSeqNum
  cases hget : m.header.getIntField Field.msgSeqNum with
  | ok l =>
      rw [hget] at h
      cases h
      rfl
  | error e =>
      rw [hget] at h
      cases h

/-- Both calls read the number before either counts it. -/
def racedSenders : Senders :=
  Run.runOf (step (testEnv acceptorSettings))
    ⟨connectedSession acceptorSettings, testCalls.map .called⟩ [0, 1, 0, 0, 0, 0, 1, 1, 1, 1]

/-- Then both messages are transmitted with one number. -/
theorem not_run_consecutive : ¬Consecutive (connectedSession acceptorSettings) racedSenders := by
  intro h
  have hseq : (transmittedBetween (connectedSession acceptorSettings) racedSenders.session).map
      (fun m => (m.header.getIntField Field.msgSeqNum).toOption) = [some 1, some 1] := by
    decide +kernel
  have hdistinct := h.distinct
  obtain ⟨m, rest, hsent, hm, hrest⟩ := List.map_eq_cons_iff.mp hseq
  obtain ⟨m', rest', rfl, hm', -⟩ := List.map_eq_cons_iff.mp hrest
  rw [hsent] at hdistinct
  exact (List.pairwise_cons.mp hdistinct).1 m' List.mem_cons_self 1 (hasSeqNum_of_toOption hm)
    (hasSeqNum_of_toOption hm')

end Senders

end OpenFix
