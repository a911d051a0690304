import OpenFix.Lib.Run
import OpenFix.Step

/-!
# In-order delivery

The events of a run fall into blocks, one for each message that is processed,
with notes around them.  A block starts at the target number the block before it
left.  It moves the number up, past nothing but its own number or, for a
SequenceReset, anything below NewSeqNo.  A message that reaches `onMessage` has
the number its block started at, and the block ends at the next one.

`Blocks` says this as a derivation, so that runs compose by appending their
events, and the statements about a whole run are inductions over it.
-/

namespace OpenFix

open Effect Run

/-! ## Reading events -/

/-- The message that an event starts to process, with the target number. -/
def Event.processing? : Event → Option (Message × Int)
  | .process msg target => some (msg, target)
  | _ => none

/-- The message that an event hands to `onMessage`. -/
def Event.delivered? : Event → Option Message
  | .onMessage msg _ => some msg
  | _ => none

@[simp] theorem Event.processing?_process (msg : Message) (target : Int) :
    (Event.process msg target).processing? = some (msg, target) := rfl

@[simp] theorem Event.processing?_onMessage (msg : Message) (target : Int) :
    (Event.onMessage msg target).processing? = none := rfl

@[simp] theorem Event.delivered?_process (msg : Message) (target : Int) :
    (Event.process msg target).delivered? = none := rfl

@[simp] theorem Event.delivered?_onMessage (msg : Message) (target : Int) :
    (Event.onMessage msg target).delivered? = some msg := rfl

/-- The target numbers at which messages were processed. -/
def targetsOf (ev : List Event) : List Int := (ev.filterMap Event.processing?).map Prod.snd

/-- The messages handed to `onMessage`, in order. -/
def deliveredOf (ev : List Event) : List Message := ev.filterMap Event.delivered?

/-- The last message that was processed. -/
def lastProcessing (ev : List Event) : Option (Message × Int) :=
  (ev.filterMap Event.processing?).getLast?

/-- The target number at which the next message is processed, or the final one. -/
def nextTarget (ev : List Event) (final : Int) : Int := (targetsOf ev).head?.getD final

/-- The message may move the target number past `k`: it has that number, or it is
a SequenceReset with a larger NewSeqNo. -/
def Message.Passes (msg : Message) (k : Int) : Prop :=
  msg.HasSeqNum k ∨ ∃ n, msg.Resets n ∧ k < n

/-- What a run from target number `a` to `b` did, by its events. -/
structure InOrder (ev : List Event) (a b : Int) : Prop where
  /-- The target number never decreases. -/
  nondecreasing : (a :: targetsOf ev ++ [b]).Pairwise (· ≤ ·)
  /-- A message handed to `onMessage` is the one being processed, has the target
  number at which that started, and leaves the next one. -/
  delivered : ∀ pre msg target post, ev = pre ++ .onMessage msg target :: post →
    ∃ k, msg.HasSeqNum k ∧ lastProcessing pre = some (msg, k) ∧ target = k + 1 ∧
      nextTarget post b = k + 1
  /-- The numbers of the messages handed over increase strictly. -/
  increasing : (deliveredOf ev).Pairwise fun p q =>
    ∀ k l, p.HasSeqNum k → q.HasSeqNum l → k < l
  /-- A number is passed while a message that may pass it is processed. -/
  passed : ∀ k, a ≤ k → k < b → ∃ pre msg target post, ev = pre ++ .process msg target :: post ∧
    target ≤ k ∧ k < nextTarget post b ∧ msg.Passes k

/-! ## Blocks -/

/-- The events inside the block of `msg`, from target number `a` to `a'`. -/
inductive Inside (msg : Message) (a a' : Int) (inner : List Event) : Prop where
  | quiet (hle : a ≤ a') (hpass : ∀ k, a ≤ k → k < a' → msg.Passes k) (h : ∀ e ∈ inner, e.IsNote)
  | deliver (hseq : msg.HasSeqNum a) (hnext : a' = a + 1) (pre post : List Event)
      (hpre : ∀ e ∈ pre, e.IsNote) (hpost : ∀ e ∈ post, e.IsNote)
      (h : inner = pre ++ .onMessage msg (a + 1) :: post)

/-- Events that are blocks and notes, from a target number to another. -/
inductive Blocks : Int → List Event → Int → Prop where
  | nil (a : Int) : Blocks a [] a
  | note {a b : Int} {e : Event} {ev : List Event} (he : e.IsNote) (h : Blocks a ev b) :
      Blocks a (e :: ev) b
  | block {a a' b : Int} {msg : Message} {inner ev : List Event} (hin : Inside msg a a' inner)
      (h : Blocks a' ev b) : Blocks a (.process msg a :: inner ++ ev) b

theorem Blocks.append {a b c : Int} {ev ev' : List Event} (h : Blocks a ev b)
    (h' : Blocks b ev' c) : Blocks a (ev ++ ev') c := by
  induction h with
  | nil => exact h'
  | note he _ ih => exact .note he (ih h')
  | block hin _ ih =>
      rw [List.cons_append, List.cons_append, List.append_assoc]
      exact .block hin (ih h')

theorem Blocks.notes {a : Int} : ∀ {ev : List Event}, (∀ e ∈ ev, e.IsNote) → Blocks a ev a
  | [], _ => .nil a
  | e :: _, h => .note (h e (List.mem_cons_self ..))
      (Blocks.notes fun e he => h e (List.mem_cons_of_mem _ he))

/-! ## Notes are neither processed nor delivered -/

theorem Event.IsNote.processing? {e : Event} (h : e.IsNote) : e.processing? = none := by
  cases e with
  | process msg target => exact h.elim
  | _ => rfl

theorem Event.IsNote.delivered? {e : Event} (h : e.IsNote) : e.delivered? = none := by
  cases e with
  | onMessage msg target => exact h.elim
  | _ => rfl

theorem processing_notes {ev : List Event} (h : ∀ e ∈ ev, e.IsNote) :
    ev.filterMap Event.processing? = [] :=
  List.filterMap_eq_nil_iff.mpr fun e he => (h e he).processing?

theorem delivered_notes {ev : List Event} (h : ∀ e ∈ ev, e.IsNote) : deliveredOf ev = [] :=
  List.filterMap_eq_nil_iff.mpr fun e he => (h e he).delivered?

theorem Inside.processing {msg : Message} {a a' : Int} {inner : List Event}
    (h : Inside msg a a' inner) : inner.filterMap Event.processing? = [] := by
  cases h with
  | quiet _ _ h => exact processing_notes h
  | deliver _ _ pre post hpre hpost h =>
      subst h
      simp only [List.filterMap_append, List.filterMap_cons, Event.processing?_onMessage,
        processing_notes hpre, processing_notes hpost, List.nil_append]

theorem Inside.le {msg : Message} {a a' : Int} {inner : List Event} (h : Inside msg a a' inner) :
    a ≤ a' := by
  cases h with
  | quiet hle _ _ => exact hle
  | deliver _ hnext _ _ _ _ _ => omega

/-- A number passed inside a block may be passed by its message. -/
theorem Inside.passes {msg : Message} {a a' : Int} {inner : List Event}
    (h : Inside msg a a' inner) {k : Int} (hk : a ≤ k) (hk' : k < a') : msg.Passes k := by
  cases h with
  | quiet _ hpass _ => exact hpass k hk hk'
  | deliver hseq hnext _ _ _ _ _ =>
      have : k = a := by omega
      exact .inl (this ▸ hseq)

theorem targetsOf_block {msg : Message} {a a' : Int} {inner : List Event}
    (h : Inside msg a a' inner) (ev : List Event) :
    targetsOf (.process msg a :: inner ++ ev) = a :: targetsOf ev := by
  simp [targetsOf, h.processing]

theorem targetsOf_note {e : Event} (h : e.IsNote) (ev : List Event) :
    targetsOf (e :: ev) = targetsOf ev := by
  simp [targetsOf, h.processing?]

/-! ## From blocks to a whole run -/

theorem Blocks.nondecreasing {a b : Int} {ev : List Event} (h : Blocks a ev b) :
    (a :: targetsOf ev ++ [b]).Pairwise (· ≤ ·) := by
  induction h with
  | nil a => simp [targetsOf]
  | note he _ ih => rwa [targetsOf_note he]
  | @block a a' b msg inner ev hin h ih =>
      rw [targetsOf_block hin, List.cons_append]
      have hle := hin.le
      have hall : ∀ x ∈ targetsOf ev ++ [b], a' ≤ x := (List.pairwise_cons.mp ih).1
      refine List.pairwise_cons.mpr ⟨fun x hx => ?_, List.pairwise_cons.mpr ⟨fun x hx => ?_,
        (List.pairwise_cons.mp ih).2⟩⟩
      · rcases List.mem_cons.mp hx with rfl | hx
        · exact le_refl x
        · exact le_trans hle (hall x hx)
      · exact le_trans hle (hall x hx)

theorem Blocks.le {a b : Int} {ev : List Event} (h : Blocks a ev b) : a ≤ b :=
  (List.pairwise_cons.mp h.nondecreasing).1 b (by simp)

/-- Nothing moves before the next message is processed. -/
theorem Blocks.nextTarget {a b : Int} {ev : List Event} (h : Blocks a ev b) :
    nextTarget ev b = a := by
  induction h with
  | nil a => rfl
  | note he _ ih => rwa [OpenFix.nextTarget, targetsOf_note he]
  | block hin _ _ => rw [OpenFix.nextTarget, targetsOf_block hin, List.head?_cons, Option.getD_some]

theorem Blocks.passed {a b : Int} {ev : List Event} (h : Blocks a ev b) {k : Int} (hk : a ≤ k)
    (hk' : k < b) : ∃ pre msg target post, ev = pre ++ .process msg target :: post ∧
      target ≤ k ∧ k < OpenFix.nextTarget post b ∧ msg.Passes k := by
  induction h with
  | nil a => omega
  | @note a b e ev he _ ih =>
      obtain ⟨pre, msg, target, post, rfl, hrest⟩ := ih hk hk'
      exact ⟨e :: pre, msg, target, post, rfl, hrest⟩
  | @block a a' b msg inner ev hin h ih =>
      by_cases hlt : k < a'
      · refine ⟨[], msg, a, inner ++ ev, rfl, hk, ?_, hin.passes hk hlt⟩
        have hnext : OpenFix.nextTarget (inner ++ ev) b = OpenFix.nextTarget ev b := by
          simp [OpenFix.nextTarget, targetsOf, hin.processing]
        rwa [hnext, h.nextTarget]
      · obtain ⟨pre, msg', target, post, rfl, hrest⟩ := ih (by omega) hk'
        exact ⟨.process msg a :: inner ++ pre, msg', target, post, by simp, hrest⟩

theorem lastProcessing_append_block {msg : Message} {a a' : Int} (pre : List Event)
    {inner : List Event} (h : ∃ post, Inside msg a a' (inner ++ post)) :
    lastProcessing (pre ++ .process msg a :: inner) = some (msg, a) := by
  obtain ⟨post, h⟩ := h
  have hinner : inner.filterMap Event.processing? = [] := by
    have := h.processing
    rw [List.filterMap_append, List.append_eq_nil_iff] at this
    exact this.1
  simp [lastProcessing, hinner]

theorem lastProcessing_append (pre : List Event) {pre' : List Event} {p : Message × Int}
    (h : lastProcessing pre' = some p) : lastProcessing (pre ++ pre') = some p := by
  unfold lastProcessing at h ⊢
  rw [List.filterMap_append, List.getLast?_append, h, Option.some_or]

/-- In a block, what is handed over is the message of the block. -/
theorem Inside.delivered {msg m : Message} {a a' t : Int} {pre post : List Event}
    (h : Inside msg a a' (pre ++ .onMessage m t :: post)) :
    m = msg ∧ msg.HasSeqNum a ∧ t = a + 1 ∧ a' = a + 1 ∧ ∀ e ∈ post, e.IsNote := by
  cases h with
  | quiet _ _ h => exact False.elim (h _ (List.mem_append_right pre (List.mem_cons_self ..)))
  | deliver hseq hnext pre' post' hpre hpost h =>
      rcases split_append h.symm with ⟨post'', rfl, _⟩ | ⟨pre'', rfl, h'⟩
      · exact False.elim (hpre _ (List.mem_append_right pre (List.mem_cons_self ..)))
      · cases pre'' with
        | nil =>
            cases h'
            exact ⟨rfl, hseq, rfl, hnext, hpost⟩
        | cons e pre'' =>
            rw [List.cons_append] at h'
            cases h'
            exact False.elim (hpost _ (List.mem_append_right pre'' (List.mem_cons_self ..)))

theorem Blocks.delivered {a b : Int} {ev : List Event} (h : Blocks a ev b) :
    ∀ {pre : List Event} {msg : Message} {target : Int} {post : List Event},
      ev = pre ++ .onMessage msg target :: post →
      ∃ k, msg.HasSeqNum k ∧ lastProcessing pre = some (msg, k) ∧ target = k + 1 ∧
        OpenFix.nextTarget post b = k + 1 ∧ a ≤ k ∧ k < b := by
  induction h with
  | nil a =>
      intro pre msg target post heq
      simp at heq
  | @note a b e ev he h ih =>
      intro pre msg target post heq
      cases pre with
      | nil =>
          cases heq
          exact he.elim
      | cons e' pre =>
          cases heq
          obtain ⟨k, hseq, hlast, hrest⟩ := ih rfl
          exact ⟨k, hseq, lastProcessing_append [e] hlast, hrest⟩
  | @block a a' b msg inner ev hin h ih =>
      intro pre m target post heq
      rcases split_append heq with ⟨post', hpost, rfl⟩ | ⟨pre', rfl, hev⟩
      · cases pre with
        | nil => cases hpost
        | cons e pre =>
            cases hpost
            obtain ⟨rfl, hseq, htarget, hnext, hnotes⟩ := hin.delivered
            refine ⟨a, hseq, lastProcessing_append_block [] ⟨_, hin⟩, htarget, ?_,
              le_refl a, by have := h.le; omega⟩
            have heq : OpenFix.nextTarget (post' ++ ev) b = OpenFix.nextTarget ev b := by
              simp [OpenFix.nextTarget, targetsOf, processing_notes hnotes]
            rw [heq, h.nextTarget, hnext]
      · obtain ⟨k, hseq, hlast, htarget, hnext, hle, hlt⟩ := ih hev
        exact ⟨k, hseq, lastProcessing_append _ hlast, htarget, hnext, le_trans hin.le hle, hlt⟩

theorem mem_deliveredOf {ev : List Event} {msg : Message} (h : msg ∈ deliveredOf ev) :
    ∃ pre target post, ev = pre ++ .onMessage msg target :: post := by
  obtain ⟨e, he, hmsg⟩ := List.mem_filterMap.mp h
  obtain ⟨pre, post, rfl⟩ := List.append_of_mem he
  cases e with
  | onMessage m target =>
      cases hmsg
      exact ⟨pre, target, post, rfl⟩
  | _ => cases hmsg

theorem Blocks.bounds {a b : Int} {ev : List Event} (h : Blocks a ev b) {msg : Message} {k : Int}
    (hmem : msg ∈ deliveredOf ev) (hk : msg.HasSeqNum k) : a ≤ k ∧ k < b := by
  obtain ⟨pre, target, post, heq⟩ := mem_deliveredOf hmem
  obtain ⟨l, hl, _, _, _, hle, hlt⟩ := h.delivered heq
  rw [hk.unique hl]
  exact ⟨hle, hlt⟩

theorem Inside.deliveredOf {msg : Message} {a a' : Int} {inner : List Event}
    (h : Inside msg a a' inner) :
    OpenFix.deliveredOf inner = [] ∨
      (OpenFix.deliveredOf inner = [msg] ∧ msg.HasSeqNum a ∧ a' = a + 1) := by
  cases h with
  | quiet _ _ h => exact .inl (delivered_notes h)
  | deliver hseq hnext pre post hpre hpost h =>
      subst h
      refine .inr ⟨?_, hseq, hnext⟩
      have hpre' := delivered_notes hpre
      have hpost' := delivered_notes hpost
      unfold OpenFix.deliveredOf at hpre' hpost' ⊢
      simp [hpre', hpost']

theorem Blocks.increasing {a b : Int} {ev : List Event} (h : Blocks a ev b) :
    (deliveredOf ev).Pairwise fun p q => ∀ k l, p.HasSeqNum k → q.HasSeqNum l → k < l := by
  induction h with
  | nil a => exact List.Pairwise.nil
  | note he _ ih => rwa [deliveredOf, List.filterMap_cons, he.delivered?]
  | @block a a' b msg inner ev hin h ih =>
      have heq : deliveredOf (.process msg a :: inner ++ ev) = deliveredOf inner ++ deliveredOf ev := by
        rw [List.cons_append, OpenFix.deliveredOf, List.filterMap_cons, Event.delivered?_process,
          List.filterMap_append]
        rfl
      rw [heq]
      rcases hin.deliveredOf with hnil | ⟨hmsg, hseq, hnext⟩
      · rwa [hnil, List.nil_append]
      · rw [hmsg]
        refine List.pairwise_cons.mpr ⟨fun q hq k l hk hl => ?_, ih⟩
        have hka := hk.unique hseq
        have := (h.bounds hq hl).1
        omega

theorem Blocks.inOrder {a b : Int} {ev : List Event} (h : Blocks a ev b) : InOrder ev a b where
  nondecreasing := h.nondecreasing
  delivered _ _ _ _ heq := by
    obtain ⟨k, hseq, hlast, htarget, hnext, _⟩ := h.delivered heq
    exact ⟨k, hseq, hlast, htarget, hnext⟩
  increasing := h.increasing
  passed _ hk hk' := h.passed hk hk'

/-! ## The session runs in blocks -/

namespace Session

/-- From `s` to `t` the events are blocks, as long as the session is not reset and
every message is processed below the largest `int`. -/
def InBlocks (s t : Session) : Prop :=
  ∃ ev, t.events = s.events ++ ev ∧
    (Event.reset ∉ ev → (∀ msg target, Event.process msg target ∈ ev → target < 2147483647) →
      -2147483648 ≤ s.cache.targetSeqNum →
      Blocks s.cache.targetSeqNum ev t.cache.targetSeqNum)

instance : Std.Refl InBlocks := ⟨fun _ => ⟨[], by simp, fun _ _ _ => .nil _⟩⟩

instance : IsTrans Session InBlocks where
  trans s t u h₁ h₂ := by
    obtain ⟨ev₁, he₁, hb₁⟩ := h₁
    obtain ⟨ev₂, he₂, hb₂⟩ := h₂
    refine ⟨ev₁ ++ ev₂, by rw [he₂, he₁, List.append_assoc], fun hreset hmax hmin => ?_⟩
    rw [List.mem_append, not_or] at hreset
    have hfirst := hb₁ hreset.1 (fun m x hm => hmax m x (List.mem_append_left _ hm)) hmin
    have hle := hfirst.le
    exact hfirst.append (hb₂ hreset.2 (fun m x hm => hmax m x (List.mem_append_right _ hm))
      (by omega))

theorem inBlocks_of_note {s t : Session} (h : Frame Event.IsNote s t) : InBlocks s t := by
  obtain ⟨ev, hev, hnotes⟩ := h.events
  refine ⟨ev, hev, fun _ _ _ => ?_⟩
  rw [h.target]
  exact .notes hnotes

theorem inBlocks_of_quiet {α : Type} {x : SessionM α} (h : Keeps Quiet x) : Keeps InBlocks x :=
  h.mono fun _ _ hq => inBlocks_of_note (hq.mono fun _ => Event.IsOutput.isNote)

/-- The events after the start of a message lie inside its block, unless the
session was reset. -/
theorem Move.inside {env : Env} {time : Int} {msg : Message} {s t : Session}
    (h : Move env time msg s t) :
    ∃ ev, t.events = s.events ++ ev ∧
      (Event.reset ∉ ev → -2147483648 ≤ s.cache.targetSeqNum →
        s.cache.targetSeqNum < 2147483647 →
        Inside msg s.cache.targetSeqNum t.cache.targetSeqNum ev) := by
  have hnext : -2147483648 ≤ s.cache.targetSeqNum → s.cache.targetSeqNum < 2147483647 →
      i32 (s.cache.targetSeqNum + 1) = s.cache.targetSeqNum + 1 := fun hmin hmax =>
    i32_of_range (by omega) (by omega)
  have hself : ∀ {k b : Int}, s.cache.targetSeqNum ≤ k → k < b → b = s.cache.targetSeqNum → False := by
    intro k b hk hb heq
    omega
  cases h with
  | stay h =>
      obtain ⟨ev, hev, hnotes⟩ := h.events
      exact ⟨ev, hev, fun _ _ _ => .quiet (le_of_eq h.target.symm)
        (fun k hk hk' => (hself hk hk' h.target).elim) hnotes⟩
  | queue k hmsg hlt h =>
      obtain ⟨ev, hev, hout⟩ := h.events
      exact ⟨ev, hev, fun _ _ _ => .quiet (le_of_eq h.target.symm)
        (fun k hk hk' => (hself hk hk' h.target).elim) fun e he => (hout e he).isNote⟩
  | consume _ hseq _ h =>
      obtain ⟨ev, hev, hnotes⟩ := h.events
      refine ⟨ev, hev, fun _ hmin hmax => ?_⟩
      have htarget := h.target.trans (hnext hmin hmax)
      refine .quiet (by omega) (fun k hk hk' => ?_) hnotes
      have : k = s.cache.targetSeqNum := by omega
      exact .inl (this ▸ hseq)
  | deliver _ hseq _ u h h' =>
      obtain ⟨ev₁, hev₁, hout₁⟩ := h.events
      obtain ⟨ev₂, hev₂, hout₂⟩ := h'.events
      refine ⟨ev₁ ++ .onMessage msg u.cache.targetSeqNum :: ev₂, by rw [hev₂, hev₁]; simp,
        fun _ hmin hmax => ?_⟩
      have htarget : u.cache.targetSeqNum = s.cache.targetSeqNum + 1 :=
        h.target.trans (hnext hmin hmax)
      rw [htarget]
      exact .deliver hseq (h'.target.trans htarget) ev₁ ev₂ (fun e he => (hout₁ e he).isNote)
        (fun e he => (hout₂ e he).isNote) rfl
  | jump _ k n hseq hres hlt hle _ h =>
      obtain ⟨ev, hev, hnotes⟩ := h.events
      refine ⟨ev, hev, fun _ _ _ => .quiet (by rw [h.target]; exact hle) (fun l hl hl' => ?_) hnotes⟩
      rw [h.target] at hl'
      exact .inr ⟨n, hres, hl'⟩
  | reset hmsg hset target htarget u h h' =>
      obtain ⟨ev₁, hev₁, _⟩ := h.events
      obtain ⟨ev₂, hev₂, _⟩ := h'.events
      exact ⟨ev₁ ++ .reset :: ev₂, by rw [hev₂, hev₁]; simp,
        fun hreset => (hreset (by simp)).elim⟩

theorem inBlocks_processMessage {env : Env} (henv : env.KeepsTarget) (msg : Message) (time : Int) :
    Keeps InBlocks (processMessage env msg time) := by
  intro s
  have hmove := after_eq_of_ends (processMessage_ends henv msg time s)
  generalize after (processMessage env msg time) s = t at hmove
  obtain ⟨ev, hev, hin⟩ := hmove.inside
  refine ⟨.process msg s.cache.targetSeqNum :: ev, by simp [hev], fun hreset hmax hmin => ?_⟩
  have hblock := Blocks.block (hin (fun h => hreset (List.mem_cons_of_mem _ h)) hmin
    (hmax msg _ (List.mem_cons_self ..))) (.nil _)
  rwa [List.append_nil] at hblock

theorem inBlocks_drainQueue {env : Env} (henv : env.KeepsTarget) (time : Int) :
    ∀ fuel, Keeps InBlocks (drainQueue env time fuel)
  | 0 => keeps_pure _
  | fuel + 1 => by
      have herase : Keeps InBlocks eraseFront := by
        unfold eraseFront
        refine keeps_bind keeps_get fun u => keeps_ite (fun _ => keeps_throw _) fun _ => ?_
        exact keeps_modify fun u => ⟨[], by simp, fun _ _ _ => .nil _⟩
      unfold drainQueue
      refine keeps_bind keeps_get fun s => ?_
      cases s.cache.inboundQueue.min? with
      | none => exact keeps_pure _
      | some head =>
          refine keeps_ite (fun _ => ?_) fun _ => keeps_pure _
          refine keeps_bind (inBlocks_processMessage henv head.2 time) fun _ => ?_
          exact keeps_bind herase fun _ => inBlocks_drainQueue henv time fuel

theorem inBlocks_handleParsed {env : Env} (henv : env.KeepsTarget) (msg : Message) :
    Keeps InBlocks (handleParsed env msg) := by
  unfold handleParsed
  refine keeps_bind (inBlocks_of_quiet (quiet.getEpochMicros env)) fun epochUs => ?_
  refine keeps_bind (inBlocks_of_quiet (keeps_modify fun _ => .of_eq rfl rfl rfl rfl)) fun _ => ?_
  refine keeps_bind (inBlocks_processMessage henv msg _) fun _ => ?_
  refine keeps_bind keeps_get fun s => keeps_bind (inBlocks_drainQueue henv _ _) fun _ => ?_
  exact inBlocks_of_quiet (keeps_modify fun _ => .of_eq rfl rfl rfl rfl)

theorem quiet_catchAll (e : Exn) : Keeps Quiet (catchAll e) := by
  cases e with
  | undefined what => exact keeps_throw _
  | _ => exact keeps_modify fun _ => .of_eq rfl rfl rfl rfl

theorem inBlocks_onNetworkMessage {env : Env} (henv : env.KeepsTarget) (text : Bytes) :
    Keeps InBlocks (onNetworkMessage env text) := by
  unfold onNetworkMessage
  refine keeps_bind keeps_get fun s => keeps_ite (fun _ => keeps_pure _) fun _ => ?_
  refine keeps_tryCatch ?_ fun e => inBlocks_of_quiet (quiet_catchAll e)
  exact keeps_bind (keeps_liftExcept _) fun msg => inBlocks_handleParsed henv msg

theorem inBlocks_processRead {env : Env} (henv : env.KeepsTarget) :
    ∀ texts : List Bytes, Keeps InBlocks (processRead env texts)
  | [] => keeps_pure _
  | text :: texts =>
      keeps_bind (inBlocks_onNetworkMessage henv text) fun _ => inBlocks_processRead henv texts

/-- In-order, exactly-once delivery over a run of inbound messages.  The delegate
does not set the target number, no logon resets the session, and messages are
processed below the largest `int`. -/
theorem delivery_inOrder {env : Env} (henv : env.KeepsTarget) (texts : List Bytes) (s : Session)
    (hmin : -2147483648 ≤ s.cache.targetSeqNum) :
    ∃ ev, (after (processRead env texts) s).events = s.events ++ ev ∧
      (Event.reset ∉ ev → (∀ msg target, Event.process msg target ∈ ev → target < 2147483647) →
        InOrder ev s.cache.targetSeqNum (after (processRead env texts) s).cache.targetSeqNum) := by
  obtain ⟨ev, hev, hblocks⟩ := inBlocks_processRead henv texts s
  exact ⟨ev, hev, fun hreset hmax => (hblocks hreset hmax hmin).inOrder⟩

/-- A delegate that sends every message back. -/
def echo : Delegate where
  onMessage _ msg := [.send msg]
  onAdminMessage _ _ := []
  onLogon _ := []
  onLogout _ := []

/-- The acceptor of the tests with that delegate. -/
def echoEnv : Env := { testEnv acceptorSettings with delegate := some echo }

theorem echoEnv_keepsTarget : echoEnv.KeepsTarget := by
  intro d hd
  cases hd
  refine ⟨fun _ msg c hc => ?_, fun _ _ _ hc => ?_, fun _ _ hc => ?_, fun _ _ hc => ?_⟩
  · rw [List.mem_singleton.mp hc]
    trivial
  all_goals cases hc

/-- The order behind the one of the tests. -/
def nextOrder : Bytes :=
  wireOf ("8=FIX.4.2|9=65|35=D|49=INITIATOR|56=ACCEPTOR|34=3|52=20240229-12:34:56.789|" ++
    "11=X|10=249|")

/-- The session of the tests behind a logon and two orders, the second of them first. -/
def echoedSession : Session :=
  after (processRead echoEnv [testLogon, nextOrder, testOrder]) (connectedSession acceptorSettings)

/-- An event that neither resets nor processes at the largest `int`. -/
def isCalm : Event → Bool
  | .reset => false
  | .process _ target => decide (target < 2147483647)
  | _ => true

/-- The orders are delivered in their order. -/
theorem delivery_inOrder_test :
    ∃ ev, echoedSession.events = (connectedSession acceptorSettings).events ++ ev ∧
      InOrder ev 1 4 ∧
      (deliveredOf ev).map (fun msg => msg.header.field? Field.msgSeqNum) =
        [some (ascii "2"), some (ascii "3")] := by
  obtain ⟨ev, hev, hall⟩ := delivery_inOrder echoEnv_keepsTarget
    [testLogon, nextOrder, testOrder] (connectedSession acceptorSettings) (by decide)
  have hdrop : ev = echoedSession.events.drop (connectedSession acceptorSettings).events.length := by
    rw [show echoedSession.events = _ from hev, List.drop_left]
  have hcalm : ∀ e ∈ ev, isCalm e = true := by
    rw [hdrop]
    exact List.all_eq_true.mp (by decide +kernel)
  have hstart : (connectedSession acceptorSettings).cache.targetSeqNum = 1 := by decide +kernel
  have htarget : (after (processRead echoEnv [testLogon, nextOrder, testOrder])
      (connectedSession acceptorSettings)).cache.targetSeqNum = 4 := by decide +kernel
  have horder := hall (fun hreset => Bool.false_ne_true (hcalm _ hreset))
    fun msg target hprocess => of_decide_eq_true (hcalm _ hprocess)
  rw [hstart, htarget] at horder
  refine ⟨ev, hev, horder, ?_⟩
  rw [hdrop]
  decide +kernel

end Session

end OpenFix
