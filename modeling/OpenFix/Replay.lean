import OpenFix.Lib.Tiling
import OpenFix.Sending

/-!
# Resending

`runMessageRecovery` walks over the cached messages of a range, replays those
that are not session messages and fills the gaps between them.  What it sends is
a *plan* that only depends on the numbers and types of the cached messages, and
the run sends what the plan says.  Whether the plan tiles the requested range is
then a question about numbers.
-/

namespace OpenFix

open Effect

/-! ## Reading what was sent -/

namespace Message

/-- The numbers that a sent message covers: a SequenceReset those below NewSeqNo, any
other message its own. -/
def interval? (msg : Message) : Option (Int × Int) :=
  match msg.header.getField Field.msgType, msg.header.getIntField Field.msgSeqNum with
  | .ok t, .ok k =>
      if t = MsgType.sequenceReset then
        match msg.body.getIntField Field.newSeqNo with
        | .ok n => some (k, n)
        | .error _ => none
      else some (k, k + 1)
  | _, _ => none

/-- The message is an application message under the number `k`. -/
def replays (k : Int) (msg : Message) : Bool :=
  match msg.header.getField Field.msgType, msg.header.getIntField Field.msgSeqNum with
  | .ok t, .ok l => decide (MsgType.Replayable t) && decide (l = k)
  | _, _ => false

/-- A SequenceReset-GapFill from one number to another. -/
structure IsGapFill (msg : Message) (a b : Int) : Prop where
  type : msg.HasType MsgType.sequenceReset
  seqNum : msg.HasSeqNum a
  newSeqNo : msg.body.getIntField Field.newSeqNo = .ok b
  flag : msg.body.tryGetBool Field.gapFillFlag = true

/-- The replay of a message under its number. -/
structure IsReplayOf (m : Message) (k : Int) (msg : Message) : Prop where
  type : ∀ t, m.HasType t ↔ msg.HasType t
  seqNum : m.HasSeqNum k
  body : m.body = msg.copy.body

theorem IsGapFill.interval? {m : Message} {a b : Int} (h : m.IsGapFill a b) :
    m.interval? = some (a, b) := by
  unfold Message.interval?
  rw [show m.header.getField Field.msgType = _ from h.type,
    show m.header.getIntField Field.msgSeqNum = _ from h.seqNum, h.newSeqNo]
  rfl

theorem IsGapFill.replays {m : Message} {a b : Int} (h : m.IsGapFill a b) (k : Int) :
    m.replays k = false := by
  unfold Message.replays
  rw [show m.header.getField Field.msgType = _ from h.type,
    show m.header.getIntField Field.msgSeqNum = _ from h.seqNum]
  have hno : ¬MsgType.Replayable MsgType.sequenceReset := by decide
  simp [hno]

theorem IsReplayOf.interval? {m msg : Message} {k : Int} (h : m.IsReplayOf k msg)
    (happ : msg.IsApplication) : m.interval? = some (k, k + 1) := by
  obtain ⟨t, htype, ht⟩ := happ
  have hne : t ≠ MsgType.sequenceReset := by
    rintro rfl
    exact absurd ht (by decide)
  unfold Message.interval?
  rw [show m.header.getField Field.msgType = _ from (h.type t).mpr htype,
    show m.header.getIntField Field.msgSeqNum = _ from h.seqNum]
  simp [hne]

theorem IsReplayOf.replays {m msg : Message} {k : Int} (h : m.IsReplayOf k msg)
    (happ : msg.IsApplication) (l : Int) : m.replays l = decide (k = l) := by
  obtain ⟨t, htype, ht⟩ := happ
  unfold Message.replays
  rw [show m.header.getField Field.msgType = _ from (h.type t).mpr htype,
    show m.header.getIntField Field.msgSeqNum = _ from h.seqNum]
  simp [ht]

end Message

/-! ## The plan -/

/-- What a resend sends. -/
inductive Emit where
  | fill (a b : Int)
  | replay (k : Int) (msg : Message)

namespace Emit

/-- The numbers it covers. -/
def interval : Emit → Int × Int
  | fill a b => (a, b)
  | replay k _ => (k, k + 1)

/-- The message that was sent for it. -/
def SentAs : Emit → Message → Prop
  | fill a b, m => m.IsGapFill a b
  | replay k msg, m => m.IsReplayOf k msg ∧ msg.IsApplication

/-- It replays the number `k`. -/
def replays (k : Int) : Emit → Bool
  | fill _ _ => false
  | replay l _ => decide (l = k)

theorem SentAs.interval? {e : Emit} {m : Message} (h : e.SentAs m) :
    m.interval? = some e.interval := by
  cases e with
  | fill a b => exact Message.IsGapFill.interval? h
  | replay k msg => exact h.1.interval? h.2

theorem SentAs.replays {e : Emit} {m : Message} (h : e.SentAs m) (k : Int) :
    m.replays k = e.replays k := by
  cases e with
  | fill a b => exact Message.IsGapFill.replays h k
  | replay l msg => exact h.1.replays h.2 k

end Emit

/-- The value can be set without moving bytes under a view that stays. -/
def FieldMap.takes (m : FieldMap) (tag : Int) (value : Bytes) : Bool :=
  !m.storageFull tag && !m.strands tag value true

/-- A replayed header takes its two new fields, PossDupFlag and OrigSendingTime. -/
def FieldMap.replayFits (header : FieldMap) : Bool :=
  header.takes Field.possDupFlag (ascii "Y") &&
    (header.setField Field.possDupFlag (ascii "Y") true).takes Field.origSendingTime
      ((header.field? Field.sendingTime).getD [])

/-- A copy of the message can be replayed. -/
def Message.Fits (msg : Message) : Prop := msg.copy.header.replayFits = true

instance (msg : Message) : Decidable msg.Fits := inferInstanceAs (Decidable (_ = true))

/-- What the loop sends from its pointer on, and where it leaves the pointer, if it
does not raise. -/
def planLoop : List (Int × Message) → Int → List Emit × Option Int
  | [], ptr => ([], some ptr)
  | (k, msg) :: rest, ptr =>
      if msg.IsApplication then
        let fill := if k ≠ ptr then [Emit.fill ptr k] else []
        if msg.Fits then
          let plan := planLoop rest (k + 1)
          (fill ++ .replay k msg :: plan.1, plan.2)
        else (fill, none)
      else planLoop rest ptr

/-- What a resend sends for the cached messages of a range whose bound was clamped. -/
def planRecovery (entries : List (Int × Message)) (beginSeqNo endSeqNo sender : Int) : List Emit :=
  let loop := planLoop entries beginSeqNo
  match loop.2 with
  | none => loop.1
  | some p =>
      let ptr := if p ≠ beginSeqNo then p - 1 else p
      let last := if endSeqNo ≠ 0 then endSeqNo else sender
      loop.1 ++ if ptr < last then [.fill ptr last] else []

theorem planRecovery_of_none {entries : List (Int × Message)} {beginSeqNo : Int}
    (h : (planLoop entries beginSeqNo).2 = none) (endSeqNo sender : Int) :
    planRecovery entries beginSeqNo endSeqNo sender = (planLoop entries beginSeqNo).1 := by
  simp only [planRecovery, h]

theorem planRecovery_of_some {entries : List (Int × Message)}
    {beginSeqNo p ptr endSeqNo sender last : Int}
    (h : (planLoop entries beginSeqNo).2 = some p)
    (hptr : (if p ≠ beginSeqNo then p - 1 else p) = ptr)
    (hlast : (if endSeqNo ≠ 0 then endSeqNo else sender) = last) :
    planRecovery entries beginSeqNo endSeqNo sender =
      (planLoop entries beginSeqNo).1 ++ if ptr < last then [.fill ptr last] else [] := by
  simp only [planRecovery, h, hptr, hlast]

/-! ## What the loop plans -/

theorem planLoop_replay_mem {k : Int} {msg : Message} :
    ∀ {entries : List (Int × Message)} {ptr : Int},
      Emit.replay k msg ∈ (planLoop entries ptr).1 → (k, msg) ∈ entries ∧ msg.IsApplication
  | [], _, h => by simp [planLoop] at h
  | (l, m) :: rest, ptr, h => by
      have hfill : ∀ l : Int, Emit.replay k msg ∉ (if l ≠ ptr then [Emit.fill ptr l] else []) := by
        intro l
        split <;> simp
      rw [planLoop] at h
      split at h
      next happ =>
        dsimp only at h
        split at h
        next =>
          rcases List.mem_append.mp h with h | h
          · exact (hfill l h).elim
          · rcases List.mem_cons.mp h with h | h
            · cases h
              exact ⟨List.mem_cons_self .., happ⟩
            · obtain ⟨hmem, happ⟩ := planLoop_replay_mem h
              exact ⟨List.mem_cons_of_mem _ hmem, happ⟩
        next => exact (hfill l h).elim
      next =>
        obtain ⟨hmem, happ⟩ := planLoop_replay_mem h
        exact ⟨List.mem_cons_of_mem _ hmem, happ⟩

/-- A number that is not there is not replayed. -/
theorem planLoop_count_of_not_mem {k : Int} {entries : List (Int × Message)} {ptr : Int}
    (h : ∀ e ∈ entries, e.1 ≠ k) : (planLoop entries ptr).1.countP (Emit.replays k) = 0 := by
  rw [List.countP_eq_zero]
  intro e he hk
  cases e with
  | fill a b => simp [Emit.replays] at hk
  | replay l msg =>
      have hl : l = k := by simpa [Emit.replays] using hk
      exact h _ (planLoop_replay_mem he).1 hl

theorem count_fill (k l ptr : Int) :
    (if l ≠ ptr then [Emit.fill ptr l] else []).countP (Emit.replays k) = 0 := by
  split <;> simp [Emit.replays]

/-- A loop that does not raise tiles the way to where it leaves its pointer. -/
theorem planLoop_tiles : ∀ {entries : List (Int × Message)} {ptr p : Int},
    (planLoop entries ptr).2 = some p →
      Tiles ptr ((planLoop entries ptr).1.map Emit.interval) p
  | [], ptr, p, h => by
      cases h
      exact .nil ptr
  | (k, msg) :: rest, ptr, p, h => by
      have hfill : Tiles ptr ((if k ≠ ptr then [Emit.fill ptr k] else []).map Emit.interval) k := by
        split
        next => exact .cons (.nil k)
        next hk =>
          rw [not_not.mp hk]
          exact .nil ptr
      rw [planLoop] at h ⊢
      split at h
      next happ =>
        rw [if_pos happ]
        dsimp only at h ⊢
        split at h
        next hfits =>
          rw [if_pos hfits, List.map_append]
          exact hfill.append (.cons (planLoop_tiles h))
        next => cases h
      next happ =>
        rw [if_neg happ]
        exact planLoop_tiles h

/-- A loop that does not raise replays each application message once. -/
theorem planLoop_once : ∀ {entries : List (Int × Message)} {ptr p : Int},
    entries.Pairwise (fun e f => e.1 < f.1) → (planLoop entries ptr).2 = some p →
      ∀ e ∈ entries, e.2.IsApplication →
        e.2.Fits ∧ (planLoop entries ptr).1.countP (Emit.replays e.1) = 1
  | [], _, _, _, _ => by simp
  | (k, msg) :: rest, ptr, p, hsorted, h => by
      obtain ⟨hhead, htail⟩ := List.pairwise_cons.mp hsorted
      intro e he happ
      rw [planLoop] at h ⊢
      split at h
      next hmsg =>
        rw [if_pos hmsg]
        dsimp only at h ⊢
        split at h
        next hfits =>
          rw [if_pos hfits, List.countP_append, count_fill, List.countP_cons]
          rcases List.mem_cons.mp he with rfl | he
          · have hrest : (planLoop rest (k + 1)).1.countP (Emit.replays k) = 0 :=
              planLoop_count_of_not_mem fun f hf => (hhead f hf).ne'
            exact ⟨hfits, by simp [hrest, Emit.replays]⟩
          · obtain ⟨hfits', hcount⟩ := planLoop_once htail h e he happ
            have hne : k ≠ e.1 := (hhead e he).ne
            exact ⟨hfits', by simp [hcount, Emit.replays, hne]⟩
        next => cases h
      next hmsg =>
        rw [if_neg hmsg]
        rcases List.mem_cons.mp he with rfl | he
        · exact (hmsg happ).elim
        · exact planLoop_once htail h e he happ

/-- A loop that raises does so at an application message, which is not replayed. -/
theorem planLoop_stuck : ∀ {entries : List (Int × Message)} {ptr : Int},
    entries.Pairwise (fun e f => e.1 < f.1) → (planLoop entries ptr).2 = none →
      ∃ e ∈ entries, e.2.IsApplication ∧ ¬e.2.Fits ∧
        (planLoop entries ptr).1.countP (Emit.replays e.1) = 0
  | [], _, _, h => by cases h
  | (k, msg) :: rest, ptr, hsorted, h => by
      obtain ⟨hhead, htail⟩ := List.pairwise_cons.mp hsorted
      rw [planLoop] at h ⊢
      split at h
      next hmsg =>
        rw [if_pos hmsg]
        dsimp only at h ⊢
        split at h
        next hfits =>
          obtain ⟨e, he, happ, hnofit, hcount⟩ := planLoop_stuck htail h
          have hne : k ≠ e.1 := (hhead e he).ne
          refine ⟨e, List.mem_cons_of_mem _ he, happ, hnofit, ?_⟩
          rw [if_pos hfits, List.countP_append, count_fill, List.countP_cons, hcount]
          simp [Emit.replays, hne]
        next hfits =>
          rw [if_neg hfits]
          exact ⟨_, List.mem_cons_self .., hmsg, hfits, count_fill k k ptr⟩
      next hmsg =>
        rw [if_neg hmsg]
        obtain ⟨e, he, hrest⟩ := planLoop_stuck htail h
        exact ⟨e, List.mem_cons_of_mem _ he, hrest⟩

/-- The pointer is left where it was, or behind the last application message. -/
theorem planLoop_end : ∀ {entries : List (Int × Message)} {ptr p : Int},
    entries.Pairwise (fun e f => e.1 < f.1) → (planLoop entries ptr).2 = some p →
      (p = ptr ∧ ∀ e ∈ entries, ¬e.2.IsApplication) ∨
        ∃ e ∈ entries, e.2.IsApplication ∧ p = e.1 + 1 ∧
          ∀ f ∈ entries, f.2.IsApplication → f.1 ≤ e.1
  | [], _, _, _, h => by
      cases h
      exact .inl ⟨rfl, by simp⟩
  | (k, msg) :: rest, ptr, p, hsorted, h => by
      obtain ⟨hhead, htail⟩ := List.pairwise_cons.mp hsorted
      rw [planLoop] at h
      split at h
      next hmsg =>
        dsimp only at h
        split at h
        next =>
          refine .inr ?_
          rcases planLoop_end htail h with ⟨rfl, hnone⟩ | ⟨e, he, happ, hp, hmax⟩
          · refine ⟨(k, msg), List.mem_cons_self .., hmsg, rfl, fun f hf happ => ?_⟩
            rcases List.mem_cons.mp hf with rfl | hf
            · exact le_refl _
            · exact (hnone f hf happ).elim
          · refine ⟨e, List.mem_cons_of_mem _ he, happ, hp, fun f hf hfapp => ?_⟩
            rcases List.mem_cons.mp hf with rfl | hf
            · exact (hhead e he).le
            · exact hmax f hf hfapp
        next => cases h
      next hmsg =>
        have hcons : ∀ f ∈ (k, msg) :: rest, f.2.IsApplication → f ∈ rest := by
          intro f hf happ
          rcases List.mem_cons.mp hf with rfl | hf
          · exact (hmsg happ).elim
          · exact hf
        rcases planLoop_end htail h with ⟨rfl, hnone⟩ | ⟨e, he, happ, hp, hmax⟩
        · exact .inl ⟨rfl, fun f hf happ => hnone f (hcons f hf happ) happ⟩
        · exact .inr ⟨e, List.mem_cons_of_mem _ he, happ, hp,
            fun f hf hfapp => hmax f (hcons f hf hfapp) hfapp⟩

/-! ## When the plan tiles the range -/

/-- The last number of a range whose bound was clamped. -/
def lastOf (endSeqNo sender : Int) : Int :=
  if endSeqNo = 0 ∨ sender ≤ endSeqNo then sender - 1 else endSeqNo

/-- Exactly when a resend tiles its range: the range is open and has no application
message, or it ends below the sender number with an application message and all of
its application messages fit. -/
def Tileable (entries : List (Int × Message)) (endSeqNo sender : Int) : Prop :=
  ((endSeqNo = 0 ∨ sender ≤ endSeqNo) ∧ ∀ e ∈ entries, ¬e.2.IsApplication) ∨
    (endSeqNo ≠ 0 ∧ endSeqNo < sender ∧ (∃ e ∈ entries, e.1 = endSeqNo ∧ e.2.IsApplication) ∧
      ∀ e ∈ entries, e.2.IsApplication → e.2.Fits)

theorem planRecovery_tiles_iff {entries : List (Int × Message)} {beginSeqNo endSeqNo sender : Int}
    (hsorted : entries.Pairwise fun e f => e.1 < f.1)
    (hrange : ∀ e ∈ entries, beginSeqNo ≤ e.1 ∧ e.1 < sender ∧ (endSeqNo ≠ 0 → e.1 ≤ endSeqNo))
    (hbegin : 1 ≤ beginSeqNo) (hsender : beginSeqNo < sender)
    (hend : endSeqNo = 0 ∨ beginSeqNo ≤ endSeqNo) (hclamp : endSeqNo ≤ sender) :
    (Tiles beginSeqNo ((planRecovery entries beginSeqNo endSeqNo sender).map Emit.interval)
        (lastOf endSeqNo sender + 1) ∧
      ∀ e ∈ entries, e.2.IsApplication →
        (planRecovery entries beginSeqNo endSeqNo sender).countP (Emit.replays e.1) = 1) ↔
      Tileable entries endSeqNo sender := by
  unfold planRecovery Tileable
  cases hp : (planLoop entries beginSeqNo).2 with
  | none =>
      -- The loop raises: a message is missing, and one does not fit.
      obtain ⟨e, he, happ, hfits, hcount⟩ := planLoop_stuck hsorted hp
      simp only [hp]
      constructor
      · rintro ⟨-, honce⟩
        rw [honce e he happ] at hcount
        cases hcount
      · rintro (⟨-, hnone⟩ | ⟨-, -, -, hall⟩)
        · exact (hnone e he happ).elim
        · exact (hfits (hall e he happ)).elim
  | some p =>
      have htiles := planLoop_tiles hp
      have honce := planLoop_once hsorted hp
      simp only [hp]
      rcases planLoop_end hsorted hp with ⟨rfl, hnone⟩ | ⟨e, he, happ, rfl, hmax⟩
      · -- Nothing to replay: one gap fill up to the bound.
        rw [if_neg (not_not.mpr rfl)]
        have hno : ¬∃ e ∈ entries, e.1 = endSeqNo ∧ e.2.IsApplication := fun ⟨e, he, _, happ⟩ =>
          hnone e he happ
        by_cases hlt : p < if endSeqNo ≠ 0 then endSeqNo else sender
        · rw [if_pos hlt, List.map_append]
          have hall := htiles.append
            (Tiles.cons (.nil (if endSeqNo ≠ 0 then endSeqNo else sender)) (a := p))
          constructor
          · rintro ⟨hwhole, -⟩
            have heq := hall.unique hwhole
            refine .inl ⟨?_, hnone⟩
            by_contra hclosed
            rw [lastOf, if_neg hclosed] at heq
            rw [not_or] at hclosed
            rw [if_pos hclosed.1] at heq
            omega
          · rintro (⟨hopen, -⟩ | ⟨-, -, hlast, -⟩)
            · refine ⟨?_, fun e he happ => (hnone e he happ).elim⟩
              have heq : (if endSeqNo ≠ 0 then endSeqNo else sender) = lastOf endSeqNo sender + 1 := by
                rw [lastOf, if_pos hopen]
                split <;> omega
              rw [← heq]
              exact hall
            · exact (hno hlast).elim
        · rw [if_neg hlt, List.append_nil]
          constructor
          · rintro ⟨hwhole, -⟩
            have heq := htiles.unique hwhole
            exfalso
            split at hlt
            next hne =>
              rw [lastOf, if_neg (by omega)] at heq
              omega
            next => omega
          · rintro (⟨hopen, -⟩ | ⟨-, -, hlast, -⟩)
            · exfalso
              split at hlt <;> omega
            · exact (hno hlast).elim
      · -- Messages were replayed: the pointer goes back to the last of them.
        obtain ⟨hge, hlt, hle⟩ := hrange e he
        rw [if_pos (show e.1 + 1 ≠ beginSeqNo by omega), show e.1 + 1 - 1 = e.1 by omega]
        by_cases hfill : e.1 < if endSeqNo ≠ 0 then endSeqNo else sender
        · rw [if_pos hfill, List.map_append]
          constructor
          · rintro ⟨hwhole, -⟩
            have hback : e.1 = e.1 + 1 := (htiles.of_append hwhole).head.1
            omega
          · rintro (⟨-, hnone⟩ | ⟨hne, -, ⟨f, hf, hkey, hfapp⟩, -⟩)
            · exact (hnone e he happ).elim
            · have := hmax f hf hfapp
              rw [if_pos hne] at hfill
              omega
        · rw [if_neg hfill, List.append_nil]
          split at hfill
          next hne =>
            have heq : e.1 = endSeqNo := by
              have := hle hne
              omega
            have hlast : lastOf endSeqNo sender = endSeqNo := by
              rw [lastOf, if_neg (by omega)]
            constructor
            · rintro -
              exact .inr ⟨hne, by omega, ⟨e, he, heq, happ⟩, fun f hf hfapp => (honce f hf hfapp).1⟩
            · rintro -
              rw [hlast, ← heq]
              exact ⟨htiles, fun f hf hfapp => (honce f hf hfapp).2⟩
          next => omega

namespace Session

/-! ## Sending one message of the plan -/

/-- Messages were transmitted, if the session is connected, and nothing else. -/
structure SendsAll (out : List Message) (s t : Session) : Prop extends SameControl s t where
  cache : t.cache = s.cache
  events : t.events = s.events ++ out.flatMap (transmission s)

theorem SendsAll.of_idle {s t : Session} (h : Idle s t) : SendsAll [] s t :=
  ⟨h.toSameControl, h.cache, by simp [h.events]⟩

theorem SendsAll.of_transmitted {m : Message} {s t : Session} (h : Transmitted m s t) :
    SendsAll [m] s t := ⟨h.toSameControl, h.cache, by simp [h.events]⟩

theorem SendsAll.append {out out' : List Message} {s t u : Session} (h : SendsAll out s t)
    (h' : SendsAll out' t u) : SendsAll (out ++ out') s u := by
  refine ⟨h.toSameControl.trans h'.toSameControl, h'.cache.trans h.cache, ?_⟩
  have htrans : transmission t = transmission s := by
    funext m
    simp only [transmission, h.network]
  rw [h'.events, h.events, List.flatMap_append, List.append_assoc, htrans]

/-- A gap fill has the numbers that it was given. -/
theorem fillSequenceReset_isGapFill {env : Env} {msg m : Message} {sender : Int}
    (hcreate : env.dictionary.create MsgType.sequenceReset = .ok msg)
    (hstamped : Stamped env sender msg m) {seqno newSeqno : Int} (h₀ : 0 ≤ seqno)
    (h₁ : seqno ≤ sender) (hsender : sender < 2147483648) (hnew₀ : 0 ≤ newSeqno)
    (hnew₁ : newSeqno < 2147483648) (now : Bytes) :
    (fillSequenceReset m now seqno newSeqno true).IsGapFill seqno newSeqno := by
  obtain ⟨htype, hbody⟩ := create_hasType hcreate
  obtain ⟨ms, header, hstamp, rfl⟩ := hstamped
  have hheader := stampHeader_ok hstamp
  constructor
  · refine FieldMap.getField_eq.mpr ?_
    change ((((header.setField _ _ _).setField _ _ _).setField _ _ _).field? _) = _
    rw [FieldMap.field?_setField_ne (by decide), FieldMap.field?_setField_ne (by decide),
      FieldMap.field?_setField_ne (by decide), hheader.other _ (by decide)]
    exact FieldMap.getField_eq.mp htype
  · have hlen : (toChars seqno).length ≤ (toChars sender).length := by
      rw [toChars_of_nonneg h₀, toChars_of_nonneg (by omega)]
      exact length_natDigits_mono (by omega)
    obtain ⟨rest, hfield, hrest⟩ := FieldMap.field?_setField_longer
      (header.setField Field.origSendingTime now true) Field.msgSeqNum (toChars seqno) true (by
        intro v hv
        unfold FieldMap.setField at hv
        rw [FieldMap.find?_insertFieldView_ne (by decide)] at hv
        cases hheader.msgSeqNumView.symm.trans hv
        exact ⟨_, hlen, rfl⟩)
    refine FieldMap.getIntField_eq.mpr ⟨toChars seqno ++ rest, ?_,
      FieldMap.intOf_toChars_append (by omega) (by omega) hrest⟩
    change ((((header.setField _ _ _).setField _ _ _).setField _ _ _).field? _) = _
    rw [FieldMap.field?_setField_ne (by decide), hfield]
  · refine FieldMap.getIntField_eq.mpr ⟨toChars newSeqno, ?_,
      FieldMap.intOf_toChars (by omega) hnew₁⟩
    change ((msg.body.setField _ _ _).setField _ _ _).field? _ = _
    rw [FieldMap.field?_setField_ne (by decide)]
    exact FieldMap.field?_setField_self _ _ _ _ (.inr fun _ hv => by rw [hbody] at hv; cases hv)
  · have hflag : (fillSequenceReset { msg with header := header } now seqno newSeqno true).body.field?
        Field.gapFillFlag = some (ascii "Y") := by
      refine FieldMap.field?_setField_self _ _ _ _ (.inr fun v hv => ?_)
      have hv : AssocList.find? Field.gapFillFlag
          (msg.body.setField Field.newSeqNo (toChars newSeqno) true).fields = some v := hv
      unfold FieldMap.setField at hv
      rw [FieldMap.find?_insertFieldView_ne (by decide)] at hv
      have hv : AssocList.find? Field.gapFillFlag msg.body.fields = some v := hv
      rw [hbody] at hv
      cases hv
    simp only [FieldMap.tryGetBool, hflag]
    decide

/-- The numbers for which a gap fill is sent. -/
structure FillRange (s : Session) (seqno newSeqno : Int) : Prop where
  nonneg : 0 ≤ seqno
  le : seqno ≤ s.cache.senderSeqNum
  sender : s.cache.senderSeqNum < 2147483648
  newNonneg : 0 ≤ newSeqno
  newLt : newSeqno < 2147483648

theorem sendSequenceReset_ends {env : Env} (hknows : Knows env MsgType.sequenceReset)
    {seqno newSeqno : Int} {s : Session} (hrange : FillRange s seqno newSeqno) :
    Ends (sendSequenceReset env seqno newSeqno true) s
      (fun _ t => ∃ m, (Emit.fill seqno newSeqno).SentAs m ∧ SendsAll [m] s t) fun _ _ => False := by
  obtain ⟨msg, hcreate⟩ := hknows
  unfold sendSequenceReset
  rw [hcreate]
  refine Ends.bind (P := fun m t => m = msg ∧ t = s) ⟨rfl, rfl⟩ ?_
  rintro m t ⟨rfl, rfl⟩
  refine Ends.bind ((populateMessage_ends env m 0 t).mono (fun _ _ h => h) ?_) ?_
  · rintro e u ⟨-, ms, he⟩
    obtain ⟨header, hok⟩ := stampHeader_of_room env.settings t.cache.senderSeqNum ms
      ((create_room hcreate).mono (by decide))
    rw [hok] at he
    cases he
  rintro ⟨m', seqnum⟩ u ⟨hu, hstamped, -⟩
  refine Ends.bind (getUTCTimestamp_ends env u) ?_
  rintro now v ⟨hv, -⟩
  refine Ends.bind (currentEpochUs_ends env v) ?_
  intro epochUs w hw
  refine (internalSend_ends env _ epochUs w).mono (fun _ x hx => ?_) fun _ _ h => h
  refine ⟨_, fillSequenceReset_isGapFill hcreate hstamped hrange.nonneg hrange.le hrange.sender
    hrange.newNonneg hrange.newLt now, ?_⟩
  have hidle : Idle t w := IsTrans.trans t u w hu (IsTrans.trans u v w hv hw)
  exact (SendsAll.of_idle hidle).append (.of_transmitted hx)

/-! ## Replaying one message -/

/-- The tags that a replay writes. -/
def replayedTags : List Int := [Field.possDupFlag, Field.origSendingTime, Field.sendingTime]

theorem storeField_of_takes {m : FieldMap} {tag : Int} {value : Bytes}
    (h : m.takes tag value = true) :
    m.storeField tag value true = .ok (m.setField tag value true) := by
  simp only [FieldMap.takes, Bool.and_eq_true, Bool.not_eq_true'] at h
  rw [FieldMap.storeField, h.1, h.2, if_neg (by decide), if_neg (by decide)]

theorem storeField_of_not_takes {m : FieldMap} {tag : Int} {value : Bytes}
    (h : m.takes tag value = false) : ∃ e, m.storeField tag value true = .error e := by
  unfold FieldMap.storeField
  split
  next => exact ⟨_, rfl⟩
  next hfull =>
    rw [FieldMap.takes, eq_false_of_ne_true hfull] at h
    rw [if_pos (by simpa using h)]
    exact ⟨_, rfl⟩

/-- A string with room for the value takes it. -/
theorem takes_of_room {m : FieldMap} {tag : Int} {value buf : Bytes}
    (hbuf : AssocList.find? tag m.owned = some buf) (hroom : value.length < buf.length) :
    m.takes tag value = true := by
  have hfull : m.storageFull tag = false := by simp [FieldMap.storageFull, hbuf]
  have hgrows : m.outgrows tag value = false := by
    simp only [FieldMap.outgrows, hbuf]
    simpa using hroom
  simp [FieldMap.takes, hfull, FieldMap.strands, hgrows]

theorem replayHeader_of_fits {header : FieldMap} {time buf now : Bytes}
    (hfits : header.replayFits = true) (htime : header.field? Field.sendingTime = some time)
    (hbuf : AssocList.find? Field.sendingTime header.owned = some buf)
    (hroom : now.length < buf.length) :
    ∃ header', replayHeader header now = .ok header' ∧
      ∀ tag, tag ∉ replayedTags → header'.field? tag = header.field? tag := by
  rw [FieldMap.replayFits, htime, Bool.and_eq_true, Option.getD_some] at hfits
  obtain ⟨hflag, horiginal⟩ := hfits
  generalize hflagged : header.setField Field.possDupFlag (ascii "Y") true = flagged at horiginal
  have hget : flagged.getField Field.sendingTime = .ok time := by
    rw [FieldMap.getField_eq, ← hflagged, FieldMap.field?_setField_ne (by decide), htime]
  have hkept : ∀ {m : FieldMap} {tag : Int} (value : Bytes), Field.sendingTime ≠ tag →
      AssocList.find? Field.sendingTime (m.setField tag value true).owned =
        AssocList.find? Field.sendingTime m.owned := by
    intro m tag value hne
    unfold FieldMap.setField
    rw [FieldMap.owned_insertFieldView, AssocList.find?_set_ne hne]
  have hlast : (flagged.setField Field.origSendingTime time true).takes Field.sendingTime now =
      true := by
    refine takes_of_room ?_ hroom
    rw [hkept time (by decide), ← hflagged, hkept _ (by decide), hbuf]
  refine ⟨(flagged.setField Field.origSendingTime time true).setField Field.sendingTime now true,
    ?_, fun tag htag => ?_⟩
  · rw [replayHeader, storeField_of_takes hflag, hflagged]
    simp only [bind, Except.bind, hget]
    rw [storeField_of_takes horiginal]
    exact storeField_of_takes hlast
  · simp only [replayedTags, List.mem_cons, List.not_mem_nil, or_false, not_or] at htag
    rw [FieldMap.field?_setField_ne htag.2.2, FieldMap.field?_setField_ne htag.2.1, ← hflagged,
      FieldMap.field?_setField_ne htag.1]

theorem replayHeader_of_not_fits {header : FieldMap} {time : Bytes}
    (hfits : header.replayFits = false) (htime : header.field? Field.sendingTime = some time)
    (now : Bytes) : ∃ e, replayHeader header now = .error e := by
  have hget : (header.setField Field.possDupFlag (ascii "Y") true).getField Field.sendingTime =
      .ok time := by
    rw [FieldMap.getField_eq, FieldMap.field?_setField_ne (by decide), htime]
  unfold replayHeader
  cases hflag : header.takes Field.possDupFlag (ascii "Y") with
  | false =>
      obtain ⟨e, he⟩ := storeField_of_not_takes hflag
      exact ⟨e, by rw [he]; rfl⟩
  | true =>
      rw [FieldMap.replayFits, hflag, htime, Bool.true_and] at hfits
      obtain ⟨e, he⟩ := storeField_of_not_takes hfits
      refine ⟨e, ?_⟩
      rw [Option.getD_some] at he
      rw [storeField_of_takes hflag]
      simp only [bind, Except.bind, hget, he]

/-- A cached message as the session sent it: with a type, and an application message with its
number and a time as long as the clock's. -/
structure Resendable (env : Env) (k : Int) (msg : Message) : Prop where
  type : ∃ t, msg.HasType t
  seqNum : msg.IsApplication → msg.HasSeqNum k
  time : msg.IsApplication → ∃ time, msg.header.field? Field.sendingTime = some time ∧
    ∀ n, (writeUTCTimestamp ((env.clock n).tdiv 1000)).length ≤ time.length

/-- A copy owns the strings of all its fields. -/
theorem owned_copy {m : FieldMap} {tag : Int} {value : Bytes} (h : m.field? tag = some value) :
    AssocList.find? tag m.copy.owned = some (newBuffer value) := by
  obtain ⟨v, hv, hread⟩ := Option.map_eq_some_iff.mp h
  rw [FieldMap.copy_eq, ← hread]
  have howned := FieldMap.find?_map_value (fun t v => newBuffer (m.read t v)) tag m.fields
  rw [hv, Option.map_some] at howned
  exact howned

theorem length_newBuffer (v : Bytes) : v.length < (newBuffer v).length := by
  rw [newBuffer, List.length_append, List.length_cons]
  omega

/-- An application message is replayed after the gap before it, if it fits. -/
theorem replayOne_ends {env : Env} (hknows : Knows env MsgType.sequenceReset) {s : Session}
    {k ptr : Int} {msg : Message} (hmsg : Resendable env k msg) (hk₀ : 0 ≤ k)
    (hk₁ : k < s.cache.senderSeqNum) (hsender : s.cache.senderSeqNum < 2147483648)
    (hptr₀ : 0 ≤ ptr) (hptr₁ : ptr ≤ s.cache.senderSeqNum) (happ : msg.IsApplication) :
    Ends (replayOne env k msg.copy ptr) s
      (fun p t => ∃ out, List.Forall₂ Emit.SentAs
          ((if k ≠ ptr then [Emit.fill ptr k] else []) ++ [.replay k msg]) out ∧
        SendsAll out s t ∧ msg.Fits ∧ p = k + 1)
      fun _ t => ∃ out, List.Forall₂ Emit.SentAs (if k ≠ ptr then [Emit.fill ptr k] else []) out ∧
        SendsAll out s t ∧ ¬msg.Fits := by
  obtain ⟨time, htime, hclock⟩ := hmsg.time happ
  have hseq := hmsg.seqNum happ
  obtain ⟨t, htype, ht⟩ := happ
  have hcopy : ∀ tag, msg.copy.header.field? tag = msg.header.field? tag :=
    FieldMap.field?_copy msg.header
  have htype' : msg.copy.header.getField Field.msgType = .ok t := by
    rw [show msg.copy.header = msg.header.copy from rfl, FieldMap.getField_copy]
    exact htype
  unfold replayOne
  rw [htype']
  refine Ends.bind (P := fun t' u => t' = t ∧ u = s) ⟨rfl, rfl⟩ ?_
  rintro t' u ⟨rfl, rfl⟩
  rw [if_neg (show ¬t' ∈ MsgType.sessionMsgs from ht)]
  refine Ends.bind (P := fun _ v => ∃ out, List.Forall₂ Emit.SentAs
    (if k ≠ ptr then [Emit.fill ptr k] else []) out ∧ SendsAll out u v) ?_ ?_
  · unfold fillGap
    split
    next =>
      refine (sendSequenceReset_ends hknows ⟨hptr₀, hptr₁, hsender, hk₀,
        lt_trans hk₁ hsender⟩).mono (fun _ v h => ?_) fun _ _ h => h.elim
      obtain ⟨m, hm, hv⟩ := h
      exact ⟨[m], .cons hm .nil, hv⟩
    next => exact ⟨[], .nil, .of_idle (Std.Refl.refl u)⟩
  rintro _ v ⟨out, hout, hv⟩
  refine Ends.bind ((getUTCTimestamp_ends env v).mono (fun _ _ h => h) fun _ _ h => h.elim) ?_
  rintro now w ⟨hw, n, rfl⟩
  generalize hnow : writeUTCTimestamp ((env.clock n).tdiv 1000) = now
  by_cases hfits : msg.Fits
  · have hroom : now.length < (newBuffer time).length :=
      lt_of_le_of_lt (hnow ▸ hclock n) (length_newBuffer time)
    obtain ⟨header, hheader, hother⟩ :=
      replayHeader_of_fits hfits ((hcopy _).trans htime) (owned_copy htime) hroom
    have hreplay : replayMessage msg.copy now = .ok { msg.copy with header := header } := by
      simp only [replayMessage, hheader, bind, Except.bind, pure, Except.pure]
    rw [hreplay]
    refine Ends.bind (P := fun m x => m = { msg.copy with header := header } ∧ x = w) ⟨rfl, rfl⟩ ?_
    rintro m x ⟨rfl, rfl⟩
    refine Ends.bind ((currentEpochUs_ends env x).mono (fun _ _ h => h) fun _ _ h => h.elim) ?_
    intro epochUs y hy
    refine Ends.bind ((internalSend_ends env _ epochUs y).mono (fun _ _ h => h)
      fun _ _ h => h.elim) ?_
    intro _ z hz
    have hsent : (Emit.replay k msg).SentAs { msg.copy with header := header } := by
      refine ⟨⟨fun t => ?_, ?_, rfl⟩, t', htype, ht⟩
      · unfold Message.HasType
        rw [FieldMap.getField_eq, FieldMap.getField_eq, hother _ (by decide), hcopy]
      · obtain ⟨v, hv, hint⟩ := FieldMap.getIntField_eq.mp hseq
        exact FieldMap.getIntField_eq.mpr ⟨v, by rw [hother _ (by decide), hcopy, hv], hint⟩
    have hidle : Idle v y := IsTrans.trans v x y hw hy
    refine ⟨out ++ [{ msg.copy with header := header }],
      List.rel_append hout (.cons hsent .nil), ?_, hfits, ?_⟩
    · exact hv.append ((SendsAll.of_idle hidle).append (.of_transmitted hz))
    · exact i32_of_range (by omega) (by omega)
  · obtain ⟨e, he⟩ := replayHeader_of_not_fits (by simpa [Message.Fits] using hfits)
      ((hcopy _).trans htime) now
    have hreplay : replayMessage msg.copy now = .error e := by
      simp only [replayMessage, he, bind, Except.bind]
    rw [hreplay, ends_bind]
    have hall : SendsAll out u w := by
      have h := hv.append (.of_idle hw)
      rwa [List.append_nil] at h
    exact ⟨out, hout, hall, hfits⟩

/-- A session message is skipped. -/
theorem replayOne_skips {env : Env} {s : Session} {k ptr : Int} {msg : Message}
    (hmsg : Resendable env k msg) (happ : ¬msg.IsApplication) :
    Ends (replayOne env k msg.copy ptr) s (fun p t => p = ptr ∧ t = s) fun _ _ => False := by
  obtain ⟨t, htype⟩ := hmsg.type
  have htype' : msg.copy.header.getField Field.msgType = .ok t := by
    rw [show msg.copy.header = msg.header.copy from rfl, FieldMap.getField_copy]
    exact htype
  have hsession : t ∈ MsgType.sessionMsgs := not_not.mp fun ht => happ ⟨t, htype, ht⟩
  unfold replayOne
  rw [htype']
  refine Ends.bind (P := fun t' u => t' = t ∧ u = s) ⟨rfl, rfl⟩ ?_
  rintro t' u ⟨rfl, rfl⟩
  rw [if_pos hsession]
  exact ⟨rfl, rfl⟩

/-! ## The run of a resend -/

/-- The messages of cached texts. -/
def readMessages (env : Env) (wires : List (Int × Bytes)) : List (Int × Message) :=
  wires.filterMap fun e => (env.dictionary.parse env.settings e.2).toOption.map fun msg => (e.1, msg)

theorem readMessages_cons {env : Env} {k : Int} {wire : Bytes} {msg : Message}
    (h : env.dictionary.parse env.settings wire = .ok msg) (rest : List (Int × Bytes)) :
    readMessages env ((k, wire) :: rest) = (k, msg) :: readMessages env rest := by
  simp [readMessages, h, Except.toOption]

theorem mem_readMessages {env : Env} {wires : List (Int × Bytes)} {k : Int} {msg : Message} :
    (k, msg) ∈ readMessages env wires ↔
      ∃ wire, (k, wire) ∈ wires ∧ env.dictionary.parse env.settings wire = .ok msg := by
  simp only [readMessages, List.mem_filterMap, Option.map_eq_some_iff]
  constructor
  · rintro ⟨⟨l, wire⟩, hmem, m, hparse, heq⟩
    obtain ⟨rfl, rfl⟩ := Prod.mk.inj heq
    refine ⟨wire, hmem, ?_⟩
    cases h : env.dictionary.parse env.settings wire with
    | ok m' =>
        rw [h] at hparse
        exact congrArg Except.ok (Option.some.inj hparse)
    | error e =>
        rw [h] at hparse
        cases hparse
  · rintro ⟨wire, hmem, hparse⟩
    exact ⟨(k, wire), hmem, msg, by rw [hparse]; rfl, rfl⟩

theorem readMessages_sorted {env : Env} {wires : List (Int × Bytes)}
    (h : wires.Pairwise fun e f => e.1 < f.1) :
    (readMessages env wires).Pairwise fun e f => e.1 < f.1 := by
  refine List.pairwise_filterMap.mpr (h.imp fun {e f} hlt => ?_)
  intro p hp q hq
  obtain ⟨m, -, rfl⟩ := Option.map_eq_some_iff.mp hp
  obtain ⟨m', -, rfl⟩ := Option.map_eq_some_iff.mp hq
  exact hlt

/-- The texts have numbers below the sender's and can be read back as what the session sent. -/
def Readable (env : Env) (sender : Int) (wires : List (Int × Bytes)) : Prop :=
  ∀ e ∈ wires, (0 ≤ e.1 ∧ e.1 < sender) ∧
    ∃ msg, env.dictionary.parse env.settings e.2 = .ok msg ∧ Resendable env e.1 msg

/-- The loop sends what was planned. -/
theorem replayLoop_ends {env : Env} (hknows : Knows env MsgType.sequenceReset) {sender : Int}
    (hsender : sender < 2147483648) : ∀ {wires : List (Int × Bytes)} {ptr : Int} {s : Session},
      s.cache.senderSeqNum = sender → Readable env sender wires → 0 ≤ ptr → ptr ≤ sender →
        Ends (replayLoop env wires ptr) s
          (fun p t => ∃ out, List.Forall₂ Emit.SentAs (planLoop (readMessages env wires) ptr).1 out ∧
            SendsAll out s t ∧ (planLoop (readMessages env wires) ptr).2 = some p)
          fun _ t => ∃ out, List.Forall₂ Emit.SentAs (planLoop (readMessages env wires) ptr).1 out ∧
            SendsAll out s t ∧ (planLoop (readMessages env wires) ptr).2 = none
  | [], ptr, s, _, _, _, _ => ⟨[], .nil, .of_idle (Std.Refl.refl s), rfl⟩
  | (k, wire) :: rest, ptr, s, hs, hread, hptr₀, hptr₁ => by
      obtain ⟨⟨hk₀, hk₁⟩, msg, hparse, hmsg⟩ := hread (k, wire) (List.mem_cons_self ..)
      dsimp only at hk₀ hk₁
      have hrest : Readable env sender rest := fun e he => hread e (List.mem_cons_of_mem _ he)
      rw [readMessages_cons hparse, planLoop]
      unfold replayLoop
      rw [hparse]
      refine Ends.bind (P := fun m t => m = msg ∧ t = s) ⟨rfl, rfl⟩ ?_
      rintro msg s ⟨rfl, rfl⟩
      by_cases happ : msg.IsApplication
      · rw [if_pos happ]
        subst hs
        refine Ends.bind ((replayOne_ends hknows hmsg hk₀ hk₁ hsender hptr₀ hptr₁ happ).mono
          (fun _ _ h => h) ?_) ?_
        · rintro e t ⟨out, hout, ht, hfits⟩
          dsimp only
          rw [if_neg hfits]
          exact ⟨out, hout, ht, rfl⟩
        · rintro p t ⟨out, hout, ht, hfits, rfl⟩
          dsimp only
          rw [if_pos hfits]
          have hsame : t.cache.senderSeqNum = s.cache.senderSeqNum := by rw [ht.cache]
          have hall : ∀ {out'}, List.Forall₂ Emit.SentAs
              (planLoop (readMessages env rest) (k + 1)).1 out' →
              List.Forall₂ Emit.SentAs ((if k ≠ ptr then [Emit.fill ptr k] else []) ++
                .replay k msg :: (planLoop (readMessages env rest) (k + 1)).1) (out ++ out') := by
            intro out' hout'
            rw [List.append_cons]
            exact List.rel_append hout hout'
          refine (replayLoop_ends hknows hsender hsame hrest (by omega) (by omega)).mono ?_ ?_
          · rintro p' u ⟨out', hout', hu, hp⟩
            exact ⟨out ++ out', hall hout', ht.append hu, hp⟩
          · rintro e u ⟨out', hout', hu, hp⟩
            exact ⟨out ++ out', hall hout', ht.append hu, hp⟩
      · rw [if_neg happ]
        refine Ends.bind ((replayOne_skips hmsg happ).mono (fun _ _ h => h) fun _ _ h => h.elim) ?_
        rintro _ t ⟨rfl, rfl⟩
        exact replayLoop_ends hknows hsender hs hrest hptr₀ hptr₁

/-- Where the loop leaves its pointer. -/
theorem planLoop_pointer {entries : List (Int × Message)} {ptr p sender : Int}
    (hsorted : entries.Pairwise fun e f => e.1 < f.1)
    (hrange : ∀ e ∈ entries, 0 ≤ e.1 ∧ e.1 < sender) (h : (planLoop entries ptr).2 = some p) :
    p = ptr ∨ 1 ≤ p ∧ p ≤ sender := by
  rcases planLoop_end hsorted h with ⟨hp, -⟩ | ⟨e, he, -, hp, -⟩
  · exact .inl hp
  · have := hrange e he
    exact .inr ⟨by omega, by omega⟩

/-- The cache of a session that is asked for a range: its numbers are below the sender's, and the
texts of the range can be read back. -/
structure Recoverable (env : Env) (s : Session) (beginSeqNo endSeqNo : Int) : Prop where
  numbers : ∀ e ∈ s.cache.messages.entries, 0 ≤ e.1 ∧ e.1 < s.cache.senderSeqNum
  reads : ∀ e ∈ s.cache.messages.entries, beginSeqNo ≤ e.1 →
    e.1 ≤ lastOf endSeqNo s.cache.senderSeqNum →
      ∃ msg, env.dictionary.parse env.settings e.2 = .ok msg ∧ Resendable env e.1 msg

/-- What a resend looks up. -/
theorem mem_getMessages {s : Session} {beginSeqNo endSeqNo : Int} {e : Int × Bytes}
    (hlt : e ∈ s.cache.messages.entries → e.1 < s.cache.senderSeqNum) :
    e ∈ s.cache.getMessages beginSeqNo (min endSeqNo s.cache.senderSeqNum) ↔
      e ∈ s.cache.messages.entries ∧ beginSeqNo ≤ e.1 ∧
        e.1 ≤ lastOf endSeqNo s.cache.senderSeqNum := by
  refine SortedMap.mem_entries_filterKeys.trans (and_congr_right fun hmem => ?_)
  have hlt' := hlt hmem
  simp only [Bool.and_eq_true, Bool.or_eq_true, decide_eq_true_eq, lastOf]
  split <;> omega

theorem Recoverable.readable {env : Env} {s : Session} {beginSeqNo endSeqNo : Int}
    (h : Recoverable env s beginSeqNo endSeqNo) : Readable env s.cache.senderSeqNum
      (s.cache.getMessages beginSeqNo (min endSeqNo s.cache.senderSeqNum)) := by
  intro e he
  obtain ⟨hmem, hge, hle⟩ := (mem_getMessages fun hmem => (h.numbers e hmem).2).mp he
  exact ⟨h.numbers e hmem, h.reads e hmem hge hle⟩

/-- A resend sends what is planned for the range with the clamped bound. -/
theorem runMessageRecovery_ends {env : Env} (hknows : Knows env MsgType.sequenceReset)
    {s : Session} (hsender : s.cache.senderSeqNum < 2147483648) {beginSeqNo endSeqNo : Int}
    (hbegin : 1 ≤ beginSeqNo) (hlt : beginSeqNo < s.cache.senderSeqNum)
    (hread : Recoverable env s beginSeqNo endSeqNo) :
    let bound := min endSeqNo s.cache.senderSeqNum
    let plan := planRecovery (readMessages env (s.cache.getMessages beginSeqNo bound)) beginSeqNo
      bound s.cache.senderSeqNum
    Ends (runMessageRecovery env beginSeqNo endSeqNo) s
      (fun _ t => ∃ out, List.Forall₂ Emit.SentAs plan out ∧ SendsAll out s t)
      fun _ t => ∃ out, List.Forall₂ Emit.SentAs plan out ∧ SendsAll out s t := by
  intro bound plan
  have hwires := hread.readable
  have hsorted : (readMessages env (s.cache.getMessages beginSeqNo bound)).Pairwise
      fun e f => e.1 < f.1 := readMessages_sorted (SortedMap.sorted _)
  have hrange : ∀ e ∈ readMessages env (s.cache.getMessages beginSeqNo bound),
      0 ≤ e.1 ∧ e.1 < s.cache.senderSeqNum := by
    rintro ⟨k, msg⟩ he
    obtain ⟨wire, hmem, -⟩ := mem_readMessages.mp he
    exact (hwires _ hmem).1
  unfold runMessageRecovery
  rw [ends_bind, ends_getSenderSeqNum, ends_bind, ends_get]
  refine Ends.bind ((replayLoop_ends hknows hsender rfl hwires (by omega) hlt.le).mono
    (fun _ _ h => h) ?_) ?_
  · rintro e t ⟨out, hout, ht, hp⟩
    refine ⟨out, ?_, ht⟩
    rw [show plan = _ from planRecovery_of_none hp _ _]
    exact hout
  · rintro p t ⟨out, hout, ht, hp⟩
    have hsame : t.cache.senderSeqNum = s.cache.senderSeqNum := by rw [ht.cache]
    have hpointer := planLoop_pointer hsorted hrange hp
    have hptr : (if p ≠ beginSeqNo then i32 (p - 1) else p) =
        if p ≠ beginSeqNo then p - 1 else p := by
      split
      next hne => exact i32_of_range (by omega) (by omega)
      next => rfl
    refine Ends.bind (P := fun b u => b = (if bound ≠ 0 then bound else s.cache.senderSeqNum) ∧ u = t)
      ?_ ?_
    · split
      next => exact ⟨rfl, rfl⟩
      next =>
        rw [ends_getSenderSeqNum]
        exact ⟨hsame, rfl⟩
    · rintro last u ⟨hlast, rfl⟩
      rw [hptr]
      generalize hstart : (if p ≠ beginSeqNo then p - 1 else p) = start
      have hplan : plan = _ := planRecovery_of_some hp hstart hlast.symm
      have hbound : last ≤ s.cache.senderSeqNum := by
        rw [hlast]
        split
        next => exact min_le_right ..
        next => exact le_refl _
      have hnonneg : 0 ≤ start := by
        rw [← hstart]
        split <;> omega
      by_cases hfill : start < last
      · rw [if_pos hfill] at hplan ⊢
        have hrange : FillRange u start last := ⟨hnonneg, by omega, by omega, by omega, by omega⟩
        refine (sendSequenceReset_ends hknows hrange).mono (fun _ v hv => ?_) fun _ _ h => h.elim
        obtain ⟨m, hm, hsent⟩ := hv
        refine ⟨out ++ [m], ?_, ht.append hsent⟩
        rw [hplan]
        exact List.rel_append hout (.cons hm .nil)
      · rw [if_neg hfill] at hplan ⊢
        refine ⟨out, ?_, ht⟩
        rw [hplan]
        exact (List.append_nil _).symm ▸ hout

/-! ## Whether a resend tiles its range -/

/-- The message is cached under the number. -/
def Cached (env : Env) (s : Session) (k : Int) (msg : Message) : Prop :=
  ∃ wire, (k, wire) ∈ s.cache.messages.entries ∧ env.dictionary.parse env.settings wire = .ok msg

/-- What a resend of a range is to send. -/
structure RangeResent (env : Env) (s : Session) (beginSeqNo endSeqNo : Int)
    (sent : List Message) : Prop where
  /-- Each interval starts where the one before it ends, from the first number of the
  range to behind the last. -/
  tiles : ∃ ivs, sent.map Message.interval? = ivs.map some ∧
    Tiles beginSeqNo ivs (lastOf endSeqNo s.cache.senderSeqNum + 1)
  /-- Each application message of the range is replayed once, under its number. -/
  once : ∀ k msg, Cached env s k msg → beginSeqNo ≤ k →
    k ≤ lastOf endSeqNo s.cache.senderSeqNum → msg.IsApplication →
      sent.countP (Message.replays k) = 1
  /-- Nothing else is sent: no session message is replayed. -/
  only : ∀ m ∈ sent, (∃ a b, m.IsGapFill a b) ∨
    ∃ k msg, Cached env s k msg ∧ msg.IsApplication ∧ m.IsReplayOf k msg

/-- When a resend tiles its range: the range has no upper end and no application
message, or it ends below the sender number with an application message and each of
its application messages fits. -/
def RangeTileable (env : Env) (s : Session) (beginSeqNo endSeqNo : Int) : Prop :=
  ((endSeqNo = 0 ∨ s.cache.senderSeqNum ≤ endSeqNo) ∧
      ∀ k msg, Cached env s k msg → beginSeqNo ≤ k → ¬msg.IsApplication) ∨
    (endSeqNo ≠ 0 ∧ endSeqNo < s.cache.senderSeqNum ∧
      (∃ msg, Cached env s endSeqNo msg ∧ msg.IsApplication) ∧
      ∀ k msg, Cached env s k msg → beginSeqNo ≤ k → k ≤ endSeqNo → msg.IsApplication → msg.Fits)

/-- A connected session transmits all that is sent. -/
theorem SendsAll.transmittedBetween {out : List Message} {s t : Session} (h : SendsAll out s t)
    (hconn : s.network.connected = true) : transmittedBetween s t = out := by
  obtain ⟨fd, hfd⟩ := Option.isSome_iff_exists.mp (s.network.wf hconn).1
  rw [transmittedBetween_eq h.events, transmittedOf, List.filterMap_flatMap]
  simp [transmission, hconn, hfd, Event.transmitted?]

theorem map_interval?_of_sentAs {plan : List Emit} {out : List Message}
    (h : List.Forall₂ Emit.SentAs plan out) :
    out.map Message.interval? = (plan.map Emit.interval).map some := by
  induction h with
  | nil => rfl
  | cons hm _ ih => simp only [List.map_cons, hm.interval?, ih]

theorem countP_replays_of_sentAs {plan : List Emit} {out : List Message}
    (h : List.Forall₂ Emit.SentAs plan out) (k : Int) :
    out.countP (Message.replays k) = plan.countP (Emit.replays k) := by
  induction h with
  | nil => rfl
  | cons hm _ ih => simp only [List.countP_cons, hm.replays, ih]

/-- Each message that was sent is planned. -/
theorem exists_plan_of_sentAs {plan : List Emit} {out : List Message}
    (h : List.Forall₂ Emit.SentAs plan out) {m : Message} (hm : m ∈ out) :
    ∃ e ∈ plan, e.SentAs m := by
  induction h with
  | nil => cases hm
  | cons hhead _ ih =>
      rcases List.mem_cons.mp hm with rfl | hm
      · exact ⟨_, List.mem_cons_self .., hhead⟩
      · obtain ⟨e, he, hsent⟩ := ih hm
        exact ⟨e, List.mem_cons_of_mem _ he, hsent⟩

theorem planRecovery_replay_mem {entries : List (Int × Message)} {beginSeqNo endSeqNo sender k : Int}
    {msg : Message} (h : Emit.replay k msg ∈ planRecovery entries beginSeqNo endSeqNo sender) :
    (k, msg) ∈ entries := by
  cases hp : (planLoop entries beginSeqNo).2 with
  | none =>
      rw [planRecovery_of_none hp] at h
      exact (planLoop_replay_mem h).1
  | some p =>
      rw [planRecovery_of_some hp rfl rfl] at h
      rcases List.mem_append.mp h with h | h
      · exact (planLoop_replay_mem h).1
      · split at h <;> simp at h

/-- The cached messages of a range. -/
def rangeMessages (env : Env) (s : Session) (beginSeqNo endSeqNo : Int) : List (Int × Message) :=
  readMessages env (s.cache.getMessages beginSeqNo (min endSeqNo s.cache.senderSeqNum))

theorem lastOf_min (endSeqNo sender : Int) :
    lastOf (min endSeqNo sender) sender = lastOf endSeqNo sender := by
  unfold lastOf
  split <;> split <;> omega

theorem mem_rangeMessages {env : Env} {s : Session} {beginSeqNo endSeqNo : Int}
    (hnumbers : ∀ e ∈ s.cache.messages.entries, 0 ≤ e.1 ∧ e.1 < s.cache.senderSeqNum)
    {k : Int} {msg : Message} : (k, msg) ∈ rangeMessages env s beginSeqNo endSeqNo ↔
      Cached env s k msg ∧ beginSeqNo ≤ k ∧ k ≤ lastOf endSeqNo s.cache.senderSeqNum := by
  rw [rangeMessages, mem_readMessages]
  constructor
  · rintro ⟨wire, hmem, hparse⟩
    obtain ⟨hmem, hrange⟩ := (mem_getMessages fun hmem => (hnumbers _ hmem).2).mp hmem
    exact ⟨⟨wire, hmem, hparse⟩, hrange⟩
  · rintro ⟨⟨wire, hmem, hparse⟩, hrange⟩
    exact ⟨wire, (mem_getMessages fun hmem => (hnumbers _ hmem).2).mpr ⟨hmem, hrange⟩, hparse⟩

theorem rangeMessages_sorted (env : Env) (s : Session) (beginSeqNo endSeqNo : Int) :
    (rangeMessages env s beginSeqNo endSeqNo).Pairwise fun e f => e.1 < f.1 :=
  readMessages_sorted (SortedMap.sorted _)

/-- The condition on the plan of a range, in terms of the cache. -/
theorem tileable_rangeMessages {env : Env} {s : Session} {beginSeqNo endSeqNo : Int}
    (hnumbers : ∀ e ∈ s.cache.messages.entries, 0 ≤ e.1 ∧ e.1 < s.cache.senderSeqNum)
    (hend : endSeqNo = 0 ∨ beginSeqNo ≤ endSeqNo) :
    Tileable (rangeMessages env s beginSeqNo endSeqNo) (min endSeqNo s.cache.senderSeqNum)
        s.cache.senderSeqNum ↔ RangeTileable env s beginSeqNo endSeqNo := by
  have hmem : ∀ {k : Int} {msg : Message}, (k, msg) ∈ rangeMessages env s beginSeqNo endSeqNo ↔ _ :=
    mem_rangeMessages hnumbers
  have hopen : (min endSeqNo s.cache.senderSeqNum = 0 ∨
      s.cache.senderSeqNum ≤ min endSeqNo s.cache.senderSeqNum) ↔
        (endSeqNo = 0 ∨ s.cache.senderSeqNum ≤ endSeqNo) := by omega
  unfold Tileable RangeTileable
  rw [hopen]
  refine or_congr (and_congr_right fun hopen => ?_) ?_
  · -- The whole cache from `beginSeqNo` on is in the range.
    have hlast : lastOf endSeqNo s.cache.senderSeqNum = s.cache.senderSeqNum - 1 := if_pos hopen
    constructor
    · intro hnone k msg hcached hge
      obtain ⟨wire, hmemCache, -⟩ := id hcached
      have hbelow := (hnumbers _ hmemCache).2
      dsimp only at hbelow
      exact hnone (k, msg) (hmem.mpr ⟨hcached, hge, by omega⟩)
    · rintro hnone ⟨k, msg⟩ he
      obtain ⟨hcached, hge, -⟩ := hmem.mp he
      exact hnone k msg hcached hge
  · by_cases hbelow : endSeqNo < s.cache.senderSeqNum
    · rw [min_eq_left hbelow.le]
      refine and_congr_right fun hne => and_congr_right fun _ => ?_
      have hlast : lastOf endSeqNo s.cache.senderSeqNum = endSeqNo := if_neg (by omega)
      rw [hlast] at hmem
      refine and_congr ⟨?_, ?_⟩ ⟨?_, ?_⟩
      · rintro ⟨⟨k, msg⟩, he, rfl, happ⟩
        exact ⟨msg, (hmem.mp he).1, happ⟩
      · rintro ⟨msg, hcached, happ⟩
        exact ⟨(endSeqNo, msg), hmem.mpr ⟨hcached, by omega, le_refl _⟩, rfl, happ⟩
      · intro hall k msg hcached hge hle happ
        exact hall (k, msg) (hmem.mpr ⟨hcached, hge, hle⟩) happ
      · rintro hall ⟨k, msg⟩ he happ
        obtain ⟨hcached, hge, hle⟩ := hmem.mp he
        exact hall k msg hcached hge hle happ
    · constructor
      · rintro ⟨-, hbelow', -⟩
        omega
      · rintro ⟨-, hbelow', -⟩
        exact (hbelow hbelow').elim

/-- A resend by a connected session, of a range that can be read back, tiles the range and
replays each application message of it once and nothing else, exactly if the range has
no upper end and no application message, or ends below the sender number with one. -/
theorem runMessageRecovery_tiles_iff (env : Env) (hknows : Knows env MsgType.sequenceReset)
    (s : Session) (hconn : s.network.connected = true)
    (hsender : s.cache.senderSeqNum < 2147483648)
    (beginSeqNo endSeqNo : Int) (hread : Recoverable env s beginSeqNo endSeqNo)
    (hbegin : 1 ≤ beginSeqNo) (hlt : beginSeqNo < s.cache.senderSeqNum)
    (hend : endSeqNo = 0 ∨ beginSeqNo ≤ endSeqNo) :
    RangeResent env s beginSeqNo endSeqNo
        (transmittedBetween s (after (runMessageRecovery env beginSeqNo endSeqNo) s)) ↔
      RangeTileable env s beginSeqNo endSeqNo := by
  obtain ⟨out, hout, hsent⟩ := after_eq_of_ends
    (P := fun t : Session => ∃ out, List.Forall₂ Emit.SentAs _ out ∧ SendsAll out s t)
    (runMessageRecovery_ends hknows hsender hbegin hlt hread)
  rw [hsent.transmittedBetween hconn]
  change List.Forall₂ _ (planRecovery (rangeMessages env s beginSeqNo endSeqNo) _ _ _) _ at hout
  have hmem : ∀ {k : Int} {msg : Message}, (k, msg) ∈ rangeMessages env s beginSeqNo endSeqNo ↔ _ :=
    mem_rangeMessages hread.numbers
  have hrange : ∀ e ∈ rangeMessages env s beginSeqNo endSeqNo, beginSeqNo ≤ e.1 ∧
      e.1 < s.cache.senderSeqNum ∧
      (min endSeqNo s.cache.senderSeqNum ≠ 0 → e.1 ≤ min endSeqNo s.cache.senderSeqNum) := by
    intro ⟨k, msg⟩ he
    obtain ⟨-, hge, hle⟩ := hmem.mp he
    unfold lastOf at hle
    refine ⟨hge, ?_, ?_⟩ <;> split at hle <;> omega
  have hplan := planRecovery_tiles_iff (rangeMessages_sorted env s beginSeqNo endSeqNo) hrange
    hbegin hlt (by omega) (by omega)
  rw [lastOf_min] at hplan
  rw [← tileable_rangeMessages hread.numbers hend, ← hplan]
  constructor
  · rintro ⟨⟨ivs, hivs, htiles⟩, honce, -⟩
    rw [map_interval?_of_sentAs hout] at hivs
    rw [← List.map_injective_iff.mpr (Option.some_injective _) hivs] at htiles
    refine ⟨htiles, fun ⟨k, msg⟩ he happ => ?_⟩
    obtain ⟨hcached, hge, hle⟩ := hmem.mp he
    rw [← countP_replays_of_sentAs hout]
    exact honce k msg hcached hge hle happ
  · rintro ⟨htiles, honce⟩
    refine ⟨⟨_, map_interval?_of_sentAs hout, htiles⟩, fun k msg hcached hge hle happ => ?_,
      fun m hm => ?_⟩
    · rw [countP_replays_of_sentAs hout]
      exact honce (k, msg) (hmem.mpr ⟨hcached, hge, hle⟩) happ
    · obtain ⟨e, he, hsentAs⟩ := exists_plan_of_sentAs hout hm
      cases e with
      | fill a b => exact .inl ⟨a, b, hsentAs⟩
      | replay k msg =>
          exact .inr ⟨k, msg, (hmem.mp (planRecovery_replay_mem he)).1, hsentAs.2, hsentAs.1⟩

/-- Whether a cached text can be read back, with a time of 21 bytes. -/
def readable (env : Env) (sender beginSeqNo last : Int) (e : Int × Bytes) : Bool :=
  decide (0 ≤ e.1 ∧ e.1 < sender) &&
    if beginSeqNo ≤ e.1 ∧ e.1 ≤ last then
      match env.dictionary.parse env.settings e.2 with
      | .ok msg =>
          msg.header.has Field.msgType && (!decide msg.IsApplication ||
            (decide (msg.header.getIntField Field.msgSeqNum = .ok e.1) &&
              decide (21 ≤ ((msg.header.field? Field.sendingTime).getD []).length)))
      | .error _ => false
    else true

theorem recoverable_of_all {env : Env} {s : Session} {beginSeqNo endSeqNo : Int}
    (hclock : ∀ n, (writeUTCTimestamp ((env.clock n).tdiv 1000)).length ≤ 21)
    (h : s.cache.messages.entries.all (readable env s.cache.senderSeqNum beginSeqNo
      (lastOf endSeqNo s.cache.senderSeqNum)) = true) :
    Recoverable env s beginSeqNo endSeqNo := by
  constructor
  · intro e he
    have he := List.all_eq_true.mp h e he
    rw [readable, Bool.and_eq_true, decide_eq_true_eq] at he
    exact he.1
  · intro e he hge hle
    have he := List.all_eq_true.mp h e he
    rw [readable, Bool.and_eq_true, if_pos ⟨hge, hle⟩] at he
    cases hparse : env.dictionary.parse env.settings e.2 with
    | error x => simp [hparse] at he
    | ok msg =>
        simp only [hparse, Bool.and_eq_true, Bool.or_eq_true, Bool.not_eq_true',
          decide_eq_false_iff_not, decide_eq_true_eq] at he
        obtain ⟨-, htype, hparts⟩ := he
        rw [FieldMap.has_eq, Option.isSome_iff_exists] at htype
        obtain ⟨t, htype⟩ := htype
        refine ⟨msg, rfl, ⟨t, FieldMap.getField_eq.mpr htype⟩, fun happ => ?_, fun happ => ?_⟩
        · exact (hparts.resolve_left (not_not_intro happ)).1
        · have hlength := (hparts.resolve_left (not_not_intro happ)).2
          cases htime : msg.header.field? Field.sendingTime with
          | none => simp [htime] at hlength
          | some time =>
              rw [htime, Option.getD_some] at hlength
              exact ⟨time, rfl, fun n => (hclock n).trans hlength⟩

/-- The acceptor of the tests with the default for NextExpectedMsgSeqNum: its logon has that in
the header, in front of the CompIDs, and is read back with the CompIDs in the body. -/
def expectingSettings : SessionSettings :=
  { acceptorSettings with sendNextExpectedMsgSeqNum := true }

/-- An acceptor that sent the answer to a logon and an order. -/
def orderedSession : Session :=
  after (do
    onNetworkMessage (testEnv expectingSettings) testLogon
    let order ← liftExcept (testDictionary.create (ascii "D"))
    send (testEnv expectingSettings) (order.setBody 11 (ascii "X")) none)
    (connectedSession expectingSettings)

theorem orderedSession_recoverable {endSeqNo : Int} (h : endSeqNo = 0 ∨ endSeqNo = 2) :
    Recoverable (testEnv expectingSettings) orderedSession 1 endSeqNo := by
  have hclock : ∀ n : Nat, (writeUTCTimestamp (((testEnv expectingSettings).clock n).tdiv
      1000)).length ≤ 21 := fun _ => by
    change (writeUTCTimestamp ((1709210096789000 : Int).tdiv 1000)).length ≤ 21
    decide +kernel
  rcases h with rfl | rfl
  · exact recoverable_of_all hclock (by decide +kernel)
  · exact recoverable_of_all hclock (by decide +kernel)

theorem knows_sequenceReset_test : Knows (testEnv expectingSettings) MsgType.sequenceReset :=
  ⟨_, rfl⟩

/-- A resend of the logon and the order, up to the order. -/
theorem runMessageRecovery_tiles_test :
    RangeResent (testEnv expectingSettings) orderedSession 1 2 (transmittedBetween orderedSession
        (after (runMessageRecovery (testEnv expectingSettings) 1 2) orderedSession)) ↔
      RangeTileable (testEnv expectingSettings) orderedSession 1 2 :=
  runMessageRecovery_tiles_iff (testEnv expectingSettings) knows_sequenceReset_test orderedSession
    (by decide +kernel) (by decide +kernel) 1 2 (orderedSession_recoverable (.inr rfl)) (by decide)
    (by decide +kernel) (by decide)

/-- Without an upper end the number of the order is announced again. -/
theorem not_runMessageRecovery_tiles : ¬∀ (env : Env) (_ : Knows env MsgType.sequenceReset)
    (s : Session) (_ : s.network.connected = true) (_ : s.cache.senderSeqNum < 2147483648)
    (beginSeqNo endSeqNo : Int) (_ : Recoverable env s beginSeqNo endSeqNo)
    (_ : 1 ≤ beginSeqNo) (_ : beginSeqNo < s.cache.senderSeqNum)
    (_ : endSeqNo = 0 ∨ beginSeqNo ≤ endSeqNo),
    RangeResent env s beginSeqNo endSeqNo
      (transmittedBetween s (after (runMessageRecovery env beginSeqNo endSeqNo) s)) := by
  intro h
  obtain ⟨ivs, hivs, htiles⟩ := (h (testEnv expectingSettings) knows_sequenceReset_test
    orderedSession (by decide +kernel) (by decide +kernel) 1 0
    (orderedSession_recoverable (.inl rfl)) (by decide) (by decide +kernel) (by decide)).tiles
  have hsent : (transmittedBetween orderedSession
      (after (runMessageRecovery (testEnv expectingSettings) 1 0) orderedSession)).map
        Message.interval? = [(1, 2), (2, 3), (2, 3)].map some := by decide +kernel
  rw [hsent] at hivs
  rw [← List.map_injective_iff.mpr (Option.some_injective _) hivs] at htiles
  have hbegin : Tiles (1 : Int) [(1, 2), (2, 3)] 3 := .cons (.cons (.nil 3))
  have hback := (hbegin.of_append htiles).head.1
  cases hback

end Session

end OpenFix
