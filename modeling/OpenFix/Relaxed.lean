import OpenFix.Lib.Loop
import OpenFix.Dictionary

/-!
# Strict and relaxed parsing

In relaxed mode the parser logs what it throws in strict mode, and goes on.  What it
does then depends on the place: it leaves the loop, skips a field, refuses one, or does
nothing.  A text that strict parsing accepts comes to none of these places, and the two
modes do the same on it.
-/

namespace OpenFix

open Loop

/-- The same settings, but for the mode of the parser. -/
structure Relaxes (strict relaxed : SessionSettings) : Prop where
  strictMode : strict.relaxedParsing = false
  relaxedMode : relaxed.relaxedParsing = true
  parsingReorderTags : relaxed.parsingReorderTags = strict.parsingReorderTags
  validateRequiredFields : relaxed.validateRequiredFields = strict.validateRequiredFields

theorem relaxes (settings : SessionSettings) :
    Relaxes { settings with relaxedParsing := false } { settings with relaxedParsing := true } :=
  ⟨rfl, rfl, rfl, rfl⟩

theorem extends_tryLogThrow {strict relaxed : SessionSettings} (h : Relaxes strict relaxed)
    (text : String) : Extends (tryLogThrow strict text) (tryLogThrow relaxed text) := by
  rw [tryLogThrow, h.strictMode]
  exact Extends.of_error _ _

namespace ParseState

variable {strict relaxed : SessionSettings} (h : Relaxes strict relaxed) (dict : Dictionary)

include h

/-- Where strict parsing throws, it does not matter how relaxed parsing goes on. -/
theorem extends_throw {α : Type} (text : String) (x : Unit → Except Exn α) :
    Extends (tryLogThrow strict text >>= x) (tryLogThrow relaxed text >>= x) :=
  (extends_tryLogThrow h text).bind fun _ => Extends.refl _

/-- A check in front of a computation. -/
theorem extends_check {α : Type} {p : Prop} [Decidable p] (text : String) {x y : Unit → Except Exn α}
    (hx : Extends (x ()) (y ())) :
    Extends (if p then tryLogThrow strict text >>= x else x ())
      (if p then tryLogThrow relaxed text >>= y else y ()) :=
  Extends.ite (fun _ => (extends_tryLogThrow h text).bind fun _ => hx) fun _ => hx

theorem extends_noteLength (st : ParseState) (f : WireField) :
    Extends (st.noteLength strict dict f) (st.noteLength relaxed dict f) := by
  rw [noteLength, noteLength]
  refine Extends.ite (fun _ => ?_) fun _ => Extends.refl _
  exact Extends.ite (fun _ => extends_throw h _ _) fun _ => Extends.refl _

theorem extends_setField (st : ParseState) (ref : GroupRef) (f : WireField) :
    Extends (st.setField strict dict ref f) (st.setField relaxed dict ref f) :=
  (extends_noteLength h dict st f).bind fun _ => Extends.refl _

theorem extends_validateGroup (st : ParseState) (ref : GroupRef) (spec : Option GroupSpec) :
    Extends (st.validateGroup strict ref spec) (st.validateGroup relaxed ref spec) := by
  cases spec with
  | none =>
      rw [validateGroup, validateGroup]
      rw [h.parsingReorderTags, h.validateRequiredFields]
      exact Extends.refl _
  | some s =>
      rw [validateGroup, validateGroup]
      rw [h.parsingReorderTags, h.validateRequiredFields]
      exact Extends.ite (fun _ => extends_throw h _ _) fun _ => Extends.refl _

theorem extends_popStack (keep : Nat) : ∀ (stack : List ParserGroupInfo) (st : ParseState),
    Extends (popStack strict keep stack st) (popStack relaxed keep stack st) := by
  intro stack
  induction stack with
  | nil =>
      intro st
      exact Extends.refl _
  | cons g below ih =>
      intro st
      rw [popStack, popStack]
      refine Extends.ite (fun _ => ?_) fun _ => Extends.refl _
      exact extends_check h _ ((extends_validateGroup h st g.group g.spec).bind ih)

theorem extends_overwriteStack (keep : Nat) (st : ParseState) :
    Extends (overwriteStack strict keep st) (overwriteStack relaxed keep st) :=
  extends_popStack h keep st.stack st

theorem extends_handleRepeatingTag (st : ParseState) (group : ParserGroupInfo) (groupIdx : Nat)
    (parent : Option ParserGroupInfo) (f : WireField) :
    Extends (st.handleRepeatingTag strict dict group groupIdx parent f)
      (st.handleRepeatingTag relaxed dict group groupIdx parent f) := by
  rw [handleRepeatingTag, handleRepeatingTag]
  refine Extends.ite (fun _ => ?_) fun _ => extends_throw h _ _
  refine Extends.ite (fun _ => extends_throw h _ _) fun _ => ?_
  exact (extends_validateGroup h st group.group group.spec).bind fun _ => Extends.refl _

theorem extends_trySetField (st : ParseState) (group : ParserGroupInfo) (groupIdx : Nat)
    (parent : Option ParserGroupInfo) (f : WireField) :
    Extends (st.trySetField strict dict group groupIdx parent f)
      (st.trySetField relaxed dict group groupIdx parent f) := by
  have hrepeat := extends_handleRepeatingTag h dict st group groupIdx parent f
  rw [trySetField, trySetField]
  cases group.spec with
  | none => exact Extends.refl _
  | some spec =>
      dsimp only
      refine Extends.ite (fun _ => ?_) fun _ => ?_
      · refine Extends.ite (fun _ => hrepeat) fun _ => ?_
        exact (extends_noteLength h dict _ f).bind fun _ => Extends.refl _
      · cases spec.findGroup f.tag with
        | none => exact Extends.refl _
        | some groupSpec =>
            refine Extends.ite (fun _ => hrepeat) fun _ => ?_
            refine Extends.ite (fun _ => extends_throw h _ _) fun _ => ?_
            refine Extends.ite (fun _ => Extends.refl _) fun _ => ?_
            exact (extends_setField h dict _ group.group f).bind fun _ => Extends.refl _

theorem extends_dispatchStack (f : WireField) : ∀ (stack above : List ParserGroupInfo)
    (st : ParseState), Extends (dispatchStack strict dict f above stack st)
      (dispatchStack relaxed dict f above stack st) := by
  intro stack
  induction stack with
  | nil =>
      intro above st
      exact Extends.refl _
  | cons g below ih =>
      intro above st
      rw [dispatchStack, dispatchStack]
      refine (extends_trySetField h dict st g below.length below.head? f).bind fun r => ?_
      cases r.idx with
      | some idx => exact Extends.refl _
      | none => exact ih (above ++ [g]) r.st

theorem extends_dispatchUnknown (f : WireField) (st : ParseState) :
    Extends (dispatchUnknown strict dict f st) (dispatchUnknown relaxed dict f st) := by
  rw [dispatchUnknown, dispatchUnknown]
  cases st.stack.head? with
  | none => exact Extends.refl _
  | some top => exact extends_setField h dict st top.group f

theorem extends_dispatchTrailer (f : WireField) (st : ParseState) :
    Extends (dispatchTrailer strict dict f st) (dispatchTrailer relaxed dict f st) := by
  rw [dispatchTrailer, dispatchTrailer]
  refine Extends.ite (fun _ => ?_) fun _ => extends_dispatchUnknown h dict f st
  refine (extends_trySetField h dict st (trailerInfo dict) 0 none f).bind fun r => ?_
  cases r.idx with
  | none => exact extends_dispatchUnknown h dict f r.st
  | some idx =>
      cases r.st.stack.getLast? with
      | none => exact Extends.refl _
      | some bottom =>
          refine (extends_validateGroup h r.st bottom.group bottom.spec).bind fun st => ?_
          exact extends_overwriteStack h (idx + 1) _

theorem extends_bodySpecOf (st : ParseState) :
    Extends (st.bodySpecOf strict dict) (st.bodySpecOf relaxed dict) := by
  rw [bodySpecOf, bodySpecOf]
  cases st.msg.header.getField Field.msgType with
  | ok msgType => exact Extends.refl _
  | error _ => exact extends_throw h _ _

theorem extends_dispatchBody (f : WireField) (st : ParseState) :
    Extends (dispatchBody strict dict f st) (dispatchBody relaxed dict f st) := by
  rw [dispatchBody, dispatchBody]
  refine Extends.ite (fun _ => ?_) fun _ => extends_dispatchTrailer h dict f st
  refine (extends_overwriteStack h 0 st).bind fun st => ?_
  refine (extends_bodySpecOf h dict st).bind fun bodySpec => ?_
  refine (extends_trySetField h dict _ _ 0 none f).bind fun r => ?_
  cases r.idx with
  | some _ => exact Extends.refl _
  | none => exact extends_dispatchTrailer h dict f r.st

theorem extends_dispatchField (f : WireField) (st : ParseState) :
    Extends (dispatchField strict dict f st) (dispatchField relaxed dict f st) := by
  rw [dispatchField, dispatchField]
  cases st.stack.head? with
  | none => exact Extends.refl _
  | some top =>
      dsimp only
      cases top.spec with
      | none => exact Extends.refl _
      | some spec =>
          refine Extends.ite (fun _ => extends_dispatchBody h dict f st) fun _ => ?_
          refine (extends_dispatchStack h dict f st.stack [] st).bind fun r => ?_
          obtain ⟨idx, st'⟩ := r
          cases idx with
          | some idx => exact extends_overwriteStack h (idx + 1) st'
          | none => exact extends_dispatchBody h dict f st'

end ParseState

section

variable {strict relaxed : SessionSettings} (h : Relaxes strict relaxed) (dict : Dictionary)

include h

theorem extends_checkTagOrder (tagCount : Nat) (tag : Int) :
    Extends (checkTagOrder strict tagCount tag) (checkTagOrder relaxed tagCount tag) := by
  rw [checkTagOrder, checkTagOrder]
  refine ParseState.extends_check h _ (ParseState.extends_check h _ ?_)
  exact Extends.ite (fun _ => extends_tryLogThrow h _) fun _ => Extends.refl _

theorem extends_parseDataField (tag : Int) (len : Nat) (rest : Bytes) (st : ParseState) :
    Extends (parseDataField strict tag len rest st) (parseDataField relaxed tag len rest st) := by
  rw [parseDataField, parseDataField]
  exact Extends.ite (fun _ => ParseState.extends_throw h _ _) fun _ => Extends.refl _

theorem extends_parseValue (size : Nat) (rest : Bytes) (st : ParseState) :
    Extends (parseValue strict dict size rest st) (parseValue relaxed dict size rest st) := by
  rw [parseValue, parseValue]
  split
  next len hlen htype =>
    exact (extends_parseDataField h st.tag len rest st).bind fun _ => Extends.refl _
  next =>
    dsimp only
    cases splitByte internalSohChar rest with
    | none => exact ParseState.extends_throw h _ _
    | some r => exact (ParseState.extends_dispatchField h dict _ _).bind fun _ => Extends.refl _

/-- The loop takes the same rounds, as long as strict parsing goes on. -/
theorem extends_parseLoop (size : Nat) : ∀ (fuel : Nat) (text : Bytes) (st : ParseState),
    Extends (parseLoop strict dict size fuel text st) (parseLoop relaxed dict size fuel text st) := by
  intro fuel
  induction fuel with
  | zero =>
      intro text st
      exact Extends.refl _
  | succ fuel ih =>
      intro text st
      cases text with
      | nil => exact Extends.refl _
      | cons c cs =>
          rw [parseLoop, parseLoop]
          cases splitByte tagAssignmentChar (c :: cs) with
          | none => exact ParseState.extends_throw h _ _
          | some r =>
              obtain ⟨tagText, rest⟩ := r
              refine Extends.ite (fun _ => ?_) fun _ => ?_
              · refine (extends_tryLogThrow h _).bind fun _ => ?_
                cases splitByte internalSohChar rest with
                | none => exact Extends.refl _
                | some r => exact ih r.2 _
              · refine (extends_checkTagOrder h _ _).bind fun _ => ?_
                refine (extends_parseValue h dict size rest _).bind fun r => ?_
                obtain ⟨next, st'⟩ := r
                cases next with
                | none => exact Extends.refl _
                | some rest => exact ih rest st'

/-- The frame is checked in strict mode only, and the check does not change the message. -/
theorem extends_parse (text : Bytes) :
    Extends (dict.parse strict text) (dict.parse relaxed text) := by
  rw [Dictionary.parse, Dictionary.parse]
  refine (extends_parseLoop h dict _ _ text _).bind fun st => ?_
  refine (ParseState.extends_overwriteStack h 0 st).bind fun st => ?_
  refine ParseState.extends_check h _ ?_
  rw [h.strictMode, h.relaxedMode]
  intro msg hmsg
  obtain ⟨_, -, hmsg⟩ := bind_eq_ok.mp hmsg
  exact hmsg

end

/-- What strict parsing accepts, relaxed parsing reads as the same message. -/
theorem parse_relaxed {dict : Dictionary} {settings : SessionSettings} {text : Bytes} {msg : Message}
    (h : dict.parse { settings with relaxedParsing := false } text = .ok msg) :
    dict.parse { settings with relaxedParsing := true } text = .ok msg :=
  extends_parse (relaxes settings) dict text msg h

theorem parse_relaxed_test : ∃ msg,
    testDictionary.parse {} (wireOf "8=FIX.4.4|9=11|35=0|112=7|10=217|") = .ok msg ∧
      testDictionary.parse { relaxedParsing := true }
        (wireOf "8=FIX.4.4|9=11|35=0|112=7|10=217|") = .ok msg :=
  ⟨_, rfl, @parse_relaxed testDictionary {} _ _ rfl⟩

end OpenFix
