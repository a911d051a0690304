import OpenFix.Lib.Loop
import OpenFix.Dictionary

/-!
# Runs of the parser

`Dictionary.parse` is a loop over the fields of a text.  Here the loop is taken apart
into its rounds, and for each function that a round calls it is said once what it does
when it returns, and which errors it raises.

The entry of the group stack that takes a field changes in one of three ways: the
field is added to its map, it opens a group below that, or it starts the next
instance of the group.
-/

namespace OpenFix

open Loop

/-! ## The rounds -/

section

variable (settings : SessionSettings) (dict : Dictionary) (size : Nat)

/-- What a round leaves of the text and makes of the state, unless it is the last one. -/
def parseRound : Bytes × ParseState → Except Exn ((Bytes × ParseState) ⊕ ParseState)
  | ([], st) => .ok (.inr st)
  | (c :: cs, st) =>
      match splitByte tagAssignmentChar (c :: cs) with
      | none => do
          tryLogThrow settings "Missing tag assignment in remaining message"
          .ok (.inr st)
      | some (tagText, rest) =>
          if fastParseTag tagText < 0 then do
            tryLogThrow settings "Tag not int"
            let st := { st with tag := fastParseTag tagText, tagCount := st.tagCount + 1 }
            match splitByte internalSohChar rest with
            | none => .ok (.inr st)
            | some (_, rest) => .ok (.inl (rest, st))
          else do
            checkTagOrder settings st.tagCount (fastParseTag tagText)
            let (next, st) ← parseValue settings dict size rest
              { st with tag := fastParseTag tagText, tagCount := st.tagCount + 1 }
            match next with
            | none => .ok (.inr st)
            | some rest => .ok (.inl (rest, st))

variable {settings dict size}

theorem splitByte_eq {b : UInt8} {text before after : Bytes}
    (h : splitByte b text = some (before, after)) : text = before ++ b :: after ∧ b ∉ before := by
  induction text generalizing before with
  | nil => cases h
  | cons c text ih =>
      rw [splitByte] at h
      split at h
      next hc =>
        cases h
        exact ⟨by rw [hc, List.nil_append], by simp⟩
      next hc =>
        rw [Option.map_eq_some_iff] at h
        obtain ⟨⟨p, q⟩, hp, hq⟩ := h
        cases hq
        obtain ⟨htext, hnot⟩ := ih hp
        refine ⟨by rw [htext, List.cons_append], ?_⟩
        rw [List.mem_cons, not_or]
        exact ⟨fun heq => hc heq.symm, hnot⟩

theorem splitByte_append {b : UInt8} {before : Bytes} (h : b ∉ before) (after : Bytes) :
    splitByte b (before ++ b :: after) = some (before, after) := by
  induction before with
  | nil => simp [splitByte]
  | cons c before ih =>
      rw [List.mem_cons, not_or] at h
      rw [List.cons_append, splitByte, if_neg fun hc => h.1 hc.symm, ih h.2]
      rfl

theorem splitByte_length {b : UInt8} {text before after : Bytes}
    (h : splitByte b text = some (before, after)) : after.length < text.length := by
  rw [(splitByte_eq h).1, List.length_append, List.length_cons]
  omega

theorem parseDataField_ok {tag : Int} {len : Nat} {rest next : Bytes} {st st' : ParseState}
    (h : parseDataField settings tag len rest st = .ok (next, st')) :
    len ≤ rest.length ∧ next = rest.drop (len + 1) ∧ ∃ top ∈ st.stack.head?,
      st' = { st.modify (fun m => m.setFieldView tag (rest.take len) false) top.group with
        dataLength := none } := by
  rw [parseDataField] at h
  split at h
  next hlen =>
    rw [tryLogThrow] at h
    split at h
    · cases h
    · cases h
  next hlen =>
    split at h
    next => cases h
    next top htop =>
      cases h
      exact ⟨Nat.le_of_not_lt hlen, rfl, top, htop, rfl⟩

/-- How a value is read: as data of the length that was announced, or up to the separator. -/
theorem parseValue_eq (settings : SessionSettings) (dict : Dictionary) (size : Nat) (rest : Bytes)
    (st : ParseState) :
    (∃ len, st.dataLength = some len ∧ dict.getFieldType st.tag = .data ∧
      parseValue settings dict size rest st =
        (parseDataField settings st.tag len rest st).map fun r => (some r.1, r.2)) ∨
    ((st.dataLength = none ∨ dict.getFieldType st.tag ≠ .data) ∧
      parseValue settings dict size rest st = match splitByte internalSohChar rest with
        | none => do
            tryLogThrow settings "Message does not end in SOH character"
            .ok (none, { st with dataLength := none })
        | some (val, rest) => do
            let st ← ParseState.dispatchField settings dict
              ⟨st.tag, val, size - (rest.length + 1)⟩ { st with dataLength := none }
            .ok (some rest, st)) := by
  unfold parseValue
  split
  next len hlen htype =>
    refine .inl ⟨len, hlen, htype, ?_⟩
    cases parseDataField settings st.tag len rest st with
    | ok r => rfl
    | error e => rfl
  next hnot =>
    refine .inr ⟨?_, rfl⟩
    cases hlen : st.dataLength with
    | none => exact .inl rfl
    | some len => exact .inr fun htype => hnot len hlen htype

/-- What a round of a field did with the value. -/
theorem parseValue_ok {rest next : Bytes} {st st' : ParseState}
    (h : parseValue settings dict size rest st = .ok (some next, st')) :
    (∃ len, st.dataLength = some len ∧ dict.getFieldType st.tag = .data ∧
      parseDataField settings st.tag len rest st = .ok (next, st')) ∨
    ((st.dataLength = none ∨ dict.getFieldType st.tag ≠ .data) ∧
      ∃ val, splitByte internalSohChar rest = some (val, next) ∧
        ParseState.dispatchField settings dict ⟨st.tag, val, size - (next.length + 1)⟩
          { st with dataLength := none } = .ok st') := by
  rcases parseValue_eq settings dict size rest st with
    ⟨len, hlen, htype, heq⟩ | ⟨htype, heq⟩
  · rw [heq] at h
    cases hdata : parseDataField settings st.tag len rest st with
    | error e =>
        rw [hdata] at h
        cases h
    | ok r =>
        rw [hdata] at h
        cases h
        exact .inl ⟨len, hlen, htype, hdata⟩
  · refine .inr ⟨htype, ?_⟩
    rw [heq] at h
    split at h
    next =>
      obtain ⟨_, -, h⟩ := bind_eq_ok.mp h
      cases h
    next val rest' hsplit =>
      obtain ⟨st'', hdispatch, h⟩ := bind_eq_ok.mp h
      cases h
      exact ⟨val, hsplit, hdispatch⟩

theorem parseValue_length {rest next : Bytes} {st st' : ParseState}
    (h : parseValue settings dict size rest st = .ok (some next, st')) :
    next.length ≤ rest.length := by
  rcases parseValue_ok h with ⟨len, -, -, hdata⟩ | ⟨-, val, hsplit, -⟩
  · rw [(parseDataField_ok hdata).2.1, List.length_drop]
    omega
  · exact Nat.le_of_lt (splitByte_length hsplit)

/-- Every round that goes on takes a byte at least. -/
theorem parseRound_length {text text' : Bytes} {st st' : ParseState}
    (h : parseRound settings dict size (text, st) = .ok (.inl (text', st'))) :
    text'.length < text.length := by
  cases text with
  | nil => cases h
  | cons c cs =>
      rw [parseRound] at h
      split at h
      next =>
        obtain ⟨_, -, h⟩ := bind_eq_ok.mp h
        cases h
      next tagText rest hsplit =>
        have hrest := splitByte_length hsplit
        split at h
        next =>
          obtain ⟨_, -, h⟩ := bind_eq_ok.mp h
          dsimp only at h
          split at h
          next => cases h
          next hsoh =>
            cases h
            exact Nat.lt_trans (splitByte_length hsoh) hrest
        next =>
          obtain ⟨_, -, h⟩ := bind_eq_ok.mp h
          obtain ⟨⟨next, st''⟩, hvalue, h⟩ := bind_eq_ok.mp h
          cases next with
          | none => cases h
          | some next =>
              cases h
              exact Nat.lt_of_le_of_lt (parseValue_length hvalue) hrest

/-! ## The loop and its rounds -/

theorem parseLoop_succ (fuel : Nat) (text : Bytes) (st : ParseState) :
    parseLoop settings dict size (fuel + 1) text st =
      match parseRound settings dict size (text, st) with
      | .ok (.inl (text, st)) => parseLoop settings dict size fuel text st
      | .ok (.inr st) => .ok st
      | .error e => .error e := by
  cases text with
  | nil => rfl
  | cons c cs =>
      rw [parseLoop, parseRound]
      cases splitByte tagAssignmentChar (c :: cs) with
      | none =>
          dsimp only
          cases tryLogThrow settings "Missing tag assignment in remaining message" with
          | error e => rfl
          | ok _ => rfl
      | some p =>
          obtain ⟨tagText, rest⟩ := p
          dsimp only
          split
          next =>
            cases tryLogThrow settings "Tag not int" with
            | error e => rfl
            | ok _ =>
                cases splitByte internalSohChar rest with
                | none => rfl
                | some p => rfl
          next =>
            cases checkTagOrder settings st.tagCount (fastParseTag tagText) with
            | error e => rfl
            | ok _ =>
                cases parseValue settings dict size rest
                    { st with tag := fastParseTag tagText, tagCount := st.tagCount + 1 } with
                | error e => rfl
                | ok r =>
                    obtain ⟨next, st'⟩ := r
                    cases next with
                    | none => rfl
                    | some next => rfl

/-- The loop comes out as its rounds do. -/
theorem ends_parseLoop : ∀ (fuel : Nat) (text : Bytes) (st : ParseState), text.length ≤ fuel →
    Ends (parseRound settings dict size) (text, st)
      (parseLoop settings dict size fuel text st) := by
  intro fuel
  induction fuel with
  | zero =>
      intro text st hlength
      rw [List.length_eq_zero_iff.mp (Nat.le_zero.mp hlength)]
      exact .stop rfl
  | succ fuel ih =>
      intro text st hlength
      rw [parseLoop_succ]
      cases hround : parseRound settings dict size (text, st) with
      | error e => exact .stop hround
      | ok r =>
          cases r with
          | inr st' => exact .stop hround
          | inl next =>
              obtain ⟨text', st'⟩ := next
              have hless := parseRound_length hround
              exact .next hround (ih text' st' (by omega))

end

/-! ## Changing a map twice -/

namespace FieldMap

theorem modifyAt_modifyAt (f g : FieldMap → FieldMap) : ∀ (path : List (Int × Nat)) (m : FieldMap),
    modifyAt g path (modifyAt f path m) = modifyAt (fun m => g (f m)) path m
  | [], _ => rfl
  | (tag, i) :: path, m => by
      have ih := modifyAt_modifyAt f g path
      have hinstances : ∀ ms : List FieldMap, (ms.modify i (modifyAt f path)).modify i
          (modifyAt g path) = ms.modify i (modifyAt (fun m => g (f m)) path) := by
        intro ms
        rw [List.modify_modify_eq]
        congr 1
        funext m
        exact ih m
      simp only [modifyAt, AssocList.modify_modify]
      congr 2
      funext ms
      exact hinstances ms

end FieldMap

namespace ParseState

theorem modify_modify (f g : FieldMap → FieldMap) (st : ParseState) (ref : GroupRef) :
    (st.modify f ref).modify g ref = st.modify (fun m => g (f m)) ref := by
  obtain ⟨sec, path⟩ := ref
  simp only [modify, Message.modify]
  cases sec with
  | header => simp only [Message.modifySection, FieldMap.modifyAt_modifyAt]
  | body => simp only [Message.modifySection, FieldMap.modifyAt_modifyAt]
  | trailer => simp only [Message.modifySection, FieldMap.modifyAt_modifyAt]

@[simp] theorem modify_stack (f : FieldMap → FieldMap) (st : ParseState) (ref : GroupRef) :
    (st.modify f ref).stack = st.stack := rfl

@[simp] theorem modify_msgState (f : FieldMap → FieldMap) (st : ParseState) (ref : GroupRef) :
    (st.modify f ref).msgState = st.msgState := rfl

/-! ## What each function does -/

/-- An error that the parser throws. -/
def IsParsingError (e : Exn) : Prop := ∃ text, e = .messageParsingError text

/-- The use of a specification that is not there. -/
def nullSpec : Exn := .undefined "null specification"

theorem nullSpec_ne {e : Exn} (h : IsParsingError e) : e ≠ nullSpec := by
  obtain ⟨text, rfl⟩ := h
  intro h
  cases h

/-- The length that a field announces. -/
def announced (dict : Dictionary) (f : WireField) : Option Nat :=
  if dict.getFieldType f.tag = .length ∧ 0 ≤ fastParseTag f.val then
    some (fastParseTag f.val).toNat
  else none

def announce (dict : Dictionary) (f : WireField) (st : ParseState) : ParseState :=
  { st with dataLength := (announced dict f).or st.dataLength }

theorem announce_eq (dict : Dictionary) (f : WireField) (st : ParseState) :
    st.announce dict f = if dict.getFieldType f.tag = .length ∧ 0 ≤ fastParseTag f.val then
      { st with dataLength := some (fastParseTag f.val).toNat } else st := by
  rw [announce, announced]
  split
  next => rfl
  next => rfl

/-- A field map that is finished. -/
def finishMap (settings : SessionSettings) (spec : Option GroupSpec) (m : FieldMap) : FieldMap :=
  if settings.parsingReorderTags && spec.any GroupSpec.ordered then (m.setSpec spec).sortFields
  else m.setSpec spec

/-- An entry whose map is finished. -/
def finish (settings : SessionSettings) (st : ParseState) (g : ParserGroupInfo) : ParseState :=
  st.modify (finishMap settings g.spec) g.group

section

variable {settings : SessionSettings} {dict : Dictionary}

theorem yields_tryLogThrow (settings : SessionSettings) (text : String) :
    Yields (tryLogThrow settings text) (fun _ => settings.relaxedParsing = true) IsParsingError := by
  rw [tryLogThrow]
  split
  next h => exact h
  next => exact ⟨text, rfl⟩

/-- A check that fails ends the parse, or is only logged. -/
theorem yields_check {α : Type} {p : Prop} {_ : Decidable p} {text : String} {x : Unit → Except Exn α}
    {Q : α → Prop} {E : Exn → Prop} (hthrow : ∀ text, E (.messageParsingError text))
    (hx : settings.relaxedParsing = true ∨ ¬p → Yields (x ()) Q E) :
    Yields (if p then tryLogThrow settings text >>= x else x ()) Q E := by
  split
  next =>
    refine ((yields_tryLogThrow settings text).mono (fun _ h => h) ?_).bind fun _ h => hx (.inl h)
    intro e ⟨text, he⟩
    rw [he]
    exact hthrow text
  next hp => exact hx (.inr hp)

/-- A check with nothing behind it. -/
theorem yields_lastCheck {p : Prop} {_ : Decidable p} {text : String} {Q : Unit → Prop}
    {E : Exn → Prop} (hthrow : ∀ text, E (.messageParsingError text))
    (hx : settings.relaxedParsing = true ∨ ¬p → Q ()) :
    Yields (if p then tryLogThrow settings text else pure ()) Q E := by
  split
  next =>
    refine (yields_tryLogThrow settings text).mono (fun _ h => hx (.inl h)) ?_
    intro e ⟨text, he⟩
    rw [he]
    exact hthrow text
  next hp => exact hx (.inr hp)

theorem yields_noteLength (st : ParseState) (f : WireField) :
    Yields (st.noteLength settings dict f) (fun st' => st' = st.announce dict f) IsParsingError := by
  rw [noteLength, announce, announced]
  split
  next htype =>
    split
    next hneg =>
      refine (yields_tryLogThrow settings _).bind fun _ _ => ?_
      show st = _
      rw [if_neg fun h => absurd h.2 (by omega), Option.none_or]
    next hneg =>
      show _ = _
      rw [if_pos ⟨htype, by omega⟩, Option.some_or]
  next htype =>
    show st = _
    rw [if_neg fun h => htype h.1, Option.none_or]

/-! ## Fields that are set -/

theorem yields_setField (st : ParseState) (ref : GroupRef) (f : WireField) :
    Yields (st.setField settings dict ref f)
      (fun st' => st' = ((st.announce dict f).noteBodyLength f).modify
        (fun m => m.setFieldView f.tag f.val false) ref) IsParsingError := by
  refine (yields_noteLength st f).bind fun st' hst' => ?_
  rw [hst']
  rfl

theorem yields_validateGroup (st : ParseState) (ref : GroupRef) (spec : Option GroupSpec) :
    Yields (st.validateGroup settings ref spec)
      (fun st' => st' = st.modify (finishMap settings spec) ref)
      fun e => IsParsingError e ∨ spec = none ∧ e = nullSpec := by
  cases spec with
  | none =>
      rw [validateGroup]
      split
      next => exact .inr ⟨rfl, rfl⟩
      next h =>
        rw [Bool.or_eq_true, not_or, Bool.not_eq_true] at h
        show _ = _
        congr 1
        funext m
        rw [finishMap, h.1, Bool.false_and]
        rfl
  | some s =>
      have hfinish : (if (settings.parsingReorderTags && s.ordered) = true then
          (st.modify (fun m => m.setSpec (some s)) ref).modify FieldMap.sortFields ref
          else st.modify (fun m => m.setSpec (some s)) ref) =
          st.modify (finishMap settings (some s)) ref := by
        rw [modify_modify]
        split
        next h =>
          congr 1
          funext m
          rw [finishMap, Option.any_some, if_pos h]
        next h =>
          congr 1
          funext m
          rw [finishMap, Option.any_some, if_neg h]
      rw [validateGroup, hfinish]
      split
      next =>
        refine Yields.bind ((yields_tryLogThrow settings _).mono (fun _ h => h) fun _ => .inl) ?_
        intro _ _
        rfl
      next => rfl

theorem yields_popStack (keep : Nat) : ∀ (stack : List ParserGroupInfo) (st : ParseState),
    Yields (popStack settings keep stack st)
      (fun st' => st' = { (stack.take (stack.length - keep)).foldl (finish settings) st with
        stack := stack.drop (stack.length - keep) })
      fun e => IsParsingError e ∨ (∃ g ∈ stack, g.spec = none) ∧ e = nullSpec := by
  intro stack
  induction stack with
  | nil =>
      intro st
      show _ = _
      simp
  | cons g below ih =>
      intro st
      rw [popStack]
      split
      next hkeep =>
        have hcount : (g :: below).length - keep = below.length - keep + 1 := by
          rw [List.length_cons]
          omega
        rw [hcount, List.take_succ_cons, List.drop_succ_cons, List.foldl_cons]
        have hrest : Yields (do
              let st ← st.validateGroup settings g.group g.spec
              popStack settings keep below st)
            (fun st' => st' =
              { (below.take (below.length - keep)).foldl (finish settings) (st.finish settings g) with
                stack := below.drop (below.length - keep) })
            fun e => IsParsingError e ∨ (∃ g' ∈ g :: below, g'.spec = none) ∧ e = nullSpec := by
          refine ((yields_validateGroup st g.group g.spec).mono (fun _ h => h) ?_).bind ?_
          · intro e he
            exact he.imp id fun hnull => ⟨⟨g, List.mem_cons_self .., hnull.1⟩, hnull.2⟩
          · intro st' hst'
            rw [hst']
            refine (ih _).mono (fun _ h => h) ?_
            intro e he
            exact he.imp id fun ⟨⟨g', hg', hnull⟩, h⟩ =>
              ⟨⟨g', List.mem_cons_of_mem _ hg', hnull⟩, h⟩
        dsimp only
        split
        · refine Yields.bind ((yields_tryLogThrow settings _).mono (fun _ h => h) fun _ => .inl) ?_
          intro _ _
          exact hrest
        · exact hrest
      next hkeep =>
        have hcount : (g :: below).length - keep = 0 := by
          rw [List.length_cons]
          omega
        rw [hcount]
        rfl

/-- The state when the entries above the last ones are finished. -/
def closeTo (settings : SessionSettings) (keep : Nat) (st : ParseState) : ParseState :=
  { (st.stack.take (st.stack.length - keep)).foldl (finish settings) st with
    stack := st.stack.drop (st.stack.length - keep) }

theorem yields_overwriteStack (keep : Nat) (st : ParseState) :
    Yields (overwriteStack settings keep st) (fun st' => st' = st.closeTo settings keep)
      fun e => IsParsingError e ∨ (∃ g ∈ st.stack, g.spec = none) ∧ e = nullSpec :=
  yields_popStack keep st.stack st

/-! ## Fields that are offered to an entry -/

/-- The state behind a field that is the first one of the next instance of its group. -/
def nextInstance (settings : SessionSettings) (dict : Dictionary) (st : ParseState)
    (group parent : ParserGroupInfo) (f : WireField) : ParseState :=
  let st := st.finish settings group
  let ref := parent.group.child group.groupTag ((st.get parent.group).getGroupCount group.groupTag)
  ((st.modify (fun m => m.addGroup group.groupTag) parent.group).modify
    (fun m => (m.setFieldViewOrDetectDup f.tag f.val).2) ref).announce dict f

/-- The state behind a field that opens a group below the entry. -/
def openGroup (dict : Dictionary) (st : ParseState) (group : ParserGroupInfo) (f : WireField) :
    ParseState :=
  (((st.modify (fun m => m.addGroup f.tag) group.group).announce dict f).noteBodyLength f).modify
    (fun m => m.setFieldView f.tag f.val false) group.group

/-- The state behind a field that is added to the map of the entry. -/
def addField (dict : Dictionary) (st : ParseState) (group : ParserGroupInfo) (f : WireField) :
    ParseState :=
  ((st.modify (fun m => (m.setFieldViewOrDetectDup f.tag f.val).2) group.group).announce dict
    f).noteBodyLength f

/-- The entry of a group that was opened. -/
def openedInfo (group : ParserGroupInfo) (spec : GroupSpec) (f : WireField) : ParserGroupInfo where
  spec := some spec
  group := group.group.child f.tag 0
  groupTag := f.tag
  groupCount := 1
  groupMaxCount := (fastParseTag f.val).toNat

/-- The entry has seen the tag, as a field or as a group. -/
def Seen (st : ParseState) (group : ParserGroupInfo) (f : WireField) : Prop :=
  ∃ spec, group.spec = some spec ∧
    (spec.hasField f.tag = true ∧
        ((st.get group.group).setFieldViewOrDetectDup f.tag f.val).1 = true ∨
      spec.hasField f.tag = false ∧ (spec.findGroup f.tag).isSome = true ∧
        0 < (st.get group.group).getGroupCount f.tag)

/-- What an entry does with a field. -/
inductive Offered (settings : SessionSettings) (dict : Dictionary) (st : ParseState)
    (group : ParserGroupInfo) (groupIdx : Nat) (parent : Option ParserGroupInfo) (f : WireField) :
    Tried → Prop where
  | refused (hspec : group.spec ≠ none)
      (hrefused : settings.relaxedParsing = true ∨ ∃ spec, group.spec = some spec ∧
        spec.hasField f.tag = false ∧ spec.findGroup f.tag = none) :
      Offered settings dict st group groupIdx parent f ⟨st, group, [], none⟩
  | added {spec : GroupSpec} (hspec : group.spec = some spec)
      (hfield : spec.hasField f.tag = true)
      (hnew : ((st.get group.group).setFieldViewOrDetectDup f.tag f.val).1 = false) :
      Offered settings dict st group groupIdx parent f
        ⟨st.addField dict group f, group, [], some groupIdx⟩
  | opened {spec groupSpec : GroupSpec} (hspec : group.spec = some spec)
      (hfield : spec.hasField f.tag = false) (hgroup : spec.findGroup f.tag = some groupSpec)
      (hnew : (st.get group.group).getGroupCount f.tag = 0)
      (hroom : st.stack.length < groupStackSlots) :
      Offered settings dict st group groupIdx parent f
        ⟨st.openGroup dict group f, group, [openedInfo group groupSpec f], some (groupIdx + 1)⟩
  | next {p : ParserGroupInfo} (hspec : group.spec ≠ none) (hparent : parent = some p)
      (htag : 0 < group.groupTag)
      (hcount : group.groupCount ≠ group.groupMaxCount) (hseen : Seen st group f) :
      Offered settings dict st group groupIdx parent f
        ⟨st.nextInstance settings dict group p f,
          { group with
            group := p.group.child group.groupTag
              (((st.finish settings group).get p.group).getGroupCount group.groupTag)
            groupCount := group.groupCount + 1 }, [], some groupIdx⟩

/-- An error that is not the use of a specification that is not there, unless it is none. -/
def OfferError (group : ParserGroupInfo) (e : Exn) : Prop :=
  e ≠ nullSpec ∨ group.spec = none

theorem yields_handleRepeatingTag (st : ParseState) (group : ParserGroupInfo) (groupIdx : Nat)
    (parent : Option ParserGroupInfo) (f : WireField) (hspec : group.spec ≠ none)
    (hseen : Seen st group f) :
    Yields (st.handleRepeatingTag settings dict group groupIdx parent f)
      (Offered settings dict st group groupIdx parent f) (OfferError group) := by
  rw [handleRepeatingTag]
  split
  next htag =>
    split
    next =>
      exact ((yields_tryLogThrow settings _).mono (fun _ h => h)
        fun _ h => .inl (nullSpec_ne h)).bind fun _ h => .refused hspec (.inl h)
    next hcount =>
      refine ((yields_validateGroup st group.group group.spec).mono (fun _ h => h) ?_).bind ?_
      · intro e he
        exact he.imp nullSpec_ne And.left
      · intro st' hst'
        cases parent with
        | none => exact .inl (by decide)
        | some p =>
            subst hst'
            have hnext : Offered settings dict st group groupIdx (some p) f _ :=
              .next hspec rfl htag hcount hseen
            rw [nextInstance, announce_eq] at hnext
            exact hnext
  next =>
    exact ((yields_tryLogThrow settings _).mono (fun _ h => h)
      fun _ h => .inl (nullSpec_ne h)).bind fun _ h => .refused hspec (.inl h)

theorem yields_trySetField (st : ParseState) (group : ParserGroupInfo) (groupIdx : Nat)
    (parent : Option ParserGroupInfo) (f : WireField) :
    Yields (st.trySetField settings dict group groupIdx parent f)
      (Offered settings dict st group groupIdx parent f) (OfferError group) := by
  rw [trySetField]
  cases hspec : group.spec with
  | none => exact .inr hspec
  | some spec =>
      have hsome : group.spec ≠ none := by
        rw [hspec]
        exact Option.some_ne_none spec
      dsimp only
      split
      next hfield =>
        split
        next hdup =>
          exact yields_handleRepeatingTag st group groupIdx parent f hsome
            ⟨spec, hspec, .inl ⟨hfield, hdup⟩⟩
        next hdup =>
          refine ((yields_noteLength _ f).mono (fun _ h => h) fun _ h => .inl (nullSpec_ne h)).bind ?_
          intro st' hst'
          subst hst'
          exact .added hspec hfield (Bool.eq_false_of_not_eq_true hdup)
      next hfield =>
        rw [Bool.not_eq_true] at hfield
        split
        next hgroup => exact .refused hsome (.inr ⟨spec, hspec, hfield, hgroup⟩)
        next groupSpec hgroup =>
          split
          next hcount =>
            exact yields_handleRepeatingTag st group groupIdx parent f hsome
              ⟨spec, hspec, .inr ⟨hfield, Option.isSome_of_eq_some hgroup, hcount⟩⟩
          next hcount =>
            split
            next =>
              exact ((yields_tryLogThrow settings _).mono (fun _ h => h)
                fun _ h => .inl (nullSpec_ne h)).bind fun _ h => .refused hsome (.inl h)
            next =>
              split
              next => exact .inl (by decide)
              next hroom =>
                refine ((yields_setField _ group.group f).mono (fun _ h => h)
                  fun _ h => .inl (nullSpec_ne h)).bind ?_
                intro st' hst'
                subst hst'
                exact .opened hspec hfield hgroup (Nat.eq_zero_of_not_pos hcount)
                  (Nat.lt_of_not_le hroom)

/-! ## Fields that are offered to a stack -/

/-- What the entries of a stack do with a field. -/
inductive Dispatched (settings : SessionSettings) (dict : Dictionary) (f : WireField)
    (st : ParseState) (above stack : List ParserGroupInfo) : Option Nat × ParseState → Prop where
  | refused (hrefused : ∀ g ∈ stack, settings.relaxedParsing = true ∨ ∃ spec, g.spec = some spec ∧
        spec.hasField f.tag = false ∧ spec.findGroup f.tag = none) :
      Dispatched settings dict f st above stack (none, st)
  | taken {before below : List ParserGroupInfo} {g : ParserGroupInfo} {r : Tried} {idx : Nat}
      (hstack : stack = before ++ g :: below)
      (hoffer : Offered settings dict st g below.length below.head? f r) (hidx : r.idx = some idx) :
      Dispatched settings dict f st above stack
        (some idx, { r.st with stack := r.pushed ++ (above ++ before) ++ r.group :: below })

/-- An entry that does not take a field leaves all as it is. -/
theorem Offered.of_idx_none {st : ParseState} {group : ParserGroupInfo} {groupIdx : Nat}
    {parent : Option ParserGroupInfo} {f : WireField} {r : Tried}
    (h : Offered settings dict st group groupIdx parent f r) (hidx : r.idx = none) :
    r = ⟨st, group, [], none⟩ ∧ group.spec ≠ none ∧ (settings.relaxedParsing = true ∨
      ∃ spec, group.spec = some spec ∧ spec.hasField f.tag = false ∧ spec.findGroup f.tag = none) := by
  cases h with
  | refused hspec hrefused => exact ⟨rfl, hspec, hrefused⟩
  | added _ _ _ => cases hidx
  | opened _ _ _ _ _ => cases hidx
  | next _ _ _ _ _ => cases hidx

theorem yields_dispatchStack (f : WireField) : ∀ (stack above : List ParserGroupInfo)
    (st : ParseState),
    Yields (dispatchStack settings dict f above stack st)
      (Dispatched settings dict f st above stack)
      fun e => e ≠ nullSpec ∨ ∃ g ∈ stack, g.spec = none := by
  intro stack
  induction stack with
  | nil =>
      intro above st
      exact .refused fun g hg => by cases hg
  | cons g below ih =>
      intro above st
      rw [dispatchStack]
      refine ((yields_trySetField st g below.length below.head? f).mono (fun _ h => h) ?_).bind ?_
      · intro e he
        exact he.imp id fun hnull => ⟨g, List.mem_cons_self .., hnull⟩
      · intro r hr
        cases hidx : r.idx with
        | some idx =>
            have htaken : Dispatched settings dict f st above ([] ++ g :: below) _ :=
              .taken rfl hr hidx
            rw [List.append_nil, List.nil_append] at htaken
            exact htaken
        | none =>
            obtain ⟨rfl, -, hrefused⟩ := hr.of_idx_none hidx
            refine (ih (above ++ [g]) st).mono ?_ ?_
            · intro p hp
              cases hp with
              | refused hall =>
                  refine .refused fun g' hg' => ?_
                  rcases List.mem_cons.mp hg' with rfl | hg'
                  · exact hrefused
                  · exact hall g' hg'
              | @taken before below' g' r idx hstack hoffer hidx' =>
                  have hsplit : g :: below = (g :: before) ++ g' :: below' := by
                    rw [hstack, List.cons_append]
                  have htaken : Dispatched settings dict f st above (g :: below) _ :=
                    .taken hsplit hoffer hidx'
                  have happend : above ++ g :: before = above ++ [g] ++ before :=
                    List.append_cons above g before
                  rw [happend] at htaken
                  exact htaken
            · intro e he
              exact he.imp id fun ⟨g', hg', hnull⟩ => ⟨g', List.mem_cons_of_mem _ hg', hnull⟩

theorem Offered.frame {st : ParseState} {group : ParserGroupInfo} {groupIdx : Nat}
    {parent : Option ParserGroupInfo} {f : WireField} {r : Tried}
    (h : Offered settings dict st group groupIdx parent f r) :
    r.st.stack = st.stack ∧ r.st.msgState = st.msgState ∧ r.st.tag = st.tag ∧
      r.st.tagCount = st.tagCount ∧ r.group.spec = group.spec ∧
      ∀ g ∈ r.pushed, g.spec ≠ none := by
  have hstop : ∀ st : ParseState, (st.noteBodyLength f).stack = st.stack ∧
      (st.noteBodyLength f).msgState = st.msgState ∧ (st.noteBodyLength f).tag = st.tag ∧
      (st.noteBodyLength f).tagCount = st.tagCount := by
    intro st
    rw [noteBodyLength]
    split
    · exact ⟨rfl, rfl, rfl, rfl⟩
    · exact ⟨rfl, rfl, rfl, rfl⟩
  cases h with
  | refused _ _ => exact ⟨rfl, rfl, rfl, rfl, rfl, fun g hg => by cases hg⟩
  | added _ _ _ =>
      obtain ⟨h₁, h₂, h₃, h₄⟩ := hstop ((st.modify (fun m =>
        (m.setFieldViewOrDetectDup f.tag f.val).2) group.group).announce dict f)
      exact ⟨h₁, h₂, h₃, h₄, rfl, fun g hg => by cases hg⟩
  | opened _ _ _ _ _ =>
      obtain ⟨h₁, h₂, h₃, h₄⟩ := hstop ((st.modify (fun m => m.addGroup f.tag)
        group.group).announce dict f)
      refine ⟨h₁, h₂, h₃, h₄, rfl, fun g hg => ?_⟩
      rw [List.mem_singleton.mp hg]
      exact Option.some_ne_none _
  | next _ _ _ _ _ => exact ⟨rfl, rfl, rfl, rfl, rfl, fun g hg => by cases hg⟩

theorem Offered.spec_ne_none {st : ParseState} {group : ParserGroupInfo} {groupIdx : Nat}
    {parent : Option ParserGroupInfo} {f : WireField} {r : Tried}
    (h : Offered settings dict st group groupIdx parent f r) : group.spec ≠ none := by
  cases h with
  | refused hspec _ => exact hspec
  | added hspec _ _ =>
      rw [hspec]
      exact Option.some_ne_none _
  | opened hspec _ _ _ _ =>
      rw [hspec]
      exact Option.some_ne_none _
  | next hspec _ _ _ _ => exact hspec

/-! ## Fields that come to the trailer -/

/-- A field that no specification has. -/
def addUnknown (dict : Dictionary) (st : ParseState) (top : ParserGroupInfo) (f : WireField) :
    ParseState :=
  ((st.announce dict f).noteBodyLength f).modify (fun m => m.setFieldView f.tag f.val false)
    top.group

/-- What is done with a field when the entries of the stack do not take it and the message is
not in its header. -/
inductive Trailed (settings : SessionSettings) (dict : Dictionary) (f : WireField)
    (st : ParseState) : ParseState → Prop where
  | unknown {top : ParserGroupInfo} (htop : st.stack.head? = some top) :
      Trailed settings dict f st (st.addUnknown dict top f)
  | trailer {r : Tried} {idx : Nat} {bottom : ParserGroupInfo} (hstate : st.msgState = .body)
      (hoffer : Offered settings dict st (trailerInfo dict) 0 none f r) (hidx : r.idx = some idx)
      (hbottom : st.stack.getLast? = some bottom) :
      Trailed settings dict f st
        (closeTo settings (idx + 1)
          { r.st.finish settings bottom with
            msgState := .trailer
            stack := r.pushed ++ replaceBottom st.stack r.group })

theorem yields_dispatchUnknown (f : WireField) (st : ParseState) :
    Yields (dispatchUnknown settings dict f st)
      (fun st' => ∃ top, st.stack.head? = some top ∧ st' = st.addUnknown dict top f)
      fun e => e ≠ nullSpec := by
  rw [dispatchUnknown]
  split
  next =>
    show Exn.undefined "empty group stack" ≠ nullSpec
    decide
  next top htop =>
    exact (yields_setField st top.group f).mono (fun _ h => ⟨top, htop, h⟩) fun _ => nullSpec_ne

theorem yields_dispatchTrailer (f : WireField) (st : ParseState) :
    Yields (dispatchTrailer settings dict f st) (Trailed settings dict f st)
      fun e => e ≠ nullSpec ∨ ∃ g ∈ st.stack, g.spec = none := by
  have hunknown : Yields (dispatchUnknown settings dict f st) (Trailed settings dict f st)
      fun e => e ≠ nullSpec ∨ ∃ g ∈ st.stack, g.spec = none := by
    refine (yields_dispatchUnknown f st).mono ?_ fun _ => .inl
    intro st' ⟨top, htop, hst'⟩
    rw [hst']
    exact .unknown htop
  rw [dispatchTrailer]
  split
  next hstate =>
    refine ((yields_trySetField st (trailerInfo dict) 0 none f).mono (fun _ h => h) ?_).bind ?_
    · intro e he
      exact he.imp id fun hnull => by cases hnull
    · intro r hr
      obtain ⟨hstack, -, -, -, hspec, hpushed⟩ := hr.frame
      cases hidx : r.idx with
      | none =>
          rw [(hr.of_idx_none hidx).1]
          exact hunknown
      | some idx =>
          rw [hstack]
          cases hbottom : st.stack.getLast? with
          | none => exact .inl (by decide)
          | some bottom =>
              have hmem : bottom ∈ st.stack := List.mem_of_getLast? hbottom
              refine ((yields_validateGroup r.st bottom.group bottom.spec).mono (fun _ h => h)
                ?_).bind ?_
              · intro e he
                exact he.imp nullSpec_ne fun hnull => ⟨bottom, hmem, hnull.1⟩
              · intro st' hst'
                rw [hst']
                refine (yields_overwriteStack (idx + 1) _).mono ?_ ?_
                · intro st'' hst''
                  rw [hst'']
                  exact .trailer hstate hr hidx hbottom
                · intro e he
                  refine he.imp nullSpec_ne fun hpop => ?_
                  obtain ⟨⟨g, hg, hnull⟩, -⟩ := hpop
                  rcases List.mem_append.mp hg with hg | hg
                  · exact absurd hnull (hpushed g hg)
                  · rcases List.mem_append.mp hg with hg | hg
                    · exact ⟨g, (List.dropLast_sublist _).subset hg, hnull⟩
                    · rw [List.mem_singleton.mp hg, hspec] at hnull
                      cases hnull
  next => exact hunknown

/-! ## Fields that leave the header -/

/-- The entry of the body. -/
def bodyInfo (bodySpec : Option GroupSpec) : ParserGroupInfo where
  spec := bodySpec
  group := ⟨.body, []⟩

/-- The state when the header is finished. -/
def toBody (settings : SessionSettings) (bodySpec : Option GroupSpec) (st : ParseState) :
    ParseState :=
  { st.closeTo settings 0 with stack := [bodyInfo bodySpec], msgState := .body }

/-- What is done with a field when the entries of the stack do not take it. -/
inductive Passed (settings : SessionSettings) (dict : Dictionary) (f : WireField)
    (st : ParseState) : ParseState → Prop where
  | trailed {st' : ParseState} (hstate : st.msgState ≠ .header)
      (h : Trailed settings dict f st st') : Passed settings dict f st st'
  | taken {bodySpec : Option GroupSpec} {r : Tried} {idx : Nat} (hstate : st.msgState = .header)
      (hspec : (st.closeTo settings 0).bodySpecOf settings dict = .ok bodySpec)
      (hoffer : Offered settings dict (st.toBody settings bodySpec) (bodyInfo bodySpec) 0 none f r)
      (hidx : r.idx = some idx) :
      Passed settings dict f st { r.st with stack := r.pushed ++ [r.group] }
  | passed {bodySpec : Option GroupSpec} {st' : ParseState} (hstate : st.msgState = .header)
      (hspec : (st.closeTo settings 0).bodySpecOf settings dict = .ok bodySpec)
      (hsome : bodySpec ≠ none)
      (hrefused : settings.relaxedParsing = true ∨ ∃ spec, bodySpec = some spec ∧
        spec.hasField f.tag = false ∧ spec.findGroup f.tag = none)
      (h : Trailed settings dict f (st.toBody settings bodySpec) st') : Passed settings dict f st st'

/-- The message leaves its header with a type that has no specification. -/
def LeavesUnknown (settings : SessionSettings) (dict : Dictionary) (st : ParseState) : Prop :=
  st.msgState = .header ∧ ∃ st', st.overwriteStack settings 0 = .ok st' ∧
    st'.bodySpecOf settings dict = .ok none

theorem yields_dispatchBody (f : WireField) (st : ParseState) :
    Yields (dispatchBody settings dict f st) (Passed settings dict f st)
      fun e => e ≠ nullSpec ∨ (∃ g ∈ st.stack, g.spec = none) ∨ st.LeavesUnknown settings dict := by
  rw [dispatchBody]
  split
  next hstate =>
    refine (((yields_overwriteStack 0 st).and (yields_self _)).mono (fun _ h => h) ?_).bind ?_
    · intro e he
      exact he.1.imp nullSpec_ne fun hnull => .inl hnull.1
    · intro st' ⟨hst', hclose⟩
      cases hspec : st'.bodySpecOf settings dict with
      | error e =>
          refine .inl ?_
          rw [bodySpecOf] at hspec
          split at hspec
          next => cases hspec
          next =>
            rcases bind_eq_error.mp hspec with hthrow | ⟨_, -, hok⟩
            · exact nullSpec_ne ((yields_tryLogThrow settings _).of_error hthrow)
            · cases hok
      | ok bodySpec =>
          rw [hst'] at hspec
          refine ((yields_trySetField _ (bodyInfo bodySpec) 0 none f).mono (fun _ h => h) ?_).bind ?_
          · intro e he
            refine he.imp id fun hnull => .inr ⟨hstate, st', hclose, ?_⟩
            rw [hst', hspec]
            exact congrArg Except.ok hnull
          · intro r hr
            rw [hst'] at hr
            cases hidx : r.idx with
            | some idx => exact .taken hstate hspec hr hidx
            | none =>
                obtain ⟨rfl, hsome, hrefused⟩ := hr.of_idx_none hidx
                refine (yields_dispatchTrailer f (st.toBody settings bodySpec)).mono ?_ ?_
                · intro st'' hst''
                  exact .passed hstate hspec hsome hrefused hst''
                · intro e he
                  refine he.imp id fun ⟨g, hg, hnull⟩ => .inr ⟨hstate, st', hclose, ?_⟩
                  rw [List.mem_singleton.mp hg] at hnull
                  rw [hst', hspec]
                  exact congrArg Except.ok hnull
  next hstate =>
    exact (yields_dispatchTrailer f st).mono (fun _ h => .trailed hstate h)
      fun _ he => he.imp id .inl

/-! ## Fields that are dispatched -/

/-- What is done with a field. -/
inductive Filed (settings : SessionSettings) (dict : Dictionary) (f : WireField)
    (st : ParseState) : ParseState → Prop where
  | taken {before below : List ParserGroupInfo} {g : ParserGroupInfo} {r : Tried} {idx : Nat}
      (hstack : st.stack = before ++ g :: below)
      (hoffer : Offered settings dict st g below.length below.head? f r) (hidx : r.idx = some idx) :
      Filed settings dict f st
        (closeTo settings (idx + 1) { r.st with stack := r.pushed ++ before ++ r.group :: below })
  | passed {st' : ParseState} (h : Passed settings dict f st st') : Filed settings dict f st st'

/-- No entry of the stack takes the field. -/
def Refused (settings : SessionSettings) (dict : Dictionary) (f : WireField) (st : ParseState) :
    Prop :=
  (∃ top spec, st.stack.head? = some top ∧ top.spec = some spec ∧ spec.empty = true) ∨
    dispatchStack settings dict f [] st.stack st = .ok (none, st)

theorem yields_dispatchField (f : WireField) (st : ParseState) :
    Yields (dispatchField settings dict f st) (Filed settings dict f st)
      fun e => e ≠ nullSpec ∨ (∃ g ∈ st.stack, g.spec = none) ∨
        Refused settings dict f st ∧ st.LeavesUnknown settings dict := by
  have hbody : Refused settings dict f st →
      Yields (dispatchBody settings dict f st) (Filed settings dict f st)
        fun e => e ≠ nullSpec ∨ (∃ g ∈ st.stack, g.spec = none) ∨
          Refused settings dict f st ∧ st.LeavesUnknown settings dict := by
    intro hrefused
    refine (yields_dispatchBody f st).mono (fun _ h => .passed h) fun e he => ?_
    exact he.imp id fun h => h.imp id fun hleaves => ⟨hrefused, hleaves⟩
  rw [dispatchField]
  split
  next =>
    refine .inl ?_
    show Exn.undefined "empty group stack" ≠ nullSpec
    decide
  next top htop =>
    split
    next hnull => exact .inr (.inl ⟨top, List.mem_of_mem_head? htop, hnull⟩)
    next spec hspec =>
      split
      next hempty => exact hbody (.inl ⟨top, spec, htop, hspec, hempty⟩)
      next =>
        refine (((yields_dispatchStack f st.stack [] st).and (yields_self _)).mono
          (fun _ h => h) ?_).bind ?_
        · intro e he
          exact he.1.imp id .inl
        · intro p ⟨hp, hself⟩
          cases hp with
          | refused _ => exact hbody (.inr hself)
          | taken hstack hoffer hidx =>
              rw [List.nil_append] at hself ⊢
              refine (yields_overwriteStack _ _).mono ?_ ?_
              · intro st' hst'
                rw [hst']
                exact .taken hstack hoffer hidx
              · intro e he
                refine he.imp nullSpec_ne fun hpop => ?_
                obtain ⟨⟨g, hg, hnull⟩, -⟩ := hpop
                obtain ⟨-, -, -, -, hspec', hpushed⟩ := hoffer.frame
                refine .inl ?_
                rw [hstack]
                -- The entry that took the field keeps its specification.
                rcases List.mem_append.mp hg with hg | hg
                · rcases List.mem_append.mp hg with hg | hg
                  · exact absurd hnull (hpushed g hg)
                  · exact ⟨g, List.mem_append_left _ hg, hnull⟩
                · rcases List.mem_cons.mp hg with rfl | hg
                  · exact ⟨_, List.mem_append_right _ (List.mem_cons_self ..), hspec' ▸ hnull⟩
                  · exact ⟨g, List.mem_append_right _ (List.mem_cons_of_mem _ hg), hnull⟩

end

/-- The state in which the field with this tag is dispatched. -/
def started (tag : Int) (st : ParseState) : ParseState :=
  { st with tag := tag, tagCount := st.tagCount + 1, dataLength := none }

/-- The state in which the parser starts. -/
def init (dict : Dictionary) : ParseState where
  stack := [{ spec := some dict.headerSpec, group := ⟨.header, []⟩ }]

end ParseState

/-! ## What a round does -/

section

variable {settings : SessionSettings} {dict : Dictionary} {size : Nat}

/-- The text of a round starts with a tag, which is the next one for the frame. -/
structure Tagged (settings : SessionSettings) (text : Bytes) (st : ParseState) (tagText : Bytes)
    (rest : Bytes) : Prop where
  split : splitByte tagAssignmentChar text = some (tagText, rest)
  nonneg : 0 ≤ fastParseTag tagText
  order : checkTagOrder settings st.tagCount (fastParseTag tagText) = .ok ()

/-- The round dispatches the field. -/
inductive Dispatches (settings : SessionSettings) (dict : Dictionary) (size : Nat) (text : Bytes)
    (st : ParseState) : Bytes → WireField → Prop where
  | intro {tagText rest val next : Bytes} (htag : Tagged settings text st tagText rest)
      (hdata : st.dataLength = none ∨ dict.getFieldType (fastParseTag tagText) ≠ .data)
      (hval : splitByte internalSohChar rest = some (val, next)) :
      Dispatches settings dict size text st next
        ⟨fastParseTag tagText, val, size - (next.length + 1)⟩

/-! ## Rounds that go on and rounds that end -/

/-- What a round that goes on does. -/
inductive Rounded (settings : SessionSettings) (dict : Dictionary) (size : Nat) (text : Bytes)
    (st : ParseState) : Bytes → ParseState → Prop where
  | skipped {tagText rest val next : Bytes} (hrelaxed : settings.relaxedParsing = true)
      (hsplit : splitByte tagAssignmentChar text = some (tagText, rest))
      (hval : splitByte internalSohChar rest = some (val, next)) (hneg : fastParseTag tagText < 0) :
      Rounded settings dict size text st next
        { st with tag := fastParseTag tagText, tagCount := st.tagCount + 1 }
  | data {tagText rest : Bytes} {len : Nat} {top : ParserGroupInfo}
      (htag : Tagged settings text st tagText rest) (hlen : st.dataLength = some len)
      (htype : dict.getFieldType (fastParseTag tagText) = .data) (hle : len ≤ rest.length)
      (htop : st.stack.head? = some top) :
      Rounded settings dict size text st (rest.drop (len + 1))
        ((st.started (fastParseTag tagText)).modify
          (fun m => m.setFieldView (fastParseTag tagText) (rest.take len) false) top.group)
  | filed {next : Bytes} {f : WireField} {st' : ParseState}
      (hdispatches : Dispatches settings dict size text st next f)
      (hdispatch : ParseState.dispatchField settings dict f (st.started f.tag) = .ok st') :
      Rounded settings dict size text st next st'

theorem parseRound_next {text text' : Bytes} {st st' : ParseState}
    (h : parseRound settings dict size (text, st) = .ok (.inl (text', st'))) :
    Rounded settings dict size text st text' st' := by
  cases text with
  | nil => cases h
  | cons c cs =>
      rw [parseRound] at h
      split at h
      next =>
        obtain ⟨_, -, h⟩ := bind_eq_ok.mp h
        cases h
      next tagText rest hsplit =>
        split at h
        next hneg =>
          obtain ⟨_, hthrow, h⟩ := bind_eq_ok.mp h
          have hrelaxed := (ParseState.yields_tryLogThrow settings _).of_ok hthrow
          dsimp only at h
          split at h
          next => cases h
          next hsoh =>
            cases h
            exact .skipped hrelaxed hsplit hsoh hneg
        next hnonneg =>
          obtain ⟨⟨⟩, horder, h⟩ := bind_eq_ok.mp h
          obtain ⟨⟨next, st''⟩, hvalue, h⟩ := bind_eq_ok.mp h
          have htag : Tagged settings (c :: cs) st tagText rest :=
            ⟨hsplit, Int.not_lt.mp hnonneg, horder⟩
          cases next with
          | none => cases h
          | some next =>
              cases h
              rcases parseValue_ok hvalue with ⟨len, hlen, htype, hdata⟩ | ⟨hdata, val, hval, hd⟩
              · obtain ⟨hle, hnext, top, htop, hst'⟩ := parseDataField_ok hdata
                rw [hnext, hst']
                exact .data htag hlen htype hle htop
              · exact .filed (.intro htag hdata hval) hd

/-- The last round finds the end of the text, or gives up in relaxed mode. -/
theorem parseRound_done {text : Bytes} {st st' : ParseState}
    (h : parseRound settings dict size (text, st) = .ok (.inr st')) :
    (text = [] ∧ st' = st) ∨ settings.relaxedParsing = true ∧ st'.stack = st.stack ∧
      st'.msg = st.msg ∧ st'.msgState = st.msgState := by
  cases text with
  | nil =>
      cases h
      exact .inl ⟨rfl, rfl⟩
  | cons c cs =>
      refine .inr ?_
      rw [parseRound] at h
      split at h
      next =>
        obtain ⟨_, hthrow, h⟩ := bind_eq_ok.mp h
        cases h
        exact ⟨(ParseState.yields_tryLogThrow settings _).of_ok hthrow, rfl, rfl, rfl⟩
      next tagText rest hsplit =>
        split at h
        next =>
          obtain ⟨_, hthrow, h⟩ := bind_eq_ok.mp h
          dsimp only at h
          split at h
          next =>
            cases h
            exact ⟨(ParseState.yields_tryLogThrow settings _).of_ok hthrow, rfl, rfl, rfl⟩
          next => cases h
        next =>
          obtain ⟨_, -, h⟩ := bind_eq_ok.mp h
          obtain ⟨⟨next, st''⟩, hvalue, h⟩ := bind_eq_ok.mp h
          cases next with
          | some next => cases h
          | none =>
              cases h
              rcases parseValue_eq settings dict size rest
                { st with tag := fastParseTag tagText, tagCount := st.tagCount + 1 } with
                ⟨len, -, -, heq⟩ | ⟨-, heq⟩
              · rw [heq] at hvalue
                cases hdata : parseDataField settings (fastParseTag tagText) len rest
                    { st with tag := fastParseTag tagText, tagCount := st.tagCount + 1 } with
                | ok r =>
                    rw [hdata] at hvalue
                    cases hvalue
                | error e =>
                    rw [hdata] at hvalue
                    cases hvalue
              · rw [heq] at hvalue
                split at hvalue
                next =>
                  obtain ⟨_, hthrow, hvalue⟩ := bind_eq_ok.mp hvalue
                  cases hvalue
                  exact ⟨(ParseState.yields_tryLogThrow settings _).of_ok hthrow, rfl, rfl, rfl⟩
                next =>
                  obtain ⟨_, -, hvalue⟩ := bind_eq_ok.mp hvalue
                  cases hvalue

/-- What a field does, its round does. -/
theorem Dispatches.parseRound_eq {text next : Bytes} {st : ParseState} {f : WireField}
    (h : Dispatches settings dict size text st next f) :
    parseRound settings dict size (text, st) =
      (ParseState.dispatchField settings dict f (st.started f.tag)).map fun st' => .inl (next, st') := by
  cases h with
  | @intro tagText rest val next htag hdata hval =>
      have hvalue : parseValue settings dict size rest
          { st with tag := fastParseTag tagText, tagCount := st.tagCount + 1 } =
            (ParseState.dispatchField settings dict
              ⟨fastParseTag tagText, val, size - (next.length + 1)⟩
              (st.started (fastParseTag tagText))).map fun st' => (some next, st') := by
        rcases parseValue_eq settings dict size rest
          { st with tag := fastParseTag tagText, tagCount := st.tagCount + 1 } with
          ⟨len, hlen, htype, -⟩ | ⟨-, hvalue⟩
        · rcases hdata with hnone | hne
          · rw [hnone] at hlen
            cases hlen
          · exact absurd htype hne
        · rw [hvalue, hval]
          rfl
      cases text with
      | nil => cases htag.split
      | cons c cs =>
          rw [parseRound, htag.split]
          dsimp only
          rw [if_neg (Int.not_lt.mpr htag.nonneg), htag.order, hvalue]
          cases ParseState.dispatchField settings dict
            ⟨fastParseTag tagText, val, size - (next.length + 1)⟩
            (st.started (fastParseTag tagText)) with
          | ok st' => rfl
          | error e => rfl

/-! ## Errors of a round -/

/-- The order of the first fields is checked in strict mode only. -/
theorem yields_checkTagOrder (tagCount : Nat) (tag : Int) :
    Yields (checkTagOrder settings tagCount tag)
      (fun _ => settings.relaxedParsing = true ∨ (tagCount = 0 → tag = Field.beginString) ∧
        (tagCount = 1 → tag = Field.bodyLength) ∧ (tagCount = 2 → tag = Field.msgType))
      ParseState.IsParsingError := by
  have hthrow : ∀ text, ParseState.IsParsingError (.messageParsingError text) := fun text =>
    ⟨text, rfl⟩
  have hcheck : ∀ (n : Nat) (expected : Int), settings.relaxedParsing = true ∨
      ¬(decide (tagCount = n) && decide (tag ≠ expected)) = true →
        settings.relaxedParsing = true ∨ (tagCount = n → tag = expected) := by
    intro n expected h
    refine h.imp id fun h hn => ?_
    rw [Bool.and_eq_true, not_and, decide_eq_true_eq, decide_eq_true_eq, not_not] at h
    exact h hn
  rw [checkTagOrder]
  refine ParseState.yields_check hthrow fun h₀ => ParseState.yields_check hthrow fun h₁ => ?_
  refine ParseState.yields_lastCheck hthrow fun h₂ => ?_
  rcases hcheck 0 _ h₀ with h | h₀
  · exact .inl h
  · rcases hcheck 1 _ h₁ with h | h₁
    · exact .inl h
    · exact (hcheck 2 _ h₂).imp id fun h₂ => ⟨h₀, h₁, h₂⟩

/-- A data field uses no specification. -/
theorem parseDataField_ne_null {tag : Int} {len : Nat} {rest : Bytes} {st : ParseState} :
    parseDataField settings tag len rest st ≠ .error ParseState.nullSpec := by
  have hyields : Yields (parseDataField settings tag len rest st) (fun _ => True)
      fun e => e ≠ ParseState.nullSpec := by
    rw [parseDataField]
    split
    next =>
      refine ((ParseState.yields_tryLogThrow settings _).mono (fun _ h => h)
        fun _ => ParseState.nullSpec_ne).bind fun _ _ => ?_
      show Exn.undefined "data field past the end of the text" ≠ ParseState.nullSpec
      decide
    next =>
      split
      next =>
        show Exn.undefined "empty group stack" ≠ ParseState.nullSpec
        decide
      next => exact True.intro
  intro h
  exact hyields.of_error h rfl

/-- Only a field that is dispatched uses a specification that is not there. -/
theorem dispatches_of_parseRound_null {text : Bytes} {st : ParseState}
    (h : parseRound settings dict size (text, st) = .error ParseState.nullSpec) :
    ∃ next f, Dispatches settings dict size text st next f ∧
      ParseState.dispatchField settings dict f (st.started f.tag) = .error ParseState.nullSpec := by
  have hthrow : ∀ {α : Type} {text : String} {x : Unit → Except Exn α},
      (tryLogThrow settings text >>= x) = .error ParseState.nullSpec →
        x () = .error ParseState.nullSpec := by
    intro α text x hx
    rcases bind_eq_error.mp hx with hx | ⟨⟨⟩, -, hx⟩
    · exact absurd rfl (ParseState.nullSpec_ne ((ParseState.yields_tryLogThrow settings _).of_error hx))
    · exact hx
  cases text with
  | nil => cases h
  | cons c cs =>
      rw [parseRound] at h
      split at h
      next => cases hthrow h
      next tagText rest hsplit =>
        split at h
        next =>
          have h := hthrow h
          dsimp only at h
          split at h
          next => cases h
          next => cases h
        next hnonneg =>
          rcases bind_eq_error.mp h with horder | ⟨⟨⟩, horder, h⟩
          · exact absurd rfl (ParseState.nullSpec_ne ((yields_checkTagOrder _ _).of_error horder))
          · have htag : Tagged settings (c :: cs) st tagText rest :=
              ⟨hsplit, Int.not_lt.mp hnonneg, horder⟩
            rcases bind_eq_error.mp h with hvalue | ⟨⟨next, st''⟩, -, h⟩
            · rcases parseValue_eq settings dict size rest
                { st with tag := fastParseTag tagText, tagCount := st.tagCount + 1 } with
                ⟨len, hlen, htype, heq⟩ | ⟨hdata, heq⟩
              · rw [heq] at hvalue
                cases hdata : parseDataField settings (fastParseTag tagText) len rest
                    { st with tag := fastParseTag tagText, tagCount := st.tagCount + 1 } with
                | ok r =>
                    rw [hdata] at hvalue
                    cases hvalue
                | error e =>
                    rw [hdata] at hvalue
                    cases hvalue
                    exact absurd hdata parseDataField_ne_null
              · rw [heq] at hvalue
                split at hvalue
                next => cases hthrow hvalue
                next val next hval =>
                  rcases bind_eq_error.mp hvalue with hd | ⟨_, -, hd⟩
                  · exact ⟨next, _, .intro htag hdata hval, hd⟩
                  · cases hd
            · cases next with
              | none => cases h
              | some next => cases h

/-! ## The checks at the end -/

/-- What the checks at the end make sure of in strict mode. -/
structure Checked (text : Bytes) (st : ParseState) : Prop where
  bodyLength : ∃ bodyLength, st.msg.header.field? Field.bodyLength = some bodyLength ∧
    fromCharsULong bodyLength = some (expectedBodyLength text.length st.bodyLengthStart)
  tag : st.tag = Field.checkSum
  checkSum : st.msg.trailer.field? Field.checkSum =
    some (formatChecksum (computeChecksum (text.take (text.length - 7))))

/-- An error of the checks at the end. -/
def IsFrameError (e : Exn) : Prop := ParseState.IsParsingError e ∨ ∃ tag, e = .fieldNotFound tag

theorem yields_checkFrame (text : Bytes) (st : ParseState) :
    Yields (checkFrame settings text st)
      (fun _ => settings.relaxedParsing = true ∨ Checked text st) IsFrameError := by
  have hthrow : ∀ text, IsFrameError (.messageParsingError text) := fun text => .inl ⟨text, rfl⟩
  rw [checkFrame]
  cases hlength : st.msg.header.field? Field.bodyLength with
  | none =>
      rw [FieldMap.getField, hlength]
      exact .inr ⟨_, rfl⟩
  | some bodyLength =>
      rw [FieldMap.getField_eq.mpr hlength]
      show Yields (if _ then _ else _) _ _
      refine ParseState.yields_check hthrow fun h₁ => ?_
      cases hsum : st.msg.trailer.field? Field.checkSum with
      | none =>
          exact (ParseState.yields_tryLogThrow settings _).mono (fun _ => .inl) fun _ => .inl
      | some checksum =>
          refine ParseState.yields_check hthrow fun h₂ => ?_
          refine ParseState.yields_lastCheck hthrow fun h₃ => ?_
          rcases h₁ with h | h₁
          · exact .inl h
          · rcases h₂ with h | h₂
            · exact .inl h
            · refine h₃.imp id fun h₃ => ⟨⟨bodyLength, hlength, not_not.mp h₁⟩, not_not.mp h₂, ?_⟩
              rw [hsum, not_not.mp h₃]

/-- What a text that is accepted has come to. -/
theorem parse_ok {text : Bytes} {msg : Message} (h : dict.parse settings text = .ok msg) :
    ∃ st, parseLoop settings dict text.length text.length text (.init dict) = .ok st ∧
      st.overwriteStack settings 0 = .ok (st.closeTo settings 0) ∧
      msg = ((st.closeTo settings 0).modify (fun m => m.removeField Field.checkSum)
        ⟨.trailer, []⟩).msg ∧
      (settings.relaxedParsing = true ∨
        (st.closeTo settings 0).msgState = .trailer ∧ Checked text (st.closeTo settings 0)) := by
  obtain ⟨st, hloop, h⟩ := bind_eq_ok.mp h
  obtain ⟨st', hclose, h⟩ := bind_eq_ok.mp h
  have hst' := (ParseState.yields_overwriteStack 0 st).of_ok hclose
  rw [hst'] at hclose h
  refine ⟨st, hloop, hclose, ?_⟩
  refine (ParseState.yields_check (Q := fun m => m = _ ∧ _) (E := fun _ => True)
    (fun _ => True.intro) fun hstate => ?_).of_ok h
  have hend : ∀ {p : Prop}, p → (({ (st.closeTo settings 0).msg with
      trailer := (st.closeTo settings 0).msg.trailer.removeField Field.checkSum } : Message) =
        ((st.closeTo settings 0).modify (fun m => m.removeField Field.checkSum)
          ⟨.trailer, []⟩).msg ∧ p) := fun hp => ⟨rfl, hp⟩
  split
  next hstrict =>
    refine ((yields_checkFrame text _).mono (fun _ hq => hq) fun _ _ => True.intro).bind ?_
    intro _ hchecked
    refine hend ?_
    rcases hstate with hrelaxed | hstate
    · exact .inl hrelaxed
    · exact hchecked.imp id fun hchecked => ⟨not_not.mp hstate, hchecked⟩
  next hrelaxed =>
    refine hend (.inl ?_)
    simpa using hrelaxed

end

end OpenFix
