import OpenFix.Parsing

/-!
# The errors of the parser

The parser throws parsing errors, and it has five places where what it does is undefined.
It may use a specification that is not there, add an instance for an entry at the bottom
of the stack, read the top of an empty stack, push on a stack that is full, and store a
view that leaves the text.  For the last four it is said here in which state a round
comes to them.
-/

namespace OpenFix

open Loop

namespace ParseState

/-- The top of the stack is read, and there is none. -/
def emptyStack : Exn := .undefined "empty group stack"

/-- A group is pushed, and all slots are taken. -/
def stackOverflow : Exn := .undefined "group stack overflow"

/-- An instance is added to the group of the entry at the bottom, which has no parent. -/
def orphan : Exn := .undefined "group without a parent"

/-- Errors that no state keeps from being raised. -/
structure Thrown (E : Exn → Prop) : Prop where
  parsing : ∀ text, E (.messageParsingError text)
  null : E nullSpec

/-- The entry at the bottom of the stack is the one of a group. -/
def Rootless (stack : List ParserGroupInfo) : Prop :=
  ∃ bottom, stack.getLast? = some bottom ∧ 0 < bottom.groupTag

/-- The field is the count of a group of the entry, which has no instance yet. -/
def Opens (st : ParseState) (group : ParserGroupInfo) (f : WireField) : Prop :=
  ∃ spec groupSpec, group.spec = some spec ∧ spec.hasField f.tag = false ∧
    spec.findGroup f.tag = some groupSpec ∧ (st.get group.group).getGroupCount f.tag = 0 ∧
    0 ≤ fastParseTag f.val

section

variable {settings : SessionSettings} {dict : Dictionary} {E : Exn → Prop}

theorem Thrown.of_parsing (hE : Thrown E) {e : Exn} (h : IsParsingError e) : E e := by
  obtain ⟨text, rfl⟩ := h
  exact hE.parsing text

theorem Thrown.tryLogThrow (hE : Thrown E) (text : String) :
    Yields (tryLogThrow settings text) (fun _ => True) E :=
  (yields_tryLogThrow settings text).mono (fun _ _ => True.intro) fun _ => hE.of_parsing

theorem Thrown.noteLength (hE : Thrown E) (st : ParseState) (f : WireField) :
    Yields (st.noteLength settings dict f) (fun _ => True) E :=
  (yields_noteLength st f).mono (fun _ _ => True.intro) fun _ => hE.of_parsing

theorem Thrown.setField (hE : Thrown E) (st : ParseState) (ref : GroupRef) (f : WireField) :
    Yields (st.setField settings dict ref f) (fun _ => True) E :=
  (yields_setField st ref f).mono (fun _ _ => True.intro) fun _ => hE.of_parsing

theorem Thrown.validateGroup (hE : Thrown E) (st : ParseState) (ref : GroupRef)
    (spec : Option GroupSpec) : Yields (st.validateGroup settings ref spec) (fun _ => True) E := by
  refine (yields_validateGroup st ref spec).mono (fun _ _ => True.intro) fun e he => ?_
  rcases he with he | ⟨-, rfl⟩
  · exact hE.of_parsing he
  · exact hE.null

theorem Thrown.overwriteStack (hE : Thrown E) (keep : Nat) (st : ParseState) :
    Yields (overwriteStack settings keep st) (fun _ => True) E := by
  refine (yields_overwriteStack keep st).mono (fun _ _ => True.intro) fun e he => ?_
  rcases he with he | ⟨-, rfl⟩
  · exact hE.of_parsing he
  · exact hE.null

theorem Thrown.handleRepeatingTag (hE : Thrown E) (st : ParseState) (group : ParserGroupInfo)
    (groupIdx : Nat) (parent : Option ParserGroupInfo) (f : WireField)
    (horphan : parent = none → 0 < group.groupTag → E orphan) :
    Yields (st.handleRepeatingTag settings dict group groupIdx parent f) (fun _ => True) E := by
  rw [ParseState.handleRepeatingTag]
  split
  next htag =>
    split
    next => exact (hE.tryLogThrow _).bind fun _ _ => True.intro
    next =>
      refine (hE.validateGroup st group.group group.spec).bind fun st' _ => ?_
      cases parent with
      | none => exact horphan rfl htag
      | some p => exact True.intro
  next => exact (hE.tryLogThrow _).bind fun _ _ => True.intro

theorem Thrown.trySetField (hE : Thrown E) (st : ParseState) (group : ParserGroupInfo)
    (groupIdx : Nat) (parent : Option ParserGroupInfo) (f : WireField)
    (horphan : parent = none → 0 < group.groupTag → E orphan)
    (hfull : Opens st group f → groupStackSlots ≤ st.stack.length → E stackOverflow) :
    Yields (st.trySetField settings dict group groupIdx parent f) (fun _ => True) E := by
  have hrepeat := @Thrown.handleRepeatingTag settings dict E hE st group groupIdx
    parent f horphan
  rw [ParseState.trySetField]
  cases hspec : group.spec with
  | none => exact hE.null
  | some spec =>
      dsimp only
      split
      next =>
        split
        next => exact hrepeat
        next => exact (hE.noteLength _ f).bind fun _ _ => True.intro
      next hfield =>
        split
        next => exact True.intro
        next groupSpec hgroup =>
          split
          next => exact hrepeat
          next hcount =>
            split
            next => exact (hE.tryLogThrow _).bind fun _ _ => True.intro
            next hnonneg =>
              split
              next hslots =>
                refine hfull ⟨spec, groupSpec, hspec, ?_, hgroup, ?_, Int.not_lt.mp hnonneg⟩ hslots
                · exact Bool.eq_false_of_not_eq_true hfield
                · exact Nat.eq_zero_of_not_pos hcount
              next => exact (hE.setField _ group.group f).bind fun _ _ => True.intro

/-- An entry that the field is offered to opens a group for it. -/
inductive OpensBelow (settings : SessionSettings) (dict : Dictionary) (f : WireField)
    (st : ParseState) : List ParserGroupInfo → Prop where
  | here {g : ParserGroupInfo} {below : List ParserGroupInfo} (h : Opens st g f) :
      OpensBelow settings dict f st (g :: below)
  | later {g : ParserGroupInfo} {below : List ParserGroupInfo}
      (hrefused : st.trySetField settings dict g below.length below.head? f =
        .ok ⟨st, g, [], none⟩)
      (h : OpensBelow settings dict f st below) : OpensBelow settings dict f st (g :: below)

theorem Thrown.dispatchStack (hE : Thrown E) (f : WireField) :
    ∀ (stack above : List ParserGroupInfo) (st : ParseState), (Rootless stack → E orphan) →
      (OpensBelow settings dict f st stack → groupStackSlots ≤ st.stack.length → E stackOverflow) →
        Yields (dispatchStack settings dict f above stack st) (fun _ => True) E := by
  intro stack
  induction stack with
  | nil =>
      intro above st _ _
      exact True.intro
  | cons g below ih =>
      intro above st horphan hfull
      rw [ParseState.dispatchStack]
      have htry := @Thrown.trySetField settings dict E hE st g below.length below.head? f
        (fun hnone htag => horphan ⟨g, by rw [List.head?_eq_none_iff.mp hnone]; rfl, htag⟩)
        fun hopens => hfull (.here hopens)
      have hoffer := @yields_trySetField settings dict st g below.length
        below.head? f
      refine ((htry.and (hoffer.and (yields_self _))).mono (fun _ h => h) fun _ h => h.1).bind ?_
      rintro r ⟨-, hr, hself⟩
      cases hidx : r.idx with
      | some idx => exact True.intro
      | none =>
          obtain ⟨rfl, -, -⟩ := hr.of_idx_none hidx
          refine ih (above ++ [g]) st (fun hroot => ?_) fun hopens => hfull (.later hself hopens)
          obtain ⟨bottom, hbottom, htag⟩ := hroot
          refine horphan ⟨bottom, ?_, htag⟩
          rw [List.getLast?_cons, hbottom]
          rfl

theorem Thrown.dispatchUnknown (hE : Thrown E) (f : WireField) (st : ParseState)
    (hempty : st.stack = [] → E emptyStack) :
    Yields (dispatchUnknown settings dict f st) (fun _ => True) E := by
  rw [ParseState.dispatchUnknown]
  split
  next hhead => exact hempty (List.head?_eq_none_iff.mp hhead)
  next top _ => exact hE.setField st top.group f

theorem Thrown.dispatchTrailer (hE : Thrown E) (f : WireField) (st : ParseState)
    (hempty : st.stack = [] → E emptyStack)
    (hfull : st.msgState = .body → Opens st (trailerInfo dict) f →
      groupStackSlots ≤ st.stack.length → E stackOverflow) :
    Yields (dispatchTrailer settings dict f st) (fun _ => True) E := by
  rw [ParseState.dispatchTrailer]
  split
  next hstate =>
    have htry := @Thrown.trySetField settings dict E hE st (trailerInfo dict) 0 none f
      (fun _ htag => absurd htag (by decide : ¬(0 : Int) < 0)) (hfull hstate)
    have hoffer := @yields_trySetField settings dict st (trailerInfo dict) 0
      none f
    refine ((htry.and hoffer).mono (fun _ h => h) fun _ h => h.1).bind ?_
    rintro r ⟨-, hr⟩
    have hstack : r.st.stack = st.stack := hr.frame.1
    cases hidx : r.idx with
    | none => exact hE.dispatchUnknown f r.st fun hnil => hempty (hstack ▸ hnil)
    | some idx =>
        cases hbottom : r.st.stack.getLast? with
        | none => exact hempty (hstack ▸ List.getLast?_eq_none_iff.mp hbottom)
        | some bottom =>
            refine (hE.validateGroup r.st bottom.group bottom.spec).bind fun st' _ => ?_
            exact hE.overwriteStack _ _
  next => exact hE.dispatchUnknown f st hempty

theorem Thrown.dispatchBody (hE : Thrown E) (f : WireField) (st : ParseState)
    (hempty : st.stack = [] → E emptyStack)
    (hfull : st.msgState = .body → Opens st (trailerInfo dict) f →
      groupStackSlots ≤ st.stack.length → E stackOverflow) :
    Yields (dispatchBody settings dict f st) (fun _ => True) E := by
  rw [ParseState.dispatchBody]
  split
  next hstate =>
    refine (hE.overwriteStack 0 st).bind fun st' _ => ?_
    have hspec : Yields (st'.bodySpecOf settings dict) (fun _ => True) E := by
      rw [bodySpecOf]
      split
      next => exact True.intro
      next => exact (hE.tryLogThrow _).bind fun _ _ => True.intro
    refine hspec.bind fun bodySpec _ => ?_
    -- The stack has one entry now.
    have hroom : ∀ {p : Prop}, groupStackSlots ≤ [bodyInfo bodySpec].length → p :=
      fun h => absurd (show 8 ≤ 1 from h) (by decide)
    let st'' : ParseState := { st' with stack := [bodyInfo bodySpec], msgState := .body }
    have htry := @Thrown.trySetField settings dict E hE st'' (bodyInfo bodySpec) 0 none
      f (fun _ htag => absurd htag (by decide : ¬(0 : Int) < 0)) fun _ => hroom
    have hoffer := @yields_trySetField settings dict st'' (bodyInfo bodySpec)
      0 none f
    refine ((htry.and hoffer).mono (fun _ h => h) fun _ h => h.1).bind ?_
    rintro r ⟨-, hr⟩
    have hstack : r.st.stack = [bodyInfo bodySpec] := hr.frame.1
    cases hidx : r.idx with
    | some idx => exact True.intro
    | none =>
        refine hE.dispatchTrailer f r.st (fun hnil => ?_) fun _ _ => ?_
        · rw [hstack] at hnil
          cases hnil
        · rw [hstack]
          exact hroom
  next => exact hE.dispatchTrailer f st hempty hfull

/-- The field opens a group of an entry that it is offered to, or of the trailer. -/
def OpensGroup (settings : SessionSettings) (dict : Dictionary) (f : WireField) (st : ParseState) :
    Prop :=
  ((∃ top spec, st.stack.head? = some top ∧ top.spec = some spec ∧ spec.empty = false) ∧
      OpensBelow settings dict f st st.stack) ∨
    (Refused settings dict f st ∧ st.msgState = .body ∧ Opens st (trailerInfo dict) f)

/-- The field opens a group, and all slots of the stack are taken. -/
structure Overflows (settings : SessionSettings) (dict : Dictionary) (f : WireField)
    (st : ParseState) : Prop where
  full : groupStackSlots ≤ st.stack.length
  opens : OpensGroup settings dict f st

/-- Which errors a field raises. -/
theorem Thrown.dispatchField (hE : Thrown E) (f : WireField) (st : ParseState)
    (hempty : st.stack = [] → E emptyStack) (horphan : Rootless st.stack → E orphan)
    (hfull : Overflows settings dict f st → E stackOverflow) :
    Yields (dispatchField settings dict f st) (fun _ => True) E := by
  have hbody : Refused settings dict f st →
      Yields (ParseState.dispatchBody settings dict f st) (fun _ => True) E := by
    intro hrefused
    exact hE.dispatchBody f st hempty fun hstate hopens hslots =>
      hfull ⟨hslots, .inr ⟨hrefused, hstate, hopens⟩⟩
  rw [ParseState.dispatchField]
  split
  next hhead => exact hempty (List.head?_eq_none_iff.mp hhead)
  next top htop =>
    split
    next => exact hE.null
    next spec hspec =>
      split
      next hspecEmpty => exact hbody (.inl ⟨top, spec, htop, hspec, hspecEmpty⟩)
      next hspecEmpty =>
        have hstack := @Thrown.dispatchStack settings dict E hE f st.stack [] st horphan
          fun hopens hslots => hfull ⟨hslots, .inl
            ⟨⟨top, spec, htop, hspec, Bool.eq_false_of_not_eq_true hspecEmpty⟩, hopens⟩⟩
        have hdispatched := @yields_dispatchStack settings dict f st.stack [] st
        refine ((hstack.and (hdispatched.and (yields_self _))).mono (fun _ h => h)
          fun _ h => h.1).bind ?_
        rintro p ⟨-, hp, hself⟩
        cases hp with
        | refused _ => exact hbody (.inr hself)
        | taken _ _ _ => exact hE.overwriteStack _ _

end

end ParseState

/-- A data field whose view leaves the text. -/
def pastEnd : Exn := .undefined "data field past the end of the text"

/-- A data field that was announced with more bytes than are left. -/
structure Overruns (settings : SessionSettings) (dict : Dictionary) (text : Bytes) (st : ParseState) :
    Prop where
  relaxed : settings.relaxedParsing = true
  longer : ∃ tagText rest len, splitByte tagAssignmentChar text = some (tagText, rest) ∧
    0 ≤ fastParseTag tagText ∧ dict.getFieldType (fastParseTag tagText) = .data ∧
    st.dataLength = some len ∧ rest.length < len

section

variable {settings : SessionSettings} {dict : Dictionary} {size : Nat} {E : Exn → Prop}

open ParseState

theorem ParseState.Thrown.parseDataField (hE : Thrown E) (tag : Int) (len : Nat) (rest : Bytes)
    (st : ParseState) (hempty : st.stack = [] → E emptyStack)
    (hpast : settings.relaxedParsing = true → rest.length < len → E pastEnd) :
    Yields (parseDataField settings tag len rest st) (fun _ => True) E := by
  rw [OpenFix.parseDataField]
  split
  next hlen =>
    refine ((yields_tryLogThrow settings _).mono (fun _ h => h) fun _ => hE.of_parsing).bind ?_
    exact fun _ hrelaxed => hpast hrelaxed hlen
  next hlen =>
    split
    next hhead => exact hempty (List.head?_eq_none_iff.mp hhead)
    next => exact True.intro

/-- Which errors a round raises. -/
theorem yields_parseRound (hE : Thrown E) (text : Bytes) (st : ParseState)
    (hempty : st.stack = [] → E emptyStack) (horphan : Rootless st.stack → E orphan)
    (hpast : Overruns settings dict text st → E pastEnd)
    (hfull : ∀ next f, Dispatches settings dict size text st next f →
      Overflows settings dict f (st.started f.tag) → E stackOverflow) :
    Yields (parseRound settings dict size (text, st)) (fun _ => True) E := by
  cases text with
  | nil => exact True.intro
  | cons c cs =>
      rw [parseRound]
      split
      next => exact (hE.tryLogThrow _).bind fun _ _ => True.intro
      next tagText rest hsplit =>
        split
        next =>
          refine (hE.tryLogThrow _).bind fun _ _ => ?_
          dsimp only
          split
          next => exact True.intro
          next => exact True.intro
        next hnonneg =>
          have horder := @yields_checkTagOrder settings st.tagCount
            (fastParseTag tagText)
          refine ((horder.and (yields_self _)).mono (fun _ h => h)
            fun _ h => hE.of_parsing h.1).bind ?_
          rintro _ ⟨-, horder⟩
          have htag : Tagged settings (c :: cs) st tagText rest :=
            ⟨hsplit, Int.not_lt.mp hnonneg, horder⟩
          have hvalue : Yields (parseValue settings dict size rest
              { st with tag := fastParseTag tagText, tagCount := st.tagCount + 1 })
              (fun _ => True) E := by
            rcases parseValue_eq settings dict size rest
              { st with tag := fastParseTag tagText, tagCount := st.tagCount + 1 } with
              ⟨len, hlen, htype, heq⟩ | ⟨hdata, heq⟩
            · have hfield := @Thrown.parseDataField settings E hE (fastParseTag tagText) len rest
                { st with tag := fastParseTag tagText, tagCount := st.tagCount + 1 } hempty
                fun hrelaxed hless => hpast
                  ⟨hrelaxed, tagText, rest, len, hsplit, htag.nonneg, htype, hlen, hless⟩
              rw [heq]
              cases hok : parseDataField settings (fastParseTag tagText) len rest
                  { st with tag := fastParseTag tagText, tagCount := st.tagCount + 1 } with
              | ok r => exact True.intro
              | error e => exact hfield.of_error hok
            · rw [heq]
              split
              next => exact (hE.tryLogThrow _).bind fun _ _ => True.intro
              next val next hval =>
                have hfield := @Thrown.dispatchField settings dict E hE _
                  (st.started (fastParseTag tagText)) hempty horphan
                  (hfull next _ (.intro htag hdata hval))
                refine Yields.bind (Q := fun _ => True) hfield fun _ _ => ?_
                exact True.intro
          refine hvalue.bind fun r _ => ?_
          obtain ⟨next, st'⟩ := r
          cases next with
          | none => exact True.intro
          | some next => exact True.intro

/-- The errors of a parse are those of its rounds and of the checks at the end. -/
theorem yields_parse (hE : Thrown E) (hfield : ∀ tag, E (.fieldNotFound tag)) (text : Bytes)
    (hround : ∀ text' st, Reaches (parseRound settings dict text.length) (text, .init dict) (text', st) →
      Yields (parseRound settings dict text.length (text', st)) (fun _ => True) E) :
    Yields (dict.parse settings text) (fun _ => True) E := by
  have hloop : Yields (parseLoop settings dict text.length text.length text (.init dict))
      (fun _ => True) E := by
    cases hloop : parseLoop settings dict text.length text.length text (.init dict) with
    | ok st => exact True.intro
    | error e =>
        obtain ⟨⟨text', st⟩, hreaches, herror⟩ :=
          ((ends_parseLoop _ text (.init dict) (le_refl _)).eq_iff _).mp hloop
        exact (hround text' st hreaches).of_error herror
  refine hloop.bind fun st _ => (hE.overwriteStack 0 st).bind fun st' _ => ?_
  refine yields_check hE.parsing fun _ => ?_
  split
  next =>
    have hframe : Yields (checkFrame settings text st') (fun _ => True) E := by
      refine (yields_checkFrame text st').mono (fun _ _ => True.intro) fun e he => ?_
      rcases he with he | ⟨tag, rfl⟩
      · exact hE.of_parsing he
      · exact hfield tag
    exact hframe.bind fun _ _ => True.intro
  next => exact True.intro

/-- A round that fails is the last one. -/
theorem parse_of_parseRound_error {text text' : Bytes} {st : ParseState} {e : Exn}
    (hreaches : Reaches (parseRound settings dict text.length) (text, .init dict) (text', st))
    (h : parseRound settings dict text.length (text', st) = .error e) :
    dict.parse settings text = .error e := by
  rw [Dictionary.parse]
  refine bind_eq_error.mpr (.inl ?_)
  exact ((ends_parseLoop _ text (.init dict) (le_refl _)).eq_iff (.error e)).mpr
    ⟨(text', st), hreaches, h⟩

end

end OpenFix
