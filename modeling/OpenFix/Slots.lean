import OpenFix.Nesting
import OpenFix.RoundTrip

/-!
# The slots of the group stack

The group stack has eight slots.  The section takes one, and each group that is open takes
one.  The parser pushes a group at the top, wherever its parent is in the stack, and pops
what is above the parent behind that.  It does not look whether a slot is left, and the
dictionary may nest its groups as deep as it likes.

The stack follows the nesting of the dictionary, so a dictionary of at most six levels of
groups always has a slot left for the one that is pushed.  A message of a type with eight
levels runs over the slots when it opens one group in the other.
-/

namespace OpenFix

open Loop

/-- The stack stays within its slots: nothing is pushed on a full stack, the top is not read
when there is none, and every round starts with one to eight entries. -/
structure WithinSlots (dict : Dictionary) (settings : SessionSettings) (text : Bytes) : Prop where
  push : dict.parse settings text ≠ .error ParseState.stackOverflow
  top : dict.parse settings text ≠ .error ParseState.emptyStack
  size : ∀ text' st,
    Reaches (parseRound settings dict text.length) (text, .init dict) (text', st) →
      1 ≤ st.stack.length ∧ st.stack.length ≤ groupStackSlots

namespace ParseState

section

variable {settings : SessionSettings} {dict : Dictionary} {f : WireField} {st st' : ParseState}

theorem length_closeTo (st : ParseState) (keep : Nat) :
    (st.closeTo settings keep).stack.length ≤ st.stack.length := by
  show (List.drop _ st.stack).length ≤ _
  rw [List.length_drop]
  exact Nat.sub_le _ _

/-- An entry that takes a field pushes one entry at most, and into a free slot. -/
theorem Offered.length_pushed {group : ParserGroupInfo} {groupIdx : Nat}
    {parent : Option ParserGroupInfo} {r : Tried}
    (h : Offered settings dict st group groupIdx parent f r)
    (hst : st.stack.length ≤ groupStackSlots) :
    r.pushed.length + st.stack.length ≤ groupStackSlots := by
  cases h with
  | refused _ _ => rwa [List.length_nil, Nat.zero_add]
  | added _ _ _ => rwa [List.length_nil, Nat.zero_add]
  | opened _ _ _ _ hroom =>
      rw [List.length_singleton, Nat.add_comm]
      exact hroom
  | next _ _ _ _ _ => rwa [List.length_nil, Nat.zero_add]

theorem Trailed.length_le (h : Trailed settings dict f st st')
    (hst : st.stack.length ≤ groupStackSlots) : st'.stack.length ≤ groupStackSlots := by
  cases h with
  | unknown _ =>
      rw [addUnknown, noteBodyLength]
      split
      · exact hst
      · exact hst
  | @trailer r idx bottom _ hoffer _ hbottom =>
      refine Nat.le_trans (length_closeTo _ _) ?_
      have hpushed := hoffer.length_pushed hst
      have hpos : 0 < st.stack.length := List.length_pos_of_mem (List.mem_of_getLast? hbottom)
      show (r.pushed ++ replaceBottom st.stack r.group).length ≤ _
      rw [replaceBottom, List.length_append, List.length_append, List.length_dropLast,
        List.length_singleton, Nat.sub_add_cancel hpos]
      exact hpushed

theorem Passed.length_le (h : Passed settings dict f st st')
    (hst : st.stack.length ≤ groupStackSlots) : st'.stack.length ≤ groupStackSlots := by
  have hone : (1 : Nat) ≤ groupStackSlots := by decide
  cases h with
  | trailed _ htrailed => exact htrailed.length_le hst
  | taken _ _ hoffer _ =>
      rw [List.length_append]
      exact hoffer.length_pushed hone
  | passed _ _ _ _ htrailed => exact htrailed.length_le hone

theorem Filed.length_le (h : Filed settings dict f st st')
    (hst : st.stack.length ≤ groupStackSlots) : st'.stack.length ≤ groupStackSlots := by
  cases h with
  | @taken before below g r idx hstack hoffer _ =>
      refine Nat.le_trans (length_closeTo _ _) ?_
      have hpushed := hoffer.length_pushed hst
      rw [hstack, List.length_append, List.length_cons] at hpushed
      show (r.pushed ++ before ++ r.group :: below).length ≤ _
      rw [List.length_append, List.length_append, List.length_cons, Nat.add_assoc]
      exact hpushed
  | passed hpassed => exact hpassed.length_le hst

/-- An entry that opens a group has no slot for it. -/
theorem Opens.trySetField_eq {group : ParserGroupInfo} (h : Opens st group f)
    (hfull : groupStackSlots ≤ st.stack.length) (groupIdx : Nat) (parent : Option ParserGroupInfo) :
    st.trySetField settings dict group groupIdx parent f = .error stackOverflow := by
  obtain ⟨spec, groupSpec, hspec, hfield, hgroup, hcount, hnonneg⟩ := h
  rw [trySetField, hspec]
  dsimp only
  rw [hfield, if_neg (by decide), hgroup]
  dsimp only
  rw [if_neg (by omega), if_neg (Int.not_lt.mpr hnonneg), if_pos hfull]
  rfl

theorem OpensBelow.dispatchStack_eq {stack : List ParserGroupInfo}
    (h : OpensBelow settings dict f st stack) (hfull : groupStackSlots ≤ st.stack.length) :
    ∀ above, dispatchStack settings dict f above stack st = .error stackOverflow := by
  induction h with
  | here h =>
      intro above
      rw [dispatchStack, h.trySetField_eq hfull]
      rfl
  | later hrefused _ ih =>
      intro above
      rw [dispatchStack, hrefused]
      exact ih _

theorem Overflows.dispatchField_eq (h : Overflows settings dict f st) (hst : st.Specified) :
    dispatchField settings dict f st = .error stackOverflow := by
  obtain ⟨hfull, hopens⟩ := h
  rcases hopens with ⟨⟨top, spec, htop, hspec, hempty⟩, hopens⟩ | ⟨hrefused, hstate, hopens⟩
  · rw [dispatchField, htop]
    dsimp only
    rw [hspec]
    dsimp only
    rw [hempty, if_neg (by decide), hopens.dispatchStack_eq hfull]
    rfl
  · have hbody : dispatchBody settings dict f st = .error stackOverflow := by
      have hne : st.msgState ≠ .header := by
        rw [hstate]
        decide
      rw [dispatchBody, if_neg hne, dispatchTrailer, if_pos hstate, hopens.trySetField_eq hfull]
      rfl
    rw [dispatchField_of_refused hst hrefused, hbody]

end

end ParseState

section

variable {settings : SessionSettings} {dict : Dictionary} {size : Nat}

theorem Rounded.length_le {text next : Bytes} {st st' : ParseState}
    (h : Rounded settings dict size text st next st') (hst : st.stack.length ≤ groupStackSlots) :
    st'.stack.length ≤ groupStackSlots := by
  cases h with
  | skipped _ _ _ => exact hst
  | data _ _ _ _ _ => exact hst
  | filed _ hdispatch => exact ((ParseState.yields_dispatchField _ _).of_ok hdispatch).length_le hst

theorem thrown_ne_stackOverflow : ParseState.Thrown fun e => e ≠ ParseState.stackOverflow :=
  ⟨(fun text h => by cases h), by decide⟩

theorem thrown_ne_emptyStack : ParseState.Thrown fun e => e ≠ ParseState.emptyStack :=
  ⟨(fun text h => by cases h), by decide⟩

theorem length_of_reaches {text text' : Bytes} {st : ParseState}
    (h : Reaches (parseRound settings dict size) (text, .init dict) (text', st)) :
    st.stack.length ≤ groupStackSlots :=
  h.invariant (P := fun p => p.2.stack.length ≤ groupStackSlots)
    (show (1 : Nat) ≤ groupStackSlots by decide)
    fun _ _ hround hst => (parseRound_next hround).length_le hst

/-- A field that opens a group on a full stack ends the parse. -/
theorem parse_of_overflows {text text' next : Bytes} {st : ParseState} {f : WireField}
    (hreaches : Reaches (parseRound settings dict text.length) (text, .init dict) (text', st))
    (hdispatches : Dispatches settings dict text.length text' st next f)
    (hoverflows : ParseState.Overflows settings dict f (st.started f.tag)) :
    dict.parse settings text = .error ParseState.stackOverflow := by
  have hst := specified_of_reaches hreaches
  refine parse_of_parseRound_error hreaches ?_
  rw [hdispatches.parseRound_eq, hoverflows.dispatchField_eq ⟨hst.nonempty, hst.spec⟩]
  rfl

/-- The stack stays within its slots, if no field opens a group while all of them are taken. -/
theorem withinSlots_of_not_overflows {text : Bytes}
    (h : ∀ text' st next f,
      Reaches (parseRound settings dict text.length) (text, .init dict) (text', st) →
      Dispatches settings dict text.length text' st next f →
      ¬ParseState.Overflows settings dict f (st.started f.tag)) :
    WithinSlots dict settings text := by
  refine ⟨fun herror => ?_, fun herror => ?_, fun text' st hreaches => ⟨?_, ?_⟩⟩
  · refine (yields_parse thrown_ne_stackOverflow (fun tag h => by cases h) text
      fun text' st hreaches => ?_).of_error herror rfl
    refine yields_parseRound thrown_ne_stackOverflow text' st (fun _ => by decide)
      (fun _ => by decide) (fun _ => by decide) fun next f hdispatches hoverflows => ?_
    exact absurd hoverflows (h text' st next f hreaches hdispatches)
  · refine (yields_parse thrown_ne_emptyStack (fun tag h => by cases h) text
      fun text' st hreaches => ?_).of_error herror rfl
    refine yields_parseRound thrown_ne_emptyStack text' st (fun hempty => ?_)
      (fun _ => by decide) (fun _ => by decide) fun _ _ _ _ => by decide
    exact absurd hempty (specified_of_reaches hreaches).nonempty
  · exact List.length_pos_iff.mpr (specified_of_reaches hreaches).nonempty
  · exact length_of_reaches hreaches

end

/-! ## Groups that are open in each other -/

/-- Seven groups are open on the entry of a section, each declared in the one below it, and the
field opens one more. -/
structure ParseState.OpensEighth (settings : SessionSettings) (dict : Dictionary) (f : WireField)
    (st : ParseState) : Prop where
  nested : ∃ specs, dict.Nested specs ∧ specs.length = groupStackSlots ∧ Chained dict st.stack specs
  opens : OpensGroup settings dict f st

/-- The stack is full when groups are nested in each other up to its last slot. -/
theorem overflows_iff {settings : SessionSettings} {dict : Dictionary} {size : Nat}
    {text text' : Bytes} {st : ParseState} {f : WireField}
    (h : Reaches (parseRound settings dict size) (text, .init dict) (text', st)) :
    ParseState.Overflows settings dict f (st.started f.tag) ↔
      ParseState.OpensEighth settings dict f (st.started f.tag) := by
  obtain ⟨specs, hchained⟩ := stacked_of_reaches h
  constructor
  · rintro ⟨hfull, hopens⟩
    obtain ⟨hnested, hlength⟩ := hchained.nested
    exact ⟨⟨specs, hnested, hlength.trans (Nat.le_antisymm (length_of_reaches h) hfull), hchained⟩,
      hopens⟩
  · rintro ⟨⟨specs', -, hlength, hchained'⟩, hopens⟩
    exact ⟨Nat.le_of_eq (hlength.symm.trans hchained'.nested.2), hopens⟩

/-- Groups with their tags, each declared in the specification of the one before. -/
def GroupSpec.Leads : GroupSpec → List (Int × GroupSpec) → Prop
  | _, [] => True
  | spec, (tag, groupSpec) :: path => spec.Declares tag groupSpec ∧ groupSpec.Leads path

/-- Counts of one for the groups on a path. -/
def countTexts (path : List (Int × GroupSpec)) : List Bytes :=
  path.map fun p => fieldText p.1 (ascii "1")

/-- A message of this type that opens the groups on a path. -/
def pathText (msgType : Bytes) (path : List (Int × GroupSpec)) : Bytes :=
  fieldText Field.beginString (ascii "0") ++ internalSohChar ::
    (fieldText Field.bodyLength (ascii "0") ++ internalSohChar ::
      (fieldText Field.msgType msgType ++ internalSohChar ::
        render internalSohChar (countTexts path)))

/-- A message of this type comes to the groups on the path: a header of the first fields is
complete, the first count is not taken for a field of the header, and no count for a length. -/
structure Dictionary.Enters (settings : SessionSettings) (dict : Dictionary) (msgType : Bytes)
    (path : List (Int × GroupSpec)) : Prop where
  opening : ParseState.Opening settings dict (ascii "0") (ascii "0") msgType
  msgTypeLength : dict.getFieldType Field.msgType ≠ .length
  header : dict.headerSpec.complete settings
    [Field.beginString, Field.bodyLength, Field.msgType] = true
  body : ∃ spec, dict.getMessageSpecRaw msgType = some spec ∧ spec.Leads path
  first : ∀ p, path.head? = some p → refusedBy [dict.headerSpec] p.1 = true
  counts : ∀ p ∈ path, isPlainTag p.1 = true ∧ dict.getFieldType p.1 ≠ .length

namespace ParseState

variable {settings : SessionSettings} {dict : Dictionary} {size : Nat}

theorem soh_notMem_count : internalSohChar ∉ ascii "1" := by decide

theorem count_nonneg : 0 ≤ fastParseTag (ascii "1") := by decide

/-- A count at the last slot has none for its group. -/
theorem Inside.overflows {st : ParseState} {base : Message} {g : ParserGroupInfo}
    {below : List ParserGroupInfo} {spec groupSpec : GroupSpec} {own : Bool} {tag : Int}
    {rest : Bytes} (h : Inside settings st base [] g below spec .new [] .nil none own)
    (hplain : isPlainTag tag = true) (hdeclares : spec.Declares tag groupSpec)
    (hfull : groupStackSlots ≤ below.length + 1) :
    parseRound settings dict size (fieldText tag (ascii "1") ++ internalSohChar :: rest, st) =
      .error stackOverflow := by
  obtain ⟨opened, raw, hst⟩ := h.standing
  obtain ⟨rfl, rfl⟩ := hst.spine.of_nil
  obtain ⟨hrange, -⟩ := isPlainTag_iff.mp hplain
  have hempty : spec.empty = false := by
    cases hgroups : spec.groups with
    | nil =>
        have hgroup := hdeclares.group
        rw [GroupSpec.findGroup, hgroups] at hgroup
        cases hgroup
    | cons p groups => rw [GroupSpec.empty, hgroups, List.isEmpty_cons, Bool.and_false]
  have hstarted : Standing settings (st.started tag) base [] [] g below .new .new :=
    ⟨hst.stack, hst.msg, hst.valid, .nil⟩
  have hstack : (st.started tag).stack = g :: below := hst.stack
  have hopens : ∀ stop, Opens (st.started tag) g ⟨tag, ascii "1", stop⟩ := fun stop =>
    ⟨spec, groupSpec, h.spec_eq, hdeclares.noField, hdeclares.group,
      by rw [hstarted.get_eq]; rfl, count_nonneg⟩
  have hoverflows : ∀ stop,
      dispatchField settings dict ⟨tag, ascii "1", stop⟩ (st.started tag) =
        .error stackOverflow := by
    intro stop
    rw [dispatchField, hstack, List.head?_cons]
    dsimp only
    rw [h.spec_eq]
    dsimp only
    rw [hempty, if_neg Bool.false_ne_true, dispatchStack,
      (hopens stop).trySetField_eq (by rw [hstack]; exact hfull)]
    rfl
  rw [parseRound_map hrange.1 hrange.2 (checkTagOrder_of_le h.counted tag)
    (by rw [h.announces]; rfl) soh_notMem_count, hoverflows]
  rfl

/-- The groups on a path are opened one in the other, until there is no slot left. -/
theorem Inside.path_overflows (path : List (Int × GroupSpec)) {st : ParseState} {base : Message}
    {g : ParserGroupInfo} {below : List ParserGroupInfo} {spec : GroupSpec} {own : Bool}
    (h : Inside settings st base [] g below spec .new [] .nil none own) (hpath : spec.Leads path)
    (hcounts : ∀ p ∈ path, isPlainTag p.1 = true ∧ dict.getFieldType p.1 ≠ .length)
    (hroom : below.length < groupStackSlots) (hdeep : groupStackSlots ≤ below.length + path.length) :
    ∃ u, Reaches (parseRound settings dict size) (render internalSohChar (countTexts path), st) u ∧
      parseRound settings dict size u = .error stackOverflow := by
  induction path generalizing st base g below spec own with
  | nil => exact absurd hdeep (Nat.not_le.mpr hroom)
  | cons p path ih =>
      obtain ⟨tag, groupSpec⟩ := p
      obtain ⟨hdeclares, hrest⟩ := hpath
      obtain ⟨hplain, htype⟩ := hcounts _ (List.mem_cons_self ..)
      have htext : render internalSohChar (countTexts ((tag, groupSpec) :: path)) =
          fieldText tag (ascii "1") ++ internalSohChar ::
            render internalSohChar (countTexts path) := by
        rw [countTexts, List.map_cons, render_cons]
        simp only [List.append_assoc, List.cons_append, List.nil_append, countTexts]
      rw [htext]
      by_cases hlast : groupStackSlots ≤ below.length + 1
      · exact ⟨_, .refl, h.overflows hplain hdeclares hlast⟩
      · obtain ⟨st', hread, hinside⟩ : ∃ st', ReadTo settings dict size
            (fieldText tag (ascii "1") ++ internalSohChar ::
              render internalSohChar (countTexts path)) st
            (render internalSohChar (countTexts path)) st' ∧ _ :=
          h.group List.not_mem_nil hplain hdeclares.noField hdeclares.group htype rfl
            soh_notMem_count count_nonneg (Nat.lt_of_not_le hlast)
        obtain ⟨u, hu, herror⟩ := ih hinside hrest
          (fun p hp => hcounts p (List.mem_cons_of_mem _ hp)) (Nat.lt_of_not_le hlast) (by
            rw [List.length_cons] at hdeep ⊢
            omega)
        exact ⟨u, hread.reaches.trans hu, herror⟩

end ParseState

section

variable {settings : SessionSettings} {dict : Dictionary}

/-- A message with as many nested groups as there are slots runs over them. -/
theorem Dictionary.Enters.overflows {msgType : Bytes} {path : List (Int × GroupSpec)}
    (h : dict.Enters settings msgType path) (hdeep : groupStackSlots ≤ path.length) :
    dict.parse settings (pathText msgType path) = .error ParseState.stackOverflow := by
  obtain ⟨spec, hspec, hpath⟩ := h.body
  obtain ⟨st, hreaches, hinside, hstate, -⟩ := h.opening.reads (pathText msgType path).length
    (render internalSohChar (countTexts path))
  rw [Dictionary.lengthOf, if_neg h.msgTypeLength] at hinside
  have hmsgType : (ParseState.openedHeader (ascii "0") (ascii "0") msgType).field? Field.msgType =
      some msgType := rfl
  -- The header is left at the first count, which is then the first field of the body.
  obtain ⟨base, hbase, hnew⟩ : ∃ base, base = Message.new.put ⟨.header, []⟩
        (ParseState.finishMap settings (some dict.headerSpec)
          (ParseState.openedHeader (ascii "0") (ascii "0") msgType)) ∧
      base.put ⟨.body, []⟩ .new = base := ⟨_, rfl, rfl⟩
  obtain ⟨st', hst', hbody⟩ : ∃ st', st' = { st with
        msg := base
        msgState := .body
        stack := [ParseState.bodyInfo (some spec)] } ∧
      ParseState.Inside settings st' base [] (ParseState.bodyInfo (some spec)) [] spec .new []
        .nil none true := by
    refine ⟨_, rfl, ?_⟩
    exact .enter rfl rfl hnew (Message.valid_section _) rfl hinside.counted hinside.announces
  obtain ⟨u, hu, herror⟩ : ∃ u, Reaches (parseRound settings dict (pathText msgType path).length)
      (render internalSohChar (countTexts path), st') u ∧
        parseRound settings dict (pathText msgType path).length u =
          .error ParseState.stackOverflow :=
    hbody.path_overflows path hpath h.counts (by decide) (by
      rw [List.length_nil, Nat.zero_add]
      exact hdeep)
  cases path with
  | nil => exact absurd hdeep (by decide)
  | cons p path =>
      obtain ⟨hrange, -⟩ := ParseState.isPlainTag_iff.mp (h.counts p (List.mem_cons_self ..)).1
      have hstarts : ParseState.StartsWith p.1 (ascii "1")
          (render internalSohChar (countTexts (p :: path))) := by
        rw [countTexts, List.map_cons, render_cons, List.append_assoc]
        exact .intro _ hrange.1 hrange.2 ParseState.soh_notMem_count
      have henter : ∀ stop,
          ParseState.dispatchField settings dict ⟨p.1, ascii "1", stop⟩ (st.started p.1) =
            ParseState.dispatchField settings dict ⟨p.1, ascii "1", stop⟩ (st'.started p.1) := by
        intro stop
        rw [hst', hbase]
        exact (hinside.started p.1).enterBody hstate h.header hmsgType hspec (h.first p rfl)
      have hround : parseRound settings dict (pathText msgType (p :: path)).length
            (render internalSohChar (countTexts (p :: path)), st) =
          parseRound settings dict (pathText msgType (p :: path)).length
            (render internalSohChar (countTexts (p :: path)), st') :=
        hstarts.parseRound_eq hinside.counted hbody.counted (by rw [hinside.announces]; rfl)
            (by rw [hbody.announces]; rfl) henter
      rcases hu.cases_head with rfl | ⟨v, hv, hu⟩
      · exact parse_of_parseRound_error hreaches (hround.trans herror)
      · exact parse_of_parseRound_error (hreaches.trans (hu.head (hround.trans hv))) herror

/-- The stack stays within its slots, if and only if no field opens a group while seven groups
are open, each declared in the one before.  That is never so for a dictionary that nests six
groups at most, and it is so for some text when a message type nests eight. -/
theorem withinSlots_iff (dict : Dictionary) (settings : SessionSettings) :
    (∀ text, WithinSlots dict settings text ↔
      ∀ text' st next f,
        Reaches (parseRound settings dict text.length) (text, .init dict) (text', st) →
        Dispatches settings dict text.length text' st next f →
        ¬ParseState.OpensEighth settings dict f (st.started f.tag)) ∧
    ((∀ specs, dict.Nested specs → specs.length < groupStackSlots) →
      ∀ text, WithinSlots dict settings text) ∧
    ((∃ msgType path, dict.Enters settings msgType path ∧ groupStackSlots ≤ path.length) →
      ∃ text, ¬WithinSlots dict settings text) := by
  refine ⟨fun text => ⟨?_, ?_⟩, ?_, ?_⟩
  · intro hwithin text' st next f hreaches hdispatches hopens
    exact hwithin.push (parse_of_overflows hreaches hdispatches ((overflows_iff hreaches).mpr hopens))
  · intro hnone
    refine withinSlots_of_not_overflows fun text' st next f hreaches hdispatches hoverflows => ?_
    exact hnone text' st next f hreaches hdispatches ((overflows_iff hreaches).mp hoverflows)
  · intro hdepth text
    refine withinSlots_of_not_overflows fun text' st next f hreaches hdispatches hoverflows => ?_
    obtain ⟨specs, hnested, hlength, -⟩ := ((overflows_iff hreaches).mp hoverflows).nested
    exact absurd hlength (Nat.ne_of_lt (hdepth specs hnested))
  · rintro ⟨msgType, path, henters, hdeep⟩
    exact ⟨pathText msgType path, fun hwithin => hwithin.push (henters.overflows hdeep)⟩

end

/-- Groups with the tags from `tag` on, each inside the one before. -/
def nestedSpec : Nat → Int → GroupSpec
  | 0, tag => ⟨[(tag, false)], [], false, [tag]⟩
  | depth + 1, tag => ⟨[], [(tag, nestedSpec depth (tag + 1))], false, [tag]⟩

/-- The dictionary of the tests with a message of eight nested groups. -/
def nestedDictionary : Dictionary :=
  { testDictionary with bodySpecs := [(ascii "N", nestedSpec 8 1001)] }

theorem nestedDictionary_enters : ∃ path,
    nestedDictionary.Enters {} (ascii "N") path ∧ groupStackSlots ≤ path.length := by
  refine ⟨[(1001, nestedSpec 7 1002), (1002, nestedSpec 6 1003), (1003, nestedSpec 5 1004),
    (1004, nestedSpec 4 1005), (1005, nestedSpec 3 1006), (1006, nestedSpec 2 1007),
    (1007, nestedSpec 1 1008), (1008, nestedSpec 0 1009)],
    ⟨⟨rfl, rfl, by decide, rfl, by decide⟩, by decide, rfl, ⟨nestedSpec 8 1001, rfl, ?_⟩, ?_, ?_⟩,
    by decide⟩
  · exact ⟨⟨rfl, rfl⟩, ⟨rfl, rfl⟩, ⟨rfl, rfl⟩, ⟨rfl, rfl⟩, ⟨rfl, rfl⟩, ⟨rfl, rfl⟩, ⟨rfl, rfl⟩,
      ⟨rfl, rfl⟩, True.intro⟩
  · rintro p ⟨⟩
    rfl
  · decide

/-- The dictionary of the tests nests two groups, and the other one eight. -/
theorem withinSlots_iff_test : (∀ text, WithinSlots testDictionary {} text) ∧
    ∃ text, ¬WithinSlots nestedDictionary {} text := by
  obtain ⟨path, henters, hdeep⟩ := nestedDictionary_enters
  have hdepth : testDictionary.depth + 1 < groupStackSlots := by decide
  exact ⟨(withinSlots_iff testDictionary {}).2.1 fun _ h => Nat.lt_of_le_of_lt h.length_le hdepth,
    (withinSlots_iff nestedDictionary {}).2.2 ⟨ascii "N", path, henters, hdeep⟩⟩

/-- The eighth group is pushed on a full stack. -/
theorem not_withinSlots : ¬∀ (dict : Dictionary) (settings : SessionSettings) (text : Bytes),
    WithinSlots dict settings text := by
  intro h
  have hpush := (h nestedDictionary {} (wireOf ("8=FIX.4.4|9=0|35=N|" ++
    "1001=1|1002=1|1003=1|1004=1|1005=1|1006=1|1007=1|1008=1|"))).push
  exact hpush rfl

end OpenFix
