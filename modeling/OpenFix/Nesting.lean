import OpenFix.Errors
import OpenFix.Specified

/-!
# The groups that are open

The stack of the parser follows the nesting of the dictionary: its bottom is the entry of a
section, and every other entry is for a group that the specification of the entry below
declares.  The length of the stack is then bounded by the depth of the dictionary.

The transition to the trailer replaces the bottom only.  When the first field of the trailer
opens a group while groups of the body are open, the lowest of these stays where it is, and
the entry below it is the one of the trailer.  So the specification of the bottom is that of
a section, but not always of the section whose groups stand on it.
-/

namespace OpenFix

open Loop

/-- A group that the specification declares. -/
structure GroupSpec.Declares (spec : GroupSpec) (tag : Int) (groupSpec : GroupSpec) : Prop where
  noField : spec.hasField tag = false
  group : spec.findGroup tag = some groupSpec

namespace Dictionary

/-- The specification of a section of some message. -/
inductive IsSection (dict : Dictionary) : GroupSpec → Prop where
  | header : IsSection dict dict.headerSpec
  | body {msgType : Bytes} {spec : GroupSpec} (h : dict.getMessageSpecRaw msgType = some spec) :
      IsSection dict spec
  | trailer : IsSection dict dict.trailerSpec

/-- Specifications of groups, each declared in the next one, and the one of a section at the
end. -/
inductive Nested (dict : Dictionary) : List GroupSpec → Prop where
  | bottom {spec : GroupSpec} (h : dict.IsSection spec) : Nested dict [spec]
  | group {spec groupSpec : GroupSpec} {specs : List GroupSpec} {tag : Int}
      (h : Nested dict (spec :: specs)) (hdeclares : spec.Declares tag groupSpec) :
      Nested dict (groupSpec :: spec :: specs)

end Dictionary

/-! ## The depth of a dictionary -/

mutual

/-- How many groups the specification declares one in the other. -/
def GroupSpec.depth : GroupSpec → Nat
  | ⟨_, groups, _, _⟩ => GroupSpec.depthOfGroups groups

def GroupSpec.depthOfGroups : List (Int × GroupSpec) → Nat
  | [] => 0
  | p :: groups => max (GroupSpec.depthOfGroup p) (GroupSpec.depthOfGroups groups)

def GroupSpec.depthOfGroup : Int × GroupSpec → Nat
  | (_, spec) => GroupSpec.depth spec + 1

end

/-- How many groups the messages of the dictionary have one in the other. -/
def Dictionary.depth (dict : Dictionary) : Nat :=
  max (max dict.headerSpec.depth dict.trailerSpec.depth)
    (dict.bodySpecs.foldr (fun p depth => max p.2.depth depth) 0)

theorem GroupSpec.depth_lt_of_mem {groupSpec : GroupSpec} {tag : Int} :
    ∀ {groups : List (Int × GroupSpec)}, (tag, groupSpec) ∈ groups →
      groupSpec.depth < GroupSpec.depthOfGroups groups := by
  intro groups h
  induction groups with
  | nil => cases h
  | cons p groups ih =>
      rw [GroupSpec.depthOfGroups]
      rcases List.mem_cons.mp h with rfl | h
      · rw [GroupSpec.depthOfGroup]
        exact Nat.lt_of_lt_of_le (Nat.lt_succ_self _) (Nat.le_max_left _ _)
      · exact Nat.lt_of_lt_of_le (ih h) (Nat.le_max_right _ _)

theorem GroupSpec.Declares.depth_lt {spec groupSpec : GroupSpec} {tag : Int}
    (h : spec.Declares tag groupSpec) : groupSpec.depth < spec.depth := by
  have hlt := GroupSpec.depth_lt_of_mem (AssocList.mem_of_find? h.group)
  obtain ⟨fields, groups, ordered, fieldOrder⟩ := spec
  rwa [GroupSpec.depth]

theorem Dictionary.IsSection.depth_le {dict : Dictionary} {spec : GroupSpec}
    (h : dict.IsSection spec) : spec.depth ≤ dict.depth := by
  rw [Dictionary.depth]
  cases h with
  | header => exact Nat.le_trans (Nat.le_max_left _ _) (Nat.le_max_left _ _)
  | trailer => exact Nat.le_trans (Nat.le_max_right _ _) (Nat.le_max_left _ _)
  | @body msgType _ hspec =>
      refine Nat.le_trans ?_ (Nat.le_max_right _ _)
      have hmem : (msgType, spec) ∈ dict.bodySpecs := AssocList.mem_of_find? hspec
      generalize dict.bodySpecs = bodySpecs at hmem
      induction bodySpecs with
      | nil => cases hmem
      | cons p bodySpecs ih =>
          rw [List.foldr_cons]
          rcases List.mem_cons.mp hmem with rfl | hmem
          · exact Nat.le_max_left _ _
          · exact Nat.le_trans (ih hmem) (Nat.le_max_right _ _)

/-- Specifications that are declared one in the other are no more than the dictionary is deep,
with the one of the section. -/
theorem Dictionary.Nested.length_le {dict : Dictionary} {specs : List GroupSpec}
    (h : dict.Nested specs) : specs.length ≤ dict.depth + 1 := by
  have hdepth : ∀ spec ∈ specs.head?, spec.depth + specs.length ≤ dict.depth + 1 := by
    induction h with
    | bottom hsection =>
        intro spec hspec
        cases hspec
        exact Nat.succ_le_succ hsection.depth_le
    | @group spec groupSpec specs tag _ hdeclares ih =>
        intro spec' hspec'
        cases hspec'
        have hparent := ih spec rfl
        have hlt := hdeclares.depth_lt
        have hlength : (groupSpec :: spec :: specs).length = (spec :: specs).length + 1 := rfl
        omega
  cases h with
  | bottom _ => exact Nat.le_add_left _ _
  | group _ _ => exact Nat.le_trans (Nat.le_add_left _ _) (hdepth _ rfl)

/-! ## The entries of the stack -/

namespace ParseState

/-- The entries of the stack are for these specifications, each declared in the next one. -/
inductive Chained (dict : Dictionary) : List ParserGroupInfo → List GroupSpec → Prop where
  | bottom {g : ParserGroupInfo} {own spec : GroupSpec} (hspec : g.spec = some own)
      (hown : dict.IsSection own) (htag : g.groupTag = 0) (hsection : dict.IsSection spec) :
      Chained dict [g] [spec]
  | group {g : ParserGroupInfo} {parent spec : GroupSpec} {stack : List ParserGroupInfo}
      {specs : List GroupSpec} (h : Chained dict stack (parent :: specs)) (hspec : g.spec = some spec)
      (hdeclares : parent.Declares g.groupTag spec) :
      Chained dict (g :: stack) (spec :: parent :: specs)

/-- The stack follows the nesting of the dictionary. -/
def Stacked (dict : Dictionary) (stack : List ParserGroupInfo) : Prop :=
  ∃ specs, Chained dict stack specs

section

variable {dict : Dictionary} {g g' : ParserGroupInfo} {stack below : List ParserGroupInfo}
  {specs : List GroupSpec} {spec : GroupSpec}

theorem Chained.nested (h : Chained dict stack specs) :
    dict.Nested specs ∧ specs.length = stack.length := by
  induction h with
  | bottom _ _ _ hsection => exact ⟨.bottom hsection, rfl⟩
  | group _ _ hdeclares ih =>
      refine ⟨.group ih.1 hdeclares, ?_⟩
      rw [List.length_cons, ih.2, List.length_cons]

/-- The entry at the bottom is not the one of a group. -/
theorem Chained.not_rootless (h : Chained dict stack specs) : ¬Rootless stack := by
  induction h with
  | bottom _ _ htag _ =>
      rintro ⟨bottom, hbottom, hpos⟩
      rw [← Option.some.inj hbottom] at hpos
      exact absurd hpos (Int.not_lt.mpr (Int.le_of_eq htag))
  | @group g parent spec stack specs hstack _ _ ih =>
      rintro ⟨bottom, hbottom, hpos⟩
      refine ih ⟨bottom, ?_, hpos⟩
      cases hstack with
      | bottom _ _ _ _ => exact hbottom
      | group _ _ _ => exact hbottom

/-! ## What the entries become -/

/-- The specifications start with the one of the top. -/
theorem Stacked.exists_spec (h : Stacked dict (g :: below)) :
    ∃ spec specs, g.spec = some spec ∧ Chained dict (g :: below) (spec :: specs) := by
  obtain ⟨specs, h⟩ := h
  cases h with
  | bottom hspec hown htag _ => exact ⟨_, _, hspec, .bottom hspec hown htag hown⟩
  | group h hspec hdeclares => exact ⟨_, _, hspec, .group h hspec hdeclares⟩

/-- A group that the top declares is opened. -/
theorem Stacked.open (h : Stacked dict (g :: below)) (hspec : g.spec = some spec)
    {groupSpec : GroupSpec} (hgroup : g'.spec = some groupSpec)
    (hdeclares : spec.Declares g'.groupTag groupSpec) : Stacked dict (g' :: g :: below) := by
  obtain ⟨spec', specs, hspec', h⟩ := h.exists_spec
  cases hspec.symm.trans hspec'
  exact ⟨_, .group h hgroup hdeclares⟩

theorem Stacked.tail (h : Stacked dict (g :: g' :: below)) : Stacked dict (g' :: below) := by
  obtain ⟨specs, h⟩ := h
  cases h with
  | group h _ _ => exact ⟨_, h⟩

theorem Stacked.drop (h : Stacked dict stack) {n : Nat} (hn : n < stack.length) :
    Stacked dict (stack.drop n) := by
  induction stack generalizing n with
  | nil => exact absurd hn (Nat.not_lt_zero n)
  | cons g stack ih =>
      cases n with
      | zero => exact h
      | succ n =>
          rw [List.length_cons, Nat.succ_lt_succ_iff] at hn
          cases stack with
          | nil => exact absurd hn (Nat.not_lt_zero n)
          | cons g' below => exact ih h.tail hn

theorem Stacked.of_append {above : List ParserGroupInfo}
    (h : Stacked dict (above ++ g :: below)) : Stacked dict (g :: below) := by
  have hdrop := h.drop (n := above.length) (by rw [List.length_append, List.length_cons]; omega)
  rwa [List.drop_left] at hdrop

/-- An entry goes on to another map. -/
theorem Stacked.replace {above : List ParserGroupInfo} (h : Stacked dict (above ++ g :: below))
    (hspec : g'.spec = g.spec) (htag : g'.groupTag = g.groupTag) :
    Stacked dict (above ++ g' :: below) := by
  have hchained : ∀ {above : List ParserGroupInfo} {specs : List GroupSpec},
      Chained dict (above ++ g :: below) specs → Chained dict (above ++ g' :: below) specs := by
    intro above
    induction above with
    | nil =>
        intro specs h
        rw [List.nil_append] at h ⊢
        cases h with
        | bottom hg hown htag' hsection =>
            exact .bottom (hspec.trans hg) hown (htag.trans htag') hsection
        | group h hg hdeclares => exact .group h (hspec.trans hg) (htag ▸ hdeclares)
    | cons e above ih =>
        intro specs h
        rw [List.cons_append] at h ⊢
        generalize hstack : above ++ g :: below = stack at h
        cases h with
        | bottom _ _ _ _ => simp at hstack
        | group h hg hdeclares => exact .group (ih (hstack ▸ h)) hg hdeclares
  obtain ⟨specs, h⟩ := h
  exact ⟨specs, hchained h⟩

/-- The bottom is replaced by the entry of another section. -/
theorem Stacked.rebase {above : List ParserGroupInfo} (h : Stacked dict (above ++ [g]))
    (hspec : g'.spec = some spec) (hsection : dict.IsSection spec) (htag : g'.groupTag = 0) :
    Stacked dict (above ++ [g']) := by
  have hchained : ∀ {above : List ParserGroupInfo} {specs : List GroupSpec},
      Chained dict (above ++ [g]) specs → Chained dict (above ++ [g']) specs := by
    intro above
    induction above with
    | nil =>
        intro specs h
        rw [List.nil_append] at h ⊢
        cases h with
        | bottom _ _ _ hbase => exact .bottom hspec hsection htag hbase
        | group h _ _ => cases h
    | cons e above ih =>
        intro specs h
        rw [List.cons_append] at h ⊢
        generalize hstack : above ++ [g] = stack at h
        cases h with
        | bottom _ _ _ _ => simp at hstack
        | group h hg hdeclares => exact .group (ih (hstack ▸ h)) hg hdeclares
  obtain ⟨specs, h⟩ := h
  exact ⟨specs, hchained h⟩

theorem stacked_section (hspec : g.spec = some spec) (hsection : dict.IsSection spec)
    (htag : g.groupTag = 0) : Stacked dict [g] := ⟨_, .bottom hspec hsection htag hsection⟩

end

section

variable {settings : SessionSettings} {dict : Dictionary} {f : WireField} {st st' : ParseState}

/-- The entry that takes a field is on the top afterwards, or the group that it opens.  An
entry that is not on the top loses the group again: the entry that stays above it is the one
that was there. -/
theorem Offered.stacked {before below : List ParserGroupInfo} {g : ParserGroupInfo} {r : Tried}
    {idx : Nat} (h : Offered settings dict st g below.length below.head? f r)
    (hidx : r.idx = some idx) (hst : Stacked dict (before ++ g :: below)) (st' : ParseState)
    (hstack : st'.stack = r.pushed ++ before ++ r.group :: below) :
    Stacked dict (st'.closeTo settings (idx + 1)).stack := by
  show Stacked dict (st'.stack.drop (st'.stack.length - (idx + 1)))
  rw [hstack]
  have hlength : ∀ g : ParserGroupInfo,
      (before ++ g :: below).length - (below.length + 1) = before.length := by
    intro g
    rw [List.length_append, List.length_cons]
    exact Nat.add_sub_cancel ..
  cases h with
  | refused _ _ => cases hidx
  | added _ _ _ =>
      cases hidx
      dsimp only
      rw [List.nil_append, hlength, List.drop_left]
      exact hst.of_append
  | next _ _ _ _ _ =>
      cases hidx
      dsimp only
      rw [List.nil_append, hlength, List.drop_left]
      exact @Stacked.replace _ _ _ _ [] hst.of_append rfl rfl
  | opened hspec hfield hgroup _ _ =>
      cases hidx
      dsimp only
      cases before with
      | nil =>
          have hzero : (g :: below).length + 1 - (below.length + 1 + 1) = 0 := Nat.sub_self _
          rw [List.append_nil, List.singleton_append, List.length_cons, hzero, List.drop_zero]
          exact Stacked.open hst hspec rfl ⟨hfield, hgroup⟩
      | cons e before =>
          have hcount : (e :: before ++ g :: below).length + 1 - (below.length + 1 + 1) =
              before.length + 1 := by
            rw [List.cons_append, List.length_cons, List.length_append, List.length_cons]
            omega
          rw [List.append_assoc, List.singleton_append, List.length_cons, hcount,
            List.drop_succ_cons]
          refine hst.drop ?_
          rw [List.cons_append, List.length_cons, List.length_append, List.length_cons]
          omega

theorem bodySpecOf_section {bodySpec : GroupSpec}
    (h : st.bodySpecOf settings dict = .ok (some bodySpec)) : dict.IsSection bodySpec := by
  rw [bodySpecOf] at h
  split at h
  next _ _ => exact .body (Except.ok.inj h)
  next =>
    obtain ⟨_, -, h⟩ := bind_eq_ok.mp h
    cases h

theorem Trailed.stacked (h : Trailed settings dict f st st') (hst : Stacked dict st.stack) :
    Stacked dict st'.stack := by
  cases h with
  | unknown _ =>
      rw [addUnknown, noteBodyLength]
      split
      · exact hst
      · exact hst
  | @trailer r idx bottom _ hoffer hidx hbottom =>
      obtain ⟨above, hstack⟩ : ∃ above, st.stack = above ++ [bottom] :=
        ⟨st.stack.dropLast, (List.dropLast_append_getLast? bottom hbottom).symm⟩
      rw [hstack] at hst
      have hrebased : Stacked dict (above ++ trailerInfo dict :: []) := hst.rebase rfl .trailer rfl
      refine @Offered.stacked _ _ _ _ above [] _ _ _ hoffer hidx hrebased _ ?_
      show r.pushed ++ replaceBottom st.stack r.group = _
      rw [replaceBottom, hstack, List.dropLast_concat, List.append_assoc]

theorem Passed.stacked (h : Passed settings dict f st st') (hst : Stacked dict st.stack) :
    Stacked dict st'.stack := by
  have hbody : ∀ {bodySpec : Option GroupSpec}, bodySpec ≠ none →
      (st.closeTo settings 0).bodySpecOf settings dict = .ok bodySpec →
        Stacked dict [bodyInfo bodySpec] := by
    intro bodySpec hsome hspec
    obtain ⟨spec, rfl⟩ := Option.ne_none_iff_exists'.mp hsome
    exact stacked_section rfl (bodySpecOf_section hspec) rfl
  cases h with
  | trailed _ htrailed => exact htrailed.stacked hst
  | @taken bodySpec r idx _ hspec hoffer hidx =>
      have hinfo := hbody hoffer.spec_ne_none hspec
      cases hoffer with
      | refused _ _ => cases hidx
      | added _ _ _ => exact hinfo
      | opened hspec' hfield hgroup _ _ => exact hinfo.open hspec' rfl ⟨hfield, hgroup⟩
      | next _ hparent _ _ _ => cases hparent
  | passed _ hspec hsome _ htrailed => exact htrailed.stacked (hbody hsome hspec)

theorem Filed.stacked (h : Filed settings dict f st st') (hst : Stacked dict st.stack) :
    Stacked dict st'.stack := by
  cases h with
  | taken hstack hoffer hidx => exact hoffer.stacked hidx (hstack ▸ hst) _ rfl
  | passed hpassed => exact hpassed.stacked hst

end

end ParseState

section

variable {settings : SessionSettings} {dict : Dictionary} {size : Nat} {text text' : Bytes}
  {st st' : ParseState}

theorem Rounded.stacked (h : Rounded settings dict size text st text' st')
    (hst : ParseState.Stacked dict st.stack) : ParseState.Stacked dict st'.stack := by
  cases h with
  | skipped _ _ _ => exact hst
  | data _ _ _ _ _ => exact hst
  | filed _ hdispatch => exact ((ParseState.yields_dispatchField _ _).of_ok hdispatch).stacked hst

/-- In every round of a parse the stack follows the nesting of the dictionary. -/
theorem stacked_of_reaches
    (h : Reaches (parseRound settings dict size) (text, .init dict) (text', st)) :
    ParseState.Stacked dict st.stack :=
  h.invariant (P := fun p => ParseState.Stacked dict p.2.stack)
    (ParseState.stacked_section rfl .header rfl)
    fun _ _ hround hst => (parseRound_next hround).stacked hst

end

end OpenFix
