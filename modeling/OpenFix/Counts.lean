import Mathlib.Data.List.Chain
import OpenFix.Unique

/-!
# The counts of groups

A field with the tag of a group opens the first instance of the group, and its value is the
number of instances that are to come.  Every further instance is counted by the entry of the
group, which is popped when the number is reached.  So the field of a count says how many
instances there are, as long as nothing else stores a value for its tag, the value is not
zero, every instance is added to the map that the count is in, and no instance gets tags
that its group does not have.
-/

namespace OpenFix

open Loop

/-- The specification has the tag as a field or as a group. -/
def GroupSpec.Knows (spec : GroupSpec) (tag : Int) : Prop :=
  spec.hasField tag = true ∨ (spec.findGroup tag).isSome = true

/-- The groups that a map has by its specification have as many instances as their fields say, and
the instances have tags of the group only. -/
structure Message.CountsGroups (msg : Message) : Prop where
  count : ∀ ref spec tag, (msg.get ref).spec = some spec → (spec.findGroup tag).isSome = true →
    ((msg.get ref).has tag = true ∨ 0 < (msg.get ref).getGroupCount tag) →
      (msg.get ref).getIntField tag = .ok ((msg.get ref).getGroupCount tag)
  members : ∀ ref spec tag groupSpec i, (msg.get ref).spec = some spec →
    spec.findGroup tag = some groupSpec →
      ∀ t ∈ AssocList.keys (msg.get (ref.child tag i)).fields, groupSpec.Knows t

/-- The edit makes a count wrong, or it gives an instance a tag that its group does not have. -/
inductive Miscounts (b : Build) : Edit → Prop where
  | appendCount {g : ParserGroupInfo} {tag : Int} {value : Bytes} {spec : GroupSpec}
      (hspec : g.spec = some spec) (hgroup : (spec.findGroup tag).isSome = true) :
      Miscounts b (.append g tag value)
  | assignCount {g : ParserGroupInfo} {tag : Int} {value : Bytes} {spec : GroupSpec}
      (hspec : g.spec = some spec) (hgroup : (spec.findGroup tag).isSome = true) :
      Miscounts b (.assign g tag value)
  | assignForeign {g : ParserGroupInfo} {tag : Int} {value : Bytes} {spec : GroupSpec}
      (hspec : g.spec = some spec) (hinstance : g.group.path ≠ []) (hforeign : ¬spec.Knows tag) :
      Miscounts b (.assign g tag value)
  | openZero {g : ParserGroupInfo} {spec : GroupSpec} {f : WireField}
      (hzero : fastParseTag f.val ≤ 0) : Miscounts b (.openGroup g spec f)
  | openOverflow {g : ParserGroupInfo} {spec : GroupSpec} {f : WireField}
      (hvalue : FieldMap.intOf f.val ≠ fastParseTag f.val) : Miscounts b (.openGroup g spec f)
  -- The further instances of such a group are not counted.
  | openUncounted {g : ParserGroupInfo} {spec : GroupSpec} {f : WireField} (htag : f.tag ≤ 0)
      (hvalue : fastParseTag f.val ≠ 1) : Miscounts b (.openGroup g spec f)
  | openCheckSum {g : ParserGroupInfo} {spec : GroupSpec} {f : WireField}
      (hgroup : g.group = ⟨.trailer, []⟩) (htag : f.tag = Field.checkSum) :
      Miscounts b (.openGroup g spec f)
  -- The entry stays on the stack, and its further instances go to the trailer.
  | openTrailer {g a : ParserGroupInfo} {spec : GroupSpec} {f : WireField}
      (hgroup : g.group = ⟨.trailer, []⟩) (ha : a ∈ b.entries) (hsec : a.group.sec ≠ .trailer)
      (hcount : a.groupCount ≠ a.groupMaxCount) : Miscounts b (.openGroup g spec f)
  | nextCount {g p : ParserGroupInfo} {spec : GroupSpec} {f : WireField}
      (hspec : g.spec = some spec) (hgroup : (spec.findGroup f.tag).isSome = true) :
      Miscounts b (.next g p f)

/-! ## Entries and their parents -/

/-- The entry is a child of the next one, or it takes no further instance. -/
def StandsOn (g p : ParserGroupInfo) : Prop :=
  g.groupCount = g.groupMaxCount ∨ ∃ i, g.group = p.group.child g.groupTag i

/-- Every entry of the stack follows the one below, and the one at the bottom is a section. -/
structure Linked (stack : List ParserGroupInfo) : Prop where
  chain : stack.IsChain StandsOn
  bottom : ∀ g, stack.getLast? = some g → g.group.path = []

theorem Linked.drop {stack : List ParserGroupInfo} (h : Linked stack) (n : Nat) :
    Linked (stack.drop n) := by
  refine ⟨h.chain.drop n, fun g hg => h.bottom g ?_⟩
  rw [List.getLast?_drop] at hg
  split at hg
  · cases hg
  · exact hg

theorem Linked.of_append {before stack : List ParserGroupInfo} (h : Linked (before ++ stack)) :
    Linked stack := by
  have hdrop := h.drop before.length
  rwa [List.drop_left] at hdrop

theorem linked_singleton {g : ParserGroupInfo} (h : g.group.path = []) : Linked [g] := by
  refine ⟨.singleton g, fun g' hg' => ?_⟩
  cases hg'
  exact h

/-- An entry is pushed on top of one that it follows. -/
theorem Linked.cons {g p : ParserGroupInfo} {below : List ParserGroupInfo}
    (h : Linked (p :: below)) (hstands : StandsOn g p) : Linked (g :: p :: below) := by
  refine ⟨List.isChain_cons_cons.mpr ⟨hstands, h.chain⟩, fun g' hg' => h.bottom g' ?_⟩
  rwa [List.getLast?_cons_cons] at hg'

namespace ParseState

variable {settings : SessionSettings} {dict : Dictionary} {f : WireField} {st st' : ParseState}

theorem standsOn_openedInfo (g : ParserGroupInfo) (spec : GroupSpec) (f : WireField) :
    StandsOn (openedInfo g spec f) g := .inr ⟨0, rfl⟩

/-- The stack behind a field that was taken. -/
theorem linked_closeTo {before below : List ParserGroupInfo} {g : ParserGroupInfo} {r : Tried}
    {idx : Nat} (hst : Linked (before ++ g :: below))
    (hoffer : Offered settings dict st g below.length below.head? f r) (hidx : r.idx = some idx) :
    Linked ((r.pushed ++ before ++ r.group :: below).drop
      ((r.pushed ++ before ++ r.group :: below).length - (idx + 1))) := by
  have hbelow : Linked (g :: below) := hst.of_append
  have hdrop : ∀ g' : ParserGroupInfo, (before ++ g' :: below).drop
      ((before ++ g' :: below).length - (below.length + 1)) = g' :: below := by
    intro g'
    rw [List.length_append, List.length_cons, Nat.add_sub_cancel, List.drop_left]
  cases hoffer with
  | refused _ _ => cases hidx
  | added _ _ _ =>
      cases hidx
      rw [List.nil_append, hdrop]
      exact hbelow
  | @opened spec groupSpec _ _ _ _ _ =>
      cases hidx
      have hcount : ([openedInfo g groupSpec f] ++ before ++ g :: below).length -
          (below.length + 1 + 1) = before.length := by
        simp only [List.length_append, List.length_cons, List.length_nil]
        omega
      rw [hcount]
      cases hlast : before.length with
      | zero =>
          rw [List.length_eq_zero_iff.mp hlast]
          exact hbelow.cons (standsOn_openedInfo g groupSpec f)
      | succ n =>
          -- The new entry is at the top, and it is popped first.
          rw [List.append_assoc, List.singleton_append, List.drop_succ_cons]
          exact hst.drop n
  | @next p _ hparent _ _ _ =>
      cases hidx
      rw [List.nil_append, hdrop]
      cases below with
      | nil => cases hparent
      | cons p' below =>
          cases hparent
          have htail : Linked ([g] ++ p :: below) := hbelow
          exact htail.of_append.cons (.inr ⟨_, rfl⟩)

theorem Trailed.linked (h : Trailed settings dict f st st') (hst : Linked st.stack)
    (hfull : ∀ groupSpec, st.msgState = .body → dict.trailerSpec.hasField f.tag = false →
      dict.trailerSpec.findGroup f.tag = some groupSpec →
        (st.get ⟨.trailer, []⟩).getGroupCount f.tag = 0 →
          ∀ a ∈ st.stack, a.groupCount = a.groupMaxCount) : Linked st'.stack := by
  cases h with
  | @unknown top _ =>
      have hstack : (st.addUnknown dict top f).stack = st.stack := by
        rw [addUnknown, modify_stack]
        exact congrArg Build.entries (build_noteBodyLength (st.announce dict f) f)
      rw [hstack]
      exact hst
  | @trailer r idx bottom hstate hoffer hidx hbottom =>
      show Linked ((r.pushed ++ replaceBottom st.stack r.group).drop
        ((r.pushed ++ replaceBottom st.stack r.group).length - (idx + 1)))
      rw [replaceBottom]
      cases hoffer with
      | refused _ _ => cases hidx
      | added _ _ _ =>
          cases hidx
          rw [List.nil_append, List.length_append, List.length_singleton, Nat.add_sub_cancel,
            List.drop_left]
          exact linked_singleton rfl
      | @opened spec groupSpec hspec hfield hgroup hnew _ =>
          cases hidx
          cases hspec
          have hcount : ([openedInfo (trailerInfo dict) groupSpec f] ++ (st.stack.dropLast ++
              [trailerInfo dict])).length - (0 + 1 + 1) = st.stack.dropLast.length := by
            simp only [List.length_append, List.length_cons, List.length_nil]
            omega
          rw [hcount]
          rcases List.eq_nil_or_concat' st.stack.dropLast with hnil | ⟨front, a, hfront⟩
          · rw [hnil]
            exact (linked_singleton rfl).cons (standsOn_openedInfo _ groupSpec f)
          · have hdrop : ([openedInfo (trailerInfo dict) groupSpec f] ++ (front ++ [a] ++
                [trailerInfo dict])).drop (front ++ [a]).length = [a, trailerInfo dict] := by
              rw [List.length_append, List.length_singleton, List.singleton_append,
                List.drop_succ_cons, List.append_assoc, List.drop_left]
              rfl
            rw [hfront, hdrop]
            have ha : a ∈ st.stack := by
              refine (List.dropLast_sublist st.stack).subset ?_
              rw [hfront]
              exact List.mem_append_right _ List.mem_cons_self
            exact (linked_singleton rfl).cons
              (.inl (hfull groupSpec hstate hfield hgroup hnew a ha))
      | next _ _ htag _ _ => exact absurd htag (Int.lt_irrefl 0)

theorem Passed.linked (h : Passed settings dict f st st') (hst : Linked st.stack)
    (hfull : ∀ groupSpec, st.msgState = .body → dict.trailerSpec.hasField f.tag = false →
      dict.trailerSpec.findGroup f.tag = some groupSpec →
        (st.get ⟨.trailer, []⟩).getGroupCount f.tag = 0 →
          ∀ a ∈ st.stack, a.groupCount = a.groupMaxCount) : Linked st'.stack := by
  cases h with
  | trailed _ htrailed => exact htrailed.linked hst hfull
  | @taken bodySpec r idx _ _ hoffer hidx =>
      show Linked (r.pushed ++ [r.group])
      cases hoffer with
      | refused _ _ => cases hidx
      | added _ _ _ => exact linked_singleton rfl
      | @opened _ groupSpec _ _ _ _ _ =>
          exact (linked_singleton rfl).cons (standsOn_openedInfo _ groupSpec f)
      | next _ _ htag _ _ => exact absurd htag (Int.lt_irrefl 0)
  | @passed bodySpec _ _ _ _ _ htrailed =>
      refine htrailed.linked (linked_singleton rfl) fun _ _ _ _ _ a ha => ?_
      rw [List.mem_singleton.mp ha]
      rfl

theorem linked_of_dispatchField (h : dispatchField settings dict f st = .ok st')
    (hst : Linked st.stack)
    (hfull : ∀ groupSpec, Refused settings dict f st → st.msgState = .body →
      dict.trailerSpec.hasField f.tag = false → dict.trailerSpec.findGroup f.tag = some groupSpec →
        (st.get ⟨.trailer, []⟩).getGroupCount f.tag = 0 →
          ∀ a ∈ st.stack, a.groupCount = a.groupMaxCount) : Linked st'.stack := by
  rcases tries_or_passed h with
    ⟨g, below, before, r, idx, -, hstack, htry, hidx, hclose⟩ | ⟨hrefused, hbody⟩
  · rw [(yields_overwriteStack (idx + 1) _).of_ok hclose]
    rw [hstack] at hst
    exact linked_closeTo hst ((yields_trySetField st g below.length below.head? f).of_ok htry) hidx
  · exact ((yields_dispatchBody f st).of_ok hbody).linked hst fun groupSpec =>
      hfull groupSpec hrefused

end ParseState

/-! ## What is counted while entries are open -/

/-- The value of the tag is the number. -/
def Node.Announces (n : Node) (tag : Int) (k : Nat) : Prop :=
  ∃ v, AssocList.find? tag n.fields = some (.text v) ∧ FieldMap.intOf v = k

/-- The map has the specification, or an open entry will give it that. -/
def HasSpec (b : Build) (ref : GroupRef) (spec : GroupSpec) : Prop :=
  (∃ g ∈ b.entries, g.group = ref ∧ g.spec = some spec) ∨ (b.msg.node ref).spec = some spec

/-- The entry is the last instance of a group of the map, which may be followed by more. -/
structure OpenAt (b : Build) (g : ParserGroupInfo) (ref : GroupRef) (tag : Int) : Prop where
  tag_eq : g.groupTag = tag
  tested : 0 < tag ∨ g.groupCount = g.groupMaxCount
  count : g.groupCount = (b.msg.node ref).count tag
  le : g.groupCount ≤ g.groupMaxCount
  announces : (b.msg.node ref).Announces tag g.groupMaxCount
  spec : g.spec ≠ none
  link : ∃ spec, HasSpec b ref spec ∧ spec.findGroup tag = g.spec

/-- The counts are right, but for those that open entries still count. -/
structure Tallied (b : Build) : Prop where
  unset : ∀ g ∈ b.entries, (b.msg.node g.group).spec = none
  root : ∀ g ∈ b.entries, g.group.path = [] → g.groupTag = 0
  opened : ∀ g ∈ b.entries, ∀ (ref : GroupRef) tag i, g.group = ref.child tag i →
    OpenAt b g ref tag
  alone : ∀ g ∈ b.entries, ∀ g' ∈ b.entries, ∀ (ref : GroupRef) tag i j,
    g.group = ref.child tag i → g'.group = ref.child tag j → g = g'
  closed : ∀ ref spec tag, HasSpec b ref spec → (spec.findGroup tag).isSome = true →
    (tag ∈ AssocList.keys (b.msg.node ref).fields ∨ 0 < (b.msg.node ref).count tag) →
      0 < (b.msg.node ref).count tag ∧ ((∃ g ∈ b.entries, ∃ i, g.group = ref.child tag i) ∨
        (b.msg.node ref).Announces tag ((b.msg.node ref).count tag))
  members : ∀ ref spec tag groupSpec i, HasSpec b ref spec → spec.findGroup tag = some groupSpec →
    ∀ t ∈ AssocList.keys (b.msg.node (ref.child tag i)).fields, groupSpec.Knows t
  checkSum : (b.msg.node ⟨.trailer, []⟩).count Field.checkSum = 0

section

variable {b : Build} {g : ParserGroupInfo} {spec : GroupSpec} {ref : GroupRef} {tag : Int}

theorem Grounded.eq_of_group (h : Grounded b) {g' : ParserGroupInfo} (hg : g ∈ b.entries)
    (hg' : g' ∈ b.entries) (heq : g.group = g'.group) : g = g' :=
  List.inj_on_of_nodup_map h.nodup hg hg' heq

/-- A map has one specification. -/
theorem Tallied.hasSpec_unique (hb : Tallied b) (hgrounded : Grounded b) {spec' : GroupSpec}
    (h : HasSpec b ref spec) (h' : HasSpec b ref spec') : spec = spec' := by
  rcases h with ⟨g, hg, rfl, hspec⟩ | hset
  · rcases h' with ⟨g', hg', href, hspec'⟩ | hset'
    · rw [hgrounded.eq_of_group hg' hg href, hspec] at hspec'
      exact Option.some.inj hspec'
    · rw [hb.unset g hg] at hset'
      cases hset'
  · rcases h' with ⟨g', hg', rfl, hspec'⟩ | hset'
    · rw [hb.unset g' hg'] at hset
      cases hset
    · rw [hset] at hset'
      exact Option.some.inj hset'

theorem Tallied.spec_of_open (hb : Tallied b) (hgrounded : Grounded b) (hg : g ∈ b.entries)
    (h : HasSpec b g.group spec) : g.spec = some spec := by
  rcases h with ⟨g', hg', heq, hspec⟩ | hset
  · rwa [hgrounded.eq_of_group hg' hg heq] at hspec
  · rw [hb.unset g hg] at hset
    cases hset

/-- The specification of an instance is the one that the specification of its parent has. -/
theorem Tallied.findGroup_eq (hb : Tallied b) (hgrounded : Grounded b) (hg : g ∈ b.entries)
    {i : Nat} (hgroup : g.group = ref.child tag i) (h : HasSpec b ref spec) :
    spec.findGroup tag = g.spec := by
  obtain ⟨spec', hspec', heq⟩ := (hb.opened g hg ref tag i hgroup).link
  rwa [hb.hasSpec_unique hgrounded h hspec']

/-- What is not there has no fields. -/
theorem not_mem_keys_of_new {n : Node} (h : n = FieldMap.new.node) (t : Int) :
    t ∉ AssocList.keys n.fields := by
  rw [h]
  exact List.not_mem_nil

/-! ## A value that is stored -/

/-- A value is stored for the tag. -/
structure Node.Stored (n n' : Node) (tag : Int) : Prop where
  spec : n'.spec = n.spec
  count : n'.count = n.count
  find : ∀ t, t ≠ tag → AssocList.find? t n'.fields = AssocList.find? t n.fields

theorem Node.Stored.mem {n n' : Node} (h : n.Stored n' tag) {t : Int}
    (ht : t ∈ AssocList.keys n'.fields) : t = tag ∨ t ∈ AssocList.keys n.fields := by
  by_cases heq : t = tag
  · exact .inl heq
  · rw [← AssocList.find?_isSome_iff, h.find t heq, AssocList.find?_isSome_iff] at ht
    exact .inr ht

theorem Node.Stored.announces {n n' : Node} (h : n.Stored n' tag) {t : Int} {k : Nat} (ht : t ≠ tag)
    (hannounces : n.Announces t k) : n'.Announces t k := by
  obtain ⟨v, hv, hk⟩ := hannounces
  exact ⟨v, (h.find t ht).trans hv, hk⟩

theorem FieldMap.stored_setFieldView (m : FieldMap) (tag : Int) (value : Bytes) :
    m.node.Stored (m.setFieldView tag value false).node tag := by
  rw [fields_setFieldView]
  exact ⟨rfl, rfl, fun t ht => AssocList.find?_set_ne ht _ m.fields⟩

theorem FieldMap.spec_setFieldViewOrDetectDup (m : FieldMap) (tag : Int) (value : Bytes) :
    (m.setFieldViewOrDetectDup tag value).2.spec = m.spec := by
  rw [setFieldViewOrDetectDup]
  split
  · split
    · rfl
    · rfl
  · split
    · rfl
    · rfl

theorem FieldMap.getGroupCount_setFieldViewOrDetectDup (m : FieldMap) (tag : Int) (value : Bytes) :
    (m.setFieldViewOrDetectDup tag value).2.getGroupCount = m.getGroupCount := by
  funext t
  rw [getGroupCount, getGroupCount, groups_setFieldViewOrDetectDup]

theorem FieldMap.stored_append {m : FieldMap} {tag : Int} {value : Bytes}
    (h : (m.setFieldViewOrDetectDup tag value).1 = false) :
    m.node.Stored (m.setFieldViewOrDetectDup tag value).2.node tag := by
  refine ⟨spec_setFieldViewOrDetectDup m tag value,
    getGroupCount_setFieldViewOrDetectDup m tag value, fun t ht => ?_⟩
  show AssocList.find? t (m.setFieldViewOrDetectDup tag value).2.fields = _
  rw [(fields_append h).1, AssocList.find?_append, AssocList.find?_cons_ne (Ne.symm ht)]
  exact Option.or_none

/-- A value for a tag that is no group keeps the counts. -/
theorem Tallied.store (hb : Tallied b) (hgrounded : Grounded b) (hg : g ∈ b.entries)
    {msg : Message} (hself : (b.msg.node g.group).Stored (msg.node g.group) tag)
    (hother : ∀ ref, ref ≠ g.group → msg.node ref = b.msg.node ref)
    (hgroup : ∀ spec, g.spec = some spec → spec.findGroup tag = none)
    (hknown : g.group.path ≠ [] → ∀ spec, g.spec = some spec → spec.Knows tag) :
    Tallied { b with msg := msg } := by
  have hstored : ∀ ref, ((ref = g.group ∧ (b.msg.node ref).Stored (msg.node ref) tag) ∨
      msg.node ref = b.msg.node ref) := by
    intro ref
    by_cases href : ref = g.group
    · subst href
      exact .inl ⟨rfl, hself⟩
    · exact .inr (hother ref href)
  have hspec : ∀ ref, (msg.node ref).spec = (b.msg.node ref).spec := by
    intro ref
    rcases hstored ref with ⟨-, h⟩ | h
    · exact h.spec
    · rw [h]
  have hcount : ∀ ref, (msg.node ref).count = (b.msg.node ref).count := by
    intro ref
    rcases hstored ref with ⟨-, h⟩ | h
    · exact h.count
    · rw [h]
  have hhas : ∀ {ref spec}, HasSpec { b with msg := msg } ref spec ↔ HasSpec b ref spec := by
    intro ref spec
    rw [HasSpec, HasSpec, hspec]
  -- The tag is no group of a map that it is stored in.
  have hne : ∀ {ref spec t}, HasSpec b ref spec → (spec.findGroup t).isSome = true →
      ref = g.group → t ≠ tag := by
    intro ref spec t hspec hsome href ht
    subst href
    subst ht
    rw [hgroup spec (hb.spec_of_open hgrounded hg hspec)] at hsome
    cases hsome
  have hannounces : ∀ {ref spec t k}, HasSpec b ref spec → (spec.findGroup t).isSome = true →
      (b.msg.node ref).Announces t k → (msg.node ref).Announces t k := by
    intro ref spec t k hspec hsome hold
    rcases hstored ref with ⟨href, h⟩ | h
    · exact h.announces (hne hspec hsome href) hold
    · rwa [h]
  refine ⟨fun g' hg' => (hspec _).trans (hb.unset g' hg'), hb.root, ?_, hb.alone, ?_, ?_, ?_⟩
  · intro g' hg' ref t i heq
    have hopen := hb.opened g' hg' ref t i heq
    obtain ⟨spec, hspec', hlink⟩ := hopen.link
    have hsome : (spec.findGroup t).isSome = true := by
      rw [hlink]
      exact Option.isSome_iff_ne_none.mpr hopen.spec
    refine ⟨hopen.tag_eq, hopen.tested, ?_, hopen.le, hannounces hspec' hsome hopen.announces,
      hopen.spec, ⟨spec, hhas.mpr hspec', hlink⟩⟩
    rw [hopen.count]
    exact (congrFun (hcount ref) t).symm
  · intro ref spec t hspec' hsome hpresent
    have hold := hhas.mp hspec'
    have hpresent' : t ∈ AssocList.keys (b.msg.node ref).fields ∨ 0 < (b.msg.node ref).count t := by
      refine hpresent.imp (fun hmem => ?_) fun hpos => ?_
      · rcases hstored ref with ⟨href, h⟩ | h
        · exact (h.mem hmem).resolve_left (hne hold hsome href)
        · rwa [← h]
      · rwa [← hcount]
    obtain ⟨hpos, hright⟩ := hb.closed ref spec t hold hsome hpresent'
    show 0 < (msg.node ref).count t ∧ (_ ∨ (msg.node ref).Announces t ((msg.node ref).count t))
    rw [hcount]
    exact ⟨hpos, hright.imp id (hannounces hold hsome)⟩
  · intro ref spec t groupSpec i hspec' hfind t' ht'
    have hold := hhas.mp hspec'
    rcases hstored (ref.child t i) with ⟨href, h⟩ | h
    · rcases h.mem ht' with rfl | hmem
      · have hgspec : g.spec = some groupSpec := by
          rw [← hb.findGroup_eq hgrounded hg href.symm hold, hfind]
        refine hknown (fun hpath => ?_) groupSpec hgspec
        rw [← href] at hpath
        exact absurd hpath (List.append_ne_nil_of_right_ne_nil _ (List.cons_ne_nil _ _))
      · exact hb.members ref spec t groupSpec i hold hfind t' hmem
    · have ht'' : t' ∈ AssocList.keys (msg.node (ref.child t i)).fields := ht'
      rw [h] at ht''
      exact hb.members ref spec t groupSpec i hold hfind t' ht''
  · exact (congrFun (hcount _) _).trans hb.checkSum

/-! ## A map that is finished -/

/-- The map gets its specification, and keeps its values. -/
structure Node.Finished (n n' : Node) (spec : Option GroupSpec) : Prop where
  spec : n'.spec = spec
  count : n'.count = n.count
  find : ∀ t, AssocList.find? t n'.fields = AssocList.find? t n.fields

theorem Node.Finished.mem_iff {n n' : Node} {spec : Option GroupSpec} (h : n.Finished n' spec)
    {t : Int} : t ∈ AssocList.keys n'.fields ↔ t ∈ AssocList.keys n.fields := by
  rw [← AssocList.find?_isSome_iff, h.find, AssocList.find?_isSome_iff]

theorem Node.Finished.announces_iff {n n' : Node} {spec : Option GroupSpec} (h : n.Finished n' spec)
    {t : Int} {k : Nat} : n'.Announces t k ↔ n.Announces t k := by
  rw [Announces, Announces, h.find]

theorem FieldMap.finished_finishMap (settings : SessionSettings) (spec : Option GroupSpec)
    (m : FieldMap) : m.node.Finished (ParseState.finishMap settings spec m).node spec := by
  refine ⟨?_, ?_, find?_finishMap settings spec m⟩
  · rw [ParseState.finishMap]
    split
    · rfl
    · rfl
  · show FieldMap.getGroupCount _ = FieldMap.getGroupCount _
    funext t
    rw [getGroupCount, getGroupCount, groups_finishMap]

/-- The specifications of the maps stay what they are when an entry is finished. -/
theorem Tallied.hasSpec_finish (hb : Tallied b) {before after : List ParserGroupInfo}
    (hentries : b.entries = before ++ g :: after) {msg : Message}
    (hself : (b.msg.node g.group).Finished (msg.node g.group) g.spec)
    (hother : ∀ ref, ref ≠ g.group → msg.node ref = b.msg.node ref) :
    HasSpec { b with entries := before ++ after, msg := msg } ref spec ↔ HasSpec b ref spec := by
  have hg : g ∈ b.entries := hentries ▸ List.mem_append_right _ List.mem_cons_self
  constructor
  · rintro (⟨g', hg', href, hspec⟩ | hset)
    · refine .inl ⟨g', ?_, href, hspec⟩
      rw [hentries, List.perm_middle.mem_iff]
      exact List.mem_cons_of_mem _ hg'
    · by_cases href : ref = g.group
      · refine .inl ⟨g, hg, href.symm, ?_⟩
        rw [href] at hset
        rw [← hself.spec]
        exact hset
      · refine .inr ?_
        rw [← hother ref href]
        exact hset
  · rintro (⟨g', hg', href, hspec⟩ | hset)
    · rw [hentries, List.perm_middle.mem_iff] at hg'
      rcases List.mem_cons.mp hg' with rfl | hg'
      · refine .inr ?_
        rw [← href]
        exact hself.spec.trans hspec
      · exact .inl ⟨g', hg', href, hspec⟩
    · refine .inr ?_
      have href : ref ≠ g.group := by
        intro href
        rw [href, hb.unset g hg] at hset
        cases hset
      exact (congrArg Node.spec (hother ref href)).trans hset

/-- An entry that has counted its instances may be finished. -/
theorem Tallied.finish (hb : Tallied b) (hgrounded : Grounded b)
    {before after : List ParserGroupInfo} (hentries : b.entries = before ++ g :: after)
    {msg : Message} (hself : (b.msg.node g.group).Finished (msg.node g.group) g.spec)
    (hother : ∀ ref, ref ≠ g.group → msg.node ref = b.msg.node ref)
    (hreached : ∀ (ref : GroupRef) tag i, g.group = ref.child tag i →
      g.groupCount = g.groupMaxCount) :
    Tallied { b with entries := before ++ after, msg := msg } := by
  have hg : g ∈ b.entries := hentries ▸ List.mem_append_right _ List.mem_cons_self
  have hsub : ∀ g' ∈ before ++ after, g' ∈ b.entries := by
    intro g' hg'
    rw [hentries, List.perm_middle.mem_iff]
    exact List.mem_cons_of_mem _ hg'
  have hne : ∀ g' ∈ before ++ after, g'.group ≠ g.group := by
    intro g' hg' heq
    have hnodup := hgrounded.nodup
    rw [hentries] at hnodup
    have hcons := (List.perm_middle.map ParserGroupInfo.group).nodup_iff.mp hnodup
    rw [List.map_cons] at hcons
    exact (List.nodup_cons.mp hcons).1 (heq ▸ List.mem_map_of_mem hg')
  have hhas : ∀ {ref spec}, HasSpec { b with entries := before ++ after, msg := msg } ref spec ↔
      HasSpec b ref spec := hb.hasSpec_finish hentries hself hother
  have hcount : ∀ ref, (msg.node ref).count = (b.msg.node ref).count := by
    intro ref
    by_cases href : ref = g.group
    · rw [href]
      exact hself.count
    · rw [hother ref href]
  have hmem : ∀ ref t, t ∈ AssocList.keys (msg.node ref).fields ↔
      t ∈ AssocList.keys (b.msg.node ref).fields := by
    intro ref t
    by_cases href : ref = g.group
    · rw [href]
      exact hself.mem_iff
    · rw [hother ref href]
  have hannounces : ∀ ref t k, (msg.node ref).Announces t k ↔ (b.msg.node ref).Announces t k := by
    intro ref t k
    by_cases href : ref = g.group
    · rw [href]
      exact hself.announces_iff
    · rw [hother ref href]
  refine ⟨?_, fun g' hg' => hb.root g' (hsub g' hg'), ?_, ?_, ?_, ?_, ?_⟩
  · intro g' hg'
    show (msg.node g'.group).spec = none
    rw [hother _ (hne g' hg')]
    exact hb.unset g' (hsub g' hg')
  · intro g' hg' ref t i heq
    have hopen := hb.opened g' (hsub g' hg') ref t i heq
    obtain ⟨spec, hspec, hlink⟩ := hopen.link
    refine ⟨hopen.tag_eq, hopen.tested, ?_, hopen.le, (hannounces ref t _).mpr hopen.announces,
      hopen.spec, ⟨spec, hhas.mpr hspec, hlink⟩⟩
    rw [hopen.count]
    exact (congrFun (hcount ref) t).symm
  · exact fun g' hg' g'' hg'' => hb.alone g' (hsub g' hg') g'' (hsub g'' hg'')
  · intro ref spec t hspec hsome hpresent
    have hpresent' := hpresent.imp (hmem ref t).mp fun hpos => by
      have hpos' : 0 < (msg.node ref).count t := hpos
      rwa [hcount] at hpos'
    obtain ⟨hpos, hright⟩ := hb.closed ref spec t (hhas.mp hspec) hsome hpresent'
    show 0 < (msg.node ref).count t ∧ (_ ∨ (msg.node ref).Announces t ((msg.node ref).count t))
    rw [hcount, hannounces]
    refine ⟨hpos, ?_⟩
    rcases hright with ⟨g', hg', i, heq⟩ | hannounced
    · rw [hentries, List.perm_middle.mem_iff] at hg'
      rcases List.mem_cons.mp hg' with rfl | hg'
      · have hopen := hb.opened g' hg ref t i heq
        have hannounced := hopen.announces
        rw [← hreached ref t i heq, hopen.count] at hannounced
        exact .inr hannounced
      · exact .inl ⟨g', hg', i, heq⟩
    · exact .inr hannounced
  · intro ref spec t groupSpec i hspec hfind t' ht'
    exact hb.members ref spec t groupSpec i (hhas.mp hspec) hfind t' ((hmem _ t').mp ht')
  · exact (congrFun (hcount _) _).trans hb.checkSum

/-! ## A part that is entered -/

/-- The entry of a part that is empty has nothing to count. -/
theorem Tallied.enter (hb : Tallied b) {state : MessageState} {entries : List ParserGroupInfo}
    (hmem : ∀ g', g' ∈ entries ↔ g' ∈ b.entries ∨ g' = g) (hpath : g.group.path = [])
    (htag : g.groupTag = 0) (hnode : b.msg.node g.group = FieldMap.new.node) :
    Tallied ⟨state, entries, b.msg⟩ := by
  have hnotChild : ∀ (ref : GroupRef) t i, g.group ≠ ref.child t i := by
    intro ref t i heq
    rw [heq] at hpath
    exact absurd hpath (List.append_ne_nil_of_right_ne_nil _ (List.cons_ne_nil _ _))
  have hold : ∀ g' ∈ entries, ∀ (ref : GroupRef) t i, g'.group = ref.child t i →
      g' ∈ b.entries := by
    intro g' hg' ref t i heq
    rcases (hmem g').mp hg' with hg' | rfl
    · exact hg'
    · exact absurd heq (hnotChild ref t i)
  have hhas : ∀ {ref spec}, HasSpec b ref spec → HasSpec ⟨state, entries, b.msg⟩ ref spec := by
    rintro ref spec (⟨g', hg', href, hspec⟩ | hset)
    · exact .inl ⟨g', (hmem g').mpr (.inl hg'), href, hspec⟩
    · exact .inr hset
  have hcases : ∀ {ref spec}, HasSpec ⟨state, entries, b.msg⟩ ref spec →
      HasSpec b ref spec ∨ ref = g.group := by
    rintro ref spec (⟨g', hg', href, hspec⟩ | hset)
    · rcases (hmem g').mp hg' with hg' | rfl
      · exact .inl (.inl ⟨g', hg', href, hspec⟩)
      · exact .inr href.symm
    · exact .inl (.inr hset)
  refine ⟨?_, ?_, ?_, ?_, ?_, ?_, hb.checkSum⟩
  · intro g' hg'
    rcases (hmem g').mp hg' with hg' | rfl
    · exact hb.unset g' hg'
    · exact congrArg Node.spec hnode
  · intro g' hg' hroot
    rcases (hmem g').mp hg' with hg' | rfl
    · exact hb.root g' hg' hroot
    · exact htag
  · intro g' hg' ref t i heq
    have hopen := hb.opened g' (hold g' hg' ref t i heq) ref t i heq
    obtain ⟨spec, hspec, hlink⟩ := hopen.link
    exact ⟨hopen.tag_eq, hopen.tested, hopen.count, hopen.le, hopen.announces, hopen.spec,
      ⟨spec, hhas hspec, hlink⟩⟩
  · intro g' hg' g'' hg'' ref t i j heq heq'
    exact hb.alone g' (hold g' hg' ref t i heq) g'' (hold g'' hg'' ref t j heq') ref t i j heq heq'
  · intro ref spec t hspec hsome hpresent
    rcases hcases hspec with hspec | rfl
    · obtain ⟨hpos, hright⟩ := hb.closed ref spec t hspec hsome hpresent
      refine ⟨hpos, hright.imp (fun hopen => ?_) id⟩
      obtain ⟨g', hg', i, heq⟩ := hopen
      exact ⟨g', (hmem g').mpr (.inl hg'), i, heq⟩
    · rw [hnode] at hpresent
      rcases hpresent with hin | hpos
      · cases hin
      · exact absurd hpos (Nat.lt_irrefl 0)
  · intro ref spec t groupSpec i hspec hfind t' ht'
    rcases hcases hspec with hspec | rfl
    · exact hb.members ref spec t groupSpec i hspec hfind t' ht'
    · have hzero : (b.msg.get g.group).getGroupCount t ≤ i := by
        have hcount := congrArg (fun n => Node.count n t) hnode
        have hnone : (b.msg.get g.group).getGroupCount t = 0 := hcount
        rw [hnone]
        exact Nat.zero_le i
      exact absurd ht' (not_mem_keys_of_new (Message.node_child_of_le hzero) t')

/-! ## A group that is opened -/

/-- What is not there has no children. -/
theorem node_child_of_not_valid {msg : Message} (h : ¬msg.Valid ref) (t : Int) (i : Nat) :
    msg.node (ref.child t i) = FieldMap.new.node :=
  Message.node_of_not_valid fun hvalid => h (Message.valid_child.mp hvalid).1

/-- What the message is behind the start of a group in the map of `g`. -/
structure Begun (b : Build) (g : ParserGroupInfo) (f : WireField) (msg : Message) : Prop where
  sameSpec : (msg.node g.group).spec = (b.msg.node g.group).spec
  count : ∀ t, (msg.node g.group).count t =
    if t = f.tag then 1 else (b.msg.node g.group).count t
  find : ∀ t, AssocList.find? t (msg.node g.group).fields =
    if t = f.tag then some (.text f.val) else AssocList.find? t (b.msg.node g.group).fields
  other : ∀ ref, ref ≠ g.group → msg.node ref = b.msg.node ref

/-- The build behind the start of a group. -/
def Build.open (b : Build) (g : ParserGroupInfo) (groupSpec : GroupSpec) (f : WireField)
    (msg : Message) : Build :=
  ⟨b.state, ParseState.openedInfo g groupSpec f :: b.entries, msg⟩

theorem Build.mem_open {g' : ParserGroupInfo} {groupSpec : GroupSpec} {f : WireField}
    {msg : Message} : g' ∈ (b.open g groupSpec f msg).entries ↔
      g' = ParseState.openedInfo g groupSpec f ∨ g' ∈ b.entries := List.mem_cons

/-- A group starts in the map of `g`, which has none of it. -/
structure Opened (b : Build) (g : ParserGroupInfo) (spec groupSpec : GroupSpec) (f : WireField)
    (msg : Message) : Prop extends Begun b g f msg where
  tallied : Tallied b
  grounded : Grounded b
  mem : g ∈ b.entries
  gspec : g.spec = some spec
  group : spec.findGroup f.tag = some groupSpec
  new : (b.msg.node g.group).count f.tag = 0

namespace Opened

variable {groupSpec : GroupSpec} {f : WireField} {msg : Message}
  (h : Opened b g spec groupSpec f msg)

include h

theorem not_valid (i : Nat) : ¬b.msg.Valid (g.group.child f.tag i) := by
  intro hvalid
  have hlt := (Message.valid_child.mp hvalid).2
  rw [h.new] at hlt
  exact Nat.not_lt_zero i hlt

theorem not_child {g' : ParserGroupInfo} (hg' : g' ∈ b.entries) (i : Nat) :
    g'.group ≠ g.group.child f.tag i :=
  fun heq => h.not_valid i (heq ▸ h.grounded.valid g' hg')

theorem node_new : msg.node (g.group.child f.tag 0) = FieldMap.new.node := by
  rw [h.other _ (Message.child_ne g.group f.tag 0)]
  exact Message.node_of_not_valid (h.not_valid 0)

/-! What the maps keep. -/

theorem spec_eq (ref : GroupRef) : (msg.node ref).spec = (b.msg.node ref).spec := by
  by_cases href : ref = g.group
  · rw [href]
    exact h.sameSpec
  · rw [h.other ref href]

theorem count_eq {t : Int} (hnot : ¬(ref = g.group ∧ t = f.tag)) :
    (msg.node ref).count t = (b.msg.node ref).count t := by
  by_cases href : ref = g.group
  · rw [href, h.count, if_neg fun ht => hnot ⟨href, ht⟩]
  · rw [h.other ref href]

theorem find?_eq {t : Int} (hnot : ¬(ref = g.group ∧ t = f.tag)) :
    AssocList.find? t (msg.node ref).fields = AssocList.find? t (b.msg.node ref).fields := by
  by_cases href : ref = g.group
  · rw [href, h.find, if_neg fun ht => hnot ⟨href, ht⟩]
  · rw [h.other ref href]

theorem mem_keys_iff {t : Int} (hnot : ¬(ref = g.group ∧ t = f.tag)) :
    t ∈ AssocList.keys (msg.node ref).fields ↔ t ∈ AssocList.keys (b.msg.node ref).fields := by
  rw [← AssocList.find?_isSome_iff, h.find?_eq hnot, AssocList.find?_isSome_iff]

theorem announces_iff {t : Int} {k : Nat} (hnot : ¬(ref = g.group ∧ t = f.tag)) :
    (msg.node ref).Announces t k ↔ (b.msg.node ref).Announces t k := by
  rw [Node.Announces, Node.Announces, h.find?_eq hnot]

/-! The specifications of the maps. -/

theorem hasSpec {spec' : GroupSpec} (hold : HasSpec b ref spec') :
    HasSpec (b.open g groupSpec f msg) ref spec' := by
  rcases hold with ⟨g', hg', href, hspec⟩ | hset
  · exact .inl ⟨g', List.mem_cons_of_mem _ hg', href, hspec⟩
  · exact .inr ((h.spec_eq ref).trans hset)

theorem hasSpec_cases {spec' : GroupSpec} (hspec : HasSpec (b.open g groupSpec f msg) ref spec') :
    HasSpec b ref spec' ∨ ref = g.group.child f.tag 0 := by
  rcases hspec with ⟨g', hg', href, hspec⟩ | hset
  · rcases Build.mem_open.mp hg' with rfl | hg'
    · exact .inr href.symm
    · exact .inl (.inl ⟨g', hg', href, hspec⟩)
  · exact .inl (.inr ((h.spec_eq ref).symm.trans hset))

/-! What was counted stays counted. -/

theorem unset {g' : ParserGroupInfo} (hg' : g' ∈ (b.open g groupSpec f msg).entries) :
    (msg.node g'.group).spec = none := by
  rcases Build.mem_open.mp hg' with rfl | hg'
  · exact congrArg Node.spec h.node_new
  · exact (h.spec_eq _).trans (h.tallied.unset g' hg')

theorem root {g' : ParserGroupInfo} (hg' : g' ∈ (b.open g groupSpec f msg).entries)
    (hroot : g'.group.path = []) : g'.groupTag = 0 := by
  rcases Build.mem_open.mp hg' with rfl | hg'
  · exact absurd hroot (List.append_ne_nil_of_right_ne_nil _ (List.cons_ne_nil _ _))
  · exact h.tallied.root g' hg' hroot

/-- The entry of a group whose count is read as it is written. -/
theorem openAt_new (htested : 0 < f.tag ∨ fastParseTag f.val = 1) (hvalue : 0 < fastParseTag f.val)
    (hint : FieldMap.intOf f.val = fastParseTag f.val) :
    OpenAt (b.open g groupSpec f msg) (ParseState.openedInfo g groupSpec f) g.group f.tag := by
  have hmax : ((fastParseTag f.val).toNat : Int) = fastParseTag f.val :=
    Int.toNat_of_nonneg (Int.le_of_lt hvalue)
  refine ⟨rfl, htested.imp id fun hone => ?_, ?_, ?_, ⟨f.val, ?_, hint.trans hmax.symm⟩,
    Option.some_ne_none _, ⟨spec, h.hasSpec (.inl ⟨g, h.mem, rfl, h.gspec⟩), h.group⟩⟩
  · show 1 = (fastParseTag f.val).toNat
    omega
  · show 1 = (msg.node g.group).count f.tag
    rw [h.count, if_pos rfl]
  · show 1 ≤ (fastParseTag f.val).toNat
    omega
  · show AssocList.find? f.tag (msg.node g.group).fields = _
    rw [h.find, if_pos rfl]

theorem openAt_old {g' : ParserGroupInfo} (hg' : g' ∈ b.entries) {t : Int} {i : Nat}
    (heq : g'.group = ref.child t i) : OpenAt (b.open g groupSpec f msg) g' ref t := by
  have hopen := h.tallied.opened g' hg' ref t i heq
  obtain ⟨spec', hspec', hlink⟩ := hopen.link
  have hnot : ¬(ref = g.group ∧ t = f.tag) := by
    rintro ⟨rfl, rfl⟩
    exact h.not_child hg' i heq
  refine ⟨hopen.tag_eq, hopen.tested, ?_, hopen.le, (h.announces_iff hnot).mpr hopen.announces,
    hopen.spec, ⟨spec', h.hasSpec hspec', hlink⟩⟩
  rw [hopen.count]
  exact (h.count_eq hnot).symm

theorem alone {g' g'' : ParserGroupInfo} (hg' : g' ∈ (b.open g groupSpec f msg).entries)
    (hg'' : g'' ∈ (b.open g groupSpec f msg).entries) {t : Int} {i j : Nat}
    (heq : g'.group = ref.child t i) (heq' : g''.group = ref.child t j) : g' = g'' := by
  rcases Build.mem_open.mp hg' with rfl | hold'
  · obtain ⟨rfl, rfl, -⟩ := Message.child_inj heq
    rcases Build.mem_open.mp hg'' with rfl | hold''
    · rfl
    · exact absurd heq' (h.not_child hold'' j)
  · rcases Build.mem_open.mp hg'' with rfl | hold''
    · obtain ⟨rfl, rfl, -⟩ := Message.child_inj heq'
      exact absurd heq (h.not_child hold' i)
    · exact h.tallied.alone g' hold' g'' hold'' ref t i j heq heq'

/-- A map that was there announces what it counts, or counts on. -/
theorem closed_old {spec' : GroupSpec} (hspec : HasSpec b ref spec') {t : Int}
    (hsome : (spec'.findGroup t).isSome = true)
    (hpresent : t ∈ AssocList.keys (msg.node ref).fields ∨ 0 < (msg.node ref).count t) :
    0 < (msg.node ref).count t ∧
      ((∃ g' ∈ (b.open g groupSpec f msg).entries, ∃ i, g'.group = ref.child t i) ∨
        (msg.node ref).Announces t ((msg.node ref).count t)) := by
  by_cases hthis : ref = g.group ∧ t = f.tag
  · obtain ⟨rfl, rfl⟩ := hthis
    refine ⟨?_, .inl ⟨_, List.mem_cons_self, 0, rfl⟩⟩
    rw [h.count, if_pos rfl]
    exact Nat.one_pos
  · rw [h.mem_keys_iff hthis, h.count_eq hthis] at hpresent
    rw [h.count_eq hthis, h.announces_iff hthis]
    obtain ⟨hpos, hright⟩ := h.tallied.closed ref spec' t hspec hsome hpresent
    refine ⟨hpos, hright.imp (fun hopen => ?_) id⟩
    obtain ⟨g', hg', i, heq⟩ := hopen
    exact ⟨g', List.mem_cons_of_mem _ hg', i, heq⟩

/-- The instance that was added is empty. -/
theorem nothing_new (t : Int) : ¬(t ∈ AssocList.keys (msg.node (g.group.child f.tag 0)).fields ∨
    0 < (msg.node (g.group.child f.tag 0)).count t) := by
  rw [h.node_new]
  rintro (hin | hpos)
  · cases hin
  · exact Nat.lt_irrefl 0 hpos

theorem members {spec' : GroupSpec} (hspec : HasSpec (b.open g groupSpec f msg) ref spec')
    {t : Int} {groupSpec' : GroupSpec} (hgroup : spec'.findGroup t = some groupSpec') {i : Nat}
    {t' : Int} (hmem : t' ∈ AssocList.keys (msg.node (ref.child t i)).fields) :
    groupSpec'.Knows t' := by
  rcases h.hasSpec_cases hspec with hold | rfl
  · by_cases hthis : ref.child t i = g.group ∧ t' = f.tag
    · obtain ⟨hself, rfl⟩ := hthis
      have heq := h.tallied.findGroup_eq h.grounded h.mem hself.symm hold
      rw [hgroup, h.gspec] at heq
      cases heq
      exact .inr (by rw [h.group]; rfl)
    · exact h.tallied.members ref spec' t groupSpec' i hold hgroup t' ((h.mem_keys_iff hthis).mp hmem)
  · have hne : (g.group.child f.tag 0).child t i ≠ g.group := by
      intro heq
      have hvalid := h.grounded.valid g h.mem
      rw [← heq] at hvalid
      exact h.not_valid 0 (Message.valid_child.mp hvalid).1
    rw [h.other _ hne] at hmem
    exact absurd hmem (not_mem_keys_of_new (node_child_of_not_valid (h.not_valid 0) t i) t')

end Opened

/-- A group with a count that is read as it is written may be opened. -/
theorem Opened.tallied_open {groupSpec : GroupSpec} {f : WireField} {msg : Message}
    (h : Opened b g spec groupSpec f msg) (htested : 0 < f.tag ∨ fastParseTag f.val = 1)
    (hvalue : 0 < fastParseTag f.val) (hint : FieldMap.intOf f.val = fastParseTag f.val)
    (hsum : ¬(g.group = ⟨.trailer, []⟩ ∧ f.tag = Field.checkSum)) :
    Tallied (b.open g groupSpec f msg) where
  unset _ hg' := h.unset hg'
  root _ hg' hroot := h.root hg' hroot
  opened g' hg' ref t i heq := by
    rcases Build.mem_open.mp hg' with rfl | hg'
    · obtain ⟨rfl, rfl, -⟩ := Message.child_inj heq
      exact h.openAt_new htested hvalue hint
    · exact h.openAt_old hg' heq
  alone _ hg' _ hg'' _ _ _ _ heq heq' := h.alone hg' hg'' heq heq'
  closed ref spec' t hspec' hsome hpresent := by
    rcases h.hasSpec_cases hspec' with hold | rfl
    · exact h.closed_old hold hsome hpresent
    · exact absurd hpresent (h.nothing_new t)
  members _ _ _ _ _ hspec' hgroup _ hmem := h.members hspec' hgroup hmem
  checkSum := by
    show (msg.node ⟨.trailer, []⟩).count Field.checkSum = 0
    rw [h.count_eq fun hthis => hsum ⟨hthis.1.symm, hthis.2.symm⟩]
    exact h.tallied.checkSum

/-! ## The next instance of a group -/

/-- What the message is behind the start of the next instance, at `new`, of the group of `g` in the
map of `p`. -/
structure Continued (b : Build) (g p : ParserGroupInfo) (tag : Int) (new : GroupRef)
    (msg : Message) : Prop where
  new_eq : new = p.group.child g.groupTag ((b.msg.node p.group).count g.groupTag)
  old : (b.msg.node g.group).Finished (msg.node g.group) g.spec
  parentSpec : (msg.node p.group).spec = (b.msg.node p.group).spec
  parentFields : (msg.node p.group).fields = (b.msg.node p.group).fields
  parentCount : ∀ t, (msg.node p.group).count t =
    if t = g.groupTag then (b.msg.node p.group).count t + 1 else (b.msg.node p.group).count t
  newSpec : (msg.node new).spec = none
  newCount : ∀ t, (msg.node new).count t = 0
  newFields : ∀ t ∈ AssocList.keys (msg.node new).fields, t = tag
  other : ∀ ref, ref ≠ g.group → ref ≠ p.group → ref ≠ new → msg.node ref = b.msg.node ref

/-- The build behind the start of the next instance. -/
def Build.renew (b : Build) (before after : List ParserGroupInfo) (g : ParserGroupInfo)
    (new : GroupRef) (msg : Message) : Build :=
  ⟨b.state, before ++ { g with group := new, groupCount := g.groupCount + 1 } :: after, msg⟩

theorem Build.mem_renew {before after : List ParserGroupInfo} {new : GroupRef} {msg : Message}
    {g' : ParserGroupInfo} : g' ∈ (b.renew before after g new msg).entries ↔
      g' = { g with group := new, groupCount := g.groupCount + 1 } ∨ g' ∈ before ++ after := by
  rw [Build.renew, List.perm_middle.mem_iff, List.mem_cons]

/-- The group of `g` in the map of `p` goes on. -/
structure Renewed (b : Build) (before after : List ParserGroupInfo) (g p : ParserGroupInfo)
    (i : Nat) (tag : Int) (new : GroupRef) (msg : Message) : Prop extends
    Continued b g p tag new msg where
  tallied : Tallied b
  grounded : Grounded b
  entries_eq : b.entries = before ++ g :: after
  parent_mem : p ∈ after
  child : g.group = p.group.child g.groupTag i

namespace Renewed

variable {before after : List ParserGroupInfo} {p : ParserGroupInfo} {i : Nat} {new : GroupRef}
  {msg : Message} (h : Renewed b before after g p i tag new msg)

include h

theorem mem : g ∈ b.entries := h.entries_eq ▸ List.mem_append_right _ List.mem_cons_self

theorem parent_mem_entries : p ∈ b.entries := by
  rw [h.entries_eq]
  exact List.mem_append_right _ (List.mem_cons_of_mem _ h.parent_mem)

theorem openAt : OpenAt b g p.group g.groupTag :=
  h.tallied.opened g h.mem p.group g.groupTag i h.child

theorem not_valid : ¬b.msg.Valid new := by
  rw [h.new_eq]
  exact fun hvalid => Nat.lt_irrefl _ (Message.valid_child.mp hvalid).2

theorem node_new : b.msg.node new = FieldMap.new.node := Message.node_of_not_valid h.not_valid

theorem ne_new {g' : ParserGroupInfo} (hg' : g' ∈ b.entries) : g'.group ≠ new :=
  fun heq => h.not_valid (heq ▸ h.grounded.valid g' hg')

/-! The entries are the old ones, but for the one that was moved. -/

theorem mem_old {g' : ParserGroupInfo} (hg' : g' ∈ before ++ after) :
    g' ∈ b.entries ∧ g' ≠ g := by
  constructor
  · rw [h.entries_eq, List.perm_middle.mem_iff]
    exact List.mem_cons_of_mem _ hg'
  · rintro rfl
    have hnodup := h.grounded.nodup
    rw [h.entries_eq] at hnodup
    have hcons := (List.perm_middle.map ParserGroupInfo.group).nodup_iff.mp hnodup
    rw [List.map_cons] at hcons
    exact (List.nodup_cons.mp hcons).1 (List.mem_map_of_mem hg')

theorem mem_rest {g' : ParserGroupInfo} (hg' : g' ∈ b.entries) (hne : g' ≠ g) :
    g' ∈ before ++ after := by
  rw [h.entries_eq, List.perm_middle.mem_iff] at hg'
  exact (List.mem_cons.mp hg').resolve_left hne

theorem not_child {g' : ParserGroupInfo} (hg' : g' ∈ before ++ after) (j : Nat) :
    g'.group ≠ p.group.child g.groupTag j := by
  intro heq
  obtain ⟨hold, hne⟩ := h.mem_old hg'
  exact hne (h.tallied.alone g' hold g h.mem p.group g.groupTag j i heq h.child)

/-! What the maps keep. -/

theorem spec_eq (hne : ref ≠ g.group) : (msg.node ref).spec = (b.msg.node ref).spec := by
  by_cases hrefp : ref = p.group
  · rw [hrefp]
    exact h.parentSpec
  · by_cases hrefn : ref = new
    · rw [hrefn, h.newSpec, h.node_new]
      rfl
    · rw [h.other ref hne hrefp hrefn]

theorem find?_eq (t : Int) (hne : ref ≠ new) :
    AssocList.find? t (msg.node ref).fields = AssocList.find? t (b.msg.node ref).fields := by
  by_cases hrefg : ref = g.group
  · rw [hrefg]
    exact h.old.find t
  · by_cases hrefp : ref = p.group
    · rw [hrefp, h.parentFields]
    · rw [h.other ref hrefg hrefp hne]

theorem mem_keys_iff {t : Int} (hne : ref ≠ new) :
    t ∈ AssocList.keys (msg.node ref).fields ↔ t ∈ AssocList.keys (b.msg.node ref).fields := by
  rw [← AssocList.find?_isSome_iff, h.find?_eq t hne, AssocList.find?_isSome_iff]

theorem announces_iff {t : Int} {k : Nat} (hne : ref ≠ new) :
    (msg.node ref).Announces t k ↔ (b.msg.node ref).Announces t k := by
  rw [Node.Announces, Node.Announces, h.find?_eq t hne]

theorem count_eq {t : Int} (hne : ref ≠ new) (hnot : ¬(ref = p.group ∧ t = g.groupTag)) :
    (msg.node ref).count t = (b.msg.node ref).count t := by
  by_cases hrefg : ref = g.group
  · rw [hrefg, h.old.count]
  · by_cases hrefp : ref = p.group
    · rw [hrefp, h.parentCount, if_neg fun ht => hnot ⟨hrefp, ht⟩]
    · rw [h.other ref hrefg hrefp hne]

/-! The specifications of the maps. -/

theorem hasSpec (hold : HasSpec b ref spec) :
    HasSpec (b.renew before after g new msg) ref spec := by
  rcases hold with ⟨g', hg', href, hspec⟩ | hset
  · by_cases heq : g' = g
    · subst heq
      refine .inr ?_
      rw [← href]
      exact h.old.spec.trans hspec
    · exact .inl ⟨g', Build.mem_renew.mpr (.inr (h.mem_rest hg' heq)), href, hspec⟩
  · refine .inr ((h.spec_eq fun href => ?_).trans hset)
    rw [href, h.tallied.unset g h.mem] at hset
    cases hset

theorem hasSpec_cases (hspec : HasSpec (b.renew before after g new msg) ref spec) :
    HasSpec b ref spec ∨ ref = new ∧ g.spec = some spec := by
  rcases hspec with ⟨g', hg', href, hspec⟩ | hset
  · rcases Build.mem_renew.mp hg' with rfl | hg'
    · exact .inr ⟨href.symm, hspec⟩
    · exact .inl (.inl ⟨g', (h.mem_old hg').1, href, hspec⟩)
  · by_cases href : ref = g.group
    · refine .inl (.inl ⟨g, h.mem, href.symm, ?_⟩)
      rw [href] at hset
      exact h.old.spec.symm.trans hset
    · exact .inl (.inr ((h.spec_eq href).symm.trans hset))

theorem hasSpec_ne_new (hspec : HasSpec b ref spec) : ref ≠ new := by
  rcases hspec with ⟨g', hg', rfl, -⟩ | hset
  · exact h.ne_new hg'
  · intro heq
    rw [heq, h.node_new] at hset
    cases hset

/-! What was counted stays counted. -/

theorem unset {g' : ParserGroupInfo} (hg' : g' ∈ (b.renew before after g new msg).entries) :
    (msg.node g'.group).spec = none := by
  rcases Build.mem_renew.mp hg' with rfl | hg'
  · exact h.newSpec
  · obtain ⟨hold, hne⟩ := h.mem_old hg'
    refine (h.spec_eq fun heq => hne ?_).trans (h.tallied.unset g' hold)
    exact h.grounded.eq_of_group hold h.mem heq

theorem root {g' : ParserGroupInfo} (hg' : g' ∈ (b.renew before after g new msg).entries)
    (hroot : g'.group.path = []) : g'.groupTag = 0 := by
  rcases Build.mem_renew.mp hg' with rfl | hg'
  · have hpath : new.path = [] := hroot
    rw [h.new_eq] at hpath
    exact absurd hpath (List.append_ne_nil_of_right_ne_nil _ (List.cons_ne_nil _ _))
  · exact h.tallied.root g' (h.mem_old hg').1 hroot

/-- The entry of the new instance counts it. -/
theorem openAt_new (hnotFull : g.groupCount ≠ g.groupMaxCount) :
    OpenAt (b.renew before after g new msg)
      { g with group := new, groupCount := g.groupCount + 1 } p.group g.groupTag := by
  obtain ⟨spec, hspec, hlink⟩ := h.openAt.link
  refine ⟨rfl, .inl (h.openAt.tested.resolve_right hnotFull), ?_, ?_,
    (h.announces_iff (h.ne_new h.parent_mem_entries)).mpr h.openAt.announces, h.openAt.spec,
    ⟨spec, h.hasSpec hspec, hlink⟩⟩
  · show g.groupCount + 1 = (msg.node p.group).count g.groupTag
    rw [h.parentCount, if_pos rfl, h.openAt.count]
  · exact Nat.lt_of_le_of_ne h.openAt.le hnotFull

theorem openAt_old {g' : ParserGroupInfo} (hg' : g' ∈ before ++ after) {t : Int} {j : Nat}
    (heq : g'.group = ref.child t j) : OpenAt (b.renew before after g new msg) g' ref t := by
  have hopen := h.tallied.opened g' (h.mem_old hg').1 ref t j heq
  obtain ⟨spec, hspec, hlink⟩ := hopen.link
  have hnot : ¬(ref = p.group ∧ t = g.groupTag) := by
    rintro ⟨rfl, rfl⟩
    exact h.not_child hg' j heq
  refine ⟨hopen.tag_eq, hopen.tested, ?_, hopen.le,
    (h.announces_iff (h.hasSpec_ne_new hspec)).mpr hopen.announces, hopen.spec,
    ⟨spec, h.hasSpec hspec, hlink⟩⟩
  rw [hopen.count]
  exact (h.count_eq (h.hasSpec_ne_new hspec) hnot).symm

theorem opened (hnotFull : g.groupCount ≠ g.groupMaxCount) {g' : ParserGroupInfo}
    (hg' : g' ∈ (b.renew before after g new msg).entries) {t : Int} {j : Nat}
    (heq : g'.group = ref.child t j) : OpenAt (b.renew before after g new msg) g' ref t := by
  rcases Build.mem_renew.mp hg' with rfl | hg'
  · have hnew : new = ref.child t j := heq
    rw [h.new_eq] at hnew
    obtain ⟨rfl, rfl, -⟩ := Message.child_inj hnew
    exact h.openAt_new hnotFull
  · exact h.openAt_old hg' heq

theorem alone {g' g'' : ParserGroupInfo}
    (hg' : g' ∈ (b.renew before after g new msg).entries)
    (hg'' : g'' ∈ (b.renew before after g new msg).entries) {t : Int} {j k : Nat}
    (heq : g'.group = ref.child t j) (heq' : g''.group = ref.child t k) : g' = g'' := by
  rcases Build.mem_renew.mp hg' with rfl | hold
  · have hnew : new = ref.child t j := heq
    rw [h.new_eq] at hnew
    obtain ⟨rfl, rfl, -⟩ := Message.child_inj hnew
    rcases Build.mem_renew.mp hg'' with rfl | hold'
    · rfl
    · exact absurd heq' (h.not_child hold' k)
  · rcases Build.mem_renew.mp hg'' with rfl | hold'
    · have hnew : new = ref.child t k := heq'
      rw [h.new_eq] at hnew
      obtain ⟨rfl, rfl, -⟩ := Message.child_inj hnew
      exact absurd heq (h.not_child hold j)
    · exact h.tallied.alone g' (h.mem_old hold).1 g'' (h.mem_old hold').1 ref t j k heq heq'

/-- A map that was there announces what it counts, or counts on. -/
theorem closed_old (hspec : HasSpec b ref spec) {t : Int}
    (hsome : (spec.findGroup t).isSome = true)
    (hpresent : t ∈ AssocList.keys (msg.node ref).fields ∨ 0 < (msg.node ref).count t) :
    0 < (msg.node ref).count t ∧
      ((∃ g' ∈ (b.renew before after g new msg).entries, ∃ j, g'.group = ref.child t j) ∨
        (msg.node ref).Announces t ((msg.node ref).count t)) := by
  have hne := h.hasSpec_ne_new hspec
  by_cases hthis : ref = p.group ∧ t = g.groupTag
  · obtain ⟨rfl, rfl⟩ := hthis
    refine ⟨?_, .inl ⟨_, Build.mem_renew.mpr (.inl rfl), _, h.new_eq⟩⟩
    rw [h.parentCount, if_pos rfl]
    exact Nat.succ_pos _
  · rw [h.mem_keys_iff hne, h.count_eq hne hthis] at hpresent
    rw [h.count_eq hne hthis, h.announces_iff hne]
    obtain ⟨hpos, hright⟩ := h.tallied.closed ref spec t hspec hsome hpresent
    refine ⟨hpos, hright.imp (fun hopen => ?_) id⟩
    obtain ⟨g', hg', j, heq⟩ := hopen
    refine ⟨g', Build.mem_renew.mpr (.inr (h.mem_rest hg' ?_)), j, heq⟩
    rintro rfl
    rw [h.child] at heq
    obtain ⟨hp', ht', -⟩ := Message.child_inj heq
    exact hthis ⟨hp'.symm, ht'.symm⟩

/-- The new instance has the one field that started it, and no group. -/
theorem nothing_new {t : Int} (hnogroup : spec.findGroup tag = none)
    (hsome : (spec.findGroup t).isSome = true) :
    ¬(t ∈ AssocList.keys (msg.node new).fields ∨ 0 < (msg.node new).count t) := by
  rintro (hin | hpos)
  · rw [h.newFields t hin, hnogroup] at hsome
    cases hsome
  · rw [h.newCount] at hpos
    exact Nat.lt_irrefl 0 hpos

theorem members (hgspec : g.spec = some spec) (hfield : spec.hasField tag = true) {spec' : GroupSpec}
    (hspec : HasSpec (b.renew before after g new msg) ref spec') {t : Int} {groupSpec : GroupSpec}
    (hgroup : spec'.findGroup t = some groupSpec) {j : Nat} {t' : Int}
    (hin : t' ∈ AssocList.keys (msg.node (ref.child t j)).fields) : groupSpec.Knows t' := by
  rcases h.hasSpec_cases hspec with hold | ⟨rfl, -⟩
  · by_cases hthis : ref.child t j = new
    · rw [hthis] at hin
      rw [h.newFields t' hin]
      rw [h.new_eq] at hthis
      obtain ⟨rfl, rfl, -⟩ := Message.child_inj hthis
      have heq := h.tallied.findGroup_eq h.grounded h.mem h.child hold
      rw [hgroup, hgspec] at heq
      cases heq
      exact .inl hfield
    · exact h.tallied.members ref spec' t groupSpec j hold hgroup t' ((h.mem_keys_iff hthis).mp hin)
  · have hinvalid : ¬b.msg.Valid (ref.child t j) :=
      fun hvalid => h.not_valid (Message.valid_child.mp hvalid).1
    have hsame : msg.node (ref.child t j) = b.msg.node (ref.child t j) :=
      h.other _ (fun heq => hinvalid (heq ▸ h.grounded.valid g h.mem))
        (fun heq => hinvalid (heq ▸ h.grounded.valid p h.parent_mem_entries))
        (Message.child_ne ref t j)
    rw [hsame] at hin
    exact absurd hin (not_mem_keys_of_new (Message.node_of_not_valid hinvalid) t')

theorem checkSum : (msg.node ⟨.trailer, []⟩).count Field.checkSum = 0 := by
  have hne : (⟨.trailer, []⟩ : GroupRef) ≠ new := by
    rintro rfl
    exact h.not_valid (Message.valid_section .trailer)
  rw [h.count_eq hne fun hthis => ?_]
  · exact h.tallied.checkSum
  · -- The entry would be an instance of a group that has none.
    have hvalid := h.grounded.valid g h.mem
    rw [h.child, ← hthis.1, ← hthis.2] at hvalid
    have hlt := (Message.valid_child.mp hvalid).2
    rw [h.tallied.checkSum] at hlt
    exact Nat.not_lt_zero i hlt

end Renewed

/-- An instance that starts with a plain field is counted. -/
theorem Renewed.tallied_renew {before after : List ParserGroupInfo} {p : ParserGroupInfo} {i : Nat}
    {new : GroupRef} {msg : Message} (h : Renewed b before after g p i tag new msg)
    (hnotFull : g.groupCount ≠ g.groupMaxCount) (hspec : g.spec = some spec)
    (hfield : spec.hasField tag = true) (hnogroup : spec.findGroup tag = none) :
    Tallied (b.renew before after g new msg) where
  unset _ hg' := h.unset hg'
  root _ hg' hroot := h.root hg' hroot
  opened _ hg' _ _ _ heq := h.opened hnotFull hg' heq
  alone _ hg' _ hg'' _ _ _ _ heq heq' := h.alone hg' hg'' heq heq'
  closed ref spec' t hspec' hsome hpresent := by
    rcases h.hasSpec_cases hspec' with hold | ⟨rfl, hgspec⟩
    · exact h.closed_old hold hsome hpresent
    · cases hspec.symm.trans hgspec
      exact absurd hpresent (h.nothing_new hnogroup hsome)
  members _ _ _ _ _ hspec' hgroup _ hin := h.members hspec hfield hspec' hgroup hin
  checkSum := h.checkSum

/-! ## What the edits count -/

/-- What the parser makes sure of before it makes an edit. -/
def Checks : Edit → Prop
  | .append g tag _ => ∃ spec, g.spec = some spec ∧ spec.hasField tag = true
  | .assign _ _ _ => True
  | .openGroup g groupSpec f =>
      ∃ spec, g.spec = some spec ∧ spec.findGroup f.tag = some groupSpec
  | .next g p f => (∃ spec, g.spec = some spec ∧ spec.Knows f.tag) ∧
      g.groupCount ≠ g.groupMaxCount ∧ ∃ i, g.group = p.group.child g.groupTag i
  | .finish g => g.group.path = [] ∨ (0 < g.groupTag → g.groupMaxCount ≤ g.groupCount)
  | .enter _ => True

variable {settings : SessionSettings} {dict : Dictionary} {b' : Build} {e : Edit}

/-- A group that is opened starts in its map. -/
theorem begun_openGroup {g : ParserGroupInfo} (hvalid : b.msg.Valid g.group)
    (hnew : (b.msg.node g.group).count f.tag = 0) :
    Begun b g f ((b.msg.modify (fun m => m.addGroup f.tag) g.group).modify
      (fun m => m.setFieldView f.tag f.val false) g.group) := by
  have hassign := FieldMap.keepsInstances_of_groups fun m =>
    m.groups_setFieldView f.tag f.val false
  have hself : ((b.msg.modify (fun m => m.addGroup f.tag) g.group).modify
      (fun m => m.setFieldView f.tag f.val false) g.group).node g.group =
        (((b.msg.get g.group).addGroup f.tag).setFieldView f.tag f.val false).node := by
    rw [Message.node_modify_self (hvalid.addGroup f.tag), Message.get_modify_self hvalid]
  constructor
  case sameSpec =>
    rw [hself, FieldMap.fields_setFieldView]
    rfl
  case count =>
    intro t
    rw [hself]
    have hcount : (((b.msg.get g.group).addGroup f.tag).setFieldView f.tag f.val
        false).getGroupCount t = ((b.msg.get g.group).addGroup f.tag).getGroupCount t := by
      rw [FieldMap.getGroupCount, FieldMap.getGroupCount, FieldMap.groups_setFieldView]
    refine (hcount.trans (FieldMap.getGroupCount_addGroup _ _ _)).trans ?_
    have hnone : (b.msg.get g.group).getGroupCount f.tag = 0 := hnew
    by_cases ht : t = f.tag
    · rw [if_pos ht, if_pos ht, ht, hnone]
    · rw [if_neg ht, if_neg ht]
      rfl
  case find =>
    intro t
    rw [hself, FieldMap.fields_setFieldView]
    show AssocList.find? t (AssocList.set f.tag _ (b.msg.get g.group).fields) = _
    by_cases ht : t = f.tag
    · rw [if_pos ht, ht, AssocList.find?_set_self]
    · rw [if_neg ht, AssocList.find?_set_ne ht]
      rfl
  case other =>
    intro ref href
    rw [Message.node_modify_ne hassign href,
      Message.node_modify_ne (FieldMap.keepsInstances_addGroup f.tag) href]

/-- The start of the next instance changes three maps. -/
theorem continued_next {p : ParserGroupInfo} {f : WireField} {msg : Message}
    (hg : b.msg.Valid g.group) (hp : b.msg.Valid p.group) {i : Nat}
    (hchild : g.group = p.group.child g.groupTag i)
    (hmsg : msg = ((b.msg.modify (ParseState.finishMap settings g.spec) g.group).modify
      (fun m => m.addGroup g.groupTag) p.group).modify
        (fun m => (m.setFieldViewOrDetectDup f.tag f.val).2) (nextRef settings b.msg g p)) :
    Continued b g p f.tag (nextRef settings b.msg g p) msg := by
  have hfinish := FieldMap.keepsInstances_of_groups (FieldMap.groups_finishMap settings g.spec)
  have hadd := FieldMap.keepsInstances_addGroup g.groupTag
  have hdetect := FieldMap.keepsInstances_of_groups fun m =>
    m.groups_setFieldViewOrDetectDup f.tag f.val
  have hgp : g.group ≠ p.group := by
    rw [hchild]
    exact Message.child_ne p.group g.groupTag i
  have hnodep : (b.msg.modify (ParseState.finishMap settings g.spec) g.group).node p.group =
      b.msg.node p.group := Message.node_modify_ne hfinish hgp.symm b.msg
  have hp₁ : (b.msg.modify (ParseState.finishMap settings g.spec) g.group).Valid p.group :=
    hp.of_groups (FieldMap.groups_finishMap settings g.spec)
  have hg₁ : (b.msg.modify (ParseState.finishMap settings g.spec) g.group).Valid g.group :=
    hg.of_groups (FieldMap.groups_finishMap settings g.spec)
  obtain ⟨hnot, hvalid⟩ := valid_addGroup hp₁ g.groupTag
  have hpNew : p.group ≠ nextRef settings b.msg g p := (Message.child_ne p.group _ _).symm
  have hgNew : g.group ≠ nextRef settings b.msg g p := by
    intro heq
    have hchanged : ∀ ref, g.group = ref →
        (b.msg.modify (ParseState.finishMap settings g.spec) g.group).Valid ref := by
      rintro ref rfl
      exact hg₁
    exact hnot (hchanged _ heq)
  have hnewNode : ((b.msg.modify (ParseState.finishMap settings g.spec) g.group).modify
      (fun m => m.addGroup g.groupTag) p.group).node (nextRef settings b.msg g p) =
        FieldMap.new.node :=
    (Message.node_modify_ne hadd hpNew.symm _).trans (Message.node_of_not_valid hnot)
  have hself : msg.node (nextRef settings b.msg g p) =
      ((((b.msg.modify (ParseState.finishMap settings g.spec) g.group).modify
        (fun m => m.addGroup g.groupTag) p.group).get
          (nextRef settings b.msg g p)).setFieldViewOrDetectDup f.tag f.val).2.node := by
    rw [hmsg]
    exact Message.node_modify_self hvalid _
  have hparent : msg.node p.group =
      (((b.msg.modify (ParseState.finishMap settings g.spec) g.group).get p.group).addGroup
        g.groupTag).node := by
    rw [hmsg, Message.node_modify_ne hdetect hpNew]
    exact Message.node_modify_self hp₁ _
  refine ⟨?_, ?_, ?_, ?_, fun t => ?_, ?_, fun t => ?_, fun t ht => ?_,
    fun ref hrefg hrefp hrefn => ?_⟩
  · rw [← hnodep]
    rfl
  · have hold : msg.node g.group =
        (ParseState.finishMap settings g.spec (b.msg.get g.group)).node := by
      rw [hmsg, Message.node_modify_ne hdetect hgNew, Message.node_modify_ne hadd hgp]
      exact Message.node_modify_self hg _
    rw [hold]
    exact FieldMap.finished_finishMap settings g.spec _
  · rw [hparent, ← hnodep]
    rfl
  · rw [hparent, ← hnodep]
    rfl
  · rw [hparent, ← hnodep]
    exact FieldMap.getGroupCount_addGroup _ _ _
  · rw [hself]
    exact (FieldMap.spec_setFieldViewOrDetectDup _ _ _).trans (congrArg Node.spec hnewNode)
  · rw [hself]
    refine (congrFun (FieldMap.getGroupCount_setFieldViewOrDetectDup _ f.tag f.val) t).trans ?_
    exact congrFun (congrArg Node.count hnewNode) t
  · rw [hself] at ht
    obtain ⟨q, hq, rfl⟩ := List.mem_map.mp ht
    rcases FieldMap.mem_setFieldViewOrDetectDup hq with rfl | hin
    · rfl
    · have hfields := congrArg Node.fields hnewNode
      have hin' : q ∈ FieldMap.new.node.fields := hfields ▸ hin
      cases hin'
  · rw [hmsg, Message.node_modify_ne hdetect hrefn, Message.node_modify_ne hadd hrefp,
      Message.node_modify_ne hfinish hrefg]

/-- An edit that does not miscount keeps the counts right. -/
theorem Edits.tallied (h : Edits settings dict b e b') (hstaged : Staged b) (hgrounded : Grounded b)
    (hb : Tallied b) (hchecks : Checks e) (hmiscounts : ¬Miscounts b e) : Tallied b' := by
  cases h with
  | @append g tag value hg hnew =>
      have hf := FieldMap.keepsInstances_of_groups fun m =>
        m.groups_setFieldViewOrDetectDup tag value
      obtain ⟨spec, hspec, hfield⟩ := hchecks
      refine @Tallied.store b g tag hb hgrounded hg _ ?_
        (fun ref href => Message.node_modify_ne hf href _) ?_ ?_
      · rw [Message.node_modify_self (hgrounded.valid g hg)]
        exact FieldMap.stored_append hnew
      · intro spec' hspec'
        rw [← Option.not_isSome_iff_eq_none]
        exact fun hgroup => hmiscounts (.appendCount hspec' hgroup)
      · intro _ spec' hspec'
        rw [hspec] at hspec'
        cases hspec'
        exact .inl hfield
  | @assign g tag value hg =>
      have hf := FieldMap.keepsInstances_of_groups fun m => m.groups_setFieldView tag value false
      refine @Tallied.store b g tag hb hgrounded hg _ ?_
        (fun ref href => Message.node_modify_ne hf href _) ?_ ?_
      · rw [Message.node_modify_self (hgrounded.valid g hg)]
        exact FieldMap.stored_setFieldView _ tag value
      · intro spec hspec
        rw [← Option.not_isSome_iff_eq_none]
        exact fun hgroup => hmiscounts (.assignCount hspec hgroup)
      · intro hpath spec hspec
        by_contra hforeign
        exact hmiscounts (.assignForeign hspec hpath hforeign)
  | @openGroup g groupSpec f hg hnew =>
      obtain ⟨spec, hspec, hgroup⟩ := hchecks
      have hopened : Opened b g spec groupSpec f _ := {
        toBegun := begun_openGroup (hgrounded.valid g hg) hnew
        tallied := hb
        grounded := hgrounded
        mem := hg
        gspec := hspec
        group := hgroup
        new := hnew }
      refine hopened.tallied_open ?_ ?_ ?_ ?_
      · by_contra hnot
        rw [not_or] at hnot
        exact hmiscounts (.openUncounted (Int.not_lt.mp hnot.1) hnot.2)
      · by_contra hneg
        exact hmiscounts (.openZero (Int.not_lt.mp hneg))
      · by_contra hneg
        exact hmiscounts (.openOverflow hneg)
      · rintro ⟨htrailer, hsum⟩
        exact hmiscounts (.openCheckSum htrailer hsum)
  | @next before after g p f hentries hp =>
      obtain ⟨⟨spec, hspec, hknown⟩, hcount, i, hchild⟩ := hchecks
      have hnogroup : ¬(spec.findGroup f.tag).isSome = true :=
        fun hgroup => hmiscounts (.nextCount hspec hgroup)
      have hg : g ∈ b.entries := hentries ▸ List.mem_append_right _ List.mem_cons_self
      have hpIn : p ∈ b.entries := by
        rw [hentries]
        exact List.mem_append_right _ (List.mem_cons_of_mem _ hp)
      have hrenewed : Renewed b before after g p i f.tag (nextRef settings b.msg g p) _ := {
        toContinued := continued_next (hgrounded.valid g hg) (hgrounded.valid p hpIn) hchild rfl
        tallied := hb
        grounded := hgrounded
        entries_eq := hentries
        parent_mem := hp
        child := hchild }
      exact hrenewed.tallied_renew hcount hspec (hknown.resolve_right hnogroup)
        (Option.not_isSome_iff_eq_none.mp hnogroup)
  | @finish before after g hentries =>
      have hg : g ∈ b.entries := hentries ▸ List.mem_append_right _ List.mem_cons_self
      have hf := FieldMap.keepsInstances_of_groups (FieldMap.groups_finishMap settings g.spec)
      refine hb.finish hgrounded hentries ?_ (fun ref href => Message.node_modify_ne hf href _) ?_
      · rw [Message.node_modify_self (hgrounded.valid g hg)]
        exact FieldMap.finished_finishMap settings g.spec _
      · intro ref tag i heq
        have hopen := hb.opened g hg ref tag i heq
        rcases hchecks with hpath | hreached
        · rw [heq] at hpath
          exact absurd hpath (List.append_ne_nil_of_right_ne_nil _ (List.cons_ne_nil _ _))
        · rcases hopen.tested with hpos | hfull
          · exact Nat.le_antisymm hopen.le (hreached (hopen.tag_eq ▸ hpos))
          · exact hfull
  | @body bodySpec hstate hentries =>
      refine hb.enter (g := ParseState.bodyInfo bodySpec) (fun g' => ?_) rfl rfl ?_
      · rw [hentries, List.mem_singleton]
        exact ⟨.inr, fun h => h.resolve_left List.not_mem_nil⟩
      · refine hstaged.empty _ ?_
        rw [hstate]
        exact True.intro
  | trailer hstate =>
      refine hb.enter (g := ParseState.trailerInfo dict) (fun g' => ?_) rfl rfl ?_
      · rw [List.mem_append, List.mem_singleton]
      · refine hstaged.empty _ ?_
        rw [hstate]
        exact True.intro

end

end OpenFix
