import OpenFix.Tokens

/-!
# Where the body starts

The parser notes where the body of a message starts: behind the last field with the tag of
the body length that it files anywhere, and not only behind the second field of the text.
A field that starts another instance of a group is not noted, and a data field is not.
But such a field repeats one that was noted, if the dictionary has the body length in the
header and not as a data field.

So behind the second field, the start is the end of that field as long as no other body
length comes, and behind every later one it is further on.
-/

namespace OpenFix

open Loop

/-- The dictionary has the first two fields in the header, and the body length is not a data
field. -/
structure Dictionary.FilesBodyLength (dict : Dictionary) : Prop where
  beginString : dict.headerSpec.hasField Field.beginString = true
  bodyLength : dict.headerSpec.hasField Field.bodyLength = true
  bodyLengthType : dict.getFieldType Field.bodyLength ≠ .data

/-! ## Tags that a map knows -/

/-- The map was given the tag, as a plain field or as a group. -/
def Node.Knows (n : Node) (tag : Int) : Prop := tag ∈ n.seen ∨ 0 < n.count tag

namespace FieldMap

variable {m : FieldMap} {tag tag' : Int} {value : Bytes}

theorem not_knows_new (tag : Int) : ¬new.node.Knows tag := by
  rintro (h | h)
  · cases h
  · exact absurd h (Nat.lt_irrefl 0)

theorem knows_of_groups {m' : FieldMap} (hseen : tag ∈ m'.seen → tag ∈ m.seen)
    (hgroups : m'.groups = m.groups) (h : m'.node.Knows tag) : m.node.Knows tag := by
  refine h.imp hseen fun hcount => ?_
  have hsame : m'.node.count tag = m.node.count tag := by
    show m'.getGroupCount tag = m.getGroupCount tag
    rw [getGroupCount, hgroups]
    rfl
  rwa [hsame] at hcount

theorem seen_detectDup (m : FieldMap) (tag : Int) (value : Bytes) :
    m.seen ⊆ (m.setFieldViewOrDetectDup tag value).2.seen ∧
      (m.setFieldViewOrDetectDup tag value).2.seen ⊆ tag :: m.seen := by
  rw [setFieldViewOrDetectDup]
  split
  · split
    · exact ⟨List.Subset.refl _, List.subset_cons_self _ _⟩
    · exact ⟨List.subset_cons_self _ _, List.Subset.refl _⟩
  · split
    · exact ⟨List.Subset.refl _, List.subset_cons_self _ _⟩
    · exact ⟨List.Subset.refl _, List.subset_cons_self _ _⟩

theorem seen_setFieldView (m : FieldMap) (tag : Int) (value : Bytes) :
    (m.setFieldView tag value false).seen = m.seen := by
  rw [fields_setFieldView]

theorem seen_finishMap (settings : SessionSettings) (spec : Option GroupSpec) (m : FieldMap) :
    (ParseState.finishMap settings spec m).seen = m.seen := by
  rw [ParseState.finishMap]
  split
  · rfl
  · rfl

theorem knows_of_detectDup (htag : tag' ≠ tag)
    (h : (m.setFieldViewOrDetectDup tag' value).2.node.Knows tag) : m.node.Knows tag := by
  refine knows_of_groups (fun hin => ?_) (m.groups_setFieldViewOrDetectDup tag' value) h
  rcases List.mem_cons.mp ((m.seen_detectDup tag' value).2 hin) with heq | hin
  · exact absurd heq.symm htag
  · exact hin

theorem knows_of_setFieldView (h : (m.setFieldView tag' value false).node.Knows tag) :
    m.node.Knows tag :=
  knows_of_groups (fun hin => m.seen_setFieldView tag' value ▸ hin)
    (m.groups_setFieldView tag' value false) h

theorem knows_of_addGroup (htag : tag' ≠ tag) (h : (m.addGroup tag').node.Knows tag) :
    m.node.Knows tag := by
  refine h.imp id fun hcount => ?_
  have hsame : (m.addGroup tag').node.count tag = m.node.count tag := by
    show (m.addGroup tag').getGroupCount tag = m.getGroupCount tag
    rw [getGroupCount_addGroup, if_neg htag.symm]
  rwa [hsame] at hcount

theorem knows_of_finishMap {settings : SessionSettings} {spec : Option GroupSpec}
    (h : (ParseState.finishMap settings spec m).node.Knows tag) : m.node.Knows tag :=
  knows_of_groups (fun hin => seen_finishMap settings spec m ▸ hin)
    (groups_finishMap settings spec m) h

end FieldMap

section

variable {settings : SessionSettings} {dict : Dictionary} {b b' : Build} {e : Edit}

/-! ## Maps without the tag -/

/-- No maps but those at `refs` were given the tag. -/
structure KnownIn (refs : Set GroupRef) (tag : Int) (b : Build) : Prop where
  only : ∀ ref ∉ refs, ¬(b.msg.node ref).Knows tag
  entries : ∀ g ∈ b.entries, g.groupTag ≠ tag

/-- An edit that does not write the tag gives it to no map. -/
theorem Edits.knownIn (h : Edits settings dict b e b') {refs : Set GroupRef} {tag : Int}
    (hzero : 0 ≠ tag) (hwritten : ∀ p ∈ e.written, p.1 ≠ tag) (hb : KnownIn refs tag b) :
    KnownIn refs tag b' := by
  have hdetect := fun (tag' : Int) (value : Bytes) => FieldMap.keepsInstances_of_groups
    fun m => m.groups_setFieldViewOrDetectDup tag' value
  have hassign := fun (tag' : Int) (value : Bytes) => FieldMap.keepsInstances_of_groups
    fun m => m.groups_setFieldView tag' value false
  have hfinish := fun spec : Option GroupSpec =>
    FieldMap.keepsInstances_of_groups (FieldMap.groups_finishMap settings spec)
  let P : Node → Prop := fun n => ¬n.Knows tag
  cases h with
  | @append g tag' value _ _ =>
      have htag : tag' ≠ tag := hwritten _ (Multiset.mem_singleton_self _)
      refine ⟨fun ref href => ?_, hb.entries⟩
      exact Message.keeps_node_modify P (hdetect tag' value) g.group (hb.only ref href)
        fun _ hnot hknows => hnot (FieldMap.knows_of_detectDup htag hknows)
  | @assign g tag' value _ =>
      refine ⟨fun ref href => ?_, hb.entries⟩
      exact Message.keeps_node_modify P (hassign tag' value) g.group (hb.only ref href)
        fun _ hnot hknows => hnot (FieldMap.knows_of_setFieldView hknows)
  | @openGroup g spec f _ _ =>
      have htag : f.tag ≠ tag := hwritten _ (Multiset.mem_singleton_self _)
      refine ⟨fun ref href => ?_, fun g' hg' => ?_⟩
      · have hadded := Message.keeps_node_modify P (FieldMap.keepsInstances_addGroup f.tag) g.group
          (hb.only ref href) fun _ hnot hknows => hnot (FieldMap.knows_of_addGroup htag hknows)
        exact Message.keeps_node_modify P (hassign f.tag f.val) g.group hadded
          fun _ hnot hknows => hnot (FieldMap.knows_of_setFieldView hknows)
      · rcases List.mem_cons.mp hg' with rfl | hg'
        · exact htag
        · exact hb.entries g' hg'
  | @next before after g p f hentries hp =>
      have htag : f.tag ≠ tag := hwritten _ (Multiset.mem_singleton_self _)
      have hentry : ∀ g' ∈ before ++ g :: after, g'.groupTag ≠ tag := hentries ▸ hb.entries
      have hgroup : g.groupTag ≠ tag := hentry g (List.mem_append_right _ List.mem_cons_self)
      refine ⟨fun ref href => ?_, fun g' hg' => ?_⟩
      · have hfinished := Message.keeps_node_modify P (hfinish g.spec) g.group
          (hb.only ref href) fun _ hnot hknows => hnot (FieldMap.knows_of_finishMap hknows)
        have hadded := Message.keeps_node_modify P (FieldMap.keepsInstances_addGroup g.groupTag)
          p.group hfinished fun _ hnot hknows => hnot (FieldMap.knows_of_addGroup hgroup hknows)
        exact Message.keeps_node_modify P (hdetect f.tag f.val) _ hadded
          fun _ hnot hknows => hnot (FieldMap.knows_of_detectDup htag hknows)
      · rcases List.mem_append.mp hg' with hg' | hg'
        · exact hentry g' (List.mem_append_left _ hg')
        · rcases List.mem_cons.mp hg' with rfl | hg'
          · exact hgroup
          · exact hentry g' (List.mem_append_right _ (List.mem_cons_of_mem _ hg'))
  | @finish before after g hentries =>
      have hentry : ∀ g' ∈ before ++ g :: after, g'.groupTag ≠ tag := hentries ▸ hb.entries
      refine ⟨fun ref href => ?_, fun g' hg' => ?_⟩
      · exact Message.keeps_node_modify P (hfinish g.spec) g.group (hb.only ref href)
          fun _ hnot hknows => hnot (FieldMap.knows_of_finishMap hknows)
      · rcases List.mem_append.mp hg' with hg' | hg'
        · exact hentry g' (List.mem_append_left _ hg')
        · exact hentry g' (List.mem_append_right _ (List.mem_cons_of_mem _ hg'))
  | body _ _ =>
      refine ⟨hb.only, fun g' hg' => ?_⟩
      rw [List.mem_singleton.mp hg']
      exact hzero
  | trailer _ =>
      refine ⟨hb.only, fun g' hg' => ?_⟩
      rcases List.mem_append.mp hg' with hg' | hg'
      · exact hb.entries g' hg'
      · rw [List.mem_singleton.mp hg']
        exact hzero

/-! ## The body length in the header -/

/-- The entry of the header. -/
def headerInfo (dict : Dictionary) : ParserGroupInfo where
  spec := some dict.headerSpec
  group := ⟨.header, []⟩

/-- The header has the body length, and only its own entry is at its map. -/
structure Headed (dict : Dictionary) (length : Bytes) (b : Build) : Prop where
  header : ∀ g ∈ b.entries, g.group = ⟨.header, []⟩ → g = headerInfo dict
  apart : b.state ≠ .header → ∀ g ∈ b.entries, g.group.sec ≠ .header
  length : AssocList.find? Field.bodyLength (b.msg.node ⟨.header, []⟩).fields = some (.text length)

namespace FieldMap

variable {m : FieldMap} {tag tag' : Int} {value : Bytes} {v : View}

theorem find?_detectDup (h : AssocList.find? tag m.fields = some v) :
    AssocList.find? tag (m.setFieldViewOrDetectDup tag' value).2.fields = some v := by
  cases hdup : (m.setFieldViewOrDetectDup tag' value).1 with
  | true => rwa [eq_of_dup hdup]
  | false => rw [(fields_append hdup).1, AssocList.find?_append, h, Option.some_or]

theorem find?_assign (htag : tag' ≠ tag) (h : AssocList.find? tag m.fields = some v) :
    AssocList.find? tag (m.setFieldView tag' value false).fields = some v := by
  rw [fields_setFieldView]
  exact (AssocList.find?_set_ne htag.symm _ _).trans h

end FieldMap

theorem GroupRef.child_path_ne (ref : GroupRef) (tag : Int) (i : Nat) (sec : MessageSection) :
    ref.child tag i ≠ ⟨sec, []⟩ := by
  intro h
  exact List.append_ne_nil_of_right_ne_nil _ (List.cons_ne_nil _ _) (congrArg GroupRef.path h)

/-- An edit keeps the body length in the header, unless it assigns it. -/
theorem Edits.headed (h : Edits settings dict b e b') {length : Bytes}
    (hassigned : ∀ g tag value, e = .assign g tag value → g.group = ⟨.header, []⟩ →
      tag ≠ Field.bodyLength)
    (hopened : ∀ g spec f, e = .openGroup g spec f → g.group = ⟨.header, []⟩ →
      f.tag ≠ Field.bodyLength)
    (hb : Headed dict length b) : Headed dict length b' := by
  have hdetect := fun (tag : Int) (value : Bytes) => FieldMap.keepsInstances_of_groups
    fun m => m.groups_setFieldViewOrDetectDup tag value
  have hassign := fun (tag : Int) (value : Bytes) => FieldMap.keepsInstances_of_groups
    fun m => m.groups_setFieldView tag value false
  have hfinish := fun spec : Option GroupSpec =>
    FieldMap.keepsInstances_of_groups (FieldMap.groups_finishMap settings spec)
  let P : Node → Prop := fun n => AssocList.find? Field.bodyLength n.fields = some (.text length)
  have hlength : P (b.msg.node ⟨.header, []⟩) := hb.length
  cases h with
  | @append g tag value _ _ =>
      exact ⟨hb.header, hb.apart, Message.keeps_node_modify P (hdetect tag value) g.group
        hlength fun _ h => FieldMap.find?_detectDup h⟩
  | @assign g tag value _ =>
      refine ⟨hb.header, hb.apart, Message.keeps_node_modify P (hassign tag value) g.group
        hlength fun href h => ?_⟩
      exact FieldMap.find?_assign (hassigned g tag value rfl href.symm) h
  | @openGroup g spec f hg _ =>
      refine ⟨fun g' hg' hgroup => ?_, fun hstate g' hg' => ?_, ?_⟩
      · rcases List.mem_cons.mp hg' with rfl | hg'
        · exact absurd hgroup (GroupRef.child_path_ne _ _ _ _)
        · exact hb.header g' hg' hgroup
      · rcases List.mem_cons.mp hg' with rfl | hg'
        · exact hb.apart hstate g hg
        · exact hb.apart hstate g' hg'
      · have hadded := Message.keeps_node_modify P (FieldMap.keepsInstances_addGroup f.tag) g.group
          hlength fun _ h => h
        exact Message.keeps_node_modify P (hassign f.tag f.val) g.group hadded
          fun href h => FieldMap.find?_assign (hopened g spec f rfl href.symm) h
  | @next before after g p f hentries hp =>
      have hmem : ∀ g' ∈ before ++ after, g' ∈ b.entries := by
        intro g' hg'
        rw [hentries]
        rcases List.mem_append.mp hg' with hg' | hg'
        · exact List.mem_append_left _ hg'
        · exact List.mem_append_right _ (List.mem_cons_of_mem _ hg')
      refine ⟨fun g' hg' hgroup => ?_, fun hstate g' hg' => ?_, ?_⟩
      · rcases List.mem_append.mp hg' with hg' | hg'
        · exact hb.header g' (hmem g' (List.mem_append_left _ hg')) hgroup
        · rcases List.mem_cons.mp hg' with rfl | hg'
          · exact absurd hgroup (GroupRef.child_path_ne _ _ _ _)
          · exact hb.header g' (hmem g' (List.mem_append_right _ hg')) hgroup
      · rcases List.mem_append.mp hg' with hg' | hg'
        · exact hb.apart hstate g' (hmem g' (List.mem_append_left _ hg'))
        · rcases List.mem_cons.mp hg' with rfl | hg'
          · exact hb.apart hstate p (hmem p (List.mem_append_right _ hp))
          · exact hb.apart hstate g' (hmem g' (List.mem_append_right _ hg'))
      · have hfinished := Message.keeps_node_modify P (hfinish g.spec) g.group
          hlength fun _ h => (FieldMap.find?_finishMap settings g.spec _ _).trans h
        have hadded := Message.keeps_node_modify P (FieldMap.keepsInstances_addGroup g.groupTag)
          p.group hfinished fun _ h => h
        exact Message.keeps_node_modify P (hdetect f.tag f.val) _ hadded
          fun _ h => FieldMap.find?_detectDup h
  | @finish before after g hentries =>
      have hmem : ∀ g' ∈ before ++ after, g' ∈ b.entries := by
        intro g' hg'
        rw [hentries]
        rcases List.mem_append.mp hg' with hg' | hg'
        · exact List.mem_append_left _ hg'
        · exact List.mem_append_right _ (List.mem_cons_of_mem _ hg')
      exact ⟨fun g' hg' => hb.header g' (hmem g' hg'),
        fun hstate g' hg' => hb.apart hstate g' (hmem g' hg'),
        Message.keeps_node_modify P (hfinish g.spec) g.group hlength
          fun _ h => (FieldMap.find?_finishMap settings g.spec _ _).trans h⟩
  | @body bodySpec _ _ =>
      refine ⟨fun g' hg' hgroup => ?_, fun _ g' hg' => ?_, hlength⟩
      · rw [List.mem_singleton.mp hg'] at hgroup
        cases hgroup
      · rw [List.mem_singleton.mp hg']
        exact MessageSection.noConfusion
  | trailer hstate =>
      have hbefore : b.state ≠ .header := by
        rw [hstate]
        exact MessageState.noConfusion
      refine ⟨fun g' hg' hgroup => ?_, fun _ g' hg' => ?_, hlength⟩
      · rcases List.mem_append.mp hg' with hg' | hg'
        · exact hb.header g' hg' hgroup
        · rw [List.mem_singleton.mp hg'] at hgroup
          cases hgroup
      · rcases List.mem_append.mp hg' with hg' | hg'
        · exact hb.apart hbefore g' hg'
        · rw [List.mem_singleton.mp hg']
          exact MessageSection.noConfusion

end

/-- A round does not touch the body length in the header. -/
theorem PerformsIn.headed {settings : SessionSettings} {dict : Dictionary} {size : Nat}
    {text : Bytes} {st : ParseState} {b b' : Build} {e : Edit} (hdict : dict.FilesBodyLength)
    (h : PerformsIn settings dict size text st b e) (hedits : Edits settings dict b e b')
    {length : Bytes} (hb : Headed dict length b) : Headed dict length b' := by
  refine hedits.headed (fun g tag value he hgroup => ?_) (fun g spec f he hgroup => ?_) hb
  · cases h with
    | data _ _ htype _ =>
        cases he
        exact fun htag => hdict.bodyLengthType (htag ▸ htype)
    | field _ hperforms =>
        cases hperforms with
        | taken _ htakes => cases htakes <;> cases he
        | unknown _ hstate _ htop =>
            cases he
            exact absurd (congrArg GroupRef.sec hgroup)
              (hb.apart hstate g (List.mem_of_mem_head? htop))
        | started _ htakes => cases htakes <;> cases he
        | startedUnknown _ _ _ =>
            cases he
            cases hgroup
        | enter => cases he
        | finish _ => cases he
        | replace _ => cases he
  · cases h with
    | data _ _ _ _ => cases he
    | field _ hperforms =>
        cases hperforms with
        | taken htries htakes =>
            cases htakes with
            | append _ _ => cases he
            | next _ _ _ _ _ _ => cases he
            | openGroup hspec hfield _ =>
                cases he
                -- The header has the field, so that it is no group of the header.
                have hheader := hb.header g htries.turn.mem hgroup
                rw [hheader] at hspec
                cases hspec
                intro htag
                rw [htag, hdict.bodyLength] at hfield
                cases hfield
        | unknown _ _ _ _ => cases he
        | started hstarts htakes =>
            cases htakes with
            | append _ _ => cases he
            | next _ _ _ _ _ _ => cases he
            | openGroup _ _ _ =>
                cases he
                cases hstarts with
                | body _ _ _ => cases hgroup
                | trailer _ _ => cases hgroup
                | both _ _ _ _ => cases hgroup
        | startedUnknown _ _ _ => cases he
        | enter => cases he
        | finish _ => cases he
        | replace _ => cases he

/-! ## Where the body starts -/

namespace ParseState

section

variable {settings : SessionSettings} {dict : Dictionary} {f : WireField} {st st' : ParseState}

/-- The start of the body behind a field that is noted. -/
def startBehind (f : WireField) (start : Int) : Int :=
  if f.tag = Field.bodyLength then i32 f.stop + 1 else start

theorem bodyLengthStart_noteBodyLength (f : WireField) (st : ParseState) :
    (st.noteBodyLength f).bodyLengthStart = startBehind f st.bodyLengthStart := by
  rw [noteBodyLength, startBehind]
  split
  · rfl
  · rfl

/-- To close entries changes the message and the stack. -/
theorem exists_closeTo (keep : Nat) (st : ParseState) : ∃ msg, st.closeTo settings keep =
    { st with msg := msg, stack := st.stack.drop (st.stack.length - keep) } := by
  have hfold : ∀ (popped : List ParserGroupInfo) (st : ParseState),
      ∃ msg, popped.foldl (finish settings) st = { st with msg := msg } := by
    intro popped
    induction popped with
    | nil => exact fun st => ⟨st.msg, rfl⟩
    | cons g popped ih => exact fun st => ih (st.finish settings g)
  obtain ⟨msg, hmsg⟩ := hfold (st.stack.take (st.stack.length - keep)) st
  exact ⟨msg, by rw [closeTo, hmsg]⟩

theorem bodyLengthStart_closeTo (keep : Nat) (st : ParseState) :
    (st.closeTo settings keep).bodyLengthStart = st.bodyLengthStart := by
  obtain ⟨msg, hmsg⟩ := @exists_closeTo settings keep st
  rw [hmsg]

/-- The entry has seen the field, and takes it as the first one of an instance. -/
def Repeats (st : ParseState) (f : WireField) (g : ParserGroupInfo) : Prop :=
  0 < g.groupTag ∧ Seen st g f

/-- A field is noted, unless it starts another instance of a group. -/
theorem Offered.bodyLengthStart {g : ParserGroupInfo} {groupIdx idx : Nat}
    {parent : Option ParserGroupInfo} {r : Tried}
    (h : Offered settings dict st g groupIdx parent f r) (hidx : r.idx = some idx) :
    r.st.bodyLengthStart = startBehind f st.bodyLengthStart ∨
      parent ≠ none ∧ Repeats st f g ∧ r.st.bodyLengthStart = st.bodyLengthStart := by
  cases h with
  | refused _ _ => cases hidx
  | added _ _ _ => exact .inl (bodyLengthStart_noteBodyLength f _)
  | opened _ _ _ _ _ => exact .inl (bodyLengthStart_noteBodyLength f _)
  | next _ hparent htag _ hseen =>
      exact .inr ⟨fun hnone => Option.some_ne_none _ (hparent.symm.trans hnone), ⟨htag, hseen⟩, rfl⟩

theorem Offered.bodyLengthStart_of_none {g : ParserGroupInfo} {groupIdx idx : Nat} {r : Tried}
    (h : Offered settings dict st g groupIdx none f r) (hidx : r.idx = some idx) :
    r.st.bodyLengthStart = startBehind f st.bodyLengthStart :=
  (h.bodyLengthStart hidx).resolve_right fun hnot => hnot.1 rfl

theorem Trailed.bodyLengthStart (h : Trailed settings dict f st st') :
    st'.bodyLengthStart = startBehind f st.bodyLengthStart := by
  cases h with
  | unknown _ => exact bodyLengthStart_noteBodyLength f _
  | trailer _ hoffer hidx _ =>
      rw [bodyLengthStart_closeTo]
      exact hoffer.bodyLengthStart_of_none hidx

theorem bodyLengthStart_of_dispatchField (h : dispatchField settings dict f st = .ok st') :
    st'.bodyLengthStart = startBehind f st.bodyLengthStart ∨
      (∃ g ∈ st.stack, Repeats st f g) ∧ st'.bodyLengthStart = st.bodyLengthStart := by
  have hfiled := (yields_dispatchField f st).of_ok h
  have hbody : ∀ bodySpec, (st.toBody settings bodySpec).bodyLengthStart = st.bodyLengthStart :=
    fun _ => bodyLengthStart_closeTo 0 st
  cases hfiled with
  | @taken before below g r idx hstack hoffer hidx =>
      rw [bodyLengthStart_closeTo]
      refine (hoffer.bodyLengthStart hidx).imp id fun hrepeats =>
        ⟨⟨g, ?_, hrepeats.2.1⟩, hrepeats.2.2⟩
      rw [hstack]
      exact List.mem_append_right _ List.mem_cons_self
  | passed hpassed =>
      refine .inl ?_
      cases hpassed with
      | trailed _ htrailed => exact htrailed.bodyLengthStart
      | @taken bodySpec r idx _ _ hoffer hidx =>
          rw [← hbody bodySpec]
          exact hoffer.bodyLengthStart_of_none hidx
      | @passed bodySpec _ _ _ _ _ htrailed =>
          rw [← hbody bodySpec]
          exact htrailed.bodyLengthStart

end

end ParseState

theorem FieldMap.mem_seen_of_dup {m : FieldMap} {tag : Int} {value : Bytes}
    (hrange : 0 ≤ tag ∧ tag < 1024) (h : (m.setFieldViewOrDetectDup tag value).1 = true) :
    tag ∈ m.seen := by
  rw [setFieldViewOrDetectDup, if_pos hrange] at h
  split at h
  next hseen => exact hseen
  next => cases h

/-- A map that was not given the tag has not seen a field with it. -/
theorem KnownIn.not_seen {st : ParseState} {refs : Set GroupRef} {g : ParserGroupInfo}
    {f : WireField} (hknown : KnownIn refs f.tag st.build) (hrange : 0 ≤ f.tag ∧ f.tag < 1024)
    (hg : g.group ∉ refs) : ¬ParseState.Seen st g f := by
  intro hseen
  obtain ⟨spec, -, hseen⟩ := hseen
  refine hknown.only g.group hg ?_
  rcases hseen with ⟨-, hdup⟩ | ⟨-, -, hcount⟩
  · exact .inl (FieldMap.mem_seen_of_dup hrange hdup)
  · exact .inr hcount

section

variable {settings : SessionSettings} {dict : Dictionary} {size : Nat}

/-! ## What a round does to it -/

/-- How many body lengths a parse has not come to. -/
def lengthsComing (dict : Dictionary) (p : Bytes × ParseState) : Nat :=
  (coming dict p).countP fun f => f.1 = Field.bodyLength

theorem lengthsComing_add {p p' : Bytes × ParseState} {f : Int × Bytes}
    (h : coming dict p = {f} + coming dict p') :
    lengthsComing dict p = (if f.1 = Field.bodyLength then 1 else 0) + lengthsComing dict p' := by
  rw [lengthsComing, h, Multiset.countP_add, ← Multiset.cons_zero, Multiset.countP_cons,
    Multiset.countP_zero, Nat.zero_add]
  rfl

theorem lengthsComing_init (dict : Dictionary) (text : Bytes) :
    lengthsComing dict (text, .init dict) =
      ((dict.fieldsOf text).map Prod.fst).count Field.bodyLength := by
  rw [List.count_eq_countP, List.countP_map]
  refine (Multiset.coe_countP _ _).trans (List.countP_congr fun f _ => ?_)
  simp

/-- A field with another tag gives the tag to no map. -/
theorem KnownIn.dispatchField {f : WireField} {st st' : ParseState} {refs : Set GroupRef}
    {tag : Int} (hzero : 0 ≠ tag) (htag : f.tag ≠ tag)
    (h : ParseState.dispatchField settings dict f st = .ok st') (hst : KnownIn refs tag st.build) :
    KnownIn refs tag st'.build := by
  refine ParseState.invariant_dispatchField (fun b e b' hperforms hedits hb => ?_) h hst
  refine hedits.knownIn hzero (fun p hp => ?_) hb
  by_cases hwrites : e.Writes
  · rw [hperforms.written hwrites] at hp
    rw [Multiset.mem_singleton.mp hp]
    exact htag
  · rw [Edit.written_of_not_writes hwrites] at hp
    exact absurd hp (Multiset.notMem_zero p)

/-- A round reads another field, and then all stays. -/
structure Stays (dict : Dictionary) (p p' : Bytes × ParseState) : Prop where
  coming : lengthsComing dict p = lengthsComing dict p'
  start : p'.2.bodyLengthStart = p.2.bodyLengthStart
  known : ∀ refs, KnownIn refs Field.bodyLength p.2.build → KnownIn refs Field.bodyLength p'.2.build

/-- A round reads a body length, which is noted or repeats one. -/
structure Moves (dict : Dictionary) (size : Nat) (p p' : Bytes × ParseState) : Prop where
  coming : lengthsComing dict p = 1 + lengthsComing dict p'
  start : p'.2.bodyLengthStart = i32 (size - (p'.1.length + 1) : Nat) + 1 ∨
    (∃ g ∈ p.2.stack, ∃ f : WireField, f.tag = Field.bodyLength ∧ ParseState.Repeats p.2 f g) ∧
      p'.2.bodyLengthStart = p.2.bodyLengthStart

/-- A round of a strict parse leaves the start of the body, or moves it. -/
theorem stays_or_moves (hstrict : settings.relaxedParsing = false) {p p' : Bytes × ParseState}
    (hlength : dict.getFieldType Field.bodyLength ≠ .data ∨ lengthsComing dict p = 0)
    (h : parseRound settings dict size p = .ok (.inl p')) :
    Stays dict p p' ∨ Moves dict size p p' := by
  obtain ⟨text, st⟩ := p
  obtain ⟨next, st'⟩ := p'
  cases parseRound_next h with
  | skipped hrelaxed _ _ =>
      rw [hstrict] at hrelaxed
      cases hrelaxed
  | @data tagText rest len top htag hlen htype _ htop =>
      have hedits : Edits settings dict st.build
          (.assign top (fastParseTag tagText) (rest.take len)) _ :=
        .assign (List.mem_of_mem_head? htop)
      have hcoming := lengthsComing_add (@coming_data dict _ tagText rest st
        ((st.started (fastParseTag tagText)).modify (fun m =>
          m.setFieldView (fastParseTag tagText) (rest.take len) false) top.group) len htag.split
          hlen htype rfl)
      have htag' : fastParseTag tagText ≠ Field.bodyLength := by
        intro heq
        rcases hlength with hne | hnone
        · exact hne (heq ▸ htype)
        · rw [hnone, if_pos heq] at hcoming
          omega
      rw [if_neg htag', Nat.zero_add] at hcoming
      refine .inl ⟨hcoming, rfl, fun refs hknown => ?_⟩
      refine hedits.knownIn (by decide) (fun q hq => ?_) hknown
      rw [Multiset.mem_singleton.mp hq]
      exact htag'
  | @filed _ f _ hdispatches hdispatch =>
      have hlen : st'.dataLength = ParseState.announced dict f := by
        rw [ParseState.dataLength_of_dispatchField hdispatch]
        exact Option.or_none
      have hcoming := lengthsComing_add (coming_field hdispatches hlen)
      have hstop : f.stop = size - (next.length + 1) := by
        cases hdispatches with
        | intro _ _ _ => rfl
      have hmoved := ParseState.bodyLengthStart_of_dispatchField hdispatch
      by_cases htag : f.tag = Field.bodyLength
      · rw [if_pos htag] at hcoming
        rw [ParseState.startBehind, if_pos htag, hstop] at hmoved
        refine .inr ⟨hcoming, hmoved.imp id fun hrepeats => ⟨?_, hrepeats.2⟩⟩
        obtain ⟨⟨g, hg, hrepeats⟩, -⟩ := hrepeats
        exact ⟨g, hg, f, htag, hrepeats⟩
      · rw [if_neg htag, Nat.zero_add] at hcoming
        rw [ParseState.startBehind, if_neg htag] at hmoved
        refine .inl ⟨hcoming, hmoved.elim id And.right, fun refs hknown => ?_⟩
        exact KnownIn.dispatchField (by decide) htag hdispatch hknown

/-- The start stays where it is when no body length is coming. -/
theorem start_of_reaches (hstrict : settings.relaxedParsing = false) {p p' : Bytes × ParseState}
    (h : Reaches (parseRound settings dict size) p p') (hnone : lengthsComing dict p = 0) :
    p'.2.bodyLengthStart = p.2.bodyLengthStart := by
  let P : Bytes × ParseState → Prop := fun q =>
    lengthsComing dict q = 0 ∧ q.2.bodyLengthStart = p.2.bodyLengthStart
  have hrun : P p' := by
    refine h.invariant ⟨hnone, rfl⟩ fun q q' hround hq => ?_
    obtain ⟨hcoming, hstart⟩ := hq
    rcases stays_or_moves hstrict (.inr hcoming) hround with hstays | hmoves
    · exact ⟨hstays.coming.symm.trans hcoming, hstays.start.trans hstart⟩
    · have hmore := hmoves.coming
      omega
  exact hrun.2

/-- The parse is behind its second field, when `rest` bytes were left and `n` body lengths were
still to come.  The start of the body is the end of that field, unless one of these came. -/
structure Measured (dict : Dictionary) (length : Bytes) (size rest n : Nat)
    (p : Bytes × ParseState) : Prop where
  short : p.1.length ≤ rest
  headed : Headed dict length p.2.build
  start : (p.2.bodyLengthStart = size - rest ∧
      KnownIn {⟨.header, []⟩} Field.bodyLength p.2.build ∧ lengthsComing dict p = n) ∨
    ((size : Int) - rest < p.2.bodyLengthStart ∧ p.2.bodyLengthStart ≤ size ∧ 0 < n)

/-- A body length that only the header knows starts no instance of a group. -/
theorem Headed.not_repeats {st : ParseState} {length : Bytes} {f : WireField} {g : ParserGroupInfo}
    (hheaded : Headed dict length st.build)
    (hknown : KnownIn {⟨.header, []⟩} Field.bodyLength st.build) (hg : g ∈ st.stack)
    (htag : f.tag = Field.bodyLength) : ¬ParseState.Repeats st f g := by
  intro hrepeats
  obtain ⟨hgroup, hseen⟩ := hrepeats
  by_cases hheader : g.group = ⟨.header, []⟩
  · rw [hheaded.header g hg hheader] at hgroup
    exact absurd hgroup (Int.lt_irrefl 0)
  · have hrange : 0 ≤ f.tag ∧ f.tag < 1024 := by
      rw [htag]
      decide
    rw [← htag] at hknown
    exact hknown.not_seen hrange hheader hseen

/-- A round behind the second field. -/
theorem Measured.next (hdict : dict.FilesBodyLength) (hstrict : settings.relaxedParsing = false)
    (hsize : size < 2147483648) {length : Bytes} {rest n : Nat} (hrest : rest ≤ size)
    {p p' : Bytes × ParseState} (h : parseRound settings dict size p = .ok (.inl p'))
    (hp : Measured dict length size rest n p) : Measured dict length size rest n p' := by
  have hless := parseRound_length h
  have hshort := hp.short
  have hnoted : i32 (size - (p'.1.length + 1) : Nat) + 1 = (size : Int) - p'.1.length := by
    rw [i32_of_range (by omega) (by omega)]
    omega
  refine ⟨by omega, ?_, ?_⟩
  · exact invariant_parseRound (fun b e b' hperforms hedits hb => hperforms.headed hdict hedits hb)
      h hp.headed
  · rcases stays_or_moves hstrict (.inl hdict.bodyLengthType) h with hstays | hmoves
    · rw [hstays.start, ← hstays.coming]
      exact hp.start.imp (fun hstart => ⟨hstart.1, hstays.known _ hstart.2.1, hstart.2.2⟩) id
    · have hcoming := hmoves.coming
      refine .inr ?_
      rcases hp.start with ⟨-, hknown, hn⟩ | ⟨hbehind, hle, hn⟩
      · rcases hmoves.start with hmoved | ⟨⟨g, hg, f, htag, hrepeats⟩, -⟩
        · rw [hmoved, hnoted]
          exact ⟨by omega, by omega, by omega⟩
        · exact absurd hrepeats (hp.headed.not_repeats hknown hg htag)
      · rcases hmoves.start with hmoved | ⟨-, hmoved⟩
        · rw [hmoved, hnoted]
          exact ⟨by omega, by omega, hn⟩
        · rw [hmoved]
          exact ⟨hbehind, hle, hn⟩

theorem Measured.of_reaches (hdict : dict.FilesBodyLength)
    (hstrict : settings.relaxedParsing = false) (hsize : size < 2147483648) {length : Bytes}
    {rest n : Nat} (hrest : rest ≤ size)
    {p p' : Bytes × ParseState} (h : Reaches (parseRound settings dict size) p p')
    (hp : Measured dict length size rest n p) : Measured dict length size rest n p' :=
  h.invariant hp fun _ _ hround hp => hp.next hdict hstrict hsize hrest hround

/-! ## The first two fields -/

theorem GroupSpec.empty_of_hasField {spec : GroupSpec} {tag : Int} (h : spec.hasField tag = true) :
    spec.empty = false := by
  rw [empty]
  cases hfields : spec.fields with
  | nil =>
      rw [hasField, hfields] at h
      cases h
  | cons _ _ => rfl

namespace ParseState

variable {f : WireField} {st st' : ParseState}

theorem closeTo_of_le {keep : Nat} (h : st.stack.length ≤ keep) :
    st.closeTo settings keep = st := by
  rw [closeTo, Nat.sub_eq_zero_of_le h]
  rfl

theorem build_addField (st : ParseState) (g : ParserGroupInfo) (f : WireField) :
    (st.addField dict g f).build = { st.build with
      msg := st.msg.modify (fun m => (m.setFieldViewOrDetectDup f.tag f.val).2) g.group } :=
  build_noteBodyLength _ f

/-- A section that is open alone takes the fields that it has. -/
theorem addField_of_dispatchField (hstrict : settings.relaxedParsing = false) {g : ParserGroupInfo}
    {spec : GroupSpec} (hstack : st.stack = [g]) (hspec : g.spec = some spec)
    (hfield : spec.hasField f.tag = true) (hgroup : ¬0 < g.groupTag)
    (h : dispatchField settings dict f st = .ok st') :
    st' = st.addField dict g f ∧
      ((st.get g.group).setFieldViewOrDetectDup f.tag f.val).1 = false := by
  rcases tries_or_passed h with
    ⟨g', below, before, r, idx, -, hsplit, htry, hidx, hclose⟩ | ⟨hrefused, -⟩
  · rw [hstack] at hsplit
    cases before with
    | cons _ _ =>
        have hlength := congrArg List.length hsplit
        simp at hlength
    | nil =>
        cases hsplit
        have hoffer := (yields_trySetField st g 0 none f).of_ok htry
        have hframe := hoffer.frame.1
        cases hoffer with
        | refused _ _ => cases hidx
        | opened hspec' hfield' _ _ _ =>
            rw [hspec] at hspec'
            cases hspec'
            rw [hfield] at hfield'
            cases hfield'
        | next _ _ htag _ _ => exact absurd htag hgroup
        | added _ _ hnew =>
            refine ⟨?_, hnew⟩
            cases hidx
            have hst' := (yields_overwriteStack _ _).of_ok hclose
            have hsame : (st.addField dict g f).stack = [g] := hframe.trans hstack
            rw [hst', List.append_nil, List.nil_append, ← hsame]
            exact closeTo_of_le (by rw [hsame]; exact Nat.le_refl 1)
  · rcases hrefused with ⟨top, spec', htop, hspec', hempty⟩ | hdispatch
    · rw [hstack] at htop
      cases htop
      rw [hspec] at hspec'
      cases hspec'
      rw [GroupSpec.empty_of_hasField hfield] at hempty
      cases hempty
    · cases (yields_dispatchStack f st.stack [] st).of_ok hdispatch with
      | refused hall =>
          rcases hall g (by rw [hstack]; exact List.mem_singleton_self g) with
            hrelaxed | ⟨spec', hspec', hnot, -⟩
          · rw [hstrict] at hrelaxed
            cases hrelaxed
          · rw [hspec] at hspec'
            cases hspec'
            rw [hfield] at hnot
            cases hnot

end ParseState

/-- A round whose text starts with a field that holds no separators. -/
theorem filed_of_front (hstrict : settings.relaxedParsing = false) {tagText val next : Bytes}
    {st : ParseState} {p' : Bytes × ParseState} (htag : tagAssignmentChar ∉ tagText)
    (hval : internalSohChar ∉ val)
    (hdata : st.dataLength = none ∨ dict.getFieldType (fastParseTag tagText) ≠ .data)
    (h : parseRound settings dict size
      (tagText ++ tagAssignmentChar :: (val ++ internalSohChar :: next), st) = .ok (.inl p')) :
    ∃ st', p' = (next, st') ∧
      Dispatches settings dict size
        (tagText ++ tagAssignmentChar :: (val ++ internalSohChar :: next)) st next
        ⟨fastParseTag tagText, val, size - (next.length + 1)⟩ ∧
      ParseState.dispatchField settings dict ⟨fastParseTag tagText, val, size - (next.length + 1)⟩
        (st.started (fastParseTag tagText)) = .ok st' := by
  obtain ⟨next', st'⟩ := p'
  have hsplit := splitByte_append htag (val ++ internalSohChar :: next)
  cases parseRound_next h with
  | skipped hrelaxed _ _ =>
      rw [hstrict] at hrelaxed
      cases hrelaxed
  | @data tagText' rest len top htag' hlen htype _ _ =>
      have heq := htag'.split
      rw [hsplit] at heq
      cases heq
      rcases hdata with hnone | hne
      · rw [hnone] at hlen
        cases hlen
      · exact absurd htype hne
  | filed hdispatches hdispatch =>
      have hfield := hdispatches
      cases hdispatches with
      | intro htag' _ hval' =>
          have heq := htag'.split
          rw [hsplit] at heq
          cases heq
          rw [splitByte_append hval next] at hval'
          cases hval'
          exact ⟨st', rfl, hfield, hdispatch⟩

/-- What stands in front of the part that the body length counts. -/
def opening (beginString length : Bytes) : Bytes :=
  ascii "8=" ++ beginString ++ internalSohChar :: (ascii "9=" ++ length ++ [internalSohChar])

/-- The values of the first two fields end where they should.  None of the two is read as data, and
they are not so long that an offset is cut off. -/
structure Opens (dict : Dictionary) (v length : Bytes) : Prop where
  beginString : internalSohChar ∉ v
  bodyLength : internalSohChar ∉ length
  notData : ParseState.announced dict ⟨Field.beginString, v, 0⟩ = none ∨
    dict.getFieldType Field.bodyLength ≠ .data
  short : (opening v length).length < 2147483648

theorem opening_append (v length rest : Bytes) : opening v length ++ rest =
    ascii "8" ++ tagAssignmentChar :: (v ++ internalSohChar ::
      (ascii "9" ++ tagAssignmentChar :: (length ++ internalSohChar :: rest))) := by
  have h₁ : ascii "8=" = ascii "8" ++ [tagAssignmentChar] := by decide
  have h₂ : ascii "9=" = ascii "9" ++ [tagAssignmentChar] := by decide
  rw [opening, h₁, h₂]
  simp only [List.append_assoc, List.cons_append, List.nil_append]

/-- The message behind the first two fields. -/
def openedMessage (v length : Bytes) : Message :=
  { Message.new with
    header := ((FieldMap.new.setFieldViewOrDetectDup Field.beginString v).2.setFieldViewOrDetectDup
      Field.bodyLength length).2 }

theorem headed_opened (dict : Dictionary) (v length : Bytes) :
    Headed dict length ⟨.header, [headerInfo dict], openedMessage v length⟩ :=
  ⟨fun _ hg _ => List.mem_singleton.mp hg, fun hstate => absurd rfl hstate, rfl⟩

theorem groupTag_of_mem_headerInfo {dict : Dictionary} {g : ParserGroupInfo}
    (hg : g ∈ [headerInfo dict]) : g.groupTag ≠ Field.bodyLength := by
  rw [List.mem_singleton.mp hg]
  show (0 : Int) ≠ Field.bodyLength
  decide

theorem knownIn_init (dict : Dictionary) :
    KnownIn ∅ Field.bodyLength (ParseState.init dict).build := by
  refine ⟨fun ref _ => ?_, fun _ => groupTag_of_mem_headerInfo⟩
  show ¬(Message.new.node ref).Knows _
  rw [Message.node_new]
  exact FieldMap.not_knows_new _

theorem knownIn_opened (dict : Dictionary) (v length : Bytes) :
    KnownIn {⟨.header, []⟩} Field.bodyLength
      ⟨.header, [headerInfo dict], openedMessage v length⟩ := by
  refine ⟨fun ref href => ?_, fun _ => groupTag_of_mem_headerInfo⟩
  have hopened : (openedMessage v length).node ref = Message.new.node ref :=
    Message.node_modify_ne (f := fun m => ((m.setFieldViewOrDetectDup Field.beginString
      v).2.setFieldViewOrDetectDup Field.bodyLength length).2)
      (FieldMap.keepsInstances_of_groups fun m => by
        rw [FieldMap.groups_setFieldViewOrDetectDup, FieldMap.groups_setFieldViewOrDetectDup])
      href Message.new
  rw [hopened, Message.node_new]
  exact FieldMap.not_knows_new _

/-- The state behind the first two fields of a text. -/
structure Front (dict : Dictionary) (v length text rest : Bytes) (st : ParseState) : Prop where
  start : st.bodyLengthStart = text.length - rest.length
  coming : coming dict (text, .init dict) =
    {(Field.beginString, v)} + ({(Field.bodyLength, length)} + coming dict (rest, st))
  filed : dict.FilesBodyLength →
    st.build = ⟨.header, [headerInfo dict], openedMessage v length⟩

theorem Front.count {v length text rest : Bytes} {st : ParseState}
    (h : Front dict v length text rest st) :
    ((dict.fieldsOf text).map Prod.fst).count Field.bodyLength =
      lengthsComing dict (rest, st) + 1 := by
  have hfirst : Field.beginString ≠ Field.bodyLength := by decide
  rw [← lengthsComing_init, lengthsComing, h.coming, Multiset.countP_add, Multiset.countP_add,
    ← Multiset.cons_zero, ← Multiset.cons_zero, Multiset.countP_cons, Multiset.countP_cons,
    Multiset.countP_zero, if_neg hfirst, if_pos rfl, Nat.zero_add, Nat.add_comm]
  rfl

theorem Front.mem_fieldsOf {v length text rest : Bytes} {st : ParseState}
    (h : Front dict v length text rest st) : (Field.bodyLength, length) ∈ dict.fieldsOf text := by
  have hmem : (Field.bodyLength, length) ∈ OpenFix.coming dict (text, .init dict) := by
    rw [h.coming]
    exact Multiset.mem_add.mpr (.inr (Multiset.mem_add.mpr (.inl (Multiset.mem_singleton_self _))))
  exact hmem

/-- A parse that goes through a text that starts with the first two fields comes behind them. -/
theorem exists_front (hstrict : settings.relaxedParsing = false) {v length text rest : Bytes}
    (hopens : Opens dict v length) (htext : text = opening v length ++ rest)
    {last : Bytes × ParseState}
    (hlast : Reaches (parseRound settings dict text.length) (text, .init dict) last)
    (hnil : last.1 = []) :
    ∃ st, Reaches (parseRound settings dict text.length) (text, .init dict) (rest, st) ∧
      Reaches (parseRound settings dict text.length) (rest, st) last ∧
      Front dict v length text rest st := by
  have htag₁ : fastParseTag (ascii "8") = Field.beginString := by decide
  have htag₂ : fastParseTag (ascii "9") = Field.bodyLength := by decide
  obtain ⟨size, hN⟩ : ∃ size, size = text.length := ⟨_, rfl⟩
  have hsplit := htext.trans (opening_append v length rest)
  have hsize : size = (opening v length).length + rest.length := by
    rw [hN, htext, List.length_append]
  have hpos : 0 < (opening v length).length := Nat.zero_lt_succ _
  have hshort := hopens.short
  rw [← hN] at hlast ⊢
  -- The first round files the first field.
  obtain ⟨p₁, hround₁, hlast₁⟩ := hlast.cases_head.resolve_left fun heq => by
    rw [heq, hsplit] at hnil
    exact List.append_ne_nil_of_right_ne_nil _ (List.cons_ne_nil _ _) hnil
  have hfront₁ := hround₁
  rw [hsplit] at hfront₁
  obtain ⟨st₁, rfl, hdispatches₁, hdispatch₁⟩ :=
    filed_of_front hstrict (by decide) hopens.beginString (.inl rfl) hfront₁
  rw [htag₁] at hdispatches₁ hdispatch₁
  have hlen₁ := (ParseState.dataLength_of_dispatchField hdispatch₁).trans Option.or_none
  have hcoming₁ := coming_field hdispatches₁ hlen₁
  rw [← hsplit] at hcoming₁
  have hknown₁ : KnownIn ∅ Field.bodyLength st₁.build :=
    KnownIn.dispatchField (by decide)
      (show Field.beginString ≠ Field.bodyLength by decide) hdispatch₁ (knownIn_init dict)
  -- The second round files the body length behind it.
  obtain ⟨p₂, hround₂, hlast₂⟩ := hlast₁.cases_head.resolve_left fun heq => by
    rw [heq] at hnil
    exact List.append_ne_nil_of_right_ne_nil _ (List.cons_ne_nil _ _) hnil
  obtain ⟨st₂, rfl, hdispatches₂, hdispatch₂⟩ :=
    filed_of_front hstrict (by decide) hopens.bodyLength (htag₂ ▸ hopens.notData.imp hlen₁.trans id)
      hround₂
  rw [htag₂] at hdispatches₂ hdispatch₂
  have hlen₂ := (ParseState.dataLength_of_dispatchField hdispatch₂).trans Option.or_none
  have hcoming₂ := coming_field hdispatches₂ hlen₂
  refine ⟨st₂, .tail (.tail .refl hround₁) hround₂, hlast₂, ?_, ?_, fun hdict => ?_⟩
  · have hmoved := (ParseState.bodyLengthStart_of_dispatchField hdispatch₂).resolve_right
      fun hrepeats => by
        obtain ⟨⟨g, -, -, hseen⟩, -⟩ := hrepeats
        have hrange : 0 ≤ Field.bodyLength ∧ Field.bodyLength < 1024 := by decide
        exact KnownIn.not_seen hknown₁ hrange (Set.notMem_empty _) hseen
    rw [hmoved, ParseState.startBehind, if_pos rfl]
    dsimp only
    rw [i32_of_range (by omega) (by omega), ← hN]
    omega
  · rw [hcoming₁, hcoming₂]
  · have hst₁ := (ParseState.addField_of_dispatchField hstrict (g := headerInfo dict) rfl rfl
      hdict.beginString (Int.lt_irrefl 0) hdispatch₁).1
    have hbuild₁ : st₁.build = ⟨.header, [headerInfo dict], { Message.new with
        header := (FieldMap.new.setFieldViewOrDetectDup Field.beginString v).2 }⟩ := by
      rw [hst₁, ParseState.build_addField]
      rfl
    have hstack₂ : (st₁.started Field.bodyLength).stack = [headerInfo dict] :=
      congrArg Build.entries hbuild₁
    have hst₂ := (ParseState.addField_of_dispatchField hstrict hstack₂ rfl hdict.bodyLength
      (Int.lt_irrefl 0) hdispatch₂).1
    have hstarted : (st₁.started Field.bodyLength).build = _ := hbuild₁
    rw [hst₂, ParseState.build_addField, hstarted]
    show (⟨_, _, (st₁.msg.modify _ _)⟩ : Build) = _
    rw [show st₁.msg = _ from congrArg Build.msg hbuild₁]
    rfl

theorem Front.measured {v length text rest : Bytes} {st : ParseState}
    (h : Front dict v length text rest st) (hdict : dict.FilesBodyLength) :
    Measured dict length text.length rest.length (lengthsComing dict (rest, st)) (rest, st) := by
  refine ⟨Nat.le_refl _, ?_, .inl ⟨h.start, ?_, rfl⟩⟩
  · rw [h.filed hdict]
    exact headed_opened dict v length
  · rw [h.filed hdict]
    exact knownIn_opened dict v length

end

end OpenFix
