import OpenFix.Edits
import OpenFix.Errors

/-!
# Tags that are not repeated

A field map of a message should have each tag once.  A plain field is checked against a
bit set of the tags below 1024, and then appended without another look at the map.  Only
the plain fields set a bit: a data field, a field that no specification knows and the count
of a group are assigned to the map.  So a plain field that comes behind one of these is
appended, and its tag is in the map twice.  The other way round the value is overwritten.

The duplicate goes away when the map is sorted, and a duplicate of the checksum goes away
with the checksum.
-/

namespace OpenFix

open Loop

/-- How often the map has the tag. -/
def Node.copies (n : Node) (tag : Int) : Nat := (AssocList.keys n.fields).count tag

/-- The map has the tag more than once. -/
def Message.Doubled (msg : Message) (ref : GroupRef) (tag : Int) : Prop :=
  1 < (msg.node ref).copies tag

/-- The map has the tag, and its bit set does not say so. -/
def FieldMap.Unmarked (m : FieldMap) (tag : Int) : Prop :=
  m.has tag = true ∧ 0 ≤ tag ∧ tag < 1024 ∧ tag ∉ m.seen

/-! ## One map -/

namespace FieldMap

theorem copies_new (tag : Int) : new.node.copies tag = 0 := rfl

theorem has_iff_copies {m : FieldMap} {tag : Int} : m.has tag = true ↔ 0 < m.node.copies tag := by
  rw [has, AssocList.find?_isSome_iff, Node.copies, List.count_pos_iff]
  rfl

/-- A tag that is not marked is not known as a duplicate. -/
theorem unmarked_iff {m : FieldMap} {tag : Int} (value : Bytes) :
    m.Unmarked tag ↔ m.has tag = true ∧ (m.setFieldViewOrDetectDup tag value).1 = false := by
  rw [Unmarked, setFieldViewOrDetectDup]
  refine and_congr_right fun hhas => ?_
  rw [has] at hhas
  by_cases hrange : 0 ≤ tag ∧ tag < 1024
  · rw [if_pos hrange]
    by_cases hseen : tag ∈ m.seen
    · simp [hseen]
    · simp [hseen, hrange]
  · rw [if_neg hrange, if_pos hhas]
    constructor
    · intro h
      exact absurd ⟨h.1, h.2.1⟩ hrange
    · intro h
      cases h

theorem copies_append {m : FieldMap} {tag : Int} {value : Bytes}
    (h : (m.setFieldViewOrDetectDup tag value).1 = false) (tag' : Int) :
    (m.setFieldViewOrDetectDup tag value).2.node.copies tag' =
      m.node.copies tag' + if tag' = tag then 1 else 0 := by
  show (AssocList.keys (m.setFieldViewOrDetectDup tag value).2.fields).count tag' = _
  rw [(fields_append h).1, AssocList.keys, List.map_append, List.count_append]
  congr 1
  rw [List.map_singleton, List.count_singleton]
  by_cases htag : tag' = tag
  · subst htag
    simp
  · simp [htag, Ne.symm htag]

/-- The parser adds a tag once at a time. -/
theorem copies_detectDup (m : FieldMap) (tag : Int) (value : Bytes) (tag' : Int) :
    m.node.copies tag' ≤ (m.setFieldViewOrDetectDup tag value).2.node.copies tag' ∧
      (m.setFieldViewOrDetectDup tag value).2.node.copies tag' ≤ m.node.copies tag' + 1 := by
  cases hdup : (m.setFieldViewOrDetectDup tag value).1 with
  | true =>
      rw [eq_of_dup hdup]
      exact ⟨Nat.le_refl _, Nat.le_succ _⟩
  | false =>
      rw [copies_append hdup]
      split
      · exact ⟨Nat.le_succ _, Nat.le_refl _⟩
      · exact ⟨Nat.le_refl _, Nat.le_succ _⟩

theorem copies_setFieldView (m : FieldMap) (tag : Int) (value : Bytes) (tag' : Int) :
    m.node.copies tag' ≤ (m.setFieldView tag value false).node.copies tag' ∧
      (m.setFieldView tag value false).node.copies tag' ≤ max (m.node.copies tag') 1 := by
  rw [fields_setFieldView]
  exact ⟨AssocList.count_keys_le_set tag _ m.fields tag',
    AssocList.count_keys_set_le tag _ m.fields tag'⟩

/-- A map that is sorted has no tag twice. -/
theorem copies_finishMap_le_one {settings : SessionSettings} {spec : Option GroupSpec}
    (h : (settings.parsingReorderTags && spec.any GroupSpec.ordered) = true) (m : FieldMap)
    (tag : Int) : (ParseState.finishMap settings spec m).node.copies tag ≤ 1 := by
  rw [ParseState.finishMap, if_pos h]
  show (AssocList.keys (m.setSpec spec).sortFields.fields).count tag ≤ 1
  have hperm := (fields_sortFields_perm (m.setSpec spec)).map Prod.fst
  rw [AssocList.keys, hperm.count_eq]
  exact List.nodup_iff_count_le_one.mp (AssocList.nodup_keys_firsts _) tag

theorem copies_finishMap {settings : SessionSettings} {spec : Option GroupSpec}
    (h : ¬(settings.parsingReorderTags && spec.any GroupSpec.ordered) = true) (m : FieldMap)
    (tag : Int) : (ParseState.finishMap settings spec m).node.copies tag = m.node.copies tag := by
  rw [ParseState.finishMap, if_neg h]
  rfl

end FieldMap

/-! ## All maps -/

namespace Message

variable {msg : Message} {ref ref' : GroupRef} {f : FieldMap → FieldMap} {tag : Int}

/-- What a change of a map does not double was doubled before. -/
theorem Doubled.of_modify (hf : FieldMap.KeepsInstances f)
    (hcopies : ref = ref' → 1 < (f (msg.get ref)).node.copies tag →
      1 < (msg.get ref).node.copies tag)
    (h : (msg.modify f ref').Doubled ref tag) : msg.Doubled ref tag := by
  rw [Doubled] at h ⊢
  rcases node_modify_cases hf msg ref ref' with ⟨href, -, hnode⟩ | hnode
  · rw [hnode] at h
    exact hcopies href h
  · rwa [hnode] at h

/-- What is doubled stays so, unless the change takes fields away. -/
theorem Doubled.modify (hf : FieldMap.KeepsInstances f)
    (hcopies : ref = ref' → (msg.get ref).node.copies tag ≤ (f (msg.get ref)).node.copies tag)
    (h : msg.Doubled ref tag) : (msg.modify f ref').Doubled ref tag := by
  rw [Doubled] at h ⊢
  rcases node_modify_cases hf msg ref ref' with ⟨href, -, hnode⟩ | hnode
  · rw [hnode]
    exact Nat.lt_of_lt_of_le h (hcopies href)
  · rwa [hnode]

/-- A field that is appended is the second one of its tag, if that is doubled by it. -/
theorem Doubled.of_append {tag' : Int} {value : Bytes}
    (hnew : ((msg.get ref').setFieldViewOrDetectDup tag value).1 = false)
    (h : (msg.modify (fun m => (m.setFieldViewOrDetectDup tag value).2) ref').Doubled ref tag') :
    msg.Doubled ref tag' ∨ ref = ref' ∧ tag' = tag ∧ (msg.get ref').Unmarked tag := by
  by_cases hold : msg.Doubled ref tag'
  · exact .inl hold
  · refine .inr ?_
    rw [Doubled] at h
    rcases node_modify_cases (FieldMap.keepsInstances_of_groups fun m =>
      m.groups_setFieldViewOrDetectDup tag value) msg ref ref' with ⟨href, -, hnode⟩ | hnode
    · subst href
      rw [hnode, FieldMap.copies_append hnew] at h
      split at h
      next htag =>
        subst htag
        have hhas : (msg.get ref).has tag' = true := FieldMap.has_iff_copies.mpr (by omega)
        exact ⟨rfl, rfl, (FieldMap.unmarked_iff value).mpr ⟨hhas, hnew⟩⟩
      next => exact absurd h hold
    · rw [hnode] at h
      exact absurd h hold

theorem doubled_append {value : Bytes} (hvalid : msg.Valid ref)
    (hunmarked : (msg.get ref).Unmarked tag) :
    (msg.modify (fun m => (m.setFieldViewOrDetectDup tag value).2) ref).Doubled ref tag := by
  obtain ⟨hhas, hnew⟩ := (FieldMap.unmarked_iff value).mp hunmarked
  have hcopies := FieldMap.copies_append hnew tag
  rw [if_pos rfl] at hcopies
  rw [Doubled, node_modify_self hvalid, hcopies]
  exact Nat.succ_lt_succ (FieldMap.has_iff_copies.mp hhas)

theorem not_doubled_of_new (h : msg.node ref = FieldMap.new.node) : ¬msg.Doubled ref tag := by
  rw [Doubled, h, FieldMap.copies_new]
  exact Nat.not_lt_zero 1

theorem doubled_addGroup (group : Int) :
    (msg.modify (fun m => m.addGroup group) ref').Doubled ref tag ↔ msg.Doubled ref tag := by
  have hf := FieldMap.keepsInstances_addGroup group
  exact ⟨.of_modify hf fun _ h => h, .modify hf fun _ => Nat.le_refl _⟩

theorem doubled_setFieldView (tag' : Int) (value : Bytes) :
    (msg.modify (fun m => m.setFieldView tag' value false) ref').Doubled ref tag ↔
      msg.Doubled ref tag := by
  have hf := FieldMap.keepsInstances_of_groups fun m => m.groups_setFieldView tag' value false
  have hcopies := (msg.get ref).copies_setFieldView tag' value tag
  constructor
  · refine Doubled.of_modify hf fun _ h => ?_
    have hmax := Nat.lt_of_lt_of_le h hcopies.2
    omega
  · exact .modify hf fun _ => hcopies.1

/-- A map that is finished keeps its duplicates, unless it is sorted. -/
theorem doubled_finishMap {settings : SessionSettings} {spec : Option GroupSpec} :
    (msg.modify (ParseState.finishMap settings spec) ref').Doubled ref tag ↔ msg.Doubled ref tag ∧
      (ref = ref' → ¬(settings.parsingReorderTags && spec.any GroupSpec.ordered) = true) := by
  have hf := FieldMap.keepsInstances_of_groups (FieldMap.groups_finishMap settings spec)
  by_cases hsorts : (settings.parsingReorderTags && spec.any GroupSpec.ordered) = true
  · have hone := FieldMap.copies_finishMap_le_one hsorts
    constructor
    · intro h
      have hold : msg.Doubled ref tag :=
        h.of_modify hf fun _ hlt => absurd hlt (Nat.not_lt.mpr (hone _ tag))
      refine ⟨hold, fun href => absurd h ?_⟩
      subst href
      rw [Doubled]
      rcases node_modify_cases hf msg ref ref with ⟨-, -, hnode⟩ | hnode
      · rw [hnode]
        exact Nat.not_lt.mpr (hone _ tag)
      · intro hlt
        have hvalid : msg.Valid ref := by
          by_contra hnot
          exact not_doubled_of_new (node_of_not_valid hnot) hold
        rw [node_modify_self hvalid] at hlt
        exact absurd hlt (Nat.not_lt.mpr (hone _ tag))
    · rintro ⟨h, hne⟩
      exact h.modify hf fun href => absurd hsorts (hne href)
  · have hsame := FieldMap.copies_finishMap hsorts (msg.get ref) tag
    constructor
    · intro h
      refine ⟨h.of_modify hf fun _ hlt => ?_, fun _ => hsorts⟩
      rwa [hsame] at hlt
    · rintro ⟨h, -⟩
      exact h.modify hf fun _ => Nat.le_of_eq hsame.symm

end Message

section

variable {settings : SessionSettings} {dict : Dictionary} {b b' : Build} {e : Edit}

/-! ## Duplicates that go away -/

/-- The map of the entry is sorted when it is finished. -/
def Sorts (settings : SessionSettings) (g : ParserGroupInfo) : Prop :=
  (settings.parsingReorderTags && g.spec.any GroupSpec.ordered) = true

/-- A duplicate of the tag goes away. -/
def Excused (settings : SessionSettings) (g : ParserGroupInfo) (tag : Int) : Prop :=
  Sorts settings g ∨ (g.group = ⟨.trailer, []⟩ ∧ tag = Field.checkSum)

/-- All duplicates are in maps that will be sorted, but for the checksum. -/
def Settled (settings : SessionSettings) (b : Build) : Prop :=
  ∀ ref tag, b.msg.Doubled ref tag →
    (∃ g ∈ b.entries, g.group = ref ∧ Sorts settings g) ∨
      (ref = ⟨.trailer, []⟩ ∧ tag = Field.checkSum)

theorem Settled.of_subset (h : Settled settings b) {state : MessageState}
    {entries : List ParserGroupInfo} (hsub : b.entries ⊆ entries) :
    Settled settings ⟨state, entries, b.msg⟩ := by
  intro ref tag hdoubled
  rcases h ref tag hdoubled with ⟨g, hg, hsorts⟩ | hsum
  · exact .inl ⟨g, hsub hg, hsorts⟩
  · exact .inr hsum

/-- An instance that is started has no tag twice. -/
theorem doubled_nextRef {g p : ParserGroupInfo} {f : WireField} {msg : Message} {ref : GroupRef}
    {tag : Int} (h : (((msg.modify (ParseState.finishMap settings g.spec) g.group).modify
      (fun m => m.addGroup g.groupTag) p.group).modify
        (fun m => (m.setFieldViewOrDetectDup f.tag f.val).2)
          (nextRef settings msg g p)).Doubled ref tag) :
    (msg.modify (ParseState.finishMap settings g.spec) g.group).Doubled ref tag := by
  have hnew := @Message.node_child_of_le (msg.modify (ParseState.finishMap settings g.spec) g.group)
    p.group g.groupTag _ (Nat.le_refl _)
  have hadded : ((msg.modify (ParseState.finishMap settings g.spec) g.group).modify
      (fun m => m.addGroup g.groupTag) p.group).node (nextRef settings msg g p) =
        FieldMap.new.node :=
    (Message.node_modify_ne (FieldMap.keepsInstances_addGroup g.groupTag)
      (Message.child_ne p.group _ _) _).trans hnew
  refine (Message.doubled_addGroup g.groupTag).mp (h.of_modify (FieldMap.keepsInstances_of_groups
    fun m => m.groups_setFieldViewOrDetectDup f.tag f.val) fun href hlt => ?_)
  subst href
  have hle := (FieldMap.copies_detectDup (((msg.modify (ParseState.finishMap settings g.spec)
    g.group).modify (fun m => m.addGroup g.groupTag) p.group).get
      (nextRef settings msg g p)) f.tag f.val tag).2
  have hzero := congrArg (fun n => Node.copies n tag) hadded
  have hcopies : (((msg.modify (ParseState.finishMap settings g.spec) g.group).modify
    (fun m => m.addGroup g.groupTag) p.group).get (nextRef settings msg g p)).node.copies tag = 0 :=
      hzero
  rw [hcopies] at hle
  exact absurd hlt (Nat.not_lt.mpr hle)

/-- An entry that is finished is not needed for a duplicate that is left. -/
theorem Settled.finish (h : Settled settings b) {before after : List ParserGroupInfo}
    {g : ParserGroupInfo} (hentries : b.entries = before ++ g :: after) {ref : GroupRef} {tag : Int}
    (hdoubled : (b.msg.modify (ParseState.finishMap settings g.spec) g.group).Doubled ref tag) :
    (∃ g' ∈ before ++ after, g'.group = ref ∧ Sorts settings g') ∨
      (ref = ⟨.trailer, []⟩ ∧ tag = Field.checkSum) := by
  obtain ⟨hold, hne⟩ := Message.doubled_finishMap.mp hdoubled
  rcases h ref tag hold with ⟨g', hg', href, hsorts⟩ | hsum
  · rw [hentries] at hg'
    rcases List.mem_append.mp hg' with hg' | hg'
    · exact .inl ⟨g', List.mem_append_left _ hg', href, hsorts⟩
    · rcases List.mem_cons.mp hg' with rfl | hg'
      · exact absurd hsorts (hne href.symm)
      · exact .inl ⟨g', List.mem_append_right _ hg', href, hsorts⟩
  · exact .inr hsum

/-- An edit settles its duplicates if a field is only appended twice where it is excused. -/
theorem Edits.settled (h : Edits settings dict b e b') (hb : Settled settings b)
    (hallow : ∀ g tag value, e = .append g tag value → (b.msg.get g.group).Unmarked tag →
      Excused settings g tag) : Settled settings b' := by
  cases h with
  | @append g tag value hg hnew =>
      intro ref tag' hdoubled
      rcases hdoubled.of_append hnew with hold | ⟨rfl, rfl, hunmarked⟩
      · exact hb ref tag' hold
      · rcases hallow g tag' value rfl hunmarked with hsorts | hsum
        · exact .inl ⟨g, hg, rfl, hsorts⟩
        · exact .inr hsum
  | assign _ =>
      intro ref tag' hdoubled
      exact hb ref tag' ((Message.doubled_setFieldView _ _).mp hdoubled)
  | openGroup _ _ =>
      intro ref tag' hdoubled
      have hold := (Message.doubled_addGroup _).mp ((Message.doubled_setFieldView _ _).mp hdoubled)
      rcases hb ref tag' hold with ⟨g', hg', hsorts⟩ | hsum
      · exact .inl ⟨g', List.mem_cons_of_mem _ hg', hsorts⟩
      · exact .inr hsum
  | next hentries _ =>
      intro ref tag' hdoubled
      rcases hb.finish hentries (doubled_nextRef hdoubled) with ⟨g', hg', hsorts⟩ | hsum
      · refine .inl ⟨g', ?_, hsorts⟩
        rcases List.mem_append.mp hg' with hg' | hg'
        · exact List.mem_append_left _ hg'
        · exact List.mem_append_right _ (List.mem_cons_of_mem _ hg')
      · exact .inr hsum
  | finish hentries => exact fun ref tag' => hb.finish hentries
  | body _ hentries => exact hb.of_subset (by rw [hentries]; exact List.nil_subset _)
  | trailer _ => exact hb.of_subset (List.subset_append_left _ _)

/-! ## Duplicates that stay -/

/-- The map has the tag twice, and it will not be sorted. -/
structure Stuck (settings : SessionSettings) (ref : GroupRef) (tag : Int) (b : Build) : Prop where
  doubled : b.msg.Doubled ref tag
  unsorted : ∀ g ∈ b.entries, g.group = ref → ¬Sorts settings g

theorem Edits.stuck (h : Edits settings dict b e b') (hstaged : Staged b) {ref : GroupRef}
    {tag : Int} (hb : Stuck settings ref tag b) : Stuck settings ref tag b' := by
  have hne : ∀ {msg : Message} {new : GroupRef}, msg.Doubled ref tag →
      msg.node new = FieldMap.new.node → new ≠ ref := by
    intro msg new hdoubled hnew heq
    rw [heq] at hnew
    exact Message.not_doubled_of_new hnew hdoubled
  cases h with
  | @append g tag' value _ _ =>
      refine ⟨hb.doubled.modify (FieldMap.keepsInstances_of_groups fun m =>
        m.groups_setFieldViewOrDetectDup tag' value) fun _ => ?_, hb.unsorted⟩
      exact (FieldMap.copies_detectDup _ tag' value tag).1
  | assign _ => exact ⟨(Message.doubled_setFieldView _ _).mpr hb.doubled, hb.unsorted⟩
  | @openGroup g spec f _ hnew =>
      refine ⟨(Message.doubled_setFieldView _ _).mpr ((Message.doubled_addGroup _).mpr hb.doubled),
        fun g' hg' href => ?_⟩
      rcases List.mem_cons.mp hg' with rfl | hg'
      · exact absurd href (hne hb.doubled (Message.node_child_of_le (Nat.le_of_eq hnew)))
      · exact hb.unsorted g' hg' href
  | @next before after g p f hentries _ =>
      have hunsorted : ∀ g' ∈ before ++ g :: after, g'.group = ref → ¬Sorts settings g' :=
        hentries ▸ hb.unsorted
      have hfinished : (b.msg.modify (ParseState.finishMap settings g.spec) g.group).Doubled
          ref tag := Message.doubled_finishMap.mpr ⟨hb.doubled, fun href =>
            hunsorted g (List.mem_append_right _ List.mem_cons_self) href.symm⟩
      refine ⟨((Message.doubled_addGroup g.groupTag).mpr hfinished).modify
        (FieldMap.keepsInstances_of_groups fun m => m.groups_setFieldViewOrDetectDup f.tag f.val)
        fun _ => (FieldMap.copies_detectDup _ f.tag f.val tag).1, fun g' hg' href => ?_⟩
      rcases List.mem_append.mp hg' with hg' | hg'
      · exact hunsorted g' (List.mem_append_left _ hg') href
      · rcases List.mem_cons.mp hg' with rfl | hg'
        · exact absurd href (hne hfinished (Message.node_child_of_le (Nat.le_refl _)))
        · exact hunsorted g' (List.mem_append_right _ (List.mem_cons_of_mem _ hg')) href
  | @finish before after g hentries =>
      have hunsorted : ∀ g' ∈ before ++ g :: after, g'.group = ref → ¬Sorts settings g' :=
        hentries ▸ hb.unsorted
      refine ⟨Message.doubled_finishMap.mpr ⟨hb.doubled, fun href =>
        hunsorted g (List.mem_append_right _ List.mem_cons_self) href.symm⟩, fun g' hg' => ?_⟩
      refine hunsorted g' ?_
      rcases List.mem_append.mp hg' with hg' | hg'
      · exact List.mem_append_left _ hg'
      · exact List.mem_append_right _ (List.mem_cons_of_mem _ hg')
  | @body bodySpec hstate _ =>
      refine ⟨hb.doubled, fun g hg href => absurd hb.doubled ?_⟩
      rw [List.mem_singleton.mp hg] at href
      refine Message.not_doubled_of_new (hstaged.empty ref ?_)
      rw [hstate, ← href]
      exact True.intro
  | trailer hstate =>
      refine ⟨hb.doubled, fun g hg href => ?_⟩
      rcases List.mem_append.mp hg with hg | hg
      · exact hb.unsorted g hg href
      · rw [List.mem_singleton.mp hg] at href
        refine absurd hb.doubled (Message.not_doubled_of_new (hstaged.empty ref ?_))
        rw [hstate, ← href]
        exact True.intro

/-! ## The checksum -/

/-- What the changes of a map keep, the edits of a message keep. -/
theorem Edits.forall_node {P : Node → Prop} (h : Edits settings dict b e b')
    (hadd : ∀ m tag, P (FieldMap.node m) → P (m.addGroup tag).node)
    (hassign : ∀ m tag value, P (FieldMap.node m) → P (m.setFieldView tag value false).node)
    (happend : ∀ m tag value, P (FieldMap.node m) →
      P (m.setFieldViewOrDetectDup tag value).2.node)
    (hfinish : ∀ m spec, P (FieldMap.node m) → P (ParseState.finishMap settings spec m).node)
    (hb : ∀ ref, P (b.msg.node ref)) : ∀ ref, P (b'.msg.node ref) := by
  have hadded : ∀ (msg : Message) tag ref', (∀ ref, P (msg.node ref)) →
      ∀ ref, P ((msg.modify (fun m => m.addGroup tag) ref').node ref) :=
    fun msg tag ref' hmsg => Message.forall_node_modify hmsg
      (FieldMap.keepsInstances_addGroup tag) (fun m => hadd m tag) ref'
  have hassigned : ∀ (msg : Message) tag value ref', (∀ ref, P (msg.node ref)) →
      ∀ ref, P ((msg.modify (fun m => m.setFieldView tag value false) ref').node ref) :=
    fun msg tag value ref' hmsg => Message.forall_node_modify hmsg
      (FieldMap.keepsInstances_of_groups fun m => m.groups_setFieldView tag value false)
      (fun m => hassign m tag value) ref'
  have happended : ∀ (msg : Message) tag value ref', (∀ ref, P (msg.node ref)) →
      ∀ ref, P ((msg.modify (fun m => (m.setFieldViewOrDetectDup tag value).2) ref').node ref) :=
    fun msg tag value ref' hmsg => Message.forall_node_modify hmsg
      (FieldMap.keepsInstances_of_groups fun m => m.groups_setFieldViewOrDetectDup tag value)
      (fun m => happend m tag value) ref'
  have hfinished : ∀ (msg : Message) spec ref', (∀ ref, P (msg.node ref)) →
      ∀ ref, P ((msg.modify (ParseState.finishMap settings spec) ref').node ref) :=
    fun msg spec ref' hmsg => Message.forall_node_modify hmsg
      (FieldMap.keepsInstances_of_groups (FieldMap.groups_finishMap settings spec))
      (fun m => hfinish m spec) ref'
  cases h with
  | append _ _ => exact happended _ _ _ _ hb
  | assign _ => exact hassigned _ _ _ _ hb
  | openGroup _ _ => exact hassigned _ _ _ _ (hadded _ _ _ hb)
  | next _ _ => exact happended _ _ _ _ (hadded _ _ _ (hfinished _ _ _ hb))
  | finish _ => exact hfinished _ _ _ hb
  | body _ _ => exact hb
  | trailer _ => exact hb

/-- The map has the checksum twice at most, and once at most if it is not marked. -/
def Node.ChecksumMarked (n : Node) : Prop :=
  n.copies Field.checkSum ≤ 2 ∧ (Field.checkSum ∉ n.seen → n.copies Field.checkSum ≤ 1)

theorem Edits.checksumMarked (h : Edits settings dict b e b')
    (hb : ∀ ref, (b.msg.node ref).ChecksumMarked) : ∀ ref, (b'.msg.node ref).ChecksumMarked := by
  refine h.forall_node (fun m tag hm => hm) (fun m tag value hm => ?_) (fun m tag value hm => ?_)
    (fun m spec hm => ?_) hb
  · have hcopies := (m.copies_setFieldView tag value Field.checkSum).2
    have hseen : (m.setFieldView tag value false).node.seen = m.node.seen := by
      rw [FieldMap.fields_setFieldView]
      rfl
    refine ⟨?_, fun hnot => ?_⟩
    · have hle := hm.1
      omega
    · rw [hseen] at hnot
      have hle := hm.2 hnot
      omega
  · cases hdup : (m.setFieldViewOrDetectDup tag value).1 with
    | true =>
        rw [FieldMap.eq_of_dup hdup]
        exact hm
    | false =>
        rw [Node.ChecksumMarked, FieldMap.copies_append hdup]
        by_cases htag : tag = Field.checkSum
        · subst htag
          have hseen : Field.checkSum ∉ m.seen := fun hin => by
            rw [FieldMap.setFieldViewOrDetectDup, if_pos (by decide), if_pos hin] at hdup
            cases hdup
          have hmarked : Field.checkSum ∈
              (m.setFieldViewOrDetectDup Field.checkSum value).2.node.seen := by
            rw [FieldMap.setFieldViewOrDetectDup, if_pos (by decide), if_neg hseen]
            exact List.mem_cons_self
          rw [if_pos rfl]
          exact ⟨Nat.succ_le_succ (hm.2 hseen), fun hnot => absurd hmarked hnot⟩
        · rw [if_neg fun heq => htag heq.symm, Nat.add_zero]
          refine ⟨hm.1, fun hnot => hm.2 fun hin => hnot ?_⟩
          have hsub : m.seen ⊆ (m.setFieldViewOrDetectDup tag value).2.seen := by
            rw [FieldMap.setFieldViewOrDetectDup]
            split
            · split
              · exact List.Subset.refl _
              · exact List.subset_cons_self _ _
            · split
              · exact List.Subset.refl _
              · exact List.Subset.refl _
          exact hsub hin
  · by_cases hsorts : (settings.parsingReorderTags && spec.any GroupSpec.ordered) = true
    · have hone := FieldMap.copies_finishMap_le_one hsorts m Field.checkSum
      exact ⟨Nat.le_succ_of_le hone, fun _ => hone⟩
    · rw [ParseState.finishMap, if_neg hsorts]
      exact hm

end

/-! ## Repeated tags -/

/-- The entry appends the field to a map that has its tag. -/
structure Doubles (settings : SessionSettings) (dict : Dictionary) (f : WireField)
    (st : ParseState) (g : ParserGroupInfo) (below : List ParserGroupInfo) : Prop where
  tries : ParseState.Tries settings dict f st g below
  field : ∃ spec, g.spec = some spec ∧ spec.hasField f.tag = true
  unmarked : (st.get g.group).Unmarked f.tag

section

variable (settings : SessionSettings) (dict : Dictionary) (size : Nat) (text : Bytes)
  (st : ParseState)

/-- The round assigns a data field, or a field that no specification knows, to a map that has its
tag. -/
inductive Rewrites : Prop where
  | data {tagText rest : Bytes} {len : Nat} {top : ParserGroupInfo}
      (htag : Tagged settings text st tagText rest) (hlen : st.dataLength = some len)
      (htype : dict.getFieldType (fastParseTag tagText) = .data)
      (htop : st.stack.head? = some top)
      (hgroup : ∀ spec, top.spec = some spec → spec.findGroup (fastParseTag tagText) = none)
      (hhas : (st.get top.group).has (fastParseTag tagText) = true)
  | unknown {next : Bytes} {f : WireField} {top : ParserGroupInfo}
      (hdispatches : Dispatches settings dict size text st next f)
      (hrefused : ParseState.Refused settings dict f (st.started f.tag))
      (hstate : st.msgState ≠ .header)
      (htrailer : st.msgState = .body → ParseState.TrailerRefuses settings dict f)
      (htop : st.stack.head? = some top) (hhas : (st.get top.group).has f.tag = true)

/-- The field is known as a repetition, and starts the next instance of its group. -/
def StartsNext (g : ParserGroupInfo) (f : WireField) : Prop :=
  ((st.get g.group).setFieldViewOrDetectDup f.tag f.val).1 = true ∧ 0 < g.groupTag ∧
    g.groupCount ≠ g.groupMaxCount

/-- The map in which the round files a field of the text that is no count of a group, and its
tag: a data field and one that no specification knows in the map of the innermost entry, another
one in the map of the entry that knows it, unless it starts an instance. -/
inductive FilesIn : GroupRef → Int → Prop where
  | data {tagText rest : Bytes} {len : Nat} {top : ParserGroupInfo}
      (htag : Tagged settings text st tagText rest) (hlen : st.dataLength = some len)
      (htype : dict.getFieldType (fastParseTag tagText) = .data)
      (htop : st.stack.head? = some top)
      (hgroup : ∀ spec, top.spec = some spec → spec.findGroup (fastParseTag tagText) = none) :
      FilesIn top.group (fastParseTag tagText)
  | unknown {next : Bytes} {f : WireField} {top : ParserGroupInfo}
      (hdispatches : Dispatches settings dict size text st next f)
      (hrefused : ParseState.Refused settings dict f (st.started f.tag))
      (hstate : st.msgState ≠ .header)
      (htrailer : st.msgState = .body → ParseState.TrailerRefuses settings dict f)
      (htop : st.stack.head? = some top) : FilesIn top.group f.tag
  | plain {next : Bytes} {f : WireField} {g : ParserGroupInfo} {below : List ParserGroupInfo}
      (hdispatches : Dispatches settings dict size text st next f)
      (htries : ParseState.Tries settings dict f (st.started f.tag) g below)
      (hfield : ∃ spec, g.spec = some spec ∧ spec.hasField f.tag = true)
      (hnext : ¬StartsNext st g f) : FilesIn g.group f.tag

end

/-- Every map of the message has every tag once, and in strict mode every field of the text was
filed in a map that did not have its tag. -/
structure UniqueTags (dict : Dictionary) (settings : SessionSettings) (text : Bytes)
    (msg : Message) : Prop where
  maps : ∀ ref, (AssocList.keys (msg.get ref).fields).Nodup
  rejects : settings.relaxedParsing = false → ∀ text' st,
    Reaches (parseRound settings dict text.length) (text, .init dict) (text', st) →
      ∀ ref tag, FilesIn settings dict text.length text' st ref tag → (st.get ref).has tag = false

section

variable {settings : SessionSettings} {dict : Dictionary} {f : WireField} {st st' : ParseState}
  {g : ParserGroupInfo} {below : List ParserGroupInfo}

/-- A field that the entry has not marked is added to its map. -/
theorem Doubles.trySetField_eq (h : Doubles settings dict f st g below) (groupIdx : Nat)
    (parent : Option ParserGroupInfo) :
    st.trySetField settings dict g groupIdx parent f = (do
      let st ← (st.modify (fun m => (m.setFieldViewOrDetectDup f.tag f.val).2)
        g.group).noteLength settings dict f
      .ok ⟨st.noteBodyLength f, g, [], some groupIdx⟩) := by
  obtain ⟨spec, hspec, hfield⟩ := h.field
  have hnew := ((FieldMap.unmarked_iff f.val).mp h.unmarked).2
  rw [ParseState.trySetField, hspec]
  dsimp only
  rw [if_pos hfield, if_neg (by rw [hnew]; decide)]

/-- A field that is doubled is appended. -/
theorem Doubles.edit_eq (h : Doubles settings dict f st g below) {parent : Option ParserGroupInfo}
    {e : Edit} (htakes : ParseState.Takes st g parent f e) : e = .append g f.tag f.val := by
  obtain ⟨spec, hspec, hknown⟩ := h.field
  have hnew := ((FieldMap.unmarked_iff f.val).mp h.unmarked).2
  cases htakes with
  | append _ _ => rfl
  | openGroup hspec' hfield _ =>
      rw [hspec] at hspec'
      cases hspec'
      rw [hknown] at hfield
      cases hfield
  | next _ _ _ _ _ hseen =>
      obtain ⟨spec', hspec', hseen⟩ := hseen
      rw [hspec] at hspec'
      cases hspec'
      rcases hseen with ⟨-, hdup⟩ | ⟨hfield, -, -⟩
      · rw [hnew] at hdup
        cases hdup
      · rw [hknown] at hfield
        cases hfield

theorem Doubles.invariant_dispatchField {I : Build → Prop} (h : Doubles settings dict f st g below)
    (hfinish : ∀ b g b', Edits settings dict b (.finish g) b' → I b → I b')
    (happend : ∀ b', Edits settings dict st.build (.append g f.tag f.val) b' → I b')
    (hok : ParseState.dispatchField settings dict f st = .ok st') : I st'.build := by
  refine h.tries.invariant_dispatchField (fun r htry => ?_) (fun b g b' _ => hfinish b g b')
    (fun e b' htakes hedits => ?_) hok
  · rw [h.trySetField_eq] at htry
    obtain ⟨st₁, -, hr⟩ := bind_eq_ok.mp htry
    cases hr
    exact ⟨_, rfl⟩
  · rw [h.edit_eq htakes] at hedits
    exact happend b' hedits

/-- A field that is doubled stays so, if it is not excused. -/
theorem Doubles.stuck (h : Doubles settings dict f st g below)
    (hok : ParseState.dispatchField settings dict f st = .ok st') (hstaged : Staged st.build)
    (hgrounded : Grounded st.build) (hnot : ¬Sorts settings g) :
    Stuck settings g.group f.tag st'.build := by
  have hboth : Staged st'.build ∧ Stuck settings g.group f.tag st'.build := by
    refine @Doubles.invariant_dispatchField _ _ _ _ _ _ _
      (fun b => Staged b ∧ Stuck settings g.group f.tag b) h (fun b g' b' hedits hb =>
        ⟨hedits.staged hb.1, hedits.stuck hb.1 hb.2⟩) (fun b' hedits => ?_) hok
    refine ⟨hedits.staged hstaged, ?_⟩
    cases hedits with
    | append hg _ =>
        refine ⟨Message.doubled_append (hgrounded.valid g hg) h.unmarked, fun g' hg' href => ?_⟩
        -- No other entry has the same map.
        have hsame : g' = g := List.inj_on_of_nodup_map hgrounded.nodup hg' hg href
        rwa [hsame]
  exact hboth.2

/-- In strict mode a duplicate that is known as one ends the parse. -/
theorem dispatchField_of_dup (hstrict : settings.relaxedParsing = false)
    (htries : ParseState.Tries settings dict f st g below)
    (hfield : ∃ spec, g.spec = some spec ∧ spec.hasField f.tag = true)
    (hdup : ((st.get g.group).setFieldViewOrDetectDup f.tag f.val).1 = true)
    (hnext : ¬(0 < g.groupTag ∧ g.groupCount ≠ g.groupMaxCount)) :
    ∃ e, ParseState.dispatchField settings dict f st = .error e := by
  obtain ⟨spec, hspec, hfield⟩ := hfield
  have hthrow : ∀ text, tryLogThrow settings text = .error (.messageParsingError text) := by
    intro text
    rw [tryLogThrow, hstrict, if_neg (by decide)]
  have htry : ∃ e, st.trySetField settings dict g below.length below.head? f = .error e := by
    rw [ParseState.trySetField, hspec]
    dsimp only
    rw [if_pos hfield, if_pos hdup, ParseState.handleRepeatingTag]
    by_cases htag : g.groupTag > 0
    · have hcount : g.groupCount = g.groupMaxCount := by
        by_contra hne
        exact hnext ⟨htag, hne⟩
      rw [if_pos htag, if_pos hcount, hthrow]
      exact ⟨_, rfl⟩
    · rw [if_neg htag, hthrow]
      exact ⟨_, rfl⟩
  obtain ⟨e, htry⟩ := htry
  exact ⟨e, htries.dispatchField_error htry⟩

/-- No map has a tag twice when the checksum is out of a message that is settled. -/
theorem nodup_of_settled {b : Build} (hb : Settled settings b) (hentries : b.entries = [])
    (hmarked : ∀ ref, (b.msg.node ref).ChecksumMarked) (ref : GroupRef) :
    (AssocList.keys ((b.msg.modify (fun m => m.removeField Field.checkSum)
      ⟨.trailer, []⟩).get ref).fields).Nodup := by
  have hone : ∀ tag, (ref = ⟨.trailer, []⟩ → tag ≠ Field.checkSum) →
      (b.msg.node ref).copies tag ≤ 1 := by
    intro tag hne
    by_contra hlt
    rcases hb ref tag (Nat.not_le.mp hlt) with ⟨g, hg, -⟩ | ⟨href, htag⟩
    · rw [hentries] at hg
      cases hg
    · exact hne href htag
  have hremove : FieldMap.KeepsInstances fun m => m.removeField Field.checkSum :=
    FieldMap.keepsInstances_of_groups fun _ => rfl
  refine List.nodup_iff_count_le_one.mpr fun tag => ?_
  show ((b.msg.modify (fun m => m.removeField Field.checkSum) ⟨.trailer, []⟩).node ref).copies
    tag ≤ 1
  by_cases htrailer : ref = ⟨.trailer, []⟩
  · subst htrailer
    rw [Message.node_modify_self (Message.valid_section .trailer)]
    show (AssocList.keys (AssocList.erase Field.checkSum
      (b.msg.get ⟨.trailer, []⟩).fields)).count tag ≤ 1
    rw [AssocList.keys_erase]
    by_cases htag : tag = Field.checkSum
    · subst htag
      rw [List.count_erase_self]
      exact Nat.sub_le_of_le_add (hmarked ⟨.trailer, []⟩).1
    · rw [List.count_erase_of_ne htag]
      exact hone tag fun _ => htag
  · rw [Message.node_modify_ne hremove htrailer]
    exact hone tag fun href => absurd href htrailer

/-- A field that is dispatched in a parse that accepts its text is filed, and the parse goes on. -/
theorem Dispatches.of_parse {text text' next : Bytes} {msg : Message}
    (hdispatches : Dispatches settings dict text.length text' st next f)
    (h : dict.parse settings text = .ok msg)
    (hreaches : Reaches (parseRound settings dict text.length) (text, .init dict) (text', st)) :
    ∃ st', ParseState.dispatchField settings dict f (st.started f.tag) = .ok st' ∧
      Reaches (parseRound settings dict text.length) (text, .init dict) (next, st') := by
  have heq := hdispatches.parseRound_eq
  cases hok : ParseState.dispatchField settings dict f (st.started f.tag) with
  | ok st' =>
      rw [hok] at heq
      exact ⟨st', rfl, hreaches.tail heq⟩
  | error e =>
      rw [hok] at heq
      rw [parse_of_parseRound_error hreaches heq] at h
      cases h

/-- A tag that is doubled is in the message twice, unless it is excused. -/
theorem Doubles.doubled {text text' next : Bytes} {msg : Message}
    (hdoubles : Doubles settings dict f (st.started f.tag) g below)
    (h : dict.parse settings text = .ok msg)
    (hreaches : Reaches (parseRound settings dict text.length) (text, .init dict) (text', st))
    (hdispatches : Dispatches settings dict text.length text' st next f)
    (hnot : ¬Excused settings g f.tag) : msg.Doubled g.group f.tag := by
  obtain ⟨st', hok, hnext⟩ := hdispatches.of_parse h hreaches
  obtain ⟨hstaged, hgrounded⟩ := grounded_of_reaches hreaches
  have hstuck := hdoubles.stuck hok hstaged hgrounded fun hsorts => hnot (.inl hsorts)
  obtain ⟨b, ⟨-, hb⟩, -, -, hmsg⟩ := built_of_parse
    (I := fun b => Staged b ∧ Stuck settings g.group f.tag b) h hnext
    ⟨(grounded_of_reaches hnext).1, hstuck⟩
    (fun _ _ _ _ _ _ _ hedits hb => ⟨hedits.staged hb.1, hedits.stuck hb.1 hb.2⟩)
    (fun _ _ _ _ hedits hb => ⟨hedits.staged hb.1, hedits.stuck hb.1 hb.2⟩)
  rw [hmsg]
  refine hb.doubled.modify (FieldMap.keepsInstances_of_groups fun _ => rfl) fun href => ?_
  show _ ≤ (AssocList.keys (AssocList.erase Field.checkSum (b.msg.get g.group).fields)).count f.tag
  rw [AssocList.keys_erase, List.count_erase_of_ne fun htag => hnot (.inr ⟨href, htag⟩)]
  exact Nat.le_refl _

/-- A field is appended to a map that has its tag in no other way. -/
theorem PerformsIn.doubles {size : Nat} {text : Bytes} {b : Build} {tag : Int} {value : Bytes}
    (h : PerformsIn settings dict size text st b (.append g tag value)) (hstaged : Staged st.build)
    (hunmarked : (b.msg.get g.group).Unmarked tag) :
    ∃ next f below, Dispatches settings dict size text st next f ∧ f.tag = tag ∧
      Doubles settings dict f (st.started f.tag) g below := by
  cases h with
  | @field next f _ _ hdispatches hperforms =>
      cases hperforms with
      | taken htries htakes =>
          cases htakes with
          | append hspec hfield =>
              exact ⟨next, f, _, hdispatches, rfl, htries, ⟨_, hspec, hfield⟩, hunmarked⟩
      | started hstarts htakes =>
          have hempty := hstarts.node_eq hstaged
          cases htakes with
          | append hspec hfield =>
              have hhas := hunmarked.1
              rw [FieldMap.has_iff_copies] at hhas
              have hzero : (b.msg.node g.group).copies f.tag = 0 := by
                rw [hempty, FieldMap.copies_new]
              exact absurd hzero (Nat.ne_of_gt hhas)

theorem Rewrites.files {size : Nat} {text : Bytes} (h : Rewrites settings dict size text st) :
    ∃ ref tag, FilesIn settings dict size text st ref tag ∧ (st.get ref).has tag = true := by
  cases h with
  | data htag hlen htype htop hgroup hhas => exact ⟨_, _, .data htag hlen htype htop hgroup, hhas⟩
  | unknown hdispatches hrefused hstate htrailer htop hhas =>
      exact ⟨_, _, .unknown hdispatches hrefused hstate htrailer htop, hhas⟩

theorem Doubles.files {size : Nat} {text next : Bytes}
    (h : Doubles settings dict f (st.started f.tag) g below)
    (hdispatches : Dispatches settings dict size text st next f) :
    FilesIn settings dict size text st g.group f.tag := by
  refine .plain hdispatches h.tries h.field fun hnext => ?_
  have hnew : ((st.get g.group).setFieldViewOrDetectDup f.tag f.val).1 = false :=
    ((FieldMap.unmarked_iff f.val).mp h.unmarked).2
  rw [hnext.1] at hnew
  cases hnew

/-- A field that is filed in a map that has its tag is assigned there, or comes to the entry
unmarked or known as a repetition. -/
theorem FilesIn.cases_of_has {size : Nat} {text : Bytes} {ref : GroupRef} {tag : Int}
    (h : FilesIn settings dict size text st ref tag) (hhas : (st.get ref).has tag = true) :
    Rewrites settings dict size text st ∨ ∃ next f g below,
      Dispatches settings dict size text st next f ∧
      ParseState.Tries settings dict f (st.started f.tag) g below ∧
      (∃ spec, g.spec = some spec ∧ spec.hasField f.tag = true) ∧
      ((st.get g.group).Unmarked f.tag ∨
        ((st.get g.group).setFieldViewOrDetectDup f.tag f.val).1 = true ∧
          ¬(0 < g.groupTag ∧ g.groupCount ≠ g.groupMaxCount)) := by
  cases h with
  | data htag hlen htype htop hgroup => exact .inl (.data htag hlen htype htop hgroup hhas)
  | unknown hdispatches hrefused hstate htrailer htop =>
      exact .inl (.unknown hdispatches hrefused hstate htrailer htop hhas)
  | @plain next f g below hdispatches htries hfield hnext =>
      refine .inr ⟨next, f, g, below, hdispatches, htries, hfield, ?_⟩
      cases hdup : ((st.get g.group).setFieldViewOrDetectDup f.tag f.val).1 with
      | false => exact .inl ((FieldMap.unmarked_iff f.val).mpr ⟨hhas, hdup⟩)
      | true => exact .inr ⟨rfl, fun hcount => hnext ⟨hdup, hcount⟩⟩

/-- The maps have every tag once when all duplicates are excused. -/
theorem nodup_of_excused {text : Bytes} {msg : Message} (h : dict.parse settings text = .ok msg)
    (hexcused : ∀ text' st,
      Reaches (parseRound settings dict text.length) (text, .init dict) (text', st) →
        ∀ next f g below, Dispatches settings dict text.length text' st next f →
          Doubles settings dict f (st.started f.tag) g below → Excused settings g f.tag)
    (ref : GroupRef) : (AssocList.keys (msg.get ref).fields).Nodup := by
  have hinit : Settled settings (ParseState.init dict).build ∧
      ∀ ref, ((ParseState.init dict).build.msg.node ref).ChecksumMarked := by
    constructor
    · intro ref tag hdoubled
      exact absurd hdoubled (Message.not_doubled_of_new (Message.node_new ref))
    · intro ref
      show (Message.new.node ref).ChecksumMarked
      rw [Message.node_new]
      exact ⟨Nat.zero_le _, fun _ => Nat.zero_le _⟩
  have hbuilt := built_of_parse
    (I := fun b => Settled settings b ∧ ∀ ref, (b.msg.node ref).ChecksumMarked) h .refl hinit
    (fun text' st hreaches b e b' hperforms hedits hb => ⟨?_, hedits.checksumMarked hb.2⟩)
    (fun b g b' _ hedits hb => ⟨?_, hedits.checksumMarked hb.2⟩)
  · obtain ⟨b, ⟨hsettled, hmarked⟩, hentries, -, hmsg⟩ := hbuilt
    rw [hmsg]
    exact nodup_of_settled hsettled hentries hmarked ref
  · refine hedits.settled hb.1 fun g tag value heq hunmarked => ?_
    subst heq
    obtain ⟨next, f, below, hdispatches, rfl, hdoubles⟩ :=
      hperforms.doubles (staged_of_reaches hreaches) hunmarked
    exact hexcused text' st hreaches next f g below hdispatches hdoubles
  · exact hedits.settled hb.1 fun g' tag value heq => by cases heq

/-- Every map has every tag once and no tag is repeated in strict mode, if and only if no round
appends a field to a map that has its tag, where this is not excused, and in strict mode no round
assigns to one. -/
theorem uniqueTags_iff {text : Bytes} {msg : Message} (h : dict.parse settings text = .ok msg) :
    UniqueTags dict settings text msg ↔ ∀ text' st,
      Reaches (parseRound settings dict text.length) (text, .init dict) (text', st) →
        (settings.relaxedParsing = false → ¬Rewrites settings dict text.length text' st) ∧
        ∀ next f g below, Dispatches settings dict text.length text' st next f →
          Doubles settings dict f (st.started f.tag) g below →
            settings.relaxedParsing = true ∧ Excused settings g f.tag := by
  constructor
  · intro hunique text' st hreaches
    refine ⟨fun hstrict hrewrites => ?_, fun next f g below hdispatches hdoubles => ⟨?_, ?_⟩⟩
    · obtain ⟨ref, tag, hfiles, hhas⟩ := hrewrites.files
      rw [hunique.rejects hstrict text' st hreaches ref tag hfiles] at hhas
      cases hhas
    · cases hmode : settings.relaxedParsing with
      | true => rfl
      | false =>
          have hnot := hunique.rejects hmode text' st hreaches g.group f.tag
            (hdoubles.files hdispatches)
          have hhas : (st.get g.group).has f.tag = true := hdoubles.unmarked.1
          rw [hhas] at hnot
          cases hnot
    · by_contra hnot
      exact absurd (List.nodup_iff_count_le_one.mp (hunique.maps g.group) f.tag)
        (Nat.not_le.mpr (hdoubles.doubled h hreaches hdispatches hnot))
  · intro hcond
    constructor
    · exact nodup_of_excused h fun text' st hreaches next f g below hdispatches hdoubles =>
        ((hcond text' st hreaches).2 next f g below hdispatches hdoubles).2
    · intro hstrict text' st hreaches ref tag hfiles
      by_contra hhas
      obtain ⟨hrewrites, hdoubles⟩ := hcond text' st hreaches
      rcases hfiles.cases_of_has (Bool.eq_true_of_not_eq_false hhas) with hagain | hplain
      · exact hrewrites hstrict hagain
      · obtain ⟨next, f, g, below, hdispatches, htries, hfield, hknown⟩ := hplain
        rcases hknown with hunmarked | ⟨hdup, hnext⟩
        · have hrelaxed := (hdoubles next f g below hdispatches ⟨htries, hfield, hunmarked⟩).1
          rw [hstrict] at hrelaxed
          cases hrelaxed
        · obtain ⟨e, herror⟩ := dispatchField_of_dup hstrict htries hfield hdup hnext
          obtain ⟨st', hok, -⟩ := hdispatches.of_parse h hreaches
          rw [hok] at herror
          cases herror

end

/-- A data field of a logon, and the same tag again without a length. -/
def repeatedText : Bytes :=
  wireOf "8=FIX.4.4|9=32|35=A|98=0|108=30|95=1|96=x|96=y|10=037|"

theorem parse_repeatedText : ∃ msg, testDictionary.parse {} repeatedText = .ok msg ∧
    AssocList.keys (msg.get ⟨.body, []⟩).fields = [98, 108, 95, 96, 96] := by
  have hkeys : (testDictionary.parse {} repeatedText).map (fun msg =>
      AssocList.keys (msg.get ⟨.body, []⟩).fields) = .ok [98, 108, 95, 96, 96] := by decide +kernel
  cases hparse : testDictionary.parse {} repeatedText with
  | ok msg =>
      rw [hparse] at hkeys
      exact ⟨msg, rfl, Except.ok.inj hkeys⟩
  | error e =>
      rw [hparse] at hkeys
      cases hkeys

/-- The tag 96 is in the body twice, so some round of the parse was not excused. -/
theorem uniqueTags_iff_test : ∃ msg, testDictionary.parse {} repeatedText = .ok msg ∧
    ¬UniqueTags testDictionary {} repeatedText msg ∧
    ¬∀ text' st, Reaches (parseRound {} testDictionary repeatedText.length)
        (repeatedText, .init testDictionary) (text', st) →
      (({} : SessionSettings).relaxedParsing = false →
        ¬Rewrites {} testDictionary repeatedText.length text' st) ∧
      ∀ next f g below, Dispatches {} testDictionary repeatedText.length text' st next f →
        Doubles {} testDictionary f (st.started f.tag) g below →
          ({} : SessionSettings).relaxedParsing = true ∧ Excused {} g f.tag := by
  obtain ⟨msg, hparse, hkeys⟩ := parse_repeatedText
  have hnot : ¬UniqueTags testDictionary {} repeatedText msg := fun hunique => by
    have hnodup := hunique.maps ⟨.body, []⟩
    rw [hkeys] at hnodup
    exact absurd hnodup (by decide)
  exact ⟨msg, hparse, hnot, (uniqueTags_iff hparse).not.mp hnot⟩

/-- The tag 96 is in the body twice. -/
theorem not_uniqueTags : ¬∀ (dict : Dictionary) (settings : SessionSettings) (text : Bytes)
    (msg : Message), dict.parse settings text = .ok msg → UniqueTags dict settings text msg := by
  intro h
  obtain ⟨msg, hparse, hkeys⟩ := parse_repeatedText
  have hnodup := (h testDictionary {} repeatedText msg hparse).maps ⟨.body, []⟩
  rw [hkeys] at hnodup
  exact absurd hnodup (by decide)

end OpenFix
