import OpenFix.Reading

/-!
# The rounds that read contents

`Holds` says of a map that was read which tags it has, what it says, and which of its
tags the parser knows it has seen.  Reading a field adds it to the contents, and reading
a group adds the contents of its instances.

`run_content` goes over the rounds that read the contents of one map, and `run_instances`
over those that read the instances of a group behind the first one.  They follow the
contents, each calling the other for what is nested.
-/

namespace OpenFix

open Loop

namespace FieldMap

/-! ## What a map says when it grows -/

theorem contentStep_congr {m m' : FieldMap} (howned : m.owned = m'.owned)
    {instances instances' : List (Int × Instances)} {p : Int × View}
    (h : AssocList.find? p.1 instances = AssocList.find? p.1 instances') (rest : Content) :
    m.contentStep instances p rest = m'.contentStep instances' p rest := by
  have hread : m.read p.1 p.2 = m'.read p.1 p.2 := read_congr (by rw [howned]) p.2
  rw [contentStep, contentStep, h, hread]

/-- The contents are what the fields, the owned strings and the groups make of them. -/
theorem content_congr {m m' : FieldMap} (hfields : m.fields = m'.fields)
    (howned : m.owned = m'.owned) (hgroups : m.groups = m'.groups) : m.content = m'.content := by
  have hstep : m.contentStep (groupContents m.groups) =
      m'.contentStep (groupContents m'.groups) := by
    funext p rest
    exact contentStep_congr howned (by rw [hgroups]) rest
  rw [content_eq, content_eq, hfields, hstep]

theorem foldr_contentStep (m : FieldMap) (instances : List (Int × Instances)) :
    ∀ (fields : List (Int × View)) (c : Content), fields.foldr (m.contentStep instances) c =
      (fields.foldr (m.contentStep instances) .nil).append c
  | [], _ => rfl
  | (tag, v) :: fields, c => by
      rw [List.foldr_cons, List.foldr_cons, foldr_contentStep m instances fields c, contentStep,
        contentStep]
      split
      · rfl
      · split
        · rfl
        · rfl

theorem foldr_contentStep_congr {m m' : FieldMap} (howned : m.owned = m'.owned)
    {instances instances' : List (Int × Instances)} :
    ∀ {fields : List (Int × View)}, (∀ tag ∈ AssocList.keys fields,
      AssocList.find? tag instances = AssocList.find? tag instances') →
        fields.foldr (m.contentStep instances) .nil = fields.foldr (m'.contentStep instances') .nil
  | [], _ => rfl
  | p :: fields, h => by
      rw [List.foldr_cons, List.foldr_cons, foldr_contentStep_congr howned fun tag htag =>
        h tag (List.mem_cons_of_mem _ htag)]
      exact contentStep_congr howned (h p.1 (List.mem_cons_self ..)) _

/-- A map that was read, with its tags and what it says.  The parser knows that it has seen
the tag in front. -/
structure Holds (m : FieldMap) (tags : List Int) (c : Content) : Prop where
  keys : AssocList.keys m.fields = tags
  seen : ∀ tag ∈ m.seen, tag ∈ tags
  groups : ∀ tag ∈ AssocList.keys m.groups, tag ∈ tags
  content : m.content = c
  marked : ∀ tag, c.firstTag? = some tag → 0 ≤ tag → tag < 1024 → tag ∈ m.seen

theorem holds_new : new.Holds [] .nil where
  keys := rfl
  seen := by simp [new]
  groups := by simp [new, AssocList.keys]
  content := rfl
  marked := by simp [Content.firstTag?]

variable {m : FieldMap} {tags : List Int} {c : Content} {tag : Int} {value : Bytes}

theorem find?_groupContents_of_holds (h : m.Holds tags c) (htag : tag ∉ tags) :
    AssocList.find? tag (groupContents m.groups) = none := by
  rw [AssocList.find?_eq_none_iff, keys_groupContents]
  exact fun hmem => htag (h.groups tag hmem)

/-- A field at the end of the map is a field at the end of the contents. -/
theorem content_withField (h : m.Holds tags c) (htag : tag ∉ tags) :
    (m.withField tag value).content =
      if isIgnoredTag tag then c else c.append (.field tag value .nil) := by
  have hfield : (m.withField tag value).contentStep (groupContents m.groups)
      (tag, .text value) .nil =
      if isIgnoredTag tag then Content.nil else .field tag value .nil := by
    rw [contentStep, find?_groupContents_of_holds h htag]
    rfl
  rw [content_eq, withField, List.foldr_append, List.foldr_cons, List.foldr_nil]
  refine (foldr_contentStep _ _ m.fields _).trans ?_
  have hold :
      m.fields.foldr ((m.withField tag value).contentStep (groupContents m.groups)) .nil = c :=
    (foldr_contentStep_congr rfl fun _ _ => rfl).trans ((content_eq m).symm.trans h.content)
  refine (congrArg₂ Content.append hold hfield).trans ?_
  split
  · exact c.append_nil
  · rfl

theorem keys_append_singleton (l : List (Int × View)) (p : Int × View) :
    AssocList.keys (l ++ [p]) = AssocList.keys l ++ [p.1] := List.map_append

theorem firstTag?_append_field (c : Content) {t : Int}
    (h : (c.append (.field tag value .nil)).firstTag? = some t) :
    c.firstTag? = some t ∨ c = .nil ∧ t = tag := by
  cases c with
  | nil => exact .inr ⟨rfl, (Option.some.inj h).symm⟩
  | field tag' value' rest => exact .inl h
  | group tag' count instances rest => cases h

/-- The fields of a map are still there, with their values. -/
def KeptIn (m m' : FieldMap) : Prop := ∀ tag ∈ AssocList.keys m.fields, m'.field? tag = m.field? tag

theorem KeptIn.refl (m : FieldMap) : m.KeptIn m := fun _ _ => rfl

theorem mem_keys_iff : tag ∈ AssocList.keys m.fields ↔ (m.field? tag).isSome = true := by
  rw [field?, Option.isSome_map, AssocList.find?_isSome_iff]

theorem KeptIn.trans {m' m'' : FieldMap} (h : m.KeptIn m') (h' : m'.KeptIn m'') : m.KeptIn m'' := by
  intro t ht
  have hsome := mem_keys_iff.mp ht
  rw [← h t ht] at hsome
  exact (h' t (mem_keys_iff.mpr hsome)).trans (h t ht)

theorem keptIn_of_append {m' : FieldMap} {p : Int × View} (hfields : m'.fields = m.fields ++ [p])
    (howned : m'.owned = m.owned) : m.KeptIn m' := by
  intro t ht
  obtain ⟨v, hv⟩ := Option.isSome_iff_exists.mp (AssocList.find?_isSome_iff.mpr ht)
  have hread : m'.read t v = m.read t v := read_congr (by rw [howned]) v
  rw [field?, field?, hfields, AssocList.find?_append, hv, Option.some_or, Option.map_some,
    Option.map_some, hread]

/-- A field that is assigned behind others. -/
theorem Holds.withField (h : m.Holds tags c) (htag : tag ∉ tags) (hplain : isIgnoredTag tag = false)
    (hc : c ≠ .nil) :
    (m.withField tag value).Holds (tags ++ [tag]) (c.append (.field tag value .nil)) where
  keys := by rw [FieldMap.withField, keys_append_singleton, h.keys]
  seen := fun t ht => List.mem_append_left _ (h.seen t ht)
  groups := fun t ht => List.mem_append_left _ (h.groups t ht)
  content := by rw [content_withField h htag, hplain, if_neg Bool.false_ne_true]
  marked := by
    intro t ht
    exact h.marked t ((firstTag?_append_field c ht).resolve_right fun hnil => hc hnil.1)

theorem detectDup_eq (h : (m.setFieldViewOrDetectDup tag value).1 = false) :
    (m.setFieldViewOrDetectDup tag value).2 = { m.withField tag value with
      seen := if 0 ≤ tag ∧ tag < 1024 then tag :: m.seen else m.seen } := by
  rw [setFieldViewOrDetectDup] at h ⊢
  split
  next hrange =>
    rw [if_pos hrange] at h
    split at h
    next => cases h
    next hseen =>
      rw [if_neg hseen]
      rfl
  next hrange =>
    rw [if_neg hrange] at h
    split at h
    next => cases h
    next hfind =>
      rw [if_neg hfind]
      rfl

/-- A field that the parser adds. -/
theorem Holds.detectDup (h : m.Holds tags c) (htag : tag ∉ tags) :
    (m.setFieldViewOrDetectDup tag value).2.Holds (tags ++ [tag])
      (if isIgnoredTag tag then c else c.append (.field tag value .nil)) := by
  have hnew := ParseState.detectDup_new (fun hmem => htag (h.seen tag hmem))
    (fun hmem => htag (h.keys ▸ hmem)) value
  rw [detectDup_eq hnew]
  refine ⟨?_, ?_, fun t ht => List.mem_append_left _ (h.groups t ht),
    content_withField h htag, ?_⟩
  · show AssocList.keys (m.fields ++ [(tag, .text value)]) = _
    rw [keys_append_singleton, h.keys]
  · intro t ht
    dsimp only at ht
    split at ht
    · rcases List.mem_cons.mp ht with rfl | ht
      · exact List.mem_append_right _ (List.mem_singleton_self _)
      · exact List.mem_append_left _ (h.seen t ht)
    · exact List.mem_append_left _ (h.seen t ht)
  · intro t ht hlow hhigh
    have hmem : t ∈ m.seen ∨ t = tag := by
      split at ht
      · exact .inl (h.marked t ht hlow hhigh)
      · rcases firstTag?_append_field c ht with ht | ⟨-, ht⟩
        · exact .inl (h.marked t ht hlow hhigh)
        · exact .inr ht
    dsimp only
    rcases hmem with hmem | rfl
    · split
      · exact List.mem_cons_of_mem _ hmem
      · exact hmem
    · rw [if_pos ⟨hlow, hhigh⟩]
      exact List.mem_cons_self ..

/-- A group with its instances. -/
theorem Holds.withInstances (h : m.Holds tags c) (htag : tag ∉ tags)
    (hplain : isIgnoredTag tag = false) (ms : List FieldMap) :
    ((m.withField tag value).withInstances tag ms).Holds (tags ++ [tag])
      (c.append (.group tag value (instanceContents ms) .nil)) := by
  have hfirst : AssocList.find? tag (groupContents (m.groups ++ [(tag, ms)])) =
      some (instanceContents ms) := by
    rw [groupContents_append, AssocList.find?_append, find?_groupContents_of_holds h htag,
      Option.none_or]
    exact AssocList.find?_cons_self ..
  have hgroup : ((m.withField tag value).withInstances tag ms).contentStep
      (groupContents (m.groups ++ [(tag, ms)])) (tag, .text value) .nil =
        .group tag value (instanceContents ms) .nil := by
    rw [contentStep, hfirst, hplain, if_neg Bool.false_ne_true]
    rfl
  have hold : m.fields.foldr (((m.withField tag value).withInstances tag ms).contentStep
      (groupContents (m.groups ++ [(tag, ms)]))) .nil = c := by
    refine (foldr_contentStep_congr rfl fun t ht => ?_).trans ((content_eq m).symm.trans h.content)
    rw [groupContents_append, AssocList.find?_append]
    have hne : tag ≠ t := fun heq => htag (h.keys ▸ heq ▸ ht)
    exact (congrArg _ (AssocList.find?_cons_ne hne ..)).trans Option.or_none
  refine ⟨?_, fun t ht => List.mem_append_left _ (h.seen t ht), ?_, ?_, ?_⟩
  · show AssocList.keys (m.fields ++ [(tag, .text value)]) = _
    rw [keys_append_singleton, h.keys]
  · intro t ht
    rw [groups_withInstances, AssocList.keys, List.map_append] at ht
    rcases List.mem_append.mp ht with ht | ht
    · exact List.mem_append_left _ (h.groups t ht)
    · exact List.mem_append_right _ ht
  · rw [content_eq]
    show (m.fields ++ [(tag, View.text value)]).foldr _ _ = _
    rw [List.foldr_append, List.foldr_cons, List.foldr_nil]
    refine (foldr_contentStep _ _ m.fields _).trans ?_
    exact congrArg₂ Content.append hold hgroup
  · intro t ht
    refine h.marked t ?_
    cases c with
    | nil => cases ht
    | field tag' value' rest => exact ht
    | group tag' count instances rest => cases ht

/-! ## Maps that are finished -/

theorem keys_byTag (l : List (Int × View)) :
    AssocList.keys (byTag l) = (AssocList.keys l).insertionSort (· ≤ ·) :=
  List.map_insertionSort _ _ Prod.fst l fun _ _ _ _ => Iff.rfl

theorem keys_others (order : List Int) (l : List (Int × View)) :
    AssocList.keys (others order l) = (AssocList.keys l).filter (· ∉ order) := by
  rw [AssocList.keys, AssocList.keys, others, List.filter_map]
  rfl

/-- Fields that stand in order stay where they are. -/
theorem fields_sortFields_of_inOrder {spec : GroupSpec} (hspec : m.spec = some spec)
    (hnodup : (AssocList.keys m.fields).Nodup) (horder : spec.InOrder (AssocList.keys m.fields)) :
    m.sortFields.fields = m.fields := by
  have hkeys : AssocList.keys m.sortFields.fields = AssocList.keys m.fields := by
    rw [fields_sortFields hspec horder.1 hnodup]
    have happend : AssocList.keys (pick spec.fieldOrder m.fields ++
        byTag (others spec.fieldOrder m.fields)) =
          AssocList.keys (pick spec.fieldOrder m.fields) ++
            AssocList.keys (byTag (others spec.fieldOrder m.fields)) := List.map_append
    rw [happend, keys_pick, keys_byTag, keys_others]
    exact horder.2.symm
  have hsorted : (AssocList.keys m.sortFields.fields).Nodup := by rwa [hkeys]
  rw [← AssocList.IterationOrder.filterMap_find? hsorted,
    ← AssocList.IterationOrder.filterMap_find? hnodup, hkeys]
  refine List.filterMap_congr fun tag _ => ?_
  rw [find?_sortFields]

variable {settings : SessionSettings} {spec : GroupSpec}

/-- A finished map has the fields it had, when its tags are admitted. -/
theorem fields_finishMap (h : m.Holds tags c) (hadmits : spec.admits settings tags = true) :
    (ParseState.finishMap settings (some spec) m).fields = m.fields := by
  rw [GroupSpec.admits, GroupSpec.complete, Bool.and_eq_true, Bool.and_eq_true,
    decide_eq_true_eq, GroupSpec.keepsOrder] at hadmits
  obtain ⟨⟨hnodup, -⟩, horder⟩ := hadmits
  rw [ParseState.finishMap, Option.any_some]
  split
  next hsort =>
    rw [hsort, Bool.not_true, Bool.false_or, decide_eq_true_eq, ← h.keys] at horder
    rw [← h.keys] at hnodup
    exact fields_sortFields_of_inOrder rfl hnodup horder
  next => rfl

/-- A finished map says what it said, when its tags are admitted. -/
theorem content_finishMap (h : m.Holds tags c) (hadmits : spec.admits settings tags = true) :
    (ParseState.finishMap settings (some spec) m).content = c := by
  refine (content_congr (fields_finishMap h hadmits) ?_ ?_).trans h.content
  · rw [ParseState.finishMap]
    split
    · rfl
    · rfl
  · rw [ParseState.finishMap]
    split
    · rfl
    · rfl

theorem has_of_complete (h : m.Holds tags c) (hcomplete : spec.complete settings tags = true)
    (hvalidate : settings.validateRequiredFields = true) :
    ∀ field ∈ spec.fields, field.2 = true → m.has field.1 = true := by
  intro field hfield hreq
  rw [GroupSpec.complete, hvalidate, Bool.and_eq_true, Bool.not_true, Bool.false_or,
    List.all_eq_true] at hcomplete
  have hmem := hcomplete.2 field hfield
  rw [hreq, Bool.not_true, Bool.false_or, decide_eq_true_eq, ← h.keys] at hmem
  rw [has, AssocList.find?_isSome_iff]
  exact hmem

end FieldMap

namespace ParseState

variable {settings : SessionSettings} {dict : Dictionary} {size : Nat} {st st' st'' : ParseState}
  {tag : Int} {value rest : Bytes}

/-! ## Rounds -/

/-- The rounds that read a part of the text, and what they leave as it is. -/
structure ReadTo (settings : SessionSettings) (dict : Dictionary) (size : Nat) (text : Bytes)
    (st : ParseState) (rest : Bytes) (st' : ParseState) : Prop where
  reaches : Reaches (parseRound settings dict size) (text, st) (rest, st')
  msgState : st'.msgState = st.msgState
  bodyLengthStart : st'.bodyLengthStart = st.bodyLengthStart
  tagCount : st.tagCount ≤ st'.tagCount

theorem ReadTo.refl (text : Bytes) (st : ParseState) : ReadTo settings dict size text st text st :=
  ⟨.refl, rfl, rfl, Nat.le_refl _⟩

theorem ReadTo.trans {text text' : Bytes} (h : ReadTo settings dict size text st text' st')
    (h' : ReadTo settings dict size text' st' rest st'') :
    ReadTo settings dict size text st rest st'' where
  reaches := h.reaches.trans h'.reaches
  msgState := h'.msgState.trans h.msgState
  bodyLengthStart := h'.bodyLengthStart.trans h.bodyLengthStart
  tagCount := Nat.le_trans h.tagCount h'.tagCount

theorem checkTagOrder_of_le {n : Nat} (h : 3 ≤ n) (tag : Int) :
    checkTagOrder settings n tag = .ok () := by
  have hne : ∀ k : Nat, k < 3 → decide (n = k) = false := fun k hk => decide_eq_false (by omega)
  rw [checkTagOrder, hne 0 (by omega), hne 1 (by omega), hne 2 (by omega)]
  rfl

theorem readAsData_of_ne {announced : Option Nat} {tag : Int} (h : dict.getFieldType tag ≠ .data) :
    dict.readAsData announced tag = false := by
  rw [Dictionary.readAsData, decide_eq_false h, Bool.and_false]

/-- A field starts with its tag. -/
theorem splitByte_fieldText (tag : Int) (value rest : Bytes) :
    splitByte tagAssignmentChar (fieldText tag value ++ internalSohChar :: rest) =
      some (toChars tag, value ++ internalSohChar :: rest) := by
  have hclean : tagAssignmentChar ∉ toChars tag := fun hmem => (toChars_clean hmem).2 rfl
  have htext : fieldText tag value ++ internalSohChar :: rest =
      toChars tag ++ tagAssignmentChar :: (value ++ internalSohChar :: rest) := by
    rw [fieldText, appendTagEq]
    simp only [List.append_assoc, List.cons_append, List.nil_append]
  rw [htext, splitByte_append hclean]

theorem tagged_fieldText (hlow : 0 ≤ tag) (hhigh : tag < 2147483648)
    (horder : checkTagOrder settings st.tagCount tag = .ok ()) (value rest : Bytes) :
    Tagged settings (fieldText tag value ++ internalSohChar :: rest) st (toChars tag)
      (value ++ internalSohChar :: rest) := by
  have htag := fastParseTag_toChars hlow hhigh
  exact ⟨splitByte_fieldText tag value rest, by rwa [htag], by rwa [htag]⟩

/-- A field that is dispatched. -/
theorem parseRound_map (hlow : 0 ≤ tag) (hhigh : tag < 2147483648)
    (horder : checkTagOrder settings st.tagCount tag = .ok ())
    (hdata : dict.readAsData st.dataLength tag = false) (hclean : internalSohChar ∉ value) :
    parseRound settings dict size (fieldText tag value ++ internalSohChar :: rest, st) =
      (dispatchField settings dict ⟨tag, value, size - (rest.length + 1)⟩ (st.started tag)).map
        fun st' => .inl (rest, st') := by
  have htag := fastParseTag_toChars hlow hhigh
  have hnot : st.dataLength = none ∨ dict.getFieldType (fastParseTag (toChars tag)) ≠ .data := by
    rw [Dictionary.readAsData, Bool.and_eq_false_iff, decide_eq_false_iff_not] at hdata
    rw [htag]
    refine hdata.imp (fun hnone => ?_) id
    rwa [Option.isSome_eq_false_iff, Option.isNone_iff_eq_none] at hnone
  have hdispatches : Dispatches settings dict size (fieldText tag value ++ internalSohChar :: rest)
      st rest ⟨fastParseTag (toChars tag), value, size - (rest.length + 1)⟩ :=
    .intro (tagged_fieldText hlow hhigh horder value rest) hnot (splitByte_append hclean rest)
  rw [htag] at hdispatches
  exact hdispatches.parseRound_eq

theorem parseRound_field (hlow : 0 ≤ tag) (hhigh : tag < 2147483648)
    (horder : checkTagOrder settings st.tagCount tag = .ok ())
    (hdata : dict.readAsData st.dataLength tag = false) (hclean : internalSohChar ∉ value)
    (h : dispatchField settings dict ⟨tag, value, size - (rest.length + 1)⟩ (st.started tag) =
      .ok st') :
    parseRound settings dict size (fieldText tag value ++ internalSohChar :: rest, st) =
      .ok (.inl (rest, st')) := by
  rw [parseRound_map hlow hhigh horder hdata hclean, h]
  rfl

/-- A field that is read by its length. -/
theorem parseRound_data {top : ParserGroupInfo} (hlow : 0 ≤ tag) (hhigh : tag < 2147483648)
    (horder : checkTagOrder settings st.tagCount tag = .ok ())
    (hlength : st.dataLength = some value.length) (htype : dict.getFieldType tag = .data)
    (htop : st.stack.head? = some top) :
    parseRound settings dict size (fieldText tag value ++ internalSohChar :: rest, st) =
      .ok (.inl (rest, (st.started tag).modify (fun m => m.setFieldView tag value false)
        top.group)) := by
  have htag := fastParseTag_toChars hlow hhigh
  have htagged := tagged_fieldText hlow hhigh horder value rest
  have hfield : parseDataField settings tag value.length (value ++ internalSohChar :: rest)
      { st with tag := tag, tagCount := st.tagCount + 1 } = .ok (rest,
        (st.started tag).modify (fun m => m.setFieldView tag value false) top.group) := by
    have hle : ¬(value ++ internalSohChar :: rest).length < value.length := by simp
    have hdrop : (value ++ internalSohChar :: rest).drop (value.length + 1) = rest := by
      rw [List.drop_append, List.drop_of_length_le (by omega)]
      simp
    rw [parseDataField, if_neg hle]
    dsimp only
    rw [htop]
    dsimp only
    rw [hdrop, List.take_left]
    rfl
  have hvalue : parseValue settings dict size (value ++ internalSohChar :: rest)
      { st with tag := tag, tagCount := st.tagCount + 1 } = .ok (some rest,
        (st.started tag).modify (fun m => m.setFieldView tag value false) top.group) := by
    rcases parseValue_eq settings dict size (value ++ internalSohChar :: rest)
      { st with tag := tag, tagCount := st.tagCount + 1 } with
      ⟨len, hlen, -, hvalue⟩ | ⟨hnot, -⟩
    · have heq : len = value.length := Option.some.inj (hlen.symm.trans hlength)
      rw [hvalue, heq]
      dsimp only
      rw [hfield]
      rfl
    · rcases hnot with hnone | hne
      · cases hlength.symm.trans hnone
      · exact absurd htype hne
  cases htext : fieldText tag value ++ internalSohChar :: rest with
  | nil => simp at htext
  | cons c cs =>
      have hsplit := htagged.split
      rw [htext] at hsplit
      rw [parseRound, hsplit]
      dsimp only
      rw [htag, if_neg (Int.not_lt.mpr hlow), horder, hvalue]
      rfl

/-! ## The contents of one map -/

/-- The parser is in the map of the entry `g`, which holds `c` when the groups that are open
in it are finished.  Where the length that is announced is its `own`, it is from the last of its
fields. -/
structure Inside (settings : SessionSettings) (st : ParseState) (base : Message)
    (specs : List GroupSpec) (g : ParserGroupInfo) (below : List ParserGroupInfo)
    (spec : GroupSpec) (m : FieldMap) (tags : List Int) (c : Content) (announced : Option Nat)
    (own : Bool) : Prop where
  standing : ∃ opened raw, Standing settings st base opened specs g below raw m
  spec_eq : g.spec = some spec
  counted : 3 ≤ st.tagCount
  announces : st.dataLength = announced
  alone : own = true → announced.isSome = true → specs = [] ∧ c ≠ .nil
  holds : m.Holds tags c

theorem Spine.of_nil {ref : GroupRef} {raw m : FieldMap} {opened : List ParserGroupInfo}
    (h : Spine settings ref raw opened [] m) : opened = [] ∧ raw = m := by
  generalize hspecs : ([] : List GroupSpec) = specs at h
  cases h with
  | nil => exact ⟨rfl, rfl⟩
  | cons _ _ _ => simp at hspecs

theorem append_field_ne_nil (c : Content) (tag : Int) (value : Bytes) :
    c.append (.field tag value .nil) ≠ .nil := by
  cases c with
  | nil => exact fun h => by cases h
  | field _ _ _ => exact fun h => by cases h
  | group _ _ _ _ => exact fun h => by cases h

variable {base : Message} {specs : List GroupSpec} {g : ParserGroupInfo}
  {below : List ParserGroupInfo} {spec : GroupSpec} {m : FieldMap} {tags : List Int} {c : Content}
  {announced : Option Nat} {own : Bool}

theorem Inside.weaken (h : Inside settings st base specs g below spec m tags c announced own) :
    Inside settings st base specs g below spec m tags c announced false :=
  { h with alone := fun hown => by cases hown }

theorem isPlainTag_iff : isPlainTag tag = true ↔
    (0 ≤ tag ∧ tag < 2147483648) ∧ isIgnoredTag tag = false := by
  rw [isPlainTag, Bool.and_eq_true, Bool.and_eq_true, decide_eq_true_eq, decide_eq_true_eq,
    Bool.not_eq_true']

theorem ne_bodyLength (h : isIgnoredTag tag = false) : tag ≠ Field.bodyLength := by
  rintro rfl
  cases h

theorem render_field (tag : Int) (value : Bytes) (texts : List Bytes) (rest : Bytes) :
    render internalSohChar (fieldText tag value :: texts) ++ rest =
      fieldText tag value ++ internalSohChar :: (render internalSohChar texts ++ rest) := by
  rw [render_cons]
  simp only [List.append_assoc, List.cons_append, List.nil_append]

/-- A field that is read by its length. -/
theorem Inside.data (h : Inside settings st base specs g below spec m tags c announced true)
    (htags : tag ∉ tags) (hplain : isPlainTag tag = true)
    (hdata : dict.readAsData announced tag = true) (hlength : announced = some value.length) :
    ∃ st' m',
      ReadTo settings dict size (fieldText tag value ++ internalSohChar :: rest) st rest st' ∧
      m.KeptIn m' ∧ Inside settings st' base [] g below spec m' (tags ++ [tag])
        (c.append (.field tag value .nil)) none true := by
  obtain ⟨opened, raw, hst⟩ := h.standing
  obtain ⟨hrange, hignored⟩ := isPlainTag_iff.mp hplain
  rw [Dictionary.readAsData, Bool.and_eq_true, decide_eq_true_eq] at hdata
  obtain ⟨rfl, hc⟩ := h.alone rfl hdata.1
  obtain ⟨rfl, rfl⟩ := hst.spine.of_nil
  have htop : st.stack.head? = some g := by rw [hst.stack]; rfl
  have hround : parseRound settings dict size
      (fieldText tag value ++ internalSohChar :: rest, st) = .ok (.inl (rest,
        (st.started tag).modify (fun m => m.setFieldView tag value false) g.group)) :=
    parseRound_data hrange.1 hrange.2 (checkTagOrder_of_le h.counted tag)
      (h.announces.trans hlength) hdata.2 htop
  have hset : raw.setFieldView tag value false = raw.withField tag value := by
    rw [FieldMap.fields_setFieldView, AssocList.set_of_not_mem _ (by rwa [h.holds.keys])]
    rfl
  refine ⟨_, raw.withField tag value, ⟨.tail .refl hround, rfl, rfl, Nat.le_succ _⟩,
    FieldMap.keptIn_of_append rfl rfl,
    ⟨⟨[], raw.withField tag value, hst.stack, ?_, hst.valid, .nil⟩, h.spec_eq,
      Nat.le_succ_of_le h.counted, rfl, (fun _ hnone => by cases hnone),
      h.holds.withField htags hignored hc⟩⟩
  show st.msg.modify _ _ = _
  rw [hst.msg, Message.put_modify, hset]

variable (size rest) in
/-- A field that the entry takes, wherever it stands in the text. -/
theorem Standing.reads {opened : List ParserGroupInfo} {raw : FieldMap}
    (h : Standing settings st base opened specs g below raw m) (hspec : g.spec = some spec)
    (hholds : m.Holds tags c) (htags : tag ∉ tags) (hrange : 0 ≤ tag ∧ tag < 2147483648)
    (horder : checkTagOrder settings st.tagCount tag = .ok ())
    (hdata : dict.readAsData st.dataLength tag = false)
    (htakes : spec.takes dict specs tag value = true) :
    ∃ st', parseRound settings dict size (fieldText tag value ++ internalSohChar :: rest, st) =
        .ok (.inl (rest, st')) ∧
      Standing settings st' base [] [] g below (m.setFieldViewOrDetectDup tag value).2
        (m.setFieldViewOrDetectDup tag value).2 ∧
      st' = { (st.started tag).noteBodyLength ⟨tag, value, size - (rest.length + 1)⟩ with
        msg := st'.msg
        stack := g :: below
        dataLength := dict.lengthOf tag value } := by
  have hclean : internalSohChar ∉ value := by
    rw [GroupSpec.takes, Bool.and_eq_true, Bool.and_eq_true, decide_eq_true_eq] at htakes
    exact htakes.1.2
  have hstarted : Standing settings (st.started tag) base opened specs g below raw m :=
    ⟨h.stack, h.msg, h.valid, h.spine⟩
  have hround : parseRound settings dict size
      (fieldText tag value ++ internalSohChar :: rest, st) = .ok (.inl (rest, _)) :=
    parseRound_field hrange.1 hrange.2 horder hdata hclean (hstarted.field hspec htakes
      (fun hmem => htags (hholds.seen tag hmem)) (by rwa [hholds.keys]))
  refine ⟨_, hround, ⟨rfl, rfl, h.valid, .nil⟩, ?_⟩
  dsimp only
  congr 1
  exact Option.or_none

/-- A field that the entry takes. -/
theorem Inside.field (h : Inside settings st base specs g below spec m tags c announced own)
    (htags : tag ∉ tags) (hplain : isPlainTag tag = true)
    (hdata : dict.readAsData announced tag = false)
    (htakes : spec.takes dict specs tag value = true) :
    ∃ st' m',
      ReadTo settings dict size (fieldText tag value ++ internalSohChar :: rest) st rest st' ∧
      m.KeptIn m' ∧ Inside settings st' base [] g below spec m' (tags ++ [tag])
        (c.append (.field tag value .nil)) (dict.lengthOf tag value) true := by
  obtain ⟨opened, raw, hst⟩ := h.standing
  obtain ⟨hrange, hignored⟩ := isPlainTag_iff.mp hplain
  obtain ⟨st', hround, hst', heq⟩ := hst.reads size rest h.spec_eq h.holds htags hrange
    (checkTagOrder_of_le h.counted tag) (by rwa [h.announces]) htakes
  rw [noteBodyLength_of_ne (ne_bodyLength hignored)] at heq
  have hholds : (m.setFieldViewOrDetectDup tag value).2.Holds (tags ++ [tag])
      (c.append (.field tag value .nil)) := by
    have hadd := @FieldMap.Holds.detectDup m tags c tag value h.holds htags
    rwa [hignored, if_neg Bool.false_ne_true] at hadd
  have hkept := FieldMap.fields_append (ParseState.detectDup_new
    (fun hmem => htags (h.holds.seen tag hmem)) (by rwa [h.holds.keys]) value)
  refine ⟨st', _, ⟨.tail .refl hround, by rw [heq]; rfl, by rw [heq]; rfl, ?_⟩,
    FieldMap.keptIn_of_append hkept.1 hkept.2,
    ⟨⟨[], _, hst'⟩, h.spec_eq, ?_, by rw [heq], fun _ _ => ⟨rfl, append_field_ne_nil c tag value⟩,
      hholds⟩⟩
  · rw [heq]
    exact Nat.le_succ _
  · rw [heq]
    exact Nat.le_succ_of_le h.counted

/-- A count, which opens the first instance of its group. -/
theorem Inside.group {groupSpec : GroupSpec}
    (h : Inside settings st base [] g below spec m tags c announced own) (htags : tag ∉ tags)
    (hplain : isPlainTag tag = true) (hfield : spec.hasField tag = false)
    (hgroup : spec.findGroup tag = some groupSpec) (htype : dict.getFieldType tag ≠ .length)
    (hdata : dict.readAsData announced tag = false)
    (hclean : internalSohChar ∉ value) (hcount : 0 ≤ fastParseTag value)
    (hroom : below.length + 1 < groupStackSlots) :
    ∃ st', ReadTo settings dict size (fieldText tag value ++ internalSohChar :: rest) st rest st' ∧
      Inside settings st' (base.put g.group ((m.withField tag value).withInstances tag [.new])) []
        (openedInfo g groupSpec ⟨tag, value, 0⟩) (g :: below) groupSpec .new [] .nil none
        true := by
  obtain ⟨opened, raw, hst⟩ := h.standing
  obtain ⟨hrange, hignored⟩ := isPlainTag_iff.mp hplain
  obtain ⟨rfl, rfl⟩ := hst.spine.of_nil
  have hgroups : tag ∉ AssocList.keys raw.groups := fun hmem => htags (h.holds.groups tag hmem)
  have hstarted : Standing settings (st.started tag) base [] [] g below raw raw :=
    ⟨hst.stack, hst.msg, hst.valid, .nil⟩
  have hround : parseRound settings dict size
      (fieldText tag value ++ internalSohChar :: rest, st) = .ok (.inl (rest, _)) :=
    parseRound_field hrange.1 hrange.2 (checkTagOrder_of_le h.counted tag)
      (by rwa [h.announces]) hclean (hstarted.openGroup h.spec_eq hfield hgroup
        (by rwa [h.holds.keys]) hgroups htype (ne_bodyLength hignored) hcount hroom)
  have hput := Message.put_last (m := raw.withField tag value) hgroups base g.group [] .new .new
  refine ⟨_, ⟨.tail .refl hround, rfl, rfl, Nat.le_succ _⟩,
    ⟨⟨[], .new, rfl, hput.symm, ?_, .nil⟩, rfl, Nat.le_succ_of_le h.counted, rfl,
      (fun _ hnone => by cases hnone), FieldMap.holds_new⟩⟩
  exact Message.valid_instance (m := raw.withField tag value) hgroups hst.valid (by simp)

/-- The entry `e` is for the instance behind those of `done`, in the map `x` of the entry `p`. -/
structure Numbered (base : Message) (p e : ParserGroupInfo) (x : FieldMap) (done : List FieldMap) :
    Prop where
  group : e.group = p.group.child e.groupTag done.length
  pos : 0 < e.groupTag
  valid : base.Valid p.group
  fresh : e.groupTag ∉ AssocList.keys x.groups
  count : e.groupCount = done.length + 1

variable {p e : ParserGroupInfo} {x : FieldMap} {done : List FieldMap}

/-- The entry of the next instance. -/
def nextInfo (e p : ParserGroupInfo) (done : List FieldMap) : ParserGroupInfo :=
  { e with
    group := p.group.child e.groupTag (done.length + 1)
    groupCount := e.groupCount + 1 }

theorem complete_of_admits (h : spec.admits settings tags = true) :
    spec.complete settings tags = true := by
  rw [GroupSpec.admits, Bool.and_eq_true] at h
  exact h.1

theorem nodup_of_complete (h : spec.complete settings tags = true) : tags.Nodup := by
  rw [GroupSpec.complete, Bool.and_eq_true, decide_eq_true_eq] at h
  exact h.1

/-- The tag that the instances start with, once more. -/
theorem Inside.next
    (h : Inside settings st (base.put p.group (x.withInstances e.groupTag (done ++ [.new]))) specs e
      (p :: below) spec m tags c announced own)
    (hdata : dict.readAsData announced tag = false) (he : Numbered base p e x done)
    (hmax : e.groupCount < e.groupMaxCount) (hadmits : spec.admits settings tags = true)
    (hfirst : c.firstTag? = some tag)
    (htags : tag ∈ tags) (hplain : isPlainTag tag = true)
    (htakes : spec.takes dict specs tag value = true) :
    ∃ st' m',
      ReadTo settings dict size (fieldText tag value ++ internalSohChar :: rest) st rest st' ∧
      Inside settings st'
        (base.put p.group (x.withInstances e.groupTag
          (done ++ [finishMap settings (some spec) m] ++ [.new]))) [] (nextInfo e p done)
        (p :: below) spec m' [tag] (.field tag value .nil) (dict.lengthOf tag value) true := by
  obtain ⟨opened, raw, hst⟩ := h.standing
  obtain ⟨hrange, hignored⟩ := isPlainTag_iff.mp hplain
  have hclean : internalSohChar ∉ value := by
    rw [GroupSpec.takes, Bool.and_eq_true, Bool.and_eq_true, decide_eq_true_eq] at htakes
    exact htakes.1.2
  have hdup : (m.setFieldViewOrDetectDup tag value).1 = true := by
    rw [FieldMap.setFieldViewOrDetectDup]
    split
    next hlow => rw [if_pos (h.holds.marked tag hfirst hlow.1 hlow.2)]
    next =>
      have hmem : tag ∈ AssocList.keys m.fields := by rwa [h.holds.keys]
      rw [if_pos (AssocList.find?_isSome_iff.mpr hmem)]
  have hstarted : Standing settings (st.started tag)
      (base.put p.group (x.withInstances e.groupTag (done ++ [.new]))) opened specs e (p :: below)
      raw m := ⟨hst.stack, hst.msg, hst.valid, hst.spine⟩
  have hround : parseRound settings dict size
      (fieldText tag value ++ internalSohChar :: rest, st) = .ok (.inl (rest, _)) :=
    parseRound_field hrange.1 hrange.2 (checkTagOrder_of_le h.counted tag)
      (by rwa [h.announces]) hclean (hstarted.next he.group h.spec_eq he.pos he.valid he.fresh
        hmax htakes hdup fun hvalidate =>
          FieldMap.has_of_complete h.holds (complete_of_admits hadmits) hvalidate)
  generalize hfin : finishMap settings (some spec) m = fin at hround
  generalize hnew : (FieldMap.new.setFieldViewOrDetectDup tag value).2 = m' at hround
  have hholds : m'.Holds [tag] (.field tag value .nil) := by
    have hadd := @FieldMap.Holds.detectDup .new [] .nil tag value FieldMap.holds_new (by simp)
    rw [hignored, if_neg Bool.false_ne_true, hnew] at hadd
    exact hadd
  have hlength : (done ++ [fin]).length = done.length + 1 := by simp
  have hput := Message.put_last he.fresh base p.group (done ++ [fin]) .new m'
  have hvalid : (base.put p.group (x.withInstances e.groupTag (done ++ [fin] ++ [.new]))).Valid
      (p.group.child e.groupTag (done ++ [fin]).length) :=
    Message.valid_instance he.fresh he.valid (by simp)
  rw [hlength] at hput hvalid
  refine ⟨_, m', ⟨.tail .refl hround, rfl, rfl, Nat.le_succ _⟩,
    ⟨⟨[], m', rfl, ?_, hvalid, .nil⟩, h.spec_eq, Nat.le_succ_of_le h.counted, Option.or_none,
      fun _ _ => ⟨rfl, fun hnil => by cases hnil⟩, hholds⟩⟩
  rw [nextInfo, hput, List.append_assoc]
  rfl

theorem nodup_of_admits (h : spec.admits settings tags = true) : tags.Nodup :=
  nodup_of_complete (complete_of_admits h)

theorem mem_tags_of_firstTag? (h : c.firstTag? = some tag) : tag ∈ c.tags := by
  cases c with
  | nil => cases h
  | field tag' value rest =>
      cases h
      exact List.mem_cons_self ..
  | group tag' count instances rest => cases h

theorem hasField_of_firstTag? {depth : Nat}
    (h : c.conforms settings dict spec depth [] none own = true) (hfirst : c.firstTag? = some tag) :
    spec.hasField tag = true := by
  cases c with
  | nil => cases hfirst
  | field tag' value rest =>
      cases hfirst
      obtain ⟨-, ⟨hdata, -⟩ | ⟨-, htakes, -⟩⟩ := Content.conforms_field h
      · cases hdata
      · rw [GroupSpec.takes, Bool.and_eq_true, Bool.and_eq_true, Bool.and_eq_true] at htakes
        exact htakes.1.1.1
  | group tag' count instances rest => cases hfirst

theorem takes_of_refusedBy (h : spec.takes dict [] tag value = true)
    (hrefused : refusedBy specs tag = true) : spec.takes dict specs tag value = true := by
  rw [GroupSpec.takes, Bool.and_eq_true, Bool.and_eq_true, Bool.and_eq_true] at h ⊢
  exact ⟨⟨⟨h.1.1.1, hrefused⟩, h.1.2⟩, h.2⟩

section

variable (size)

mutual

/-- The text of contents that conform is read, and the map says what it said and these. -/
theorem run_content : ∀ (c' : Content) {st : ParseState} {base : Message} {specs : List GroupSpec}
    {g : ParserGroupInfo} {below : List ParserGroupInfo} {spec : GroupSpec} {m : FieldMap}
    {tags : List Int} {c : Content} {announced : Option Nat} {own : Bool},
    Inside settings st base specs g below spec m tags c announced own → (tags ++ c'.tags).Nodup →
    c'.conforms settings dict spec below.length specs announced own = true → ∀ rest : Bytes,
    ∃ st' m', ReadTo settings dict size (render internalSohChar c'.texts ++ rest) st rest st' ∧
      m.KeptIn m' ∧ Inside settings st' base (c'.leftOpen spec specs) g below spec m'
        (tags ++ c'.tags) (c.append c') (c'.announces dict announced) false
  | .nil, st, base, specs, g, below, spec, m, tags, c, announced, own, h, _, _, rest => by
      rw [Content.tags, List.append_nil, Content.append_nil]
      exact ⟨st, m, .refl _ st, .refl m, h.weaken⟩
  | .field tag value c', st, base, specs, g, below, spec, m, tags, c, announced, own, h,
      hnodup, hconforms, rest => by
      have htags : tag ∉ tags := by
        intro hmem
        exact (List.nodup_append.mp hnodup).2.2 tag hmem tag (List.mem_cons_self ..) rfl
      have hsplit : tags ++ (Content.field tag value c').tags = tags ++ [tag] ++ c'.tags := by
        rw [Content.tags, List.append_cons]
      have hcontent : c.append (.field tag value c') =
          (c.append (.field tag value .nil)).append c' :=
        (c.append_assoc (.field tag value .nil) c').symm
      rw [hsplit] at hnodup
      rw [Content.texts, render_field, Content.leftOpen, Content.announces, hsplit, hcontent]
      obtain ⟨hplain, ⟨hdata, rfl, hlength, hrest⟩ | ⟨hdata, htakes, hrest⟩⟩ :=
        Content.conforms_field hconforms
      · rw [hdata, if_pos rfl]
        obtain ⟨st₁, m₁, hread, hkept, h₁⟩ := h.data htags hplain hdata hlength
        obtain ⟨st₂, m₂, hread', hkept', h₂⟩ := run_content c' h₁ hnodup hrest rest
        exact ⟨st₂, m₂, hread.trans hread', hkept.trans hkept', h₂⟩
      · rw [hdata, if_neg Bool.false_ne_true]
        obtain ⟨st₁, m₁, hread, hkept, h₁⟩ := h.field htags hplain hdata htakes
        obtain ⟨st₂, m₂, hread', hkept', h₂⟩ := run_content c' h₁ hnodup hrest rest
        exact ⟨st₂, m₂, hread.trans hread', hkept.trans hkept', h₂⟩
  | .group tag count .nil c', st, base, specs, g, below, spec, m, tags, c, announced, own, h,
      hnodup, hconforms, rest => by
      obtain ⟨-, groupSpec, first, hopens⟩ := Content.conforms_group hconforms
      cases hopens.starts
  | .group tag count (.cons c₁ cs) c', st, base, specs, g, below, spec, m, tags, c, announced, own,
      h, hnodup, hconforms, rest => by
      obtain ⟨rfl, groupSpec, first, hopens⟩ := Content.conforms_group hconforms
      have htags : tag ∉ tags := by
        intro hmem
        exact (List.nodup_append.mp hnodup).2.2 tag hmem tag (List.mem_cons_self ..) rfl
      have hsplit : tags ++ (Content.group tag count (.cons c₁ cs) c').tags =
          tags ++ [tag] ++ c'.tags := by
        rw [Content.tags, List.append_cons]
      have hcontent : c.append (.group tag count (.cons c₁ cs) c') =
          (c.append (.group tag count (.cons c₁ cs) .nil)).append c' :=
        (c.append_assoc (.group tag count (.cons c₁ cs) .nil) c').symm
      have htext : render internalSohChar (Content.group tag count (.cons c₁ cs) c').texts ++ rest =
          fieldText tag count ++ internalSohChar :: (render internalSohChar c₁.texts ++
            (render internalSohChar cs.texts ++ (render internalSohChar c'.texts ++ rest))) := by
        rw [Content.texts, render_field, Instances.texts, render_append, render_append,
          List.append_assoc, List.append_assoc]
      rw [hsplit] at hnodup
      rw [htext, Content.leftOpen, hopens.group, Content.announces, Instances.announces, hsplit,
        hcontent]
      obtain ⟨hstart, -, -, hadmits, hc₁, hcs⟩ := Instances.conforms_cons hopens.filed
      have hcount : 0 ≤ fastParseTag count := by
        rw [hopens.length]
        exact Int.natCast_nonneg _
      have hmax : (fastParseTag count).toNat = 0 + 1 + cs.length := by
        rw [hopens.length, Instances.length]
        omega
      obtain ⟨st₁, hread₁, h₁⟩ := h.group htags hopens.plain hopens.field hopens.group
        hopens.length_ne (readAsData_of_ne hopens.data_ne) hopens.clean hcount hopens.room
      obtain ⟨st₂, m₂, hread₂, -, h₂⟩ := run_content c₁ h₁ (nodup_of_admits hadmits) hc₁ _
      have he : Numbered base g (openedInfo g groupSpec ⟨tag, count, 0⟩)
          (m.withField tag count) [] := by
        obtain ⟨opened, raw, hst⟩ := h.standing
        exact ⟨rfl, hopens.pos, hst.valid, fun hmem => htags (h.holds.groups tag hmem), rfl⟩
      obtain ⟨st₃, ms, hread₃, hms, hlength, opened, raw, hst₃⟩ := run_instances cs h₂ he hmax
        (nonempty_of_hasField (hasField_of_firstTag? hc₁ hstart)) hadmits hstart hcs
        (render internalSohChar c'.texts ++ rest)
      have hread := (hread₁.trans hread₂).trans hread₃
      have h₃ : Inside settings st₃ base
          (cs.leftOpen groupSpec (c₁.leftOpen groupSpec []) ++ [groupSpec]) g below spec
          ((m.withField tag count).withInstances tag ms) (tags ++ [tag])
          (c.append (.group tag count (.cons c₁ cs) .nil))
          (cs.announces dict (c₁.announces dict none)) false := by
        refine ⟨⟨opened, raw, hst₃⟩, h.spec_eq, Nat.le_trans h.counted hread.tagCount, hlength,
          (fun hown => by cases hown), ?_⟩
        rw [← hms]
        exact h.holds.withInstances htags (isPlainTag_iff.mp hopens.plain).2 ms
      obtain ⟨st₄, m₄, hread₄, hkept, h₄⟩ := run_content c' h₃ hnodup hopens.behind rest
      have hkept' : m.KeptIn ((m.withField tag count).withInstances tag ms) :=
        FieldMap.keptIn_of_append rfl rfl
      exact ⟨st₄, m₄, hread.trans hread₄, hkept'.trans hkept, h₄⟩

/-- The text of the instances behind the one that is open. -/
theorem run_instances : ∀ (cs : Instances) {st : ParseState} {base : Message}
    {specs : List GroupSpec} {p e : ParserGroupInfo} {below : List ParserGroupInfo}
    {spec : GroupSpec} {x m : FieldMap} {done : List FieldMap} {c : Content} {first : Int}
    {announced : Option Nat},
    Inside settings st (base.put p.group (x.withInstances e.groupTag (done ++ [.new]))) specs e
      (p :: below) spec m c.tags c announced false →
    Numbered base p e x done → e.groupMaxCount = done.length + 1 + cs.length →
    spec.empty = false → spec.admits settings c.tags = true → c.firstTag? = some first →
    cs.conforms settings dict spec (below.length + 1) first specs announced = true →
    ∀ rest : Bytes,
    ∃ st' ms, ReadTo settings dict size (render internalSohChar cs.texts ++ rest) st rest st' ∧
      FieldMap.instanceContents ms = .cons c cs ∧ st'.dataLength = cs.announces dict announced ∧
      ∃ opened raw, Standing settings st' base opened (cs.leftOpen spec specs ++ [spec]) p below raw
        (x.withInstances e.groupTag (done ++ ms))
  | .nil, st, base, specs, p, e, below, spec, x, m, done, c, first, announced, h, he, hmax, hempty,
      hadmits, _, _, rest => by
      obtain ⟨opened, raw, hst⟩ := h.standing
      have hrequired : settings.validateRequiredFields = true → ∀ field ∈ spec.fields,
          field.2 = true → raw.has field.1 = true := by
        intro hvalidate field hfield hreq
        rw [has_congr hst.spine.agree.1]
        exact FieldMap.has_of_complete h.holds (complete_of_admits hadmits) hvalidate field hfield
          hreq
      have hspine := hst.spine
      rw [he.group] at hspine
      refine ⟨st, [finishMap settings (some spec) m], .refl _ st, ?_, h.announces, opened ++ [e],
        x.withInstances e.groupTag (done ++ [raw]), ?_, ?_, he.valid, .cons hspine he.fresh
          ⟨he.group, h.spec_eq, Nat.le_of_eq (hmax.trans he.count.symm), hempty, hrequired⟩⟩
      · rw [FieldMap.instanceContents, FieldMap.content_finishMap h.holds hadmits,
          FieldMap.instanceContents]
      · rw [hst.stack, List.append_assoc]
        rfl
      · rw [hst.msg, he.group, Message.put_last he.fresh]
  | .cons .nil cs, _, _, _, _, _, _, _, _, _, _, _, _, _, _, _, _, _, _, _, hconforms, _ => by
      cases (Instances.conforms_cons hconforms).1
  | .cons (.group _ _ _ _) cs, _, _, _, _, _, _, _, _, _, _, _, _, _, _, _, _, _, _, _,
      hconforms, _ => by
      cases (Instances.conforms_cons hconforms).1
  | .cons (.field tag value c') cs, st, base, specs, p, e, below, spec, x, m, done, c, first,
      announced, h, he, hmax, hempty, hadmits, hfirst, hconforms, rest => by
      obtain ⟨hstart, hrefused, hannounced, hadmits', hc', hcs⟩ :=
        Instances.conforms_cons hconforms
      obtain rfl : tag = first := Option.some.inj hstart
      obtain ⟨hplain, ⟨hdata, -⟩ | ⟨-, htakes, hrest⟩⟩ := Content.conforms_field hc'
      · cases hdata
      have hless : e.groupCount < e.groupMaxCount := by
        rw [hmax, he.count, Instances.length]
        omega
      have htext : render internalSohChar (Instances.cons (.field tag value c') cs).texts ++ rest =
          fieldText tag value ++ internalSohChar :: (render internalSohChar c'.texts ++
            (render internalSohChar cs.texts ++ rest)) := by
        rw [Instances.texts, Content.texts, List.cons_append, render_field, render_append,
          List.append_assoc]
      have hfield : (Content.field tag value c').announces dict none =
          c'.announces dict (dict.lengthOf tag value) := by rw [Content.announces]; rfl
      rw [Content.leftOpen, hfield] at hcs
      rw [htext, Instances.leftOpen, Content.leftOpen, Instances.announces, hfield]
      obtain ⟨st₁, m₁, hread₁, h₁⟩ := h.next hannounced he hless hadmits hfirst (mem_tags_of_firstTag? hfirst)
        hplain (takes_of_refusedBy htakes hrefused)
      obtain ⟨st₂, m₂, hread₂, -, h₂⟩ := run_content c' h₁ (nodup_of_admits hadmits') hrest _
      have he' : Numbered base p (nextInfo e p done) x
          (done ++ [finishMap settings (some spec) m]) := by
        refine ⟨?_, he.pos, he.valid, he.fresh, ?_⟩
        · rw [List.length_append]
          rfl
        · rw [List.length_append, nextInfo, he.count]
          rfl
      have hmax' : (nextInfo e p done).groupMaxCount =
          (done ++ [finishMap settings (some spec) m]).length + 1 + cs.length := by
        rw [List.length_append, nextInfo, hmax, Instances.length, List.length_singleton]
        omega
      obtain ⟨st₃, ms, hread₃, hms, hlength, opened, raw, hst₃⟩ :=
        run_instances cs h₂ he' hmax' hempty hadmits' rfl hcs rest
      refine ⟨st₃, finishMap settings (some spec) m :: ms, (hread₁.trans hread₂).trans hread₃, ?_,
        hlength, opened, raw, ?_⟩
      · rw [FieldMap.instanceContents, FieldMap.content_finishMap h.holds hadmits, hms]
      · have happend := List.append_cons done (finishMap settings (some spec) m) ms
        rw [happend]
        exact hst₃

end

end

end ParseState

end OpenFix
