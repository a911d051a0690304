import Mathlib.Algebra.Order.BigOperators.Group.List
import OpenFix.Agreement
import OpenFix.Clock
import OpenFix.ReadBack
import OpenFix.RoundTrip

/-!
# What a session says is read by its peer

A session stamps a message that the dictionary created and in which it set some fields of
the body.  Such a message has no groups, and what it says are its fields.  When the
dictionary of the peer lists these fields the message conforms to it
(`Message.Says.conforms`), so the peer reads what was said (`Message.Conforms.parse_eq`).
-/

namespace OpenFix

/-! ## Maps of plain fields -/

namespace FieldMap

/-- The map has these fields and no groups. -/
structure Filled (m : FieldMap) (fields : List (Int × Bytes)) : Prop where
  groups : m.groups = []
  keys : (AssocList.keys m.fields).Perm (AssocList.keys fields)
  nodup : (AssocList.keys fields).Nodup
  value : ∀ f ∈ fields, m.field? f.1 = some f.2

/-- The fields are set one after the other. -/
def fillWith (m : FieldMap) (fields : List (Int × Bytes)) : FieldMap :=
  fields.foldl (fun m f => m.setField f.1 f.2 true) m

theorem keys_insertFieldView_perm {m : FieldMap} {tag : Int} (h : tag ∉ AssocList.keys m.fields)
    (v : View) (order : Bool) : (AssocList.keys (m.insertFieldView tag v order).fields).Perm
      (tag :: AssocList.keys m.fields) := by
  have hset : (AssocList.keys (AssocList.set tag v m.fields)).Perm
      (tag :: AssocList.keys m.fields) := by
    rw [AssocList.keys_set, if_neg h]
    exact List.perm_append_singleton tag _
  unfold insertFieldView
  split
  · split
    · have hperm := keys_insertOrdered_perm tag v m.fields
      rw [if_neg h] at hperm
      exact hperm _
    · exact hset
  · exact hset

theorem groups_insertFieldView (m : FieldMap) (tag : Int) (v : View) (order : Bool) :
    (m.insertFieldView tag v order).groups = m.groups := by
  unfold insertFieldView
  split
  · split
    · rfl
    · rfl
  · rfl

theorem keys_insertFieldView_new {m : FieldMap} {tag : Int} {tags : List Int}
    (hkeys : AssocList.keys m.fields = tags) (h : tag ∉ tags) (v : View) :
    AssocList.keys (m.insertFieldView tag v false).fields = tags ++ [tag] := by
  have hset : AssocList.keys (AssocList.set tag v m.fields) = tags ++ [tag] := by
    rw [AssocList.keys_set, hkeys, if_neg h]
  unfold insertFieldView
  split
  · exact hset
  · exact hset

theorem keys_setField_new {m : FieldMap} {tag : Int} {tags : List Int}
    (hkeys : AssocList.keys m.fields = tags) (h : tag ∉ tags) (value : Bytes) :
    AssocList.keys (m.setField tag value false).fields = tags ++ [tag] := by
  unfold setField
  exact keys_insertFieldView_new (m := { m with owned := _, capacity := _ }) hkeys h _

namespace Filled

variable {m m' : FieldMap} {fields : List (Int × Bytes)} {tag : Int} {value : Bytes}

theorem new (spec : GroupSpec) : (FieldMap.new.setSpec (some spec)).Filled [] :=
  ⟨rfl, List.Perm.refl _, List.nodup_nil, fun _ hf => absurd hf List.not_mem_nil⟩

theorem not_mem (h : m.Filled fields) (htag : tag ∉ AssocList.keys fields) :
    tag ∉ AssocList.keys m.fields := fun hmem => htag (h.keys.mem_iff.mp hmem)

theorem field?_none (h : m.Filled fields) (htag : tag ∉ AssocList.keys fields) :
    m.field? tag = none := by
  rw [FieldMap.field?, AssocList.find?_eq_none_iff.mpr (h.not_mem htag)]
  rfl

/-- One more field. -/
theorem add (h : m.Filled fields) (htag : tag ∉ AssocList.keys fields)
    (hgroups : m'.groups = m.groups)
    (hkeys : (AssocList.keys m'.fields).Perm (tag :: AssocList.keys m.fields))
    (hself : m'.field? tag = some value) (hother : ∀ t, t ≠ tag → m'.field? t = m.field? t) :
    m'.Filled (fields ++ [(tag, value)]) := by
  have happend : AssocList.keys (fields ++ [(tag, value)]) = AssocList.keys fields ++ [tag] :=
    List.map_append
  refine ⟨hgroups.trans h.groups, ?_, ?_, fun f hf => ?_⟩
  · rw [happend]
    exact hkeys.trans ((h.keys.cons tag).trans (List.perm_append_singleton tag _).symm)
  · rw [happend]
    exact h.nodup.append (List.nodup_singleton tag) (by simpa using htag)
  · rcases List.mem_append.mp hf with hf | hf
    · rw [hother _ fun heq => htag (heq ▸ List.mem_map_of_mem hf), h.value f hf]
    · rw [List.mem_singleton.mp hf, hself]

theorem setField {t : Int} (h : m.Filled fields) (htag : t ∉ AssocList.keys fields)
    (value : Bytes) (order : Bool) :
    (m.setField t value order).Filled (fields ++ [(t, value)]) := by
  have hnew := h.not_mem htag
  refine h.add htag (groups_setField ..) ?_ ?_ fun _ ht => field?_setField_ne ht ..
  · unfold FieldMap.setField
    exact keys_insertFieldView_perm (m := { m with owned := _, capacity := _ }) hnew _ order
  · exact field?_setField_self _ _ _ _ (.inr fun v hv =>
      absurd (AssocList.find?_isSome_iff.mp (by rw [hv]; rfl)) hnew)

theorem setFieldView (h : m.Filled fields) (htag : tag ∉ AssocList.keys fields) (value : Bytes) :
    (m.setFieldView tag value false).Filled (fields ++ [(tag, value)]) :=
  h.add htag (groups_insertFieldView ..) (keys_insertFieldView_perm (h.not_mem htag) _ false)
    (field?_setFieldView_self ..) fun _ ht => field?_setFieldView_ne ht ..

/-- Fields that are set one after the other are all there. -/
theorem fillWith : ∀ {more fields : List (Int × Bytes)} {m : FieldMap}, m.Filled fields →
    (AssocList.keys (fields ++ more)).Nodup → (m.fillWith more).Filled (fields ++ more)
  | [], _, _, h, _ => by
      rw [List.append_nil]
      exact h
  | f :: more, fields, m, h, hnodup => by
      have htag : f.1 ∉ AssocList.keys fields := by
        rw [AssocList.keys, List.map_append] at hnodup
        intro hmem
        exact (List.disjoint_of_nodup_append hnodup) hmem (List.mem_cons_self ..)
      rw [List.append_cons] at hnodup ⊢
      exact (h.setField htag f.2 true).fillWith hnodup

theorem perm {fields' : List (Int × Bytes)} (h : m.Filled fields) (hperm : fields.Perm fields') :
    m.Filled fields' where
  groups := h.groups
  keys := h.keys.trans (hperm.map _)
  nodup := ((hperm.map Prod.fst).nodup_iff).mp h.nodup
  value f hf := h.value f (hperm.mem_iff.mpr hf)

/-- A field gets another value. -/
theorem overwrite {t : Int} (h : m.Filled fields) (htag : t ∈ AssocList.keys fields)
    {shown : Bytes} {order : Bool} (hshown : (m.setField t value order).field? t = some shown) :
    (m.setField t value order).Filled (AssocList.set t shown fields) := by
  have hmem : t ∈ AssocList.keys m.fields := h.keys.mem_iff.mpr htag
  have hkeys : (AssocList.keys (m.setField t value order).fields).Perm
      (AssocList.keys m.fields) := by
    have hset : ∀ v : View, (AssocList.keys (AssocList.set t v m.fields)).Perm
        (AssocList.keys m.fields) := fun v => by
      rw [AssocList.keys_set, if_pos hmem]
    unfold FieldMap.setField FieldMap.insertFieldView
    dsimp only
    split
    · split
      · have hperm := fun v order => keys_insertOrdered_perm t v m.fields order
        simp only [hmem, if_true] at hperm
        exact hperm _ _
      · exact hset _
    · exact hset _
  have hfields : AssocList.keys (AssocList.set t shown fields) = AssocList.keys fields := by
    rw [AssocList.keys_set, if_pos htag]
  refine ⟨(groups_setField ..).trans h.groups, ?_, by rw [hfields]; exact h.nodup, fun f hf => ?_⟩
  · rw [hfields]
    exact hkeys.trans h.keys
  · by_cases heq : f.1 = t
    · have hfind := AssocList.find?_of_mem (by rw [hfields]; exact h.nodup) hf
      rw [heq, AssocList.find?_set_self] at hfind
      rw [heq, hshown, hfind]
    · rw [field?_setField_ne heq]
      rcases AssocList.mem_set hf with rfl | hf
      · exact absurd rfl heq
      · exact h.value f hf

theorem mem_plainKeys (h : m.Filled fields) (htag : tag ∈ m.plainKeys) :
    isIgnoredTag tag = false ∧ ∃ value, (tag, value) ∈ fields ∧ m.field? tag = some value := by
  obtain ⟨hmem, hplain⟩ := List.mem_filter.mp htag
  obtain ⟨f, hf, rfl⟩ := List.mem_map.mp (h.keys.mem_iff.mp hmem)
  exact ⟨by simpa using hplain, f.2, hf, h.value f hf⟩

theorem nodup_plainKeys (h : m.Filled fields) : m.plainKeys.Nodup :=
  (h.keys.nodup_iff.mpr h.nodup).filter _

/-- What the map says are its fields. -/
theorem content_eq (h : m.Filled fields) : m.content =
    m.plainKeys.foldr (tagStep (fun tag => (m.field? tag).getD []) fun _ => none) .nil := by
  rw [content_eq_tags h.nodup_plainKeys, h.groups]
  rfl

end Filled

/-- The type stands in front, in a header that is ordered. -/
structure Fronted (spec : GroupSpec) (m : FieldMap) : Prop where
  spec : m.spec = some spec
  front : ∃ tags, AssocList.keys m.fields = Field.msgType :: tags

variable {m : FieldMap} {spec : GroupSpec} {rest : List Int}

/-- A field that is set later stands behind the type. -/
theorem Fronted.setField {t : Int} (h : m.Fronted spec) (hordered : spec.ordered = true)
    (horder : spec.fieldOrder = Field.beginString :: Field.bodyLength :: Field.msgType :: rest)
    (htag : t ∉ [Field.beginString, Field.bodyLength, Field.msgType]) (value : Bytes) :
    (m.setField t value true).Fronted spec := by
  obtain ⟨tags, htags⟩ := h.front
  simp only [List.mem_cons, List.not_mem_nil, or_false, not_or] at htag
  obtain ⟨hbegin, hlength, htype⟩ := htag
  refine ⟨?_, ?_⟩
  · unfold FieldMap.setField
    rw [spec_insertFieldView]
    exact h.spec
  · obtain ⟨v, l, hfields⟩ : ∃ v l, m.fields = (Field.msgType, v) :: l := by
      cases hfields : m.fields with
      | nil =>
          rw [hfields] at htags
          cases htags
      | cons p l =>
          obtain ⟨tag, v⟩ := p
          rw [hfields] at htags
          cases htags
          exact ⟨v, l, rfl⟩
    have hdrop : spec.fieldOrder.dropWhile (fun o => o ≠ Field.msgType ∧ o ≠ t) =
        Field.msgType :: rest := by
      rw [horder, List.dropWhile_cons_of_pos (by simp [Ne.symm hbegin]),
        List.dropWhile_cons_of_pos (by simp [Ne.symm hlength]),
        List.dropWhile_cons_of_neg (by simp)]
    unfold FieldMap.setField insertFieldView
    simp only [h.spec, hordered, Bool.and_self, if_true, hfields, insertOrdered, htype, if_false,
      hdrop, List.head?_cons, Option.some.injEq, Ne.symm htype]
    exact ⟨_, rfl⟩

theorem Fronted.fillWith (hordered : spec.ordered = true)
    (horder : spec.fieldOrder = Field.beginString :: Field.bodyLength :: Field.msgType :: rest) :
    ∀ (fields : List (Int × Bytes)) {m : FieldMap}, m.Fronted spec →
      (∀ f ∈ fields, f.1 ∉ [Field.beginString, Field.bodyLength, Field.msgType]) →
      (m.fillWith fields).Fronted spec
  | [], _, h, _ => h
  | f :: fields, _, h, hfields =>
      Fronted.fillWith hordered horder fields
        (h.setField hordered horder (hfields f (List.mem_cons_self ..)) f.2)
        fun g hg => hfields g (List.mem_cons_of_mem _ hg)

theorem Fronted.plainKeys (h : m.Fronted spec) :
    ∃ tags, m.plainKeys = Field.msgType :: tags := by
  obtain ⟨tags, htags⟩ := h.front
  rw [FieldMap.plainKeys, htags]
  exact ⟨_, rfl⟩

end FieldMap

/-! ## Contents of plain fields -/

/-- A message of the specification may have the field, which is not a LENGTH. -/
structure Dictionary.Plain (dict : Dictionary) (spec : GroupSpec) (tag : Int) : Prop where
  plain : isPlainTag tag = true
  field : spec.hasField tag = true
  type : dict.getFieldType tag ≠ .length

section

variable {settings : SessionSettings} {dict : Dictionary} {spec : GroupSpec} {depth : Nat}
  {value : Int → Bytes}

theorem Content.conforms_plain : ∀ {tags : List Int},
    (∀ tag ∈ tags, dict.Plain spec tag ∧ internalSohChar ∉ value tag) →
      (tags.foldr (FieldMap.tagStep value fun _ => none) .nil).conforms settings dict spec depth
          [] none true = true ∧
        (tags.foldr (FieldMap.tagStep value fun _ => none) .nil).announces dict none = none
  | [], _ => ⟨rfl, rfl⟩
  | tag :: tags, h => by
      obtain ⟨hplain, hclean⟩ := h tag (List.mem_cons_self ..)
      obtain ⟨hconforms, hannounces⟩ :=
        Content.conforms_plain fun t ht => h t (List.mem_cons_of_mem _ ht)
      have hlength : dict.lengthOf tag (value tag) = none := if_neg hplain.type
      have htakes : spec.takes dict [] tag (value tag) = true := by
        rw [GroupSpec.takes, hplain.field, Dictionary.hasLength, decide_eq_true hplain.type,
          decide_eq_true hclean]
        rfl
      have hdata : dict.readAsData none tag = false := rfl
      rw [List.foldr_cons, FieldMap.tagStep, Content.conforms, Content.announces, hplain.plain,
        hdata, htakes, hlength]
      exact ⟨hconforms, hannounces⟩

theorem Content.leftOpen_plain : ∀ tags : List Int,
    (tags.foldr (FieldMap.tagStep value fun _ => none) .nil).leftOpen spec [] = []
  | [] => rfl
  | _ :: tags => Content.leftOpen_plain tags

end

/-! ## The length of a text -/

/-- A bound for the length of the text of some fields. -/
def fieldsLength (fields : List (Int × Bytes)) : Nat := (fields.map fun f => f.2.length + 13).sum

theorem length_toChars_le {i : Int} (h : -2147483648 ≤ i ∧ i < 2147483648) :
    (toChars i).length ≤ 11 := by
  have hdigits : ∀ n : Nat, n < 10 ^ 10 → (natDigits n).length ≤ 10 := fun n hn =>
    (length_natDigits_le_iff (by decide)).mpr hn
  rw [toChars]
  split
  · have := hdigits i.natAbs (by omega)
    rw [List.length_cons]
    omega
  · have := hdigits i.natAbs (by omega)
    omega

theorem length_fieldText_le {tag : Int} (h : -2147483648 ≤ tag ∧ tag < 2147483648)
    (value : Bytes) : (fieldText tag value).length ≤ value.length + 12 := by
  have hchars := length_toChars_le h
  rw [fieldText, appendTagEq, List.length_append, List.length_append]
  simp only [List.length_cons, List.length_nil]
  omega

section

variable {value : Int → Bytes}

/-- The text of plain fields, each with its separator. -/
theorem length_render_plain : ∀ {tags : List Int}, (∀ tag ∈ tags, isPlainTag tag = true) →
    (render internalSohChar (tags.foldr (FieldMap.tagStep value fun _ => none) .nil).texts).length ≤
      (tags.map fun tag => (value tag).length + 13).sum
  | [], _ => Nat.le_refl _
  | tag :: tags, h => by
      have ih := length_render_plain fun t ht => h t (List.mem_cons_of_mem _ ht)
      obtain ⟨⟨h₀, h₁⟩, -⟩ := ParseState.isPlainTag_iff.mp (h tag (List.mem_cons_self ..))
      have htext := length_fieldText_le ⟨by omega, h₁⟩ (value tag)
      rw [List.foldr_cons, FieldMap.tagStep, Content.texts, render_cons, List.map_cons,
        List.sum_cons]
      simp only [List.length_append, List.length_cons, List.length_nil]
      omega

end

theorem FieldMap.Filled.length_render_le {m : FieldMap} {fields : List (Int × Bytes)}
    (h : m.Filled fields) (hplain : ∀ tag ∈ m.plainKeys, isPlainTag tag = true) :
    (render internalSohChar m.content.texts).length ≤ fieldsLength fields := by
  rw [h.content_eq]
  refine (length_render_plain hplain).trans ?_
  have hsub : m.plainKeys.Sublist (AssocList.keys m.fields) := List.filter_sublist
  refine ((hsub.map _).sum_le_sum fun _ _ => Nat.zero_le _).trans ?_
  rw [(h.keys.map _).sum_eq, AssocList.keys, List.map_map]
  refine le_of_eq (congrArg List.sum (List.map_congr_left fun f hf => ?_))
  rw [Function.comp_apply, h.value f hf]
  rfl

/-! ## Dictionaries that list what a session says -/

/-- The tags of a stamped header, in its order, without those of the frame. -/
def stampTags : List Int :=
  [Field.msgType, Field.senderCompID, Field.targetCompID, Field.sendingTime, Field.msgSeqNum]

namespace Dictionary

/-- The header and the trailer have the fields that every message has, and require no others
where that is asked. -/
structure Standard (settings : SessionSettings) (dict : Dictionary) : Prop where
  beginString : dict.headerSpec.hasField Field.beginString = true
  beginStringType : dict.getFieldType Field.beginString ≠ .length
  bodyLength : dict.headerSpec.hasField Field.bodyLength = true
  bodyLengthType : dict.getFieldType Field.bodyLength ≠ .data
  header : ∀ tag ∈ stampTags, dict.Plain dict.headerSpec tag
  msgTypeType : dict.getFieldType Field.msgType ≠ .data
  required : settings.validateRequiredFields = true → ∀ field ∈ dict.headerSpec.fields,
    field.2 = true → field.1 ∈ Field.beginString :: Field.bodyLength :: stampTags
  behind : refusedBy [dict.headerSpec] Field.checkSum = true
  checkSum : dict.trailerSpec.hasField Field.checkSum = true
  checkSumType : dict.getFieldType Field.checkSum ≠ .length
  trailer : settings.validateRequiredFields = true → ∀ field ∈ dict.trailerSpec.fields,
    field.2 = true → field.1 = Field.checkSum

/-- A message of the type may have just the fields with these tags. -/
structure Lists (settings : SessionSettings) (dict : Dictionary) (msgType : Bytes)
    (spec : GroupSpec) (tags : List Int) : Prop where
  listed : dict.getMessageSpecRaw msgType = some spec
  fields : ∀ tag ∈ tags, dict.Plain spec tag ∧ refusedBy [dict.headerSpec] tag = true
  required : settings.validateRequiredFields = true → ∀ field ∈ spec.fields, field.2 = true →
    field.1 ∈ tags
  behind : refusedBy [spec] Field.checkSum = true

end Dictionary

theorem testDictionary_standard (settings : SessionSettings) :
    testDictionary.Standard settings where
  beginString := by decide
  beginStringType := by decide
  bodyLength := by decide
  bodyLengthType := by decide
  header tag htag := by
    simp only [stampTags, List.mem_cons, List.not_mem_nil, or_false] at htag
    rcases htag with rfl | rfl | rfl | rfl | rfl
    all_goals exact ⟨by decide, by decide, by decide⟩
  msgTypeType := by decide
  required _ := by decide
  behind := by decide
  checkSum := by decide
  checkSumType := by decide
  trailer _ := by decide

/-- A map is finished without a complaint when it has the fields that are required. -/
theorem GroupSpec.complete_of {settings : SessionSettings} {spec : GroupSpec} {tags : List Int}
    (hnodup : tags.Nodup) (hrequired : settings.validateRequiredFields = true →
      ∀ field ∈ spec.fields, field.2 = true → field.1 ∈ tags) :
    spec.complete settings tags = true := by
  rw [complete, decide_eq_true hnodup, Bool.true_and]
  cases hvalidate : settings.validateRequiredFields with
  | false => rfl
  | true =>
      rw [Bool.not_true, Bool.false_or]
      refine List.all_eq_true.mpr fun field hfield => ?_
      cases hreq : field.2 with
      | false => rfl
      | true => exact decide_eq_true (hrequired hvalidate field hfield hreq)

theorem GroupSpec.keepsOrder_of {settings : SessionSettings}
    (hreorder : settings.parsingReorderTags = false) (spec : GroupSpec) (tags : List Int) :
    spec.keepsOrder settings tags = true := by
  rw [keepsOrder, hreorder]
  rfl

/-! ## What a session says -/

/-- What a header is stamped with. -/
def stampFields (settings : SessionSettings) (seqnum epochMs : Int) : List (Int × Bytes) :=
  [(Field.beginString, settings.beginString), (Field.senderCompID, settings.senderCompID),
    (Field.targetCompID, settings.targetCompID),
    (Field.sendingTime, writeUTCTimestamp epochMs), (Field.msgSeqNum, toChars seqnum)]

/-- The fields of a stamped header. -/
def stampedFields (settings : SessionSettings) (msgType : Bytes) (seqnum epochMs : Int) :
    List (Int × Bytes) := (Field.msgType, msgType) :: stampFields settings seqnum epochMs

/-- A message that has these fields in its header, with its type in front, and these in its
body. -/
structure Message.Says (header fields : List (Int × Bytes)) (msg : Message) : Prop where
  header : msg.header.Filled header
  front : ∃ rest, msg.header.plainKeys = Field.msgType :: rest
  body : msg.body.Filled fields
  trailer : msg.trailer.content = .nil

/-! ## Stamping -/

open Session

section

variable {settings : SessionSettings} {msgType : Bytes} {seqnum epochMs : Int} {m header : FieldMap}

/-- The maps that lead to a stamped header. -/
theorem stampHeader_eq (h : stampHeader settings seqnum epochMs m = .ok header) :
    header = ((((m.setFieldView Field.beginString settings.beginString false).setFieldView
      Field.senderCompID settings.senderCompID false).setFieldView Field.targetCompID
      settings.targetCompID false).setField Field.sendingTime (writeUTCTimestamp epochMs)
      false).setField Field.msgSeqNum (toChars seqnum) false := by
  unfold stampHeader at h
  obtain ⟨_, htime, hseq⟩ := Loop.bind_eq_ok.mp h
  rw [FieldMap.storeField_ok hseq, FieldMap.storeField_ok htime]

/-- A header is stamped that has none of these fields yet. -/
theorem FieldMap.Filled.stamped {fields : List (Int × Bytes)} (h : m.Filled fields)
    (hnew : ∀ tag ∈ stampedTags, tag ∉ AssocList.keys fields)
    (hstamp : stampHeader settings seqnum epochMs m = .ok header) :
    header.Filled (fields ++ stampFields settings seqnum epochMs) := by
  rw [stampHeader_eq hstamp]
  have hfresh : ∀ (tag : Int) {done : List (Int × Bytes)}, tag ∈ stampedTags →
      tag ∉ AssocList.keys done → tag ∉ AssocList.keys (fields ++ done) := by
    intro tag done htag hdone
    rw [AssocList.keys, List.map_append]
    exact fun hmem => (List.mem_append.mp hmem).elim (hnew tag htag) hdone
  have hbegin := h.setFieldView (hnew Field.beginString (by decide)) settings.beginString
  have hsender := hbegin.setFieldView (hfresh Field.senderCompID (by decide) (by
    simp [AssocList.keys])) settings.senderCompID
  rw [List.append_assoc] at hsender
  have htarget := hsender.setFieldView (hfresh Field.targetCompID (by decide) (by
    simp [AssocList.keys])) settings.targetCompID
  rw [List.append_assoc] at htarget
  have htime := htarget.setField (hfresh Field.sendingTime (by decide) (by
    simp [AssocList.keys])) (writeUTCTimestamp epochMs) false
  rw [List.append_assoc] at htime
  have hnumber := htime.setField (hfresh Field.msgSeqNum (by decide) (by
    simp [AssocList.keys])) (toChars seqnum) false
  rw [List.append_assoc] at hnumber
  exact hnumber

theorem stampHeader_keys {tags : List Int} (h : AssocList.keys m.fields = tags)
    (hnew : ∀ tag ∈ stampedTags, tag ∉ tags)
    (hstamp : stampHeader settings seqnum epochMs m = .ok header) :
    AssocList.keys header.fields = tags ++ stampedTags := by
  rw [stampHeader_eq hstamp]
  have hfresh : ∀ (tag : Int) {done : List Int}, tag ∈ stampedTags → tag ∉ done →
      tag ∉ tags ++ done := fun _ _ htag hdone hmem =>
    (List.mem_append.mp hmem).elim (hnew _ htag) hdone
  have hbegin := FieldMap.keys_insertFieldView_new h (hnew Field.beginString (by decide))
    (.text settings.beginString)
  have hsender := FieldMap.keys_insertFieldView_new hbegin
    (hfresh Field.senderCompID (by decide) (by decide)) (.text settings.senderCompID)
  rw [List.append_assoc] at hsender
  have htarget := FieldMap.keys_insertFieldView_new hsender
    (hfresh Field.targetCompID (by decide) (by decide)) (.text settings.targetCompID)
  rw [List.append_assoc] at htarget
  have htime := FieldMap.keys_setField_new htarget
    (hfresh Field.sendingTime (by decide) (by decide)) (writeUTCTimestamp epochMs)
  rw [List.append_assoc] at htime
  have hnumber := FieldMap.keys_setField_new htime
    (hfresh Field.msgSeqNum (by decide) (by decide)) (toChars seqnum)
  rw [List.append_assoc] at hnumber
  exact hnumber

/-- A stamp is put behind what is there. -/
theorem FieldMap.Fronted.stamped {spec : GroupSpec} (h : m.Fronted spec)
    (hnew : ∀ tag ∈ stampedTags, tag ∉ AssocList.keys m.fields)
    (hstamp : stampHeader settings seqnum epochMs m = .ok header) :
    header.Fronted spec := by
  obtain ⟨tags, htags⟩ := h.front
  refine ⟨?_, tags ++ stampedTags, ?_⟩
  · rw [stampHeader_eq hstamp]
    unfold FieldMap.setFieldView FieldMap.setField
    simp only [FieldMap.spec_insertFieldView]
    exact h.spec
  · rw [stampHeader_keys htags (htags ▸ hnew) hstamp]
    rfl

end

theorem Dictionary.says_of_create {dict : Dictionary} {settings : SessionSettings}
    {msgType : Bytes} {created : Message} {header : FieldMap} {fields : List (Int × Bytes)}
    {seqnum epochMs : Int} (hcreate : dict.create msgType = .ok created)
    (hstamp : stampHeader settings seqnum epochMs created.header = .ok header)
    (hnodup : (AssocList.keys fields).Nodup) :
    Message.Says (stampedFields settings msgType seqnum epochMs) fields
      { created with header := header, body := created.body.fillWith fields } := by
  unfold Dictionary.create at hcreate
  split at hcreate
  · cases hcreate
  · cases hcreate
    have hnew : (FieldMap.new.setSpec (some dict.headerSpec)).Filled [] := .new _
    have htype : ((FieldMap.new.setSpec (some dict.headerSpec)).setField Field.msgType msgType
        true).Filled [(Field.msgType, msgType)] := hnew.setField (by decide) msgType true
    exact {
      header := htype.stamped (by simp [stampedTags, AssocList.keys]) hstamp
      front := by
        have hkeys := stampHeader_keys (List.perm_singleton.mp htype.keys)
          (by simp [stampedTags]) hstamp
        dsimp only
        rw [FieldMap.plainKeys, hkeys]
        exact ⟨_, rfl⟩
      body := (FieldMap.Filled.new _).fillWith hnodup
      trailer := rfl }

/-! ## What is said conforms -/

theorem padDigits_clean {width : Nat} {n : Int} {b : UInt8} (h : b ∈ padDigits width n) :
    b ≠ internalSohChar := by
  rcases List.mem_append.mp h with h | h
  · rw [List.eq_of_mem_replicate h]
    decide
  · exact (toChars_clean h).1

/-- A timestamp holds no separator. -/
theorem writeUTCTimestamp_clean (epochMs : Int) : internalSohChar ∉ writeUTCTimestamp epochMs := by
  have hpad : ∀ {width : Nat} {n : Int}, internalSohChar ∉ padDigits width n := fun h =>
    padDigits_clean h rfl
  have hdigit : ∀ {d : Nat}, d < 10 → internalSohChar ≠ digitByte d := fun hd =>
    (digitByte_ne hd).2.1.symm
  have hms := Int.tmod_lt_of_pos epochMs (by decide : (0 : Int) < 1000)
  simp only [writeUTCTimestamp, List.mem_append, List.mem_cons, List.not_mem_nil, or_false, hpad,
    false_or, not_or]
  exact ⟨⟨⟨⟨by decide, by decide⟩, by decide⟩, by decide⟩, hdigit (by omega), hdigit (by omega),
    hdigit (by omega)⟩

namespace Message.Says

variable {settings : SessionSettings} {dict : Dictionary} {msgType : Bytes}
  {header fields : List (Int × Bytes)} {spec : GroupSpec} {msg : Message}

theorem field?_header (h : msg.Says header fields) {f : Int × Bytes} (hf : f ∈ header) :
    msg.header.field? f.1 = some f.2 := h.header.value f hf

theorem mem_keys (h : msg.Says header fields) {tag : Int} (htag : tag ∈ msg.body.plainKeys) :
    tag ∈ AssocList.keys fields := by
  obtain ⟨-, value, hf, -⟩ := h.body.mem_plainKeys htag
  exact List.mem_map_of_mem hf

/-- The first field behind the header is one of the body, or the checksum. -/
theorem frontTag_mem (h : msg.Says header fields) :
    msg.body.content.frontTag Field.checkSum ∈ Field.checkSum :: AssocList.keys fields := by
  rw [h.body.content_eq]
  cases hkeys : msg.body.plainKeys with
  | nil => exact List.mem_cons_self ..
  | cons tag tags =>
      exact List.mem_cons_of_mem _ (h.mem_keys (by rw [hkeys]; exact List.mem_cons_self ..))

/-- The fields of the header but for BeginString. -/
theorem plain_header (h : msg.Says header fields)
    (hheader : ∀ f ∈ header, f.1 = Field.beginString ∨ dict.Plain dict.headerSpec f.1) {tag : Int}
    (htag : tag ∈ msg.header.plainKeys) : dict.Plain dict.headerSpec tag ∧
      ∃ value, (tag, value) ∈ header ∧ msg.header.field? tag = some value := by
  obtain ⟨hignored, value, hf, hvalue⟩ := h.header.mem_plainKeys htag
  rcases hheader _ hf with heq | hplain
  · rw [show tag = Field.beginString from heq] at hignored
    cases hignored
  · exact ⟨hplain, value, hf, hvalue⟩

theorem conforms_header (h : msg.Says header fields)
    (hheader : ∀ f ∈ header, f.1 = Field.beginString ∨ dict.Plain dict.headerSpec f.1)
    (hclean : ∀ f ∈ header, internalSohChar ∉ f.2) (depth : Nat) :
    msg.header.content.conforms settings dict dict.headerSpec depth [] none true = true ∧
      msg.header.content.announces dict none = none := by
  rw [h.header.content_eq]
  refine Content.conforms_plain fun tag htag => ?_
  obtain ⟨hplain, value, hf, hvalue⟩ := h.plain_header hheader htag
  rw [hvalue]
  exact ⟨hplain, hclean _ hf⟩

theorem conforms_body (h : msg.Says header fields)
    (hlists : dict.Lists settings msgType spec (AssocList.keys fields))
    (hclean : ∀ f ∈ fields, internalSohChar ∉ f.2) (depth : Nat) :
    msg.body.content.conforms settings dict spec depth [] none true = true ∧
      msg.body.content.announces dict none = none := by
  rw [h.body.content_eq]
  refine Content.conforms_plain fun tag htag => ⟨(hlists.fields tag (h.mem_keys htag)).1, ?_⟩
  obtain ⟨-, value, hf, hvalue⟩ := h.body.mem_plainKeys htag
  rw [hvalue]
  exact hclean _ hf

/-- The header has the fields that its specification requires. -/
theorem complete_header (h : msg.Says header fields) (hstandard : dict.Standard settings)
    (hstamp : ∀ tag ∈ stampTags, tag ∈ AssocList.keys header) :
    dict.headerSpec.complete settings
      (Field.beginString :: Field.bodyLength :: msg.header.plainKeys) = true := by
  have hframe : ∀ {tag : Int}, isIgnoredTag tag = true → tag ∉ msg.header.plainKeys := by
    intro tag hignored hmem
    rw [(h.header.mem_plainKeys hmem).1] at hignored
    cases hignored
  refine GroupSpec.complete_of ?_ fun hvalidate field hfield hreq => ?_
  · refine List.nodup_cons.mpr ⟨fun hmem => ?_, List.nodup_cons.mpr
      ⟨hframe rfl, h.header.nodup_plainKeys⟩⟩
    rcases List.mem_cons.mp hmem with heq | hmem
    · cases heq
    · exact hframe rfl hmem
  · have hstamped := hstandard.required hvalidate field hfield hreq
    simp only [List.mem_cons] at hstamped ⊢
    rcases hstamped with hbegin | hlength | hmem
    · exact .inl hbegin
    · exact .inr (.inl hlength)
    · have hplain := (ParseState.isPlainTag_iff.mp (hstandard.header _ hmem).plain).2
      exact .inr (.inr (List.mem_filter.mpr
        ⟨h.header.keys.mem_iff.mpr (hstamp _ hmem), by rw [hplain]; rfl⟩))

/-- The body has the fields that its specification requires. -/
theorem complete_body (h : msg.Says header fields)
    (hlists : dict.Lists settings msgType spec (AssocList.keys fields)) :
    spec.complete settings msg.body.plainKeys = true := by
  refine GroupSpec.complete_of h.body.nodup_plainKeys fun hvalidate field hfield hreq => ?_
  have htag := hlists.required hvalidate field hfield hreq
  have hplain := (ParseState.isPlainTag_iff.mp (hlists.fields _ htag).1.plain).2
  exact List.mem_filter.mpr ⟨h.body.keys.mem_iff.mpr htag, by rw [hplain]; rfl⟩

/-- How the text of a message starts. -/
theorem toString_front (h : msg.Says header fields) {v t value : Bytes} {tag : Int}
    {tags : List Int}
    (hbegin : (Field.beginString, v) ∈ header) (htype : (Field.msgType, t) ∈ header)
    (hfront : msg.header.plainKeys = Field.msgType :: tag :: tags)
    (hvalue : (tag, value) ∈ header) :
    ∃ rest, msg.toString true = fieldText Field.beginString v ++ internalSohChar ::
      (fieldText Field.bodyLength (toChars (i32 msg.bodyLength)) ++ internalSohChar ::
        (fieldText Field.msgType t ++ internalSohChar ::
          (fieldText tag value ++ internalSohChar :: rest))) := by
  have hcontent := h.header.content_eq
  rw [hfront, List.foldr_cons, List.foldr_cons, FieldMap.tagStep, FieldMap.tagStep,
    h.field?_header htype, h.field?_header hvalue] at hcontent
  rw [toString_eq_opening (h.field?_header hbegin), behindLength, hcontent]
  dsimp only [Content.texts]
  rw [ParseState.render_field, ParseState.render_field]
  exact ⟨_, rfl⟩

/-- The text is as short as its fields are. -/
theorem length_toString_lt (h : msg.Says header fields) {v : Bytes}
    (hbegin : (Field.beginString, v) ∈ header)
    (hheader : ∀ f ∈ header, f.1 = Field.beginString ∨ isPlainTag f.1 = true)
    (hfields : ∀ f ∈ fields, isPlainTag f.1 = true)
    (hshort : fieldsLength header + fieldsLength fields < 1000000000) :
    (msg.toString true).length < 2147483648 := by
  have hheaderLength := h.header.length_render_le fun tag htag => by
    obtain ⟨hignored, value, hf, -⟩ := h.header.mem_plainKeys htag
    rcases hheader _ hf with heq | hplain
    · rw [show tag = Field.beginString from heq] at hignored
      cases hignored
    · exact hplain
  have hbodyLength := h.body.length_render_le fun tag htag => by
    obtain ⟨-, value, hf, -⟩ := h.body.mem_plainKeys htag
    exact hfields _ hf
  have hbeginLength : v.length + 13 ≤ fieldsLength header :=
    List.single_le_sum (fun _ _ => Nat.zero_le _) _ (List.mem_map_of_mem hbegin)
  have hlength : msg.bodyLength = (render internalSohChar msg.header.content.texts).length +
      (render internalSohChar msg.body.content.texts).length := by
    rw [Message.bodyLength, Message.bodyTexts, ← FieldMap.texts_content,
      ← FieldMap.texts_content, ← FieldMap.texts_content, h.trailer]
    simp [Content.texts]
  have hbehind := msg.length_behindLength
  have hrange := i32_range msg.bodyLength
  have hchars : (fieldText Field.bodyLength (toChars (i32 msg.bodyLength))).length ≤
      (toChars (i32 msg.bodyLength)).length + 12 := length_fieldText_le (by decide) _
  have hnumber := length_toChars_le hrange
  have hname : (fieldText Field.beginString v).length ≤ v.length + 12 :=
    length_fieldText_le (by decide) _
  rw [Message.toString_eq_opening (h.field?_header hbegin)]
  simp only [List.length_append, List.length_cons]
  omega

/-- What is said is filed by a dictionary that lists it. -/
theorem filed (h : msg.Says header fields) (hstandard : dict.Standard settings)
    (hlists : dict.Lists settings msgType spec (AssocList.keys fields))
    (hheader : ∀ f ∈ header, f.1 = Field.beginString ∨ dict.Plain dict.headerSpec f.1)
    (hstamp : ∀ tag ∈ stampTags, tag ∈ AssocList.keys header) {v : Bytes}
    (hbegin : (Field.beginString, v) ∈ header) (htype : (Field.msgType, msgType) ∈ header)
    (hclean : ∀ f ∈ header ++ fields, internalSohChar ∉ f.2)
    (hshort : fieldsLength header + fieldsLength fields < 1000000000) :
    msg.Filed settings dict spec := by
  have hrefused : ∀ {specs : List GroupSpec} {tag : Int}, refusedBy specs tag = true →
      refusedBy ([] ++ specs) tag = true := fun hr => hr
  obtain ⟨hcleanHeader, hcleanBody⟩ := List.forall_mem_append.mp hclean
  have hheader' : msg.header.content.conforms settings dict dict.headerSpec 0 [] none true = true ∧
      msg.header.content.announces dict none = none := h.conforms_header hheader hcleanHeader 0
  have hbody' : msg.body.content.conforms settings dict spec 0 [] none true = true ∧
      msg.body.content.announces dict none = none := h.conforms_body hlists hcleanBody 0
  have hlength := h.length_toString_lt hbegin (fun f hf => (hheader f hf).imp_right (·.plain))
    (fun f hf => (hlists.fields _ (List.mem_map_of_mem hf)).1.plain) hshort
  have hle := Message.bodyLength_le (h.field?_header hbegin)
  constructor
  case beginString =>
    refine ⟨v, h.field?_header hbegin, ?_⟩
    rw [GroupSpec.takes, hstandard.beginString, Dictionary.hasLength,
      decide_eq_true hstandard.beginStringType, decide_eq_true (hcleanHeader _ hbegin)]
    rfl
  case bodyLength => exact hstandard.bodyLength
  case bodyLengthType => exact hstandard.bodyLengthType
  case msgType =>
    obtain ⟨rest, hfront⟩ := h.front
    have hcontent := h.header.content_eq
    rw [hfront, List.foldr_cons, FieldMap.tagStep, h.field?_header htype] at hcontent
    exact ⟨msgType, _, hcontent, hlists.listed⟩
  case msgTypeType => exact hstandard.msgTypeType
  case header => exact hheader'.1
  case headerTags =>
    rw [FieldMap.tags_content]
    exact h.complete_header hstandard hstamp
  case body => exact hbody'.1
  case bodyTags =>
    rw [FieldMap.tags_content]
    exact h.complete_body hlists
  case trailer => rw [h.trailer]; rfl
  case trailerTags =>
    rw [h.trailer]
    refine GroupSpec.complete_of (List.nodup_singleton _) fun hvalidate field hfield hreq => ?_
    exact List.mem_singleton.mpr (hstandard.trailer hvalidate field hfield hreq)
  case leavesHeader =>
    rw [h.header.content_eq, Content.leftOpen_plain, h.trailer]
    refine hrefused ?_
    rcases List.mem_cons.mp h.frontTag_mem with heq | htag
    · rw [Content.frontTag, heq]
      exact hstandard.behind
    · exact (hlists.fields _ htag).2
  case leavesBody =>
    rw [h.body.content_eq, Content.leftOpen_plain, h.trailer]
    exact hrefused hlists.behind
  case endsHeader =>
    rw [hheader'.2]
    rfl
  case endsBody =>
    rw [hbody'.2]
    rfl
  case endsTrailer =>
    rw [h.trailer]
    rfl
  case trailerFront => exact .inl h.trailer
  case checkSum => exact hstandard.checkSum
  case checkSumType => exact hstandard.checkSumType
  case leavesTrailer =>
    rw [h.trailer]
    rfl
  case measured => omega
  case starts => omega

end Message.Says

/-- A stamped message conforms to a dictionary that lists its fields. -/
theorem Message.Says.conforms {sender settings : SessionSettings} {dict : Dictionary}
    {msgType : Bytes} {seqnum epochMs : Int} {fields : List (Int × Bytes)} {spec : GroupSpec}
    {msg : Message} (h : msg.Says (stampedFields sender msgType seqnum epochMs) fields)
    (hstandard : dict.Standard settings)
    (hlists : dict.Lists settings msgType spec (AssocList.keys fields))
    (hreorder : settings.parsingReorderTags = false)
    (hclean : ∀ f ∈ stampedFields sender msgType seqnum epochMs ++ fields, internalSohChar ∉ f.2)
    (hshort : fieldsLength (stampedFields sender msgType seqnum epochMs) + fieldsLength fields <
      1000000000) : msg.Conforms settings dict spec where
  toFiled := by
    refine h.filed hstandard hlists (fun f hf => ?_) (fun tag htag => ?_)
      (v := sender.beginString) ?_ ?_ hclean hshort
    · simp only [stampedFields, stampFields, List.mem_cons, List.not_mem_nil, or_false] at hf
      rcases hf with rfl | rfl | rfl | rfl | rfl | rfl
      · exact .inr (hstandard.header _ (by simp [stampTags]))
      · exact .inl rfl
      · exact .inr (hstandard.header _ (by simp [stampTags]))
      · exact .inr (hstandard.header _ (by simp [stampTags]))
      · exact .inr (hstandard.header _ (by simp [stampTags]))
      · exact .inr (hstandard.header _ (by simp [stampTags]))
    · simp only [stampTags, List.mem_cons, List.not_mem_nil, or_false] at htag
      simp only [stampedFields, stampFields, AssocList.keys, List.map_cons, List.map_nil,
        List.mem_cons, List.not_mem_nil, or_false]
      tauto
    · simp [stampedFields, stampFields]
    · simp [stampedFields, stampFields]
  headerOrder := GroupSpec.keepsOrder_of hreorder _ _
  bodyOrder := GroupSpec.keepsOrder_of hreorder _ _
  trailerOrder := GroupSpec.keepsOrder_of hreorder _ _

end OpenFix
