import OpenFix.Clock
import OpenFix.Replay
import OpenFix.RoundTrip

/-!
# What a resend says again

A resend parses the text that was cached, copies the message, marks the header of the
copy and transmits it.  Each of these keeps what the message says: the text is read back
as it was written (`Message.Conforms.parse_eq`), a copy has the contents of what it is a
copy of when no tag is there twice, and the fields that are set in the header get a place
among the others without moving them.

`Content.unmarked` is what a resend must not change: the contents without the two fields
that it adds and without the value of the one that it refreshes.
-/

namespace OpenFix

open Effect

/-! ## Contents by tags -/

namespace Content

/-- The tags of the fields that a resend adds. -/
def isMark (tag : Int) : Bool := tag = Field.possDupFlag || tag = Field.origSendingTime

/-- The value that a resend does not refresh. -/
def keptValue (tag : Int) (value : Bytes) : Bytes := if tag = Field.sendingTime then [] else value

/-- The contents without the marks of a resend. -/
def unmarked : Content → Content
  | .nil => .nil
  | .field tag value rest =>
      if isMark tag then rest.unmarked else .field tag (keptValue tag value) rest.unmarked
  | .group tag count instances rest =>
      if isMark tag then rest.unmarked else .group tag (keptValue tag count) instances rest.unmarked

/-- A resend leaves the other values as they are. -/
theorem value?_unmarked {tag : Int} (hmark : isMark tag = false) (htime : tag ≠ Field.sendingTime) :
    ∀ c : Content, c.unmarked.value? tag = c.value? tag
  | .nil => rfl
  | .field t value rest => by
      have ih := value?_unmarked hmark htime rest
      rw [unmarked, value?]
      by_cases ht : t = tag
      · subst ht
        rw [if_neg (by rw [hmark]; decide), value?, if_pos rfl, if_pos rfl, keptValue,
          if_neg htime]
      · rw [if_neg ht]
        split
        · exact ih
        · rw [value?, if_neg ht, ih]
  | .group t count instances rest => by
      have ih := value?_unmarked hmark htime rest
      rw [unmarked, value?]
      by_cases ht : t = tag
      · subst ht
        rw [if_neg (by rw [hmark]; decide), value?, if_pos rfl, if_pos rfl, keptValue,
          if_neg htime]
      · rw [if_neg ht]
        split
        · exact ih
        · rw [value?, if_neg ht, ih]

end Content

mutual

/-- No map has a tag twice. -/
def Content.Distinct : Content → Prop
  | .nil => True
  | .field tag _ rest => tag ∉ rest.tags ∧ rest.Distinct
  | .group tag _ instances rest => tag ∉ rest.tags ∧ instances.Distinct ∧ rest.Distinct

def Instances.Distinct : Instances → Prop
  | .nil => True
  | .cons first rest => first.Distinct ∧ rest.Distinct

end

mutual

/-- What conforms has no tag twice below its own map. -/
theorem Content.distinct_of_conforms {settings : SessionSettings} {dict : Dictionary} :
    ∀ {c : Content} {spec : GroupSpec} {depth : Nat} {opened : List GroupSpec}
      {announced : Option Nat} {own : Bool}, c.tags.Nodup →
      c.conforms settings dict spec depth opened announced own = true → c.Distinct
  | .nil, _, _, _, _, _, _, _ => trivial
  | .field tag value rest, _, _, _, _, _, hnodup, h => by
      rw [Content.tags, List.nodup_cons] at hnodup
      refine ⟨hnodup.1, ?_⟩
      obtain ⟨-, ⟨-, -, -, hrest⟩ | ⟨-, -, hrest⟩⟩ := Content.conforms_field h
      · exact Content.distinct_of_conforms hnodup.2 hrest
      · exact Content.distinct_of_conforms hnodup.2 hrest
  | .group tag count instances rest, _, _, _, _, _, hnodup, h => by
      rw [Content.tags, List.nodup_cons] at hnodup
      obtain ⟨-, groupSpec, first, hopens⟩ := Content.conforms_group h
      exact ⟨hnodup.1, Instances.distinct_of_conforms hopens.filed,
        Content.distinct_of_conforms hnodup.2 hopens.behind⟩

theorem Instances.distinct_of_conforms {settings : SessionSettings} {dict : Dictionary} :
    ∀ {c : Instances} {spec : GroupSpec} {depth : Nat} {first : Int} {opened : List GroupSpec}
      {announced : Option Nat},
      c.conforms settings dict spec depth first opened announced = true → c.Distinct
  | .nil, _, _, _, _, _, _ => trivial
  | .cons content rest, _, _, _, _, _, h => by
      obtain ⟨-, -, -, hadmits, hcontent, hrest⟩ := Instances.conforms_cons h
      exact ⟨Content.distinct_of_conforms (ParseState.nodup_of_admits hadmits) hcontent,
        Instances.distinct_of_conforms hrest⟩

end

namespace FieldMap

/-! ## Copies -/

/-- Copying in order keeps the keys that are there once. -/
theorem filter_keys_foldl_insert (f : Int → View → View) (p : Int → Bool) :
    ∀ l acc : List (Int × View), ((AssocList.keys acc ++ AssocList.keys l).filter p).Nodup →
      (AssocList.keys (l.foldl (fun out (t, v) => AssocList.insert t (f t v) out) acc)).filter p =
        (AssocList.keys acc ++ AssocList.keys l).filter p
  | [], acc, _ => by
      rw [List.foldl_nil]
      exact congrArg (List.filter p) (List.append_nil _).symm
  | (t, v) :: l, acc, h => by
      have hcons : AssocList.keys ((t, v) :: l) = t :: AssocList.keys l := rfl
      rw [hcons] at h ⊢
      rw [List.foldl_cons]
      by_cases ht : t ∈ AssocList.keys acc
      · have hout : p t = false := by
          by_contra hp
          rw [Bool.not_eq_false] at hp
          rw [List.filter_append, List.filter_cons_of_pos hp] at h
          exact (List.disjoint_of_nodup_append h) (List.mem_filter.mpr ⟨ht, hp⟩)
            (List.mem_cons_self ..)
        have hdrop : (AssocList.keys acc ++ t :: AssocList.keys l).filter p =
            (AssocList.keys acc ++ AssocList.keys l).filter p := by
          rw [List.filter_append, List.filter_append, List.filter_cons_of_neg (by simp [hout])]
        rw [hdrop] at h ⊢
        dsimp only
        rw [AssocList.insert, if_pos (AssocList.find?_isSome_iff.mpr ht)]
        exact filter_keys_foldl_insert f p l acc h
      · have hkeys : AssocList.keys (AssocList.insert t (f t v) acc) =
            AssocList.keys acc ++ [t] := by
          rw [AssocList.insert_of_not_mem _ ht]
          exact List.map_append
        have ih := filter_keys_foldl_insert f p l (AssocList.insert t (f t v) acc)
        rw [hkeys, List.append_assoc, List.singleton_append] at ih
        exact ih h

theorem plainKeys_copy {m : FieldMap} (h : m.plainKeys.Nodup) : m.copy.plainKeys = m.plainKeys := by
  rw [plainKeys, copy_eq]
  exact filter_keys_foldl_insert (fun t v => .owned (m.read t v).length) _ m.fields [] h

/-- The instances that the contents show. -/
theorem distinct_instances {value : Int → Bytes} {instances : Int → Option Instances} :
    ∀ {l : List Int}, (l.foldr (tagStep value instances) .nil).Distinct →
      ∀ tag ∈ l, ∀ c, instances tag = some c → c.Distinct
  | [], _, _, hmem, _, _ => absurd hmem List.not_mem_nil
  | t :: l, h, tag, hmem, c, hc => by
      rw [List.foldr_cons, tagStep] at h
      rcases List.mem_cons.mp hmem with rfl | hmem
      · rw [hc] at h
        exact h.2.1
      · cases ht : instances t with
        | none =>
            rw [ht] at h
            exact distinct_instances h.2 tag hmem c hc
        | some c' =>
            rw [ht] at h
            exact distinct_instances h.2.2 tag hmem c hc

theorem nodup_of_distinct : ∀ {c : Content}, c.Distinct → c.tags.Nodup
  | .nil, _ => List.nodup_nil
  | .field _ _ _, h => List.nodup_cons.mpr ⟨h.1, nodup_of_distinct h.2⟩
  | .group _ _ _ _, h => List.nodup_cons.mpr ⟨h.1, nodup_of_distinct h.2.2⟩

theorem keys_copyGroups : ∀ groups : List (Int × List FieldMap),
    AssocList.keys (copyGroups groups) = AssocList.keys groups
  | [] => rfl
  | (tag, ms) :: groups => by
      rw [copyGroups]
      exact congrArg (tag :: ·) (keys_copyGroups groups)

mutual

/-- A copy says what it is a copy of, when no map has a tag twice. -/
theorem content_copy : ∀ {m : FieldMap}, m.content.Distinct → m.copy.content = m.content
  | ⟨fields, owned, capacity, groups, spec, seen⟩, h => by
      let m : FieldMap := ⟨fields, owned, capacity, groups, spec, seen⟩
      have hnodup : m.plainKeys.Nodup := tags_content m ▸ nodup_of_distinct h
      have hcopy := plainKeys_copy hnodup
      have hgroups : m.copy.groups = copyGroups groups := by rw [copy_eq]
      have hdistinct := content_eq_tags hnodup ▸ h
      refine (content_eq_tags (hcopy ▸ hnodup)).trans (Eq.trans ?_ (content_eq_tags hnodup).symm)
      rw [hcopy, hgroups]
      refine tagStep_congr (fun tag _ => by rw [field?_copy]) fun tag htag => ?_
      cases hfind : AssocList.find? tag (groupContents groups) with
      | none =>
          rw [AssocList.find?_eq_none_iff, keys_groupContents] at hfind ⊢
          rwa [keys_copyGroups]
      | some c =>
          exact find?_copyGroups hfind (distinct_instances hdistinct tag htag c hfind)

theorem find?_copyGroups : ∀ {groups : List (Int × List FieldMap)} {tag : Int} {c : Instances},
    AssocList.find? tag (groupContents groups) = some c → c.Distinct →
      AssocList.find? tag (groupContents (copyGroups groups)) = some c
  | [], _, _, h, _ => by cases h
  | (t, ms) :: groups, tag, c, h, hc => by
      rw [groupContents] at h
      rw [copyGroups, groupContents]
      by_cases ht : t = tag
      · subst ht
        rw [AssocList.find?_cons_self, Option.some.injEq] at h
        rw [AssocList.find?_cons_self, ← h, instanceContents_copy (h ▸ hc)]
      · rw [AssocList.find?_cons_ne ht] at h ⊢
        exact find?_copyGroups h hc

theorem instanceContents_copy : ∀ {ms : List FieldMap}, (instanceContents ms).Distinct →
    instanceContents (copyInstances ms) = instanceContents ms
  | [], _ => rfl
  | m :: ms, h => by
      rw [instanceContents] at h
      rw [copyInstances, instanceContents, instanceContents, content_copy h.1,
        instanceContents_copy h.2]

end

/-! ## The marks of a resend -/

theorem filter_keys_insertOrdered {p : Int → Bool} {tag : Int} (hp : p tag = false) (v : View) :
    ∀ (l : List (Int × View)) (order : List Int),
      (AssocList.keys (insertOrdered tag v order l)).filter p = (AssocList.keys l).filter p
  | [], _ => by
      change [tag].filter p = []
      rw [List.filter_cons_of_neg (by simp [hp])]
      rfl
  | (t, w) :: l, order => by
      have hcons : ∀ (u : View) (l : List (Int × View)),
          AssocList.keys ((t, u) :: l) = t :: AssocList.keys l := fun _ _ => rfl
      rw [insertOrdered]
      split
      · rfl
      · dsimp only
        split
        · split
          · rfl
          · change (tag :: AssocList.keys ((t, w) :: l)).filter p = _
            rw [List.filter_cons_of_neg (by simp [hp])]
        · rw [hcons, hcons, List.filter_cons, List.filter_cons,
            filter_keys_insertOrdered hp v l]

theorem keys_insertOrdered_of_mem {tag : Int} (v : View) :
    ∀ {l : List (Int × View)} (order : List Int), tag ∈ AssocList.keys l →
      AssocList.keys (insertOrdered tag v order l) = AssocList.keys l
  | (t, w) :: l, order, h => by
      rw [insertOrdered]
      split
      · rfl
      next hne =>
        have hmem : tag ∈ AssocList.keys l := (List.mem_cons.mp h).resolve_left hne
        dsimp only
        split
        · rw [if_pos (AssocList.find?_isSome_iff.mpr hmem)]
        · exact congrArg (t :: ·) (keys_insertOrdered_of_mem v _ hmem)

/-- A field that is set leaves the others in their order. -/
theorem filter_keys_setField {p : Int → Bool} {tag : Int} (hp : p tag = false) (m : FieldMap)
    (value : Bytes) (order : Bool) :
    (AssocList.keys (m.setField tag value order).fields).filter p =
      (AssocList.keys m.fields).filter p := by
  have hset : ∀ v : View, (AssocList.keys (AssocList.set tag v m.fields)).filter p =
      (AssocList.keys m.fields).filter p := by
    intro v
    rw [AssocList.keys_set]
    split
    · rfl
    · rw [List.filter_append, List.filter_cons_of_neg (by simp [hp])]
      exact List.append_nil _
  unfold setField insertFieldView
  dsimp only
  split
  · split
    · exact filter_keys_insertOrdered hp _ _ _
    · exact hset _
  · exact hset _

theorem keys_setField_of_mem {m : FieldMap} {tag : Int} (h : tag ∈ AssocList.keys m.fields)
    (value : Bytes) (order : Bool) :
    AssocList.keys (m.setField tag value order).fields = AssocList.keys m.fields := by
  have hset : ∀ v : View, AssocList.keys (AssocList.set tag v m.fields) =
      AssocList.keys m.fields := by
    intro v
    rw [AssocList.keys_set, if_pos h]
  unfold setField insertFieldView
  dsimp only
  split
  · split
    · exact keys_insertOrdered_of_mem _ _ h
    · exact hset _
  · exact hset _

theorem nodup_keys_setField {m : FieldMap} (h : (AssocList.keys m.fields).Nodup) (tag : Int)
    (value : Bytes) (order : Bool) :
    (AssocList.keys (m.setField tag value order).fields).Nodup := by
  unfold setField
  exact nodup_keys_insertFieldView (m := { m with owned := _, capacity := _ }) h tag _ order

theorem unmarked_foldr_tagStep (value : Int → Bytes) (instances : Int → Option Instances) :
    ∀ l : List Int, (l.foldr (tagStep value instances) .nil).unmarked =
      (l.filter (!Content.isMark ·)).foldr
        (tagStep (fun tag => Content.keptValue tag (value tag)) instances) .nil
  | [] => rfl
  | tag :: l => by
      have ih := unmarked_foldr_tagStep value instances l
      rw [List.foldr_cons, tagStep, List.filter_cons]
      cases hmark : Content.isMark tag with
      | true =>
          cases instances tag with
          | none => simpa [Content.unmarked, hmark] using ih
          | some c => simpa [Content.unmarked, hmark] using ih
      | false =>
          rw [Bool.not_false, if_pos rfl, List.foldr_cons, ← ih, tagStep]
          cases instances tag with
          | none => simp [Content.unmarked, hmark]
          | some c => simp [Content.unmarked, hmark]

/-- A field that is set as a mark does not change the rest. -/
theorem unmarked_setField {m : FieldMap} (hnodup : (AssocList.keys m.fields).Nodup) {tag : Int}
    (h : Content.isMark tag = true ∨ tag = Field.sendingTime ∧ tag ∈ AssocList.keys m.fields)
    (value : Bytes) (order : Bool) :
    (m.setField tag value order).content.unmarked = m.content.unmarked := by
  have hnodup' := nodup_keys_setField hnodup tag value order
  have hkeys : (m.setField tag value order).plainKeys.filter (!Content.isMark ·) =
      m.plainKeys.filter (!Content.isMark ·) := by
    rw [plainKeys, plainKeys, List.filter_filter, List.filter_filter]
    rcases h with hmark | ⟨-, hmem⟩
    · exact filter_keys_setField (by rw [hmark]; rfl) m value order
    · rw [keys_setField_of_mem hmem]
  have hvalue : ∀ t, Content.isMark t = false →
      Content.keptValue t (((m.setField tag value order).field? t).getD []) =
        Content.keptValue t ((m.field? t).getD []) := by
    intro t ht
    by_cases htag : t = tag
    · subst htag
      rcases h with hmark | ⟨htime, -⟩
      · rw [ht] at hmark
        cases hmark
      · rw [Content.keptValue, Content.keptValue, if_pos htime, if_pos htime]
    · rw [field?_setField_ne htag]
  rw [content_eq_tags (hnodup'.filter _), content_eq_tags (hnodup.filter _),
    unmarked_foldr_tagStep, unmarked_foldr_tagStep, hkeys, groups_setField]
  refine tagStep_congr (fun t ht => hvalue t ?_) fun _ _ => rfl
  simpa using (List.mem_filter.mp ht).2

theorem keys_copy {m : FieldMap} (h : (AssocList.keys m.fields).Nodup) :
    AssocList.keys m.copy.fields = AssocList.keys m.fields := by
  have hall : ∀ l : List Int, l.filter (fun _ => true) = l := fun l => List.filter_true l
  have hcopy := filter_keys_foldl_insert (fun t v => .owned (m.read t v).length) (fun _ => true)
    m.fields [] (by rw [hall]; exact h)
  rw [hall, hall] at hcopy
  rw [copy_eq]
  exact hcopy

/-- A copy views its own strings. -/
theorem find?_copy (m : FieldMap) (tag : Int) : AssocList.find? tag m.copy.fields =
    (m.field? tag).map fun value => .owned value.length := by
  have hfields : AssocList.find? tag m.copyFields =
      (AssocList.find? tag m.fields).map fun v => .owned (m.read tag v).length :=
    (find?_foldl_insert (fun t v => .owned (m.read t v).length) tag m.fields []).trans (by simp)
  rw [copy_eq, field?]
  dsimp only
  rw [hfields, Option.map_map]
  rfl

theorem length_owned_setField_le (m : FieldMap) (tag : Int) (value : Bytes) (order : Bool) :
    (m.setField tag value order).owned.length ≤ m.owned.length + 1 := by
  unfold setField
  rw [owned_insertFieldView]
  exact AssocList.length_set_le tag _ m.owned

/-- The strings of a copy have room for a short value. -/
theorem outgrows_copy (m : FieldMap) (tag : Int) {value : Bytes}
    (h : value.length ≤ localCapacity) : m.copy.outgrows tag value = false := by
  have howned : AssocList.find? tag m.copy.owned =
      (AssocList.find? tag m.fields).map fun v => newBuffer (m.read tag v) := by
    rw [copy_eq]
    exact find?_map_value (fun t v => newBuffer (m.read t v)) tag m.fields
  unfold outgrows
  rw [howned]
  cases AssocList.find? tag m.fields with
  | none => rfl
  | some v =>
      simp only [Option.map_some, newBuffer, List.length_append, List.length_cons,
        List.length_replicate, decide_eq_false_iff_not]
      omega

/-- The copy of a header of few fields takes the marks. -/
theorem replayFits_copy {m : FieldMap} (h : m.fields.length + 2 ≤ ownedStorageCapacity)
    (hfree : AssocList.find? Field.origSendingTime m.copy.fields = none) :
    m.copy.replayFits = true := by
  have howned : m.copy.owned.length = m.fields.length := by
    rw [copy_eq]
    exact List.length_map _
  have hreserved : ownedStorageCapacity ≤ m.copy.reserved := by
    unfold reserved
    split
    · exact le_max_right ..
    · rw [copy_eq]
      exact le_max_right ..
  have hroom : ∀ {m : FieldMap} (tag : Int), m.owned.length < m.reserved →
      m.storageFull tag = false := by
    intro m tag hlt
    rw [storageFull, decide_eq_false (by omega), Bool.and_false]
  have hlength := length_owned_setField_le m.copy Field.possDupFlag (ascii "Y") true
  have hkept : m.copy.reserved ≤ (m.copy.setField Field.possDupFlag (ascii "Y") true).reserved := by
    have hcapacity : (m.copy.setField Field.possDupFlag (ascii "Y") true).capacity =
        m.copy.reserved := by
      unfold setField insertFieldView
      dsimp only
      split
      · split
        · rfl
        · rfl
      · rfl
    rw [reserved.eq_def (m.copy.setField _ _ _), hcapacity]
    split
    · exact le_max_left ..
    · exact le_refl _
  have hflag : m.copy.strands Field.possDupFlag (ascii "Y") true = false := by
    rw [strands, outgrows_copy m _ (by decide), Bool.and_false]
  -- There is no view of an original time to be left behind.
  have hviews : (m.copy.setField Field.possDupFlag (ascii "Y") true).viewsOwned
      Field.origSendingTime = false := by
    unfold viewsOwned setField
    rw [find?_insertFieldView_ne (by decide)]
    dsimp only
    rw [hfree]
  rw [replayFits, takes, takes, hroom _ (by omega), hroom _ (by omega), hflag, strands, hviews]
  simp

/-! ## Marking a header -/

/-- The header is the other one with the marks of a resend at the time. -/
structure Marks (header header' : FieldMap) (now : Bytes) : Prop where
  beginString : header'.field? Field.beginString = header.field? Field.beginString
  content : header'.content.unmarked = header.content.unmarked
  flag : header'.field? Field.possDupFlag = some (ascii "Y")
  original : header'.field? Field.origSendingTime = header.field? Field.sendingTime
  sent : header'.field? Field.sendingTime = some now

/-- A header without marks is marked as a resend, and says the rest again. -/
theorem marks_of_replayHeader {header header' : FieldMap} {now : Bytes}
    (h : Session.replayHeader header now = .ok header')
    (hnodup : (AssocList.keys header.fields).Nodup)
    (hflag : AssocList.find? Field.possDupFlag header.fields = none)
    (horiginal : AssocList.find? Field.origSendingTime header.fields = none)
    (hsent : AssocList.find? Field.sendingTime header.fields = some (.owned now.length)) :
    header.Marks header' now := by
  simp only [Session.replayHeader, bind, Except.bind] at h
  split at h
  · cases h
  next flagged hflagged =>
  rw [storeField_ok hflagged] at h
  split at h
  · cases h
  next time htime =>
  split at h
  · cases h
  next original horig =>
  rw [storeField_ok horig] at h
  obtain rfl := storeField_ok h
  rw [getField_eq, field?_setField_ne (by decide)] at htime
  have hview : ∀ {tag : Int}, tag ≠ Field.possDupFlag →
      AssocList.find? tag (header.setField Field.possDupFlag (ascii "Y") true).fields =
        AssocList.find? tag header.fields := by
    intro tag htag
    unfold setField
    rw [find?_insertFieldView_ne htag]
  have hview' : AssocList.find? Field.sendingTime ((header.setField Field.possDupFlag (ascii "Y")
      true).setField Field.origSendingTime time true).fields =
        AssocList.find? Field.sendingTime header.fields := by
    rw [← hview (by decide)]
    unfold setField
    rw [find?_insertFieldView_ne (by decide)]
  have hmem : Field.sendingTime ∈ AssocList.keys ((header.setField Field.possDupFlag (ascii "Y")
      true).setField Field.origSendingTime time true).fields :=
    AssocList.find?_isSome_iff.mp (by rw [hview', hsent]; rfl)
  have hnodup' := nodup_keys_setField hnodup Field.possDupFlag (ascii "Y") true
  have hnodup'' := nodup_keys_setField hnodup' Field.origSendingTime time true
  constructor
  · rw [field?_setField_ne (by decide), field?_setField_ne (by decide),
      field?_setField_ne (by decide)]
  · rw [unmarked_setField hnodup'' (.inr ⟨rfl, hmem⟩),
      unmarked_setField hnodup' (.inl (by decide)), unmarked_setField hnodup (.inl (by decide))]
  · rw [field?_setField_ne (by decide), field?_setField_ne (by decide),
      field?_setField_self _ _ _ _ (.inr fun v hv => by rw [hflag] at hv; cases hv)]
  · rw [field?_setField_ne (by decide), field?_setField_self _ _ _ _ (.inr fun v hv => by
      rw [hview (by decide), horiginal] at hv; cases hv), htime]
  · exact field?_setField_self _ _ _ _ (.inr fun v hv => by
      rw [hview', hsent] at hv; exact (Option.some.inj hv).symm)

end FieldMap

/-! ## What a resend transmits -/

namespace Session

/-- What is transmitted on the way from one state to another has a property. -/
def TransmitsOnly (P : Message → Prop) (s t : Session) : Prop :=
  ∃ ev, t.events = s.events ++ ev ∧ ∀ m ∈ transmittedOf ev, P m

section

variable {P : Message → Prop} {env : Env}

instance : Std.Refl (TransmitsOnly P) :=
  ⟨fun _ => ⟨[], (List.append_nil _).symm, fun _ hm => absurd hm List.not_mem_nil⟩⟩

instance : IsTrans Session (TransmitsOnly P) where
  trans s t u h h' := by
    obtain ⟨ev, hev, hall⟩ := h
    obtain ⟨ev', hev', hall'⟩ := h'
    refine ⟨ev ++ ev', by rw [hev', hev, List.append_assoc], fun m hm => ?_⟩
    rw [transmittedOf, List.filterMap_append] at hm
    exact (List.mem_append.mp hm).elim (hall m) (hall' m)

theorem TransmitsOnly.of_events {s t : Session} (h : t.events = s.events) : TransmitsOnly P s t :=
  ⟨[], by rw [h, List.append_nil], fun _ hm => absurd hm List.not_mem_nil⟩

theorem TransmitsOnly.mem {s t : Session} (h : TransmitsOnly P s t) :
    ∀ m ∈ transmittedBetween s t, P m := by
  obtain ⟨ev, hev, hall⟩ := h
  rwa [transmittedBetween_eq hev]

theorem transmitsOnly_internalSend {m : Message} (hm : P m) (epochUs : Int) :
    Keeps (TransmitsOnly P) (internalSend env m none epochUs) := fun s =>
  after_eq_of_ends ((internalSend_ends env m epochUs s).mono (fun _ t ht =>
    ⟨_, ht.events, fun m' hm' => by rwa [transmittedOf_transmission hm']⟩) fun _ _ h => h.elim)

theorem transmitsOnly_currentEpochUs : Keeps (TransmitsOnly P) (currentEpochUs env) := fun s =>
  after_eq_of_ends ((currentEpochUs_ends env s).mono (fun _ _ h => .of_events h.events)
    fun _ _ h => h.elim)

theorem transmitsOnly_getSenderSeqNum : Keeps (TransmitsOnly P) getSenderSeqNum := fun s =>
  Std.Refl.refl s

/-- What follows a timestamp runs on one that the clock gave. -/
theorem transmitsOnly_getUTCTimestamp_bind {α : Type} {f : Bytes → SessionM α}
    (h : ∀ n, Keeps (TransmitsOnly P) (f (writeUTCTimestamp ((env.clock n).tdiv 1000)))) :
    Keeps (TransmitsOnly P) (getUTCTimestamp env >>= f) := by
  intro s
  have hrun : (getUTCTimestamp env).run s =
      .ok (writeUTCTimestamp ((env.clock s.clockReads).tdiv 1000))
        { s with clockReads := s.clockReads + 1 } := rfl
  rw [after_bind_ok hrun]
  exact IsTrans.trans s { s with clockReads := s.clockReads + 1 } _ (.of_events rfl)
    (h s.clockReads _)

/-- A gap fill is a SequenceReset. -/
theorem transmitsOnly_sendSequenceReset (hP : ∀ m, m.HasType MsgType.sequenceReset → P m)
    (seqno newSeqno : Int) (gapfill : Bool) :
    Keeps (TransmitsOnly P) (sendSequenceReset env seqno newSeqno gapfill) := by
  unfold sendSequenceReset
  refine keeps_liftExcept_bind fun msg hcreate s => ?_
  refine after_eq_of_ends (Ends.bind ((populateMessage_ends env msg 0 s).mono (fun _ _ h => h)
    fun _ _ h => .of_events h.1.events) ?_)
  rintro ⟨m, seqnum⟩ t ⟨ht, hstamped, -⟩
  have hsend : Keeps (TransmitsOnly P) (getUTCTimestamp env >>= fun now =>
      currentEpochUs env >>= fun epochUs =>
        internalSend env (fillSequenceReset m now seqno newSeqno gapfill) none epochUs) := by
    refine transmitsOnly_getUTCTimestamp_bind fun n => ?_
    refine keeps_bind transmitsOnly_currentEpochUs fun _ => transmitsOnly_internalSend (hP _ ?_) _
    obtain ⟨ms, header, hstamp, rfl⟩ := hstamped
    have hheader := stampHeader_ok hstamp
    have hfilled : ∀ now, (fillSequenceReset { msg with header := header } now seqno newSeqno
        gapfill).header = ((header.setField Field.origSendingTime now true).setField
          Field.msgSeqNum (toChars seqno) true).setField Field.possDupFlag (ascii "Y") true := by
      intro now
      unfold fillSequenceReset
      dsimp only
      split
      · rfl
      · rfl
    refine FieldMap.getField_eq.mpr ?_
    rw [hfilled, FieldMap.field?_setField_ne (by decide), FieldMap.field?_setField_ne (by decide),
      FieldMap.field?_setField_ne (by decide), hheader.other _ (by decide)]
    exact FieldMap.getField_eq.mp (create_hasType hcreate).1
  exact (hsend.ends t).mono (fun _ u hu => IsTrans.trans s t u (.of_events ht.events) hu)
    fun _ u hu => IsTrans.trans s t u (.of_events ht.events) hu

end

/-- A message that a resend transmits: a SequenceReset, or what a cached text is replayed as. -/
inductive Replayed (env : Env) (wires : List (Int × Bytes)) (m : Message) : Prop where
  | reset (h : m.HasType MsgType.sequenceReset)
  | text {k : Int} {wire : Bytes} {msg : Message} {n : Nat} (hmem : (k, wire) ∈ wires)
      (hparse : env.dictionary.parse env.settings wire = .ok msg)
      (hreplay : replayMessage msg.copy (writeUTCTimestamp ((env.clock n).tdiv 1000)) = .ok m)

theorem transmitsOnly_replayOne {env : Env} {wires : List (Int × Bytes)} {k : Int} {wire : Bytes}
    {msg : Message} (hmem : (k, wire) ∈ wires)
    (hparse : env.dictionary.parse env.settings wire = .ok msg) (ptr : Int) :
    Keeps (TransmitsOnly (Replayed env wires)) (replayOne env k msg.copy ptr) := by
  unfold replayOne
  refine keeps_bind (keeps_liftExcept _) fun msgType => ?_
  refine keeps_ite (fun _ => keeps_pure _) fun _ => ?_
  have hfill : Keeps (TransmitsOnly (Replayed env wires)) (fillGap env ptr k) :=
    keeps_ite (fun _ => transmitsOnly_sendSequenceReset (fun _ => .reset) ptr k true)
      fun _ => keeps_pure _
  refine keeps_bind hfill fun _ => transmitsOnly_getUTCTimestamp_bind fun n => ?_
  refine keeps_liftExcept_bind fun m hreplay => keeps_bind transmitsOnly_currentEpochUs fun _ => ?_
  exact keeps_bind (transmitsOnly_internalSend (.text hmem hparse hreplay) _) fun _ => keeps_pure _

theorem transmitsOnly_replayLoop {env : Env} {wires : List (Int × Bytes)} :
    ∀ {entries : List (Int × Bytes)} (ptr : Int), (∀ e ∈ entries, e ∈ wires) →
      Keeps (TransmitsOnly (Replayed env wires)) (replayLoop env entries ptr)
  | [], _, _ => keeps_pure _
  | (k, wire) :: entries, ptr, h => by
      refine keeps_liftExcept_bind fun msg hparse => ?_
      refine keeps_bind (transmitsOnly_replayOne (h _ (List.mem_cons_self ..)) hparse ptr)
        fun ptr => ?_
      exact transmitsOnly_replayLoop ptr fun e he => h e (List.mem_cons_of_mem _ he)

theorem transmitsOnly_runMessageRecovery (env : Env) (beginSeqNo endSeqNo : Int) (s : Session) :
    TransmitsOnly (Replayed env (s.cache.getMessages beginSeqNo
      (min endSeqNo s.cache.senderSeqNum))) s
      (after (runMessageRecovery env beginSeqNo endSeqNo) s) := by
  have hsender : getSenderSeqNum.run s = .ok s.cache.senderSeqNum s := rfl
  have hget : (get : SessionM Session).run s = .ok s s := rfl
  unfold runMessageRecovery
  rw [after_bind_ok hsender, after_bind_ok hget]
  refine keeps_bind (transmitsOnly_replayLoop beginSeqNo fun _ he => he) (fun ptr => ?_) s
  refine keeps_bind (keeps_ite (fun _ => keeps_pure _) fun _ => transmitsOnly_getSenderSeqNum)
    fun last => ?_
  exact keeps_ite (fun _ => transmitsOnly_sendSequenceReset (fun _ => .reset) _ _ true)
    fun _ => keeps_pure _

end Session

/-! ## What is replayed of what is planned -/

namespace Emit

/-- The number and the message that it replays. -/
def replayed? : Emit → Option (Int × Message)
  | fill _ _ => none
  | replay k msg => some (k, msg)

theorem replayed?_fill (p : Prop) [Decidable p] (a b : Int) :
    (if p then [fill a b] else []).filterMap replayed? = [] := by
  split
  · rfl
  · rfl

theorem replayed?_replay (k : Int) (msg : Message) (plan : List Emit) :
    (replay k msg :: plan).filterMap replayed? = (k, msg) :: plan.filterMap replayed? := rfl

/-- The application messages among what was sent are the replays of the plan. -/
theorem forall₂_replayed {plan : List Emit} {out : List Message}
    (h : List.Forall₂ SentAs plan out) :
    List.Forall₂ (fun e m => m.IsReplayOf e.1 e.2) (plan.filterMap replayed?)
        (out.filter (·.IsApplication)) ∧
      ∀ m ∈ out, m.IsApplication ∨ m.HasType MsgType.sequenceReset := by
  induction h with
  | nil => exact ⟨.nil, fun _ hm => absurd hm List.not_mem_nil⟩
  | @cons e m plan out hsent _ ih =>
      rw [List.forall_mem_cons]
      cases e with
      | fill a b =>
          have happ : ¬m.IsApplication := by
            rintro ⟨t, ht, hreplayable⟩
            have htype : m.HasType MsgType.sequenceReset := hsent.type
            obtain rfl : t = MsgType.sequenceReset := Except.ok.inj (ht.symm.trans htype)
            exact absurd hreplayable (by decide)
          rw [List.filter_cons_of_neg (by simpa using happ)]
          exact ⟨ih.1, .inr hsent.type, ih.2⟩
      | replay k msg =>
          obtain ⟨t, ht, hreplayable⟩ := hsent.2
          have happ : m.IsApplication := ⟨t, (hsent.1.type t).mpr ht, hreplayable⟩
          rw [List.filter_cons_of_pos (by simpa using happ)]
          exact ⟨.cons hsent.1 ih.1, .inl happ, ih.2⟩

end Emit

/-- A loop over messages that fit replays the application messages. -/
theorem planLoop_replayed : ∀ {entries : List (Int × Message)} (ptr : Int),
    (∀ e ∈ entries, e.2.IsApplication → e.2.Fits) → (planLoop entries ptr).2.isSome = true ∧
      (planLoop entries ptr).1.filterMap Emit.replayed? = entries.filter (·.2.IsApplication)
  | [], _, _ => ⟨rfl, rfl⟩
  | (k, msg) :: entries, ptr, h => by
      have hrest : ∀ e ∈ entries, e.2.IsApplication → e.2.Fits := fun e he =>
        h e (List.mem_cons_of_mem _ he)
      rw [planLoop]
      by_cases happ : msg.IsApplication
      · obtain ⟨hsome, hreplayed⟩ := planLoop_replayed (k + 1) hrest
        rw [if_pos happ, if_pos (h _ (List.mem_cons_self ..) happ), List.filterMap_append,
          Emit.replayed?_fill, List.nil_append, Emit.replayed?_replay, hreplayed,
          List.filter_cons_of_pos (by simpa using happ)]
        exact ⟨hsome, rfl⟩
      · rw [if_neg happ, List.filter_cons_of_neg (by simpa using happ)]
        exact planLoop_replayed ptr hrest

theorem planRecovery_replayed {entries : List (Int × Message)}
    (h : ∀ e ∈ entries, e.2.IsApplication → e.2.Fits) (beginSeqNo endSeqNo sender : Int) :
    (planRecovery entries beginSeqNo endSeqNo sender).filterMap Emit.replayed? =
      entries.filter (·.2.IsApplication) := by
  obtain ⟨hsome, hreplayed⟩ := planLoop_replayed beginSeqNo h
  obtain ⟨p, hp⟩ := Option.isSome_iff_exists.mp hsome
  rw [planRecovery_of_some hp rfl rfl, List.filterMap_append, hreplayed, Emit.replayed?_fill,
    List.append_nil]

/-! ## The messages of a resend say what was sent -/

namespace Message

/-- A message as it was sent under a number, before any resend. -/
structure SentUnder (env : Env) (k : Int) (msg : Message) : Prop where
  conforms : ∃ bodySpec, msg.Conforms env.settings env.dictionary bodySpec
  seqNum : msg.HasSeqNum k
  /-- The time is written with milliseconds. -/
  time : ∃ time, msg.header.field? Field.sendingTime = some time ∧ time.length = 21
  flag : msg.header.field? Field.possDupFlag = none
  original : msg.header.field? Field.origSendingTime = none
  /-- With the frame and the marks the header has at most as many fields as it reserves. -/
  room : msg.header.content.tags.length + 4 ≤ ownedStorageCapacity

/-- The message says what the other one says, with the marks of a resend. -/
structure Resends (env : Env) (msg resent : Message) : Prop where
  beginString : resent.header.field? Field.beginString = msg.header.field? Field.beginString
  header : resent.header.content.unmarked = msg.header.content.unmarked
  flag : resent.header.content.value? Field.possDupFlag = some (ascii "Y")
  original : resent.header.content.value? Field.origSendingTime =
    msg.header.content.value? Field.sendingTime
  sent : ∃ n, resent.header.content.value? Field.sendingTime =
    some (writeUTCTimestamp ((env.clock n).tdiv 1000))
  body : resent.body.content = msg.body.content
  trailer : resent.trailer.content = msg.trailer.content

/-- A message that is resent keeps its number. -/
theorem Resends.hasSeqNum {env : Env} {msg resent : Message} (h : msg.Resends env resent) {k : Int}
    (hk : msg.HasSeqNum k) : resent.HasSeqNum k := by
  have hvalue := congrArg (Content.value? Field.msgSeqNum) h.header
  rw [Content.value?_unmarked rfl (by decide), Content.value?_unmarked rfl (by decide),
    FieldMap.value?_content _ rfl, FieldMap.value?_content _ rfl] at hvalue
  unfold HasSeqNum at hk ⊢
  rw [FieldMap.getIntField_eq] at hk ⊢
  rwa [hvalue]

variable {env : Env} {k : Int} {msg parsed : Message}

theorem SentUnder.readAs (h : msg.SentUnder env k) :
    ∃ parsed, msg.ReadAs env.settings env.dictionary parsed := by
  obtain ⟨bodySpec, hconforms⟩ := h.conforms
  exact hconforms.readAs

theorem SentUnder.readAs_of_parse (h : msg.SentUnder env k)
    (hparse : env.dictionary.parse env.settings (msg.toString true) = .ok parsed) :
    msg.ReadAs env.settings env.dictionary parsed := by
  obtain ⟨parsed', hread⟩ := h.readAs
  obtain rfl : parsed' = parsed := Except.ok.inj (hread.parse.symm.trans hparse)
  exact hread

namespace ReadAs

theorem hasType_iff (h : msg.ReadAs env.settings env.dictionary parsed) (t : Bytes) :
    parsed.HasType t ↔ msg.HasType t := by
  unfold HasType
  rw [FieldMap.getField_eq, FieldMap.getField_eq, h.field?_header rfl]

theorem isApplication_iff (h : msg.ReadAs env.settings env.dictionary parsed) :
    parsed.IsApplication ↔ msg.IsApplication :=
  exists_congr fun t => and_congr_left' (h.hasType_iff t)

theorem hasSeqNum_iff (h : msg.ReadAs env.settings env.dictionary parsed) (k : Int) :
    parsed.HasSeqNum k ↔ msg.HasSeqNum k := by
  unfold HasSeqNum
  rw [FieldMap.getIntField_eq, FieldMap.getIntField_eq, h.field?_header rfl]

theorem resendable (h : msg.ReadAs env.settings env.dictionary parsed)
    (hsent : msg.SentUnder env k)
    (hclock : ∀ n, (writeUTCTimestamp ((env.clock n).tdiv 1000)).length = 21) :
    Session.Resendable env k parsed := by
  obtain ⟨bodySpec, hconforms⟩ := hsent.conforms
  obtain ⟨t, rest, hfront, -⟩ := hconforms.msgType
  obtain ⟨time, htime, hlength⟩ := hsent.time
  refine ⟨⟨t, (h.hasType_iff t).mpr ?_⟩, fun _ => (h.hasSeqNum_iff k).mpr hsent.seqNum,
    fun _ => ⟨time, (h.field?_header rfl).trans htime, fun n => (hclock n).trans_le hlength.ge⟩⟩
  refine FieldMap.getField_eq.mpr ?_
  rw [← FieldMap.value?_content _ rfl, hfront]
  exact if_pos rfl

theorem fits (h : msg.ReadAs env.settings env.dictionary parsed)
    (hsent : msg.SentUnder env k) : parsed.Fits := by
  have hlength := congrArg List.length h.keys
  have hroom := hsent.room
  rw [AssocList.keys, List.length_map] at hlength
  refine FieldMap.replayFits_copy ?_ ?_
  · rw [hlength]
    simp only [List.length_cons]
    omega
  · rw [FieldMap.find?_copy, h.field?_header rfl, hsent.original]
    rfl

/-- The replay of what was read says what was cached. -/
theorem resends (h : msg.ReadAs env.settings env.dictionary parsed)
    (hsent : msg.SentUnder env k) {n : Nat}
    (hclock : (writeUTCTimestamp ((env.clock n).tdiv 1000)).length = 21) {resent : Message}
    (hreplay : Session.replayMessage parsed.copy
      (writeUTCTimestamp ((env.clock n).tdiv 1000)) = .ok resent) :
    msg.Resends env resent := by
  obtain ⟨bodySpec, hconforms⟩ := hsent.conforms
  obtain ⟨time, htime, hlength⟩ := hsent.time
  have hheader : parsed.header.content = msg.header.content := congrArg Contents.header h.contents
  have hbody : parsed.body.content = msg.body.content := congrArg Contents.body h.contents
  have htrailer : parsed.trailer.content = msg.trailer.content :=
    congrArg Contents.trailer h.contents
  have hbegin : parsed.header.field? Field.beginString = msg.header.field? Field.beginString :=
    congrArg Contents.beginString h.contents
  have hkeys := ParseState.nodup_of_complete hconforms.headerTags
  have hnodup : (AssocList.keys parsed.header.fields).Nodup := h.keys ▸ hkeys
  have hview : ∀ tag, AssocList.find? tag parsed.copy.header.fields =
      (parsed.header.field? tag).map fun value => .owned value.length :=
    FieldMap.find?_copy parsed.header
  have hcopy : parsed.header.copy.content = msg.header.content := by
    rw [FieldMap.content_copy, hheader]
    rw [hheader]
    exact Content.distinct_of_conforms (List.nodup_cons.mp (List.nodup_cons.mp hkeys).2).2
      hconforms.header
  simp only [Session.replayMessage, bind, Except.bind] at hreplay
  split at hreplay
  · cases hreplay
  next header hmarked =>
  cases hreplay
  have hmarks := FieldMap.marks_of_replayHeader hmarked ((FieldMap.keys_copy hnodup).symm ▸ hnodup)
    (by rw [hview, h.field?_header rfl, hsent.flag]; rfl)
    (by rw [hview, h.field?_header rfl, hsent.original]; rfl)
    (by rw [hview, h.field?_header rfl, htime, Option.map_some, hlength, hclock])
  have hread : ∀ tag, parsed.copy.header.field? tag = parsed.header.field? tag :=
    FieldMap.field?_copy _
  constructor
  · rw [hmarks.beginString, hread, hbegin]
  · rw [hmarks.content]
    exact congrArg Content.unmarked hcopy
  · rw [FieldMap.value?_content _ rfl, hmarks.flag]
  · rw [FieldMap.value?_content _ rfl, FieldMap.value?_content _ rfl, hmarks.original, hread,
      h.field?_header rfl]
  · exact ⟨n, by rw [FieldMap.value?_content _ rfl, hmarks.sent]⟩
  · rw [← hbody]
    refine FieldMap.content_copy ?_
    rw [hbody]
    exact Content.distinct_of_conforms (ParseState.nodup_of_complete hconforms.bodyTags)
      hconforms.body
  · rw [← htrailer]
    refine FieldMap.content_copy ?_
    rw [htrailer]
    exact Content.distinct_of_conforms
      (ParseState.nodup_of_complete hconforms.trailerTags).of_append_left hconforms.trailer

end ReadAs

end Message

/-- The time of a reading of the clock is written with 21 bytes. -/
theorem length_writeUTCTimestamp {epochUs : Int}
    (h : 1000000 ≤ epochUs ∧ epochUs < 253402300800000000) :
    (writeUTCTimestamp (epochUs.tdiv 1000)).length = 21 := by
  have hdiv : epochUs.tdiv 1000 = epochUs / 1000 := Int.tdiv_eq_ediv_of_nonneg (by omega)
  have h₀ : 1000 ≤ epochUs / 1000 := by omega
  have h₁ : epochUs / 1000 < 253402300800000 := by omega
  have hfresh : TimestampCache.new.Fresh utcTm := TimestampCache.fresh_new
  obtain ⟨ms, -, -, htext⟩ := hfresh.writeUTCTimestamp implementCalendar_utcTm h₀ h₁
  have hutc := implementCalendar_utcTm.utc (epochUs / 1000 / 1000) (by omega) (by omega)
  obtain ⟨hvalid, -⟩ := hutc.valid (by omega) (by omega)
  rw [hdiv, ← hfresh.writeUTCTimestamp_eq implementCalendar_utcTm h₀ h₁, htext,
    List.length_append, hvalid.length_text]
  rfl

namespace Session

/-- A message under a number, as it was cached and as it is read for a resend. -/
def ReadEntry (env : Env) (e p : Int × Message) : Prop :=
  p.1 = e.1 ∧ e.2.ReadAs env.settings env.dictionary p.2

theorem forall₂_readEntry {env : Env} : ∀ {msgs : List (Int × Message)},
    (∀ e ∈ msgs, e.2.SentUnder env e.1) → List.Forall₂ (ReadEntry env) msgs
      (readMessages env (msgs.map fun e => (e.1, e.2.toString true)))
  | [], _ => .nil
  | (k, msg) :: msgs, h => by
      obtain ⟨parsed, hread⟩ := (h _ (List.mem_cons_self ..)).readAs
      rw [List.map_cons, readMessages_cons hread.parse]
      exact .cons ⟨rfl, hread⟩ (forall₂_readEntry fun e he => h e (List.mem_cons_of_mem _ he))

theorem forall₂_comp {α β γ : Type} {R : α → β → Prop} {S : β → γ → Prop} :
    ∀ {l : List α} {l' : List β} {l'' : List γ}, List.Forall₂ R l l' → List.Forall₂ S l' l'' →
      List.Forall₂ (Relation.Comp R S) l l''
  | _, _, _, .nil, .nil => .nil
  | _, _, _, .cons h hs, .cons h' hs' => .cons ⟨_, h, h'⟩ (forall₂_comp hs hs')

/-- A replay has the type of what it replays. -/
theorem hasType_replayMessage {msg m : Message} {now : Bytes}
    (h : replayMessage msg.copy now = .ok m) (t : Bytes) : m.HasType t ↔ msg.HasType t := by
  simp only [replayMessage, replayHeader, bind, Except.bind] at h
  split at h
  · cases h
  next header hheader =>
  cases h
  split at hheader
  · cases hheader
  next flagged hflagged =>
  split at hheader
  · cases hheader
  next time htime =>
  split at hheader
  · cases hheader
  next original horiginal =>
  unfold Message.HasType
  rw [FieldMap.getField_eq, FieldMap.getField_eq, FieldMap.storeField_ok hheader,
    FieldMap.field?_setField_ne (by decide), FieldMap.storeField_ok horiginal,
    FieldMap.field?_setField_ne (by decide), FieldMap.storeField_ok hflagged,
    FieldMap.field?_setField_ne (by decide)]
  exact iff_of_eq (congrArg (· = some t) (FieldMap.field?_copy msg.header Field.msgType))

/-- The cached texts of a range: these application messages as they were sent, and texts that
are read as messages of the session. -/
structure CachedAs (env : Env) (s : Session) (beginSeqNo endSeqNo : Int)
    (msgs : List (Int × Message)) : Prop where
  numbers : ∀ e ∈ s.cache.messages.entries, 0 ≤ e.1 ∧ e.1 < s.cache.senderSeqNum
  sorted : msgs.Pairwise fun e f => e.1 < f.1
  range : ∀ e ∈ msgs, beginSeqNo ≤ e.1 ∧ e.1 ≤ lastOf endSeqNo s.cache.senderSeqNum
  sent : ∀ e ∈ msgs, e.2.IsApplication ∧ e.2.SentUnder env e.1 ∧
    (e.1, e.2.toString true) ∈ s.cache.messages.entries
  others : ∀ e ∈ s.cache.messages.entries, beginSeqNo ≤ e.1 →
    e.1 ≤ lastOf endSeqNo s.cache.senderSeqNum → (∃ f ∈ msgs, f.1 = e.1) ∨
      ∃ msg, env.dictionary.parse env.settings e.2 = .ok msg ∧
        ∃ t ∈ MsgType.sessionMsgs, msg.HasType t

namespace CachedAs

variable {env : Env} {s : Session} {beginSeqNo endSeqNo : Int} {msgs : List (Int × Message)}

/-- What a resend looks up is one of the messages, or is read as one of the session. -/
theorem lookup (h : CachedAs env s beginSeqNo endSeqNo msgs) {k : Int} {wire : Bytes}
    (hmem : (k, wire) ∈ s.cache.getMessages beginSeqNo (min endSeqNo s.cache.senderSeqNum)) :
    (∃ msg, (k, msg) ∈ msgs ∧ wire = msg.toString true) ∨
      ∃ msg, env.dictionary.parse env.settings wire = .ok msg ∧
        ∃ t ∈ MsgType.sessionMsgs, msg.HasType t := by
  obtain ⟨hentry, hge, hle⟩ := (mem_getMessages fun hentry => (h.numbers _ hentry).2).mp hmem
  rcases h.others _ hentry hge hle with ⟨f, hf, hkey⟩ | hsession
  · refine .inl ⟨f.2, (show k = f.1 from hkey.symm) ▸ hf, ?_⟩
    have hnodup : (s.cache.messages.entries.map Prod.fst).Nodup :=
      List.pairwise_map.mpr (s.cache.messages.sorted.imp ne_of_lt)
    have hsame := List.inj_on_of_nodup_map hnodup hentry (h.sent f hf).2.2 hkey.symm
    exact congrArg Prod.snd hsame
  · exact .inr hsession

theorem mem_lookup (h : CachedAs env s beginSeqNo endSeqNo msgs) {e : Int × Message}
    (he : e ∈ msgs) : (e.1, e.2.toString true) ∈
      s.cache.getMessages beginSeqNo (min endSeqNo s.cache.senderSeqNum) :=
  (mem_getMessages fun hentry => (h.numbers _ hentry).2).mpr ⟨(h.sent e he).2.2, h.range e he⟩

theorem recoverable (h : CachedAs env s beginSeqNo endSeqNo msgs)
    (hclock : ∀ n, (writeUTCTimestamp ((env.clock n).tdiv 1000)).length = 21) :
    Recoverable env s beginSeqNo endSeqNo := by
  refine ⟨h.numbers, fun e he hge hle => ?_⟩
  have hmem : (e.1, e.2) ∈ s.cache.getMessages beginSeqNo (min endSeqNo s.cache.senderSeqNum) :=
    (mem_getMessages fun hentry => (h.numbers _ hentry).2).mpr ⟨he, hge, hle⟩
  rcases h.lookup hmem with ⟨msg, hmsg, hwire⟩ | ⟨msg, hparse, t, ht, htype⟩
  · obtain ⟨-, hunder, -⟩ := h.sent _ hmsg
    obtain ⟨parsed, hread⟩ := hunder.readAs
    exact ⟨parsed, hwire ▸ hread.parse, hread.resendable hunder hclock⟩
  · have happ : ¬msg.IsApplication := by
      rintro ⟨t', htype', ht'⟩
      exact ht' (Except.ok.inj (htype.symm.trans htype') ▸ ht)
    exact ⟨msg, hparse, ⟨t, htype⟩, fun h => (happ h).elim, fun h => (happ h).elim⟩

/-- The application messages that are read are these. -/
theorem readMessages_eq (h : CachedAs env s beginSeqNo endSeqNo msgs) :
    (readMessages env (s.cache.getMessages beginSeqNo (min endSeqNo s.cache.senderSeqNum))).filter
        (fun p => p.2.IsApplication) =
      readMessages env (msgs.map fun e => (e.1, e.2.toString true)) := by
  have hsorted : (msgs.map fun e => (e.1, e.2.toString true)).Pairwise fun e f => e.1 < f.1 :=
    List.pairwise_map.mpr h.sorted
  have hirrefl : Std.Irrefl fun e f : Int × Message => e.1 < f.1 := ⟨fun e => lt_irrefl e.1⟩
  have hantisymm : Std.Antisymm fun e f : Int × Message => e.1 < f.1 :=
    ⟨fun e f hef hfe => (lt_asymm hef hfe).elim⟩
  refine ((readMessages_sorted (SortedMap.sorted _)).filter _).eq_of_mem_iff
    (readMessages_sorted hsorted) fun {p} => ?_
  obtain ⟨k, parsed⟩ := p
  rw [List.mem_filter, mem_readMessages, mem_readMessages, decide_eq_true_eq]
  constructor
  · rintro ⟨⟨wire, hmem, hparse⟩, happ⟩
    rcases h.lookup hmem with ⟨msg, hmsg, rfl⟩ | ⟨msg, hparse', t, ht, htype⟩
    · exact ⟨_, List.mem_map.mpr ⟨_, hmsg, rfl⟩, hparse⟩
    · obtain ⟨t', htype', ht'⟩ := happ
      obtain rfl : parsed = msg := Except.ok.inj (hparse.symm.trans hparse')
      exact (ht' (Except.ok.inj (htype.symm.trans htype') ▸ ht)).elim
  · rintro ⟨wire, hmem, hparse⟩
    obtain ⟨e, he, heq⟩ := List.mem_map.mp hmem
    cases heq
    obtain ⟨happ, hunder, -⟩ := h.sent e he
    exact ⟨⟨_, h.mem_lookup he, hparse⟩,
      (hunder.readAs_of_parse hparse).isApplication_iff.mpr happ⟩

theorem fits (h : CachedAs env s beginSeqNo endSeqNo msgs) :
    ∀ p ∈ readMessages env (s.cache.getMessages beginSeqNo (min endSeqNo s.cache.senderSeqNum)),
      p.2.IsApplication → p.2.Fits := by
  rintro ⟨k, parsed⟩ hp happ
  have hmem : (k, parsed) ∈ List.filter (fun p => p.2.IsApplication) _ :=
    List.mem_filter.mpr ⟨hp, decide_eq_true happ⟩
  rw [h.readMessages_eq] at hmem
  obtain ⟨wire, hwire, hparse⟩ := mem_readMessages.mp hmem
  obtain ⟨e, he, heq⟩ := List.mem_map.mp hwire
  cases heq
  have hunder := (h.sent e he).2.1
  exact (hunder.readAs_of_parse hparse).fits hunder

end CachedAs

/-- A resend repeats the application messages of its range, each once and in order.  Each says
what it said when it was sent, but for the marks of a resend, and all else that is transmitted
are SequenceResets. -/
theorem runMessageRecovery_resends {env : Env}
    (hknows : Knows env MsgType.sequenceReset)
    (hclock : ∀ n, 1000000 ≤ env.clock n ∧ env.clock n < 253402300800000000) {s : Session}
    (hconn : s.network.connected = true) (hsender : s.cache.senderSeqNum < 2147483648)
    {beginSeqNo endSeqNo : Int} {msgs : List (Int × Message)}
    (hcached : CachedAs env s beginSeqNo endSeqNo msgs) (hbegin : 1 ≤ beginSeqNo)
    (hlt : beginSeqNo < s.cache.senderSeqNum) :
    List.Forall₂ (fun e resent => e.2.Resends env resent) msgs
        ((transmittedBetween s (after (runMessageRecovery env beginSeqNo endSeqNo) s)).filter
          fun m => m.IsApplication) ∧
      ∀ m ∈ transmittedBetween s (after (runMessageRecovery env beginSeqNo endSeqNo) s),
        m.IsApplication ∨ m.HasType MsgType.sequenceReset := by
  have hlength : ∀ n, (writeUTCTimestamp ((env.clock n).tdiv 1000)).length = 21 :=
    fun n => length_writeUTCTimestamp (hclock n)
  have hnumbers : (msgs.map Prod.fst).Nodup :=
    List.pairwise_map.mpr (hcached.sorted.imp ne_of_lt)
  obtain ⟨out, hout, hsends⟩ := after_eq_of_ends
    (runMessageRecovery_ends hknows hsender hbegin hlt (hcached.recoverable hlength))
  have honly := (transmitsOnly_runMessageRecovery env beginSeqNo endSeqNo s).mem
  rw [hsends.transmittedBetween hconn] at honly ⊢
  obtain ⟨hreplays, hkinds⟩ := Emit.forall₂_replayed hout
  rw [planRecovery_replayed hcached.fits, hcached.readMessages_eq] at hreplays
  refine ⟨?_, hkinds⟩
  -- The messages, as they are read and as they are sent.
  have hread := forall₂_readEntry fun e he => (hcached.sent e he).2.1
  have hmade : ∀ m ∈ out.filter fun m => m.IsApplication, m.IsApplication ∧ Replayed env
      (s.cache.getMessages beginSeqNo (min endSeqNo s.cache.senderSeqNum)) m := by
    intro m hm
    obtain ⟨hmem, happ⟩ := List.mem_filter.mp hm
    exact ⟨of_decide_eq_true happ, honly m hmem⟩
  refine (forall₂_comp ((List.forall₂_and_left _ _).mpr ⟨fun _ he => he, hread⟩)
    ((List.forall₂_and_left _ _).mpr ⟨hmade, hreplays.flip⟩).flip).imp ?_
  rintro e resent ⟨⟨k, parsed⟩, ⟨he, hk, hread⟩, ⟨⟨t, htype, happ⟩, hfrom⟩, hreplay⟩
  obtain rfl : k = e.1 := hk
  cases hfrom with
  | reset hreset =>
      obtain rfl : t = MsgType.sequenceReset := Except.ok.inj (htype.symm.trans hreset)
      exact absurd happ (by decide)
  | @text l wire msg n hmem hparse hmarked =>
      rcases hcached.lookup hmem with ⟨m, hm, rfl⟩ | ⟨msg', hparse', t', ht', htype'⟩
      · have hunder := (hcached.sent _ hm).2.1
        have hresends := (hunder.readAs_of_parse hparse).resends hunder (hlength n) hmarked
        -- The number of the replay tells which message it is made of.
        have hnumber : resent.HasSeqNum l := hresends.hasSeqNum hunder.seqNum
        have hsame : l = e.1 := Except.ok.inj (hnumber.symm.trans hreplay.seqNum)
        have hmsg := List.inj_on_of_nodup_map hnumbers hm he hsame
        rwa [show m = e.2 from congrArg Prod.snd hmsg] at hresends
      · obtain rfl : msg = msg' := Except.ok.inj (hparse.symm.trans hparse')
        have hreplayed := (hasType_replayMessage hmarked t').mpr htype'
        exact (happ (Except.ok.inj (htype.symm.trans hreplayed) ▸ ht')).elim

end Session

/-- The order of the tests as the acceptor sends it. -/
def sentOrder : Message where
  header := { FieldMap.new with
    fields := [(8, .text (ascii "FIX.4.2")), (35, .text (ascii "D")),
      (49, .text (ascii "ACCEPTOR")), (56, .text (ascii "INITIATOR")), (34, .text (ascii "2")),
      (52, .text (ascii "20240229-12:34:56.789"))] }
  body := signedOrder.body
  trailer := signedOrder.trailer

theorem sentOrder_conforms : sentOrder.Conforms Session.expectingSettings testDictionary orderSpec where
  beginString := ⟨ascii "FIX.4.2", by decide +kernel⟩
  bodyLength := by decide +kernel
  bodyLengthType := by decide +kernel
  msgType := by
    have hheader : sentOrder.header.content = .field Field.msgType (ascii "D")
        (.field 49 (ascii "ACCEPTOR") (.field 56 (ascii "INITIATOR") (.field 34 (ascii "2")
          (.field 52 (ascii "20240229-12:34:56.789") .nil)))) := by decide +kernel
    exact ⟨_, _, hheader, rfl⟩
  msgTypeType := by decide +kernel
  header := by decide +kernel
  headerTags := by decide +kernel
  body := by decide +kernel
  bodyTags := by decide +kernel
  trailer := by decide +kernel
  trailerTags := by decide +kernel
  leavesHeader := by decide +kernel
  leavesBody := by decide +kernel
  trailerFront := by decide +kernel
  checkSum := by decide +kernel
  checkSumType := by decide +kernel
  endsHeader := by decide +kernel
  endsBody := by decide +kernel
  endsTrailer := by decide +kernel
  leavesTrailer := by decide +kernel
  measured := by decide +kernel
  starts := by decide +kernel
  headerOrder := by decide +kernel
  bodyOrder := by decide +kernel
  trailerOrder := by decide +kernel

/-- The session of the tests after it sent the order behind its logon, which is not read back
as it was sent. -/
def orderSentSession : Session :=
  { Session.orderedSession with
    cache := Session.orderedSession.cache.cache 2 (sentOrder.toString true) }

/-- The text is one of the session of the tests other than the order. -/
def readsAsLogon (e : Int × Bytes) : Bool :=
  match testDictionary.parse Session.expectingSettings e.2 with
  | .ok msg => msg.header.field? Field.msgType = some MsgType.logon
  | .error _ => false

theorem readsAsLogon_iff {e : Int × Bytes} : readsAsLogon e = true ↔
    ∃ msg, testDictionary.parse Session.expectingSettings e.2 = .ok msg ∧
      msg.HasType MsgType.logon := by
  unfold readsAsLogon
  split
  next msg hparse => simp [hparse, Message.HasType, FieldMap.getField_eq]
  next e hparse => simp [hparse]

theorem cachedAs_orderSentSession :
    Session.CachedAs (testEnv Session.expectingSettings) orderSentSession 1 0 [(2, sentOrder)] where
  numbers := by decide +kernel
  sorted := List.pairwise_singleton _ _
  range := by decide +kernel
  sent e he := by
    rw [List.mem_singleton.mp he]
    exact ⟨by decide +kernel, ⟨⟨orderSpec, sentOrder_conforms⟩,
      FieldMap.getIntField_eq.mpr ⟨ascii "2", by decide +kernel, by decide +kernel⟩,
      ⟨ascii "20240229-12:34:56.789", by decide +kernel, by decide⟩, by decide +kernel,
      by decide +kernel, by decide +kernel⟩, by decide +kernel⟩
  others e he _ _ := by
    have hall : orderSentSession.cache.messages.entries.all
        (fun e => e.1 = 2 || readsAsLogon e) = true := by decide +kernel
    have hone := List.all_eq_true.mp hall e he
    rw [Bool.or_eq_true, decide_eq_true_eq] at hone
    refine hone.imp (fun h => ⟨_, List.mem_singleton_self _, h.symm⟩) fun h => ?_
    obtain ⟨msg, hparse, htype⟩ := readsAsLogon_iff.mp h
    exact ⟨msg, hparse, _, by decide, htype⟩

theorem Session.runMessageRecovery_resends_order :
    List.Forall₂ (fun (e : Int × Message) resent =>
          e.2.Resends (testEnv Session.expectingSettings) resent) [(2, sentOrder)]
        ((transmittedBetween orderSentSession (after (Session.runMessageRecovery
          (testEnv Session.expectingSettings) 1 0) orderSentSession)).filter
            fun m => m.IsApplication) ∧
      ∀ m ∈ transmittedBetween orderSentSession
        (after (Session.runMessageRecovery (testEnv Session.expectingSettings) 1 0)
          orderSentSession), m.IsApplication ∨ m.HasType MsgType.sequenceReset :=
  Session.runMessageRecovery_resends Session.knows_sequenceReset_test (fun _ => by simp [testEnv])
    (by decide +kernel) (by decide +kernel) cachedAs_orderSentSession (by decide)
    (by decide +kernel)

end OpenFix
