import OpenFix.Ordered
import OpenFix.Rendering

/-!
# The contents of a map

What a map says is a tree: its fields in order, and behind the count of a group the
contents of its instances.  The text of a map is its contents, read from left to right,
and nothing else of the map is on the wire: not which values it owns, not its
specification, and not the tags of the frame, which `appendGroup` skips.

`Content.conforms` holds of contents that the parser files as they are.  It reads them in
the order of the text, with the specifications of the groups that are still open and the
length that the last field announced:

- a plain field has a tag of the specification, and no group that is still open has the
  tag too, since the groups are asked first;
- a field of type DATA behind a LENGTH field is read by its length, and may hold any bytes;
- a group is opened when no other group is open in the map: its entry goes to the top of
  the stack, and what is above the entry of the map is taken off;
- every instance of a group starts with the same plain field, which tells it from the one
  before.
-/

namespace OpenFix

mutual

/-- The fields of a map in order. -/
inductive Content where
  | nil
  | field (tag : Int) (value : Bytes) (rest : Content)
  | group (tag : Int) (count : Bytes) (instances : Instances) (rest : Content)
deriving DecidableEq

/-- The contents of the instances of a group. -/
inductive Instances where
  | nil
  | cons (first : Content) (rest : Instances)
deriving DecidableEq

end

namespace Content

/-- The tags of the map itself. -/
def tags : Content → List Int
  | nil => []
  | field tag _ rest => tag :: rest.tags
  | group tag _ _ rest => tag :: rest.tags

def append : Content → Content → Content
  | nil, c => c
  | field tag value rest, c => field tag value (rest.append c)
  | group tag count instances rest, c => group tag count instances (rest.append c)

@[simp] theorem nil_append (c : Content) : nil.append c = c := rfl

@[simp] theorem append_nil : ∀ c : Content, c.append nil = c
  | nil => rfl
  | field tag value rest => by rw [append, append_nil rest]
  | group tag count instances rest => by rw [append, append_nil rest]

theorem append_assoc : ∀ a b c : Content, (a.append b).append c = a.append (b.append c)
  | nil, _, _ => rfl
  | field tag value rest, b, c => by rw [append, append, append, append_assoc rest]
  | group tag count instances rest, b, c => by rw [append, append, append, append_assoc rest]

/-- The tag of a plain field in front. -/
def firstTag? : Content → Option Int
  | field tag _ _ => some tag
  | nil | group _ _ _ _ => none

end Content

mutual

/-- The fields as they are on the wire, without their separators. -/
def Content.texts : Content → List Bytes
  | .nil => []
  | .field tag value rest => fieldText tag value :: rest.texts
  | .group tag count instances rest => fieldText tag count :: (instances.texts ++ rest.texts)

def Instances.texts : Instances → List Bytes
  | .nil => []
  | .cons first rest => first.texts ++ rest.texts

end

namespace Instances

def length : Instances → Nat
  | nil => 0
  | cons _ rest => rest.length + 1

def append : Instances → Instances → Instances
  | nil, c => c
  | cons first rest, c => cons first (rest.append c)

/-- The tag that the instances start with. -/
def firstTag? : Instances → Option Int
  | nil => none
  | cons first _ => first.firstTag?

end Instances

/-! ## The contents of a field map -/

namespace FieldMap

mutual

/-- The fields of a map without the tags of the frame. -/
def content : FieldMap → Content
  | ⟨fields, owned, capacity, groups, spec, seen⟩ =>
      let m : FieldMap := ⟨fields, owned, capacity, groups, spec, seen⟩
      let instances := groupContents groups
      fields.foldr (fun (tag, v) rest =>
        if isIgnoredTag tag then rest
        else match AssocList.find? tag instances with
          | some instances => .group tag (m.read tag v) instances rest
          | none => .field tag (m.read tag v) rest) .nil

def groupContents : List (Int × List FieldMap) → List (Int × Instances)
  | [] => []
  | (tag, ms) :: rest => (tag, instanceContents ms) :: groupContents rest

def instanceContents : List FieldMap → Instances
  | [] => .nil
  | m :: ms => .cons m.content (instanceContents ms)

end

/-- One field and what is behind it. -/
def contentStep (m : FieldMap) (instances : List (Int × Instances)) (p : Int × View)
    (rest : Content) : Content :=
  if isIgnoredTag p.1 then rest
  else match AssocList.find? p.1 instances with
    | some instances => .group p.1 (m.read p.1 p.2) instances rest
    | none => .field p.1 (m.read p.1 p.2) rest

theorem content_eq (m : FieldMap) :
    m.content = m.fields.foldr (m.contentStep (groupContents m.groups)) .nil := by
  cases m
  rw [content]
  rfl

@[simp] theorem content_new : new.content = .nil := rfl

theorem instanceContents_append : ∀ ms ms' : List FieldMap,
    instanceContents (ms ++ ms') = (instanceContents ms).append (instanceContents ms')
  | [], _ => rfl
  | m :: ms, ms' => by
      rw [List.cons_append, instanceContents, instanceContents, instanceContents_append ms]
      rfl

theorem groupContents_append : ∀ groups groups' : List (Int × List FieldMap),
    groupContents (groups ++ groups') = groupContents groups ++ groupContents groups'
  | [], _ => rfl
  | (tag, ms) :: groups, groups' => by
      rw [List.cons_append, groupContents, groupContents, groupContents_append groups,
        List.cons_append]

@[simp] theorem keys_groupContents : ∀ groups : List (Int × List FieldMap),
    AssocList.keys (groupContents groups) = AssocList.keys groups
  | [] => rfl
  | (tag, ms) :: groups => by
      rw [groupContents]
      exact congrArg (tag :: ·) (keys_groupContents groups)

/-- The texts of some fields of a map. -/
theorem texts_foldr (m : FieldMap) {instances : List (Int × Instances)}
    {instances' : List (Int × List Bytes)}
    (h : ∀ tag, (AssocList.find? tag instances').getD [] =
      ((AssocList.find? tag instances).map Instances.texts).getD []) :
    ∀ fields : List (Int × View), (fields.foldr (m.contentStep instances) .nil).texts =
      fields.flatMap fun (tag, v) =>
        if isIgnoredTag tag then []
        else fieldText tag (m.read tag v) :: (AssocList.find? tag instances').getD []
  | [] => rfl
  | (tag, v) :: fields => by
      have ih := texts_foldr m h fields
      rw [List.foldr_cons, List.flatMap_cons, contentStep, ← ih]
      dsimp only
      rw [h tag]
      split
      · rw [List.nil_append]
      · cases AssocList.find? tag instances with
        | none => rfl
        | some instances => rfl

mutual

/-- The text of a map is the text of its contents. -/
theorem texts_content : ∀ m : FieldMap, m.content.texts = m.texts
  | ⟨fields, owned, capacity, groups, spec, seen⟩ => by
      rw [content_eq, texts]
      exact texts_foldr _ (find?_groupTexts groups) fields

theorem find?_groupTexts : ∀ (groups : List (Int × List FieldMap)) (tag : Int),
    (AssocList.find? tag (groupTexts groups)).getD [] =
      ((AssocList.find? tag (groupContents groups)).map Instances.texts).getD []
  | [], _ => rfl
  | (tag', ms) :: groups, tag => by
      rw [groupTexts, groupContents, AssocList.find?, AssocList.find?]
      split
      · exact (texts_instanceContents ms).symm
      · exact find?_groupTexts groups tag

theorem texts_instanceContents : ∀ ms : List FieldMap,
    (instanceContents ms).texts = instanceTexts ms
  | [] => rfl
  | m :: ms => by
      rw [instanceContents, instanceTexts, Instances.texts, texts_content m,
        texts_instanceContents ms]

end

end FieldMap

/-! ## Contents by tags -/

/-- The value of the first field with the tag. -/
def Content.value? (tag : Int) : Content → Option Bytes
  | .nil => none
  | .field t value rest => if t = tag then some value else rest.value? tag
  | .group t count _ rest => if t = tag then some count else rest.value? tag

namespace FieldMap

/-- One field of the contents, by its tag. -/
def tagStep (value : Int → Bytes) (instances : Int → Option Instances) (tag : Int)
    (rest : Content) : Content :=
  match instances tag with
  | some instances => .group tag (value tag) instances rest
  | none => .field tag (value tag) rest

/-- The tags that are no tags of the frame. -/
def plainKeys (m : FieldMap) : List Int := (AssocList.keys m.fields).filter (!isIgnoredTag ·)

theorem tags_foldr_contentStep (m : FieldMap) (instances : List (Int × Instances)) :
    ∀ fields : List (Int × View), (fields.foldr (m.contentStep instances) .nil).tags =
      (AssocList.keys fields).filter (!isIgnoredTag ·)
  | [] => rfl
  | (tag, v) :: fields => by
      have ih := tags_foldr_contentStep m instances fields
      rw [List.foldr_cons, contentStep]
      change _ = (tag :: AssocList.keys fields).filter _
      cases hignored : isIgnoredTag tag with
      | true => simpa [List.filter_cons, hignored] using ih
      | false =>
          rw [List.filter_cons, hignored, ← ih]
          cases AssocList.find? tag instances with
          | none => rfl
          | some instances => rfl

theorem tags_content (m : FieldMap) : m.content.tags = m.plainKeys := by
  rw [content_eq]
  exact tags_foldr_contentStep m _ m.fields

theorem foldr_contentStep_eq_tags {m : FieldMap} {instances : List (Int × Instances)}
    {value : Int → Bytes} : ∀ {fields : List (Int × View)},
      (∀ p ∈ fields, isIgnoredTag p.1 = false → m.read p.1 p.2 = value p.1) →
      fields.foldr (m.contentStep instances) .nil =
        ((AssocList.keys fields).filter (!isIgnoredTag ·)).foldr
          (tagStep value fun tag => AssocList.find? tag instances) .nil
  | [], _ => rfl
  | (tag, v) :: fields, h => by
      have ih := @foldr_contentStep_eq_tags m instances value fields fun p hp =>
        h p (List.mem_cons_of_mem _ hp)
      have hread := h (tag, v) (List.mem_cons_self ..)
      rw [List.foldr_cons, contentStep, ih]
      change _ = ((tag :: AssocList.keys fields).filter _).foldr _ _
      cases hignored : isIgnoredTag tag with
      | true => simp [hignored]
      | false =>
          rw [List.filter_cons, hignored, hread hignored]
          rfl

/-- The contents of a map, by its tags. -/
theorem content_eq_tags {m : FieldMap} (hnodup : m.plainKeys.Nodup) :
    m.content = m.plainKeys.foldr (tagStep (fun tag => (m.field? tag).getD [])
      fun tag => AssocList.find? tag (groupContents m.groups)) .nil := by
  rw [content_eq]
  refine foldr_contentStep_eq_tags fun p hp hplain => ?_
  rw [field?, AssocList.find?_of_mem_filter (p := fun tag => !isIgnoredTag tag) hnodup hp
    (by rw [hplain]; rfl)]
  rfl

/-- What a map says about a tag. -/
theorem value?_content (m : FieldMap) {tag : Int} (hplain : isIgnoredTag tag = false) :
    m.content.value? tag = m.field? tag := by
  rw [content_eq, field?]
  induction m.fields with
  | nil => rfl
  | cons p fields ih =>
      obtain ⟨t, v⟩ := p
      rw [List.foldr_cons, AssocList.find?, contentStep]
      by_cases ht : t = tag
      · subst ht
        rw [if_neg (by rw [hplain]; decide), if_pos rfl]
        cases AssocList.find? t (groupContents m.groups) with
        | none => exact if_pos rfl
        | some instances => exact if_pos rfl
      · rw [if_neg ht, ← ih]
        dsimp only
        split
        · rfl
        · cases AssocList.find? t (groupContents m.groups) with
          | none => exact if_neg ht
          | some instances => exact if_neg ht

theorem tagStep_congr {value value' : Int → Bytes} {instances instances' : Int → Option Instances}
    {l : List Int} (hvalue : ∀ tag ∈ l, value tag = value' tag)
    (hinstances : ∀ tag ∈ l, instances tag = instances' tag) :
    l.foldr (tagStep value instances) .nil = l.foldr (tagStep value' instances') .nil := by
  induction l with
  | nil => rfl
  | cons tag l ih =>
      rw [List.foldr_cons, List.foldr_cons, ih (fun t ht => hvalue t (List.mem_cons_of_mem _ ht))
        fun t ht => hinstances t (List.mem_cons_of_mem _ ht), tagStep, tagStep,
        hvalue tag (List.mem_cons_self ..), hinstances tag (List.mem_cons_self ..)]

theorem groups_setField (m : FieldMap) (tag : Int) (value : Bytes) (order : Bool) :
    (m.setField tag value order).groups = m.groups := by
  unfold setField insertFieldView
  dsimp only
  split
  · split
    · rfl
    · rfl
  · rfl

end FieldMap

/-! ## Contents that are filed as they are -/

/-- No group that is open has the tag. -/
def refusedBy (opened : List GroupSpec) (tag : Int) : Bool :=
  opened.all fun spec => !spec.hasField tag && (spec.findGroup tag).isNone

/-- The tag is read back from its numeral, and is no tag of the frame. -/
def isPlainTag (tag : Int) : Bool :=
  decide (0 ≤ tag) && decide (tag < 2147483648) && !isIgnoredTag tag

namespace Dictionary

/-- The length that a field announces. -/
def lengthOf (dict : Dictionary) (tag : Int) (value : Bytes) : Option Nat :=
  if dict.getFieldType tag = .length then some (fastParseTag value).toNat else none

/-- The value is read by the length that was announced. -/
def readAsData (dict : Dictionary) (announced : Option Nat) (tag : Int) : Bool :=
  announced.isSome && decide (dict.getFieldType tag = .data)

/-- A LENGTH field has a length. -/
def hasLength (dict : Dictionary) (tag : Int) (value : Bytes) : Bool :=
  decide (dict.getFieldType tag ≠ .length) || decide (0 ≤ fastParseTag value)

end Dictionary

namespace GroupSpec

/-- A field that is filed in a map of this specification, next to groups that are open. -/
def takes (dict : Dictionary) (spec : GroupSpec) (opened : List GroupSpec) (tag : Int)
    (value : Bytes) : Bool :=
  spec.hasField tag && refusedBy opened tag && decide (internalSohChar ∉ value) &&
    dict.hasLength tag value

/-- The tags stand where `sortFields` puts them. -/
def InOrder (spec : GroupSpec) (tags : List Int) : Prop :=
  spec.fieldOrder.Nodup ∧ tags = spec.fieldOrder.filter (· ∈ tags) ++
    (tags.filter (· ∉ spec.fieldOrder)).insertionSort (· ≤ ·)

instance (spec : GroupSpec) (tags : List Int) : Decidable (spec.InOrder tags) :=
  inferInstanceAs (Decidable (_ ∧ _))

/-- A map with these tags is finished without a complaint. -/
def complete (settings : SessionSettings) (spec : GroupSpec) (tags : List Int) : Bool :=
  decide tags.Nodup &&
    (!settings.validateRequiredFields || spec.fields.all fun field => !field.2 || field.1 ∈ tags)

/-- The finish of a map leaves these tags where they stand. -/
def keepsOrder (settings : SessionSettings) (spec : GroupSpec) (tags : List Int) : Bool :=
  !(settings.parsingReorderTags && spec.ordered) || decide (spec.InOrder tags)

/-- A map with these tags is finished without a complaint, and left as it is. -/
def admits (settings : SessionSettings) (spec : GroupSpec) (tags : List Int) : Bool :=
  spec.complete settings tags && spec.keepsOrder settings tags

end GroupSpec

mutual

/-- The specifications of the groups that are open behind the contents, the innermost
first, when those of `opened` are open in front of them. -/
def Content.leftOpen (spec : GroupSpec) (opened : List GroupSpec) : Content → List GroupSpec
  | .nil => opened
  | .field _ _ rest => rest.leftOpen spec []
  | .group tag _ instances rest =>
      match spec.findGroup tag with
      | none => []
      | some groupSpec => rest.leftOpen spec (instances.leftOpen groupSpec [] ++ [groupSpec])

def Instances.leftOpen (spec : GroupSpec) (opened : List GroupSpec) : Instances → List GroupSpec
  | .nil => opened
  | .cons first rest => rest.leftOpen spec (first.leftOpen spec [])

end

mutual

/-- The length that is announced behind the contents, when `announced` is in front of them. -/
def Content.announces (dict : Dictionary) (announced : Option Nat) : Content → Option Nat
  | .nil => announced
  | .field tag value rest =>
      rest.announces dict
        (if dict.readAsData announced tag then none else dict.lengthOf tag value)
  | .group _ _ instances rest => rest.announces dict (instances.announces dict none)

def Instances.announces (dict : Dictionary) (announced : Option Nat) : Instances → Option Nat
  | .nil => announced
  | .cons first rest => rest.announces dict (first.announces dict none)

end

mutual

/-- The contents are filed in a map of the specification, `depth` entries above the bottom
of the stack.  The specification has their fields and groups, a DATA value is as long as the
field in front of it says, and a count is the number of instances.  That is what a dictionary
asks for.

The parser asks for more.  A count that it files opens a group, so there are no groups without
instances.  It has no slot for a group that is nested too deep.  It closes a group when a field
comes that is of an entry below, so what stands behind a group is a plain field, and none that
the groups that are open there have. -/
def Content.conforms (settings : SessionSettings) (dict : Dictionary) (spec : GroupSpec)
    (depth : Nat) (opened : List GroupSpec) (announced : Option Nat) (own : Bool) :
    Content → Bool
  | .nil => true
  | .field tag value rest =>
      isPlainTag tag &&
        if dict.readAsData announced tag then
          own && decide (announced = some value.length) &&
            rest.conforms settings dict spec depth [] none true
        else spec.takes dict opened tag value &&
          rest.conforms settings dict spec depth [] (dict.lengthOf tag value) true
  | .group tag count instances rest =>
      isPlainTag tag && decide (0 < tag) && opened.isEmpty &&
        decide (internalSohChar ∉ count) && decide (dict.getFieldType tag ≠ .length) &&
        decide (dict.getFieldType tag ≠ .data) && !spec.hasField tag &&
        decide (depth + 1 < groupStackSlots) && decide (fastParseTag count = instances.length) &&
        match spec.findGroup tag, instances.firstTag? with
        | some groupSpec, some first =>
            instances.conforms settings dict groupSpec (depth + 1) first [] none &&
              rest.conforms settings dict spec depth
                (instances.leftOpen groupSpec [] ++ [groupSpec]) (instances.announces dict none)
                false
        | _, _ => false

/-- Every instance starts with the tag `first`, by which the parser knows the next one, and the
groups that are open in the instance before it do not have that tag. -/
def Instances.conforms (settings : SessionSettings) (dict : Dictionary) (spec : GroupSpec)
    (depth : Nat) (first : Int) (opened : List GroupSpec) (announced : Option Nat) :
    Instances → Bool
  | .nil => true
  | .cons content rest =>
      decide (content.firstTag? = some first) && refusedBy opened first &&
        !dict.readAsData announced first && spec.admits settings content.tags &&
        content.conforms settings dict spec depth [] none true &&
        rest.conforms settings dict spec depth first (content.leftOpen spec [])
          (content.announces dict none)

end

section

variable {settings : SessionSettings} {dict : Dictionary} {spec : GroupSpec} {depth : Nat}
  {opened : List GroupSpec} {announced : Option Nat} {own : Bool} {tag : Int} {value : Bytes}
  {rest : Content}

theorem Content.conforms_field (h : (Content.field tag value rest).conforms settings dict spec
    depth opened announced own = true) :
    isPlainTag tag = true ∧
      ((dict.readAsData announced tag = true ∧ own = true ∧ announced = some value.length ∧
          rest.conforms settings dict spec depth [] none true = true) ∨
        (dict.readAsData announced tag = false ∧ spec.takes dict opened tag value = true ∧
          rest.conforms settings dict spec depth [] (dict.lengthOf tag value) true = true)) := by
  rw [conforms, Bool.and_eq_true] at h
  obtain ⟨hplain, h⟩ := h
  refine ⟨hplain, ?_⟩
  split at h
  next hdata =>
    rw [Bool.and_eq_true, Bool.and_eq_true, decide_eq_true_eq] at h
    exact .inl ⟨hdata, h.1.1, h.1.2, h.2⟩
  next hdata =>
    rw [Bool.and_eq_true] at h
    exact .inr ⟨Bool.eq_false_of_not_eq_true hdata, h.1, h.2⟩

/-- A group whose instances start with `first`, and what is behind it. -/
structure Content.Opens (settings : SessionSettings) (dict : Dictionary) (spec : GroupSpec)
    (depth : Nat) (tag : Int) (count : Bytes) (instances : Instances) (rest : Content)
    (groupSpec : GroupSpec) (first : Int) : Prop where
  plain : isPlainTag tag = true
  pos : 0 < tag
  clean : internalSohChar ∉ count
  length_ne : dict.getFieldType tag ≠ .length
  data_ne : dict.getFieldType tag ≠ .data
  field : spec.hasField tag = false
  room : depth + 1 < groupStackSlots
  length : fastParseTag count = instances.length
  group : spec.findGroup tag = some groupSpec
  starts : instances.firstTag? = some first
  filed : instances.conforms settings dict groupSpec (depth + 1) first [] none = true
  behind : rest.conforms settings dict spec depth
    (instances.leftOpen groupSpec [] ++ [groupSpec]) (instances.announces dict none) false = true

theorem Content.conforms_group {instances : Instances}
    (h : (Content.group tag value instances rest).conforms settings dict spec depth opened
      announced own = true) :
    opened = [] ∧ ∃ groupSpec first,
      Content.Opens settings dict spec depth tag value instances rest groupSpec first := by
  rw [conforms] at h
  simp only [Bool.and_eq_true, decide_eq_true_eq, Bool.not_eq_true', List.isEmpty_iff] at h
  obtain ⟨⟨⟨⟨⟨⟨⟨⟨⟨hplain, hpos⟩, hopened⟩, hclean⟩, hlength⟩, hdata⟩, hfield⟩, hroom⟩, hcount⟩,
    h⟩ := h
  refine ⟨hopened, ?_⟩
  cases hgroup : spec.findGroup tag with
  | none =>
      rw [hgroup] at h
      cases h
  | some groupSpec =>
      cases hfirst : instances.firstTag? with
      | none =>
          rw [hgroup, hfirst] at h
          cases h
      | some first =>
          rw [hgroup, hfirst] at h
          dsimp only at h
          rw [Bool.and_eq_true] at h
          exact ⟨groupSpec, first, hplain, hpos, hclean, hlength, hdata, hfield, hroom, hcount,
            hgroup, hfirst, h.1, h.2⟩

theorem Instances.conforms_cons {first : Int} {content : Content} {rest : Instances}
    (h : (Instances.cons content rest).conforms settings dict spec depth first opened
      announced = true) :
    content.firstTag? = some first ∧ refusedBy opened first = true ∧
      dict.readAsData announced first = false ∧ spec.admits settings content.tags = true ∧
      content.conforms settings dict spec depth [] none true = true ∧
      rest.conforms settings dict spec depth first (content.leftOpen spec [])
        (content.announces dict none) = true := by
  rw [conforms] at h
  simp only [Bool.and_eq_true, decide_eq_true_eq, Bool.not_eq_true'] at h
  obtain ⟨⟨⟨⟨⟨hfirst, hrefused⟩, hdata⟩, hadmits⟩, hcontent⟩, hrest⟩ := h
  exact ⟨hfirst, hrefused, hdata, hadmits, hcontent, hrest⟩

end

end OpenFix
