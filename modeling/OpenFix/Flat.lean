import OpenFix.Lib.Table
import OpenFix.Expansion

/-!
# Lookup tables

The specifications and the dictionary have flat tables next to their maps: for the
fields and the groups of a specification, for the types of the fields, and for the
specifications of the message types with one byte.  Each is filled where its map is
filled, and by code of its own.  `buildLookup` runs when a group is built, a component is
copied with its tables, and a definition of a field goes into the table or into the map.

These are the specifications, the definitions of the fields and the specifications of the
messages with their tables, and the loader is given them.  `loadDocument_simulates` says
that it makes the dictionary of `OpenFix.loadDocument`, with tables that agree with it, so
that what holds of lookups in the maps holds of lookups in the tables.
-/

namespace OpenFix

open Loop
open AssocList (keys)

namespace Flat

/-! ## Slots -/

/-- The slot of a tag, which are those from 0 to 1023. -/
def tagSlot? (tag : Int) : Option (Fin 1024) :=
  if h : 0 ≤ tag ∧ tag < 1024 then some ⟨tag.toNat, by omega⟩ else none

/-- The slot of a message type, which has one byte and one below 128. -/
def msgSlot? : Bytes → Option (Fin 128)
  | [c] => if h : c.toNat < 128 then some ⟨c.toNat, h⟩ else none
  | _ => none

theorem tagSlot?_eq_some_iff {tag : Int} {i : Fin 1024} : tagSlot? tag = some i ↔ tag = i := by
  unfold tagSlot?
  split
  next h =>
    rw [Option.some_inj, Fin.ext_iff]
    show tag.toNat = i.val ↔ tag = i.val
    omega
  next h =>
    have hi := i.isLt
    refine iff_of_false (fun heq => by cases heq) ?_
    omega

theorem tagSlot?_eq_none_iff {tag : Int} : tagSlot? tag = none ↔ ¬(0 ≤ tag ∧ tag < 1024) := by
  unfold tagSlot?
  split
  next h => exact iff_of_false (fun heq => by cases heq) fun hout => hout h
  next h => exact iff_of_true rfl h

theorem exclusive_tagSlot? : Table.Exclusive tagSlot? := by
  intro tag tag' i h h'
  rw [tagSlot?_eq_some_iff.mp h, tagSlot?_eq_some_iff.mp h']

theorem exclusive_msgSlot? : Table.Exclusive msgSlot? := by
  intro s s' i h h'
  have hbyte : ∀ {s : Bytes}, msgSlot? s = some i → ∃ c, s = [c] ∧ c.toNat = i := by
    intro s h
    unfold msgSlot? at h
    split at h
    next c =>
      split at h
      next hc =>
        cases h
        exact ⟨c, rfl, rfl⟩
      next => cases h
    next => cases h
  obtain ⟨c, rfl, hc⟩ := hbyte h
  obtain ⟨c', rfl, hc'⟩ := hbyte h'
  rw [UInt8.toNat_inj.mp (hc.trans hc'.symm)]

/-- Every slot has a message type. -/
theorem exists_msgSlot? (i : Fin 128) : ∃ msgType, msgSlot? msgType = some i := by
  have hi := i.isLt
  have hbyte : (UInt8.ofNat i).toNat = i := by
    rw [UInt8.toNat_ofNat', Nat.mod_eq_of_lt (by omega)]
  apply Exists.intro [UInt8.ofNat i]
  rw [msgSlot?, dif_pos (hbyte.symm ▸ hi), Option.some_inj, Fin.ext_iff]
  exact hbyte

/-! ## Specifications -/

structure GroupSpec where
  fields : List (Int × Bool)
  groups : List (Int × GroupSpec)
  ordered : Bool
  fieldOrder : List Int
  fieldLookup : Fin 1024 → Bool
  groupLookup : Fin 1024 → Bool

namespace GroupSpec

def fresh : GroupSpec where
  fields := []
  groups := []
  ordered := false
  fieldOrder := []
  fieldLookup _ := false
  groupLookup _ := false

def hasField (spec : GroupSpec) (tag : Int) : Bool :=
  match tagSlot? tag with
  | some i => spec.fieldLookup i
  | none => (AssocList.find? tag spec.fields).isSome

/-- A tag that is not marked is not looked for. -/
def findGroup (spec : GroupSpec) (tag : Int) : Option GroupSpec :=
  match tagSlot? tag with
  | some i => if spec.groupLookup i then AssocList.find? tag spec.groups else none
  | none => AssocList.find? tag spec.groups

def buildLookup (spec : GroupSpec) : GroupSpec :=
  { spec with
    fieldLookup := Table.marks tagSlot? (AssocList.keys spec.fields)
    groupLookup := Table.marks tagSlot? (AssocList.keys spec.groups) }

def pushField (ret : GroupSpec) (entry : Int × Bool) : GroupSpec :=
  { ret with fields := ret.fields ++ [entry], fieldOrder := ret.fieldOrder ++ [entry.1] }

def pushGroup (ret : GroupSpec) (entry : Int × GroupSpec) : GroupSpec :=
  { ret with groups := ret.groups ++ [entry], fieldOrder := ret.fieldOrder ++ [entry.1] }

end GroupSpec

instance : Specification GroupSpec where
  fields := GroupSpec.fields
  groups := GroupSpec.groups
  fresh ordered := { GroupSpec.fresh with ordered := ordered }
  pushField := GroupSpec.pushField
  pushGroup := GroupSpec.pushGroup
  buildLookup := GroupSpec.buildLookup

structure Dictionary where
  headerSpec : GroupSpec
  trailerSpec : GroupSpec
  bodySpecs : List (Bytes × GroupSpec)
  bodySpecsFast : Fin 128 → Option GroupSpec
  fieldTypes : Fin 1024 → FieldType
  fieldsFallback : List (Int × FieldType)

namespace Dictionary

def getFieldType (dict : Dictionary) (tag : Int) : FieldType :=
  match tagSlot? tag with
  | some i => dict.fieldTypes i
  | none => (AssocList.find? tag dict.fieldsFallback).getD .unknown

/-- The array is asked first, and where it has nothing, the map. -/
def getMessageSpec (dict : Dictionary) (msgType : Bytes) : Option GroupSpec :=
  match msgSlot? msgType with
  | some c => (dict.bodySpecsFast c).or (AssocList.find? msgType dict.bodySpecs)
  | none => AssocList.find? msgType dict.bodySpecs

/-- The map is asked for the types only that have no place in the array. -/
def getMessageSpecRaw (dict : Dictionary) (msgType : Bytes) : Option GroupSpec :=
  match msgSlot? msgType with
  | some c => dict.bodySpecsFast c
  | none => AssocList.find? msgType dict.bodySpecs

end Dictionary

/-! ## Loading -/

structure FieldDefinitions where
  fieldTypes : Fin 1024 → FieldType := fun _ => .unknown
  fieldsFallback : List (Int × FieldType) := []
  fieldMap : List (Bytes × Int) := []

namespace FieldDefinitions

/-- In the array, the type `UNKNOWN` stands for an empty slot. -/
def defines (defs : FieldDefinitions) (tag : Int) : Bool :=
  match tagSlot? tag with
  | some i => defs.fieldTypes i ≠ .unknown
  | none => (AssocList.find? tag defs.fieldsFallback).isSome

def define (defs : FieldDefinitions) (name : Bytes) (tag : Int) (fieldType : FieldType) :
    FieldDefinitions :=
  let fieldMap := AssocList.set name tag defs.fieldMap
  match tagSlot? tag with
  | some i => { defs with fieldTypes := Function.update defs.fieldTypes i fieldType, fieldMap }
  | none =>
      { defs with fieldsFallback := AssocList.set tag fieldType defs.fieldsFallback, fieldMap }

end FieldDefinitions

instance : FieldTable FieldDefinitions where
  empty := {}
  fieldMap := FieldDefinitions.fieldMap
  defines := FieldDefinitions.defines
  define := FieldDefinitions.define

/-- The specifications of the messages so far, in the map and in the array. -/
structure BodySpecs where
  bodySpecs : List (Bytes × GroupSpec) := []
  bodySpecsFast : Fin 128 → Option GroupSpec := fun _ => none

instance : MessageTable BodySpecs GroupSpec where
  empty := {}
  bodySpecs := BodySpecs.bodySpecs
  set specs msgtype spec := {
    bodySpecs := AssocList.set msgtype spec specs.bodySpecs
    bodySpecsFast := Table.put msgSlot? specs.bodySpecsFast msgtype spec }

def loadDocument (env : LoadEnv) (doc : XmlNode) : Except DictionaryParsingError Dictionary := do
  let s : Sections GroupSpec FieldDefinitions BodySpecs ← loadSections env doc
  .ok ⟨s.headerSpec, s.trailerSpec, s.bodySpecs.bodySpecs, s.bodySpecs.bodySpecsFast,
    s.fields.fieldTypes, s.fields.fieldsFallback⟩

/-- The dictionaries loaded so far, by path. -/
structure DictionaryRegistry where
  dictionaries : List (Bytes × Dictionary) := []

/-- `load`, where `file` is what reading the file at `path` gives. -/
def DictionaryRegistry.load (env : LoadEnv) (registry : DictionaryRegistry) (path : Bytes)
    (file : Except Bytes XmlNode) :
    Except DictionaryParsingError (Dictionary × DictionaryRegistry) :=
  match AssocList.find? path registry.dictionaries with
  | some dict => .ok (dict, registry)
  | none =>
      match file with
      | .error description => .error (.unableToLoad description)
      | .ok doc => do
          let dict ← loadDocument env doc
          .ok (dict, ⟨AssocList.set path dict registry.dictionaries⟩)

/-! ## Tables that agree -/

namespace GroupSpec

/-- The tables of a specification, and of the groups below it, mark the keys of its maps. -/
inductive Indexed : GroupSpec → Prop where
  | intro {spec : GroupSpec} (hfields : spec.fieldLookup = Table.marks tagSlot? (keys spec.fields))
      (hgroups : spec.groupLookup = Table.marks tagSlot? (keys spec.groups))
      (hbelow : ∀ p ∈ spec.groups, Indexed p.2) : Indexed spec

theorem indexed_buildLookup {spec : GroupSpec} (h : ∀ p ∈ spec.groups, p.2.Indexed) :
    spec.buildLookup.Indexed := .intro rfl rfl h

/-- An empty specification has empty tables. -/
theorem indexed_fresh : Indexed fresh :=
  .intro rfl rfl fun _ hp => absurd hp List.not_mem_nil

section

variable {spec : GroupSpec}

theorem Indexed.of_mem_groups (h : spec.Indexed) {p : Int × GroupSpec} (hp : p ∈ spec.groups) :
    p.2.Indexed := by
  cases h with
  | intro _ _ hbelow => exact hbelow p hp

theorem Indexed.hasField_iff (h : spec.Indexed) {tag : Int} :
    spec.hasField tag = true ↔ tag ∈ keys spec.fields := by
  cases h with
  | intro hfields _ _ =>
      unfold hasField
      cases hslot : tagSlot? tag with
      | none => exact AssocList.find?_isSome_iff
      | some i =>
          dsimp only
          rw [hfields]
          exact Table.marks_eq_true_iff exclusive_tagSlot? hslot

/-- Where nothing is marked there is nothing to find. -/
theorem Indexed.findGroup_eq (h : spec.Indexed) (tag : Int) :
    spec.findGroup tag = AssocList.find? tag spec.groups := by
  cases h with
  | intro _ hgroups _ =>
      unfold findGroup
      cases hslot : tagSlot? tag with
      | none => rfl
      | some i =>
          have hmark : spec.groupLookup i = true ↔ tag ∈ keys spec.groups := by
            rw [hgroups]
            exact Table.marks_eq_true_iff exclusive_tagSlot? hslot
          dsimp only
          split
          next => rfl
          next hunmarked =>
            exact (AssocList.find?_eq_none_iff.mpr fun hmem => hunmarked (hmark.mpr hmem)).symm

end

/-! ## Without the tables -/

mutual

/-- The specification without its tables. -/
def erase : GroupSpec → OpenFix.GroupSpec
  | ⟨fields, groups, ordered, fieldOrder, _, _⟩ => ⟨fields, eraseGroups groups, ordered, fieldOrder⟩

def eraseGroups : List (Int × GroupSpec) → List (Int × OpenFix.GroupSpec)
  | [] => []
  | (tag, spec) :: rest => (tag, spec.erase) :: eraseGroups rest

end

theorem eraseGroups_eq (groups : List (Int × GroupSpec)) :
    eraseGroups groups = AssocList.mapValues erase groups := by
  induction groups with
  | nil => rfl
  | cons p rest ih => rw [eraseGroups, ih, AssocList.mapValues, AssocList.mapValues, List.map_cons]

theorem groups_erase (spec : GroupSpec) :
    spec.erase.groups = AssocList.mapValues erase spec.groups := by
  cases spec
  rw [erase, eraseGroups_eq]

theorem fields_erase (spec : GroupSpec) : spec.erase.fields = spec.fields := by
  cases spec
  rw [erase]

/-! ## The same specifications -/

/-- A specification while it is built: it has no tables yet, but the groups in it have. -/
structure Collects (spec : GroupSpec) (spec' : OpenFix.GroupSpec) : Prop where
  erase : spec.erase = spec'
  below : ∀ p ∈ spec.groups, p.2.Indexed

/-- A specification with its tables. -/
structure Represents (spec : GroupSpec) (spec' : OpenFix.GroupSpec) : Prop where
  erase : spec.erase = spec'
  indexed : spec.Indexed

section

variable {spec ret : GroupSpec} {spec' ret' : OpenFix.GroupSpec}

theorem Collects.buildLookup (h : ret.Collects ret') : ret.buildLookup.Represents ret' := by
  constructor
  · rw [← h.erase]
    cases ret
    rw [GroupSpec.buildLookup, GroupSpec.erase, GroupSpec.erase]
  · exact indexed_buildLookup h.below

theorem Collects.pushField (h : ret.Collects ret') (entry : Int × Bool) :
    (ret.pushField entry).Collects (ret'.pushField entry) := by
  constructor
  · rw [← h.erase]
    cases ret
    rw [GroupSpec.pushField, GroupSpec.erase, GroupSpec.erase, OpenFix.GroupSpec.pushField]
  · exact h.below

theorem Collects.pushGroup (h : ret.Collects ret') (tag : Int) (hspec : spec.Represents spec') :
    (ret.pushGroup (tag, spec)).Collects (ret'.pushGroup (tag, spec')) := by
  constructor
  · rw [← h.erase, ← hspec.erase]
    cases ret
    rw [GroupSpec.pushGroup, GroupSpec.erase, GroupSpec.erase, OpenFix.GroupSpec.pushGroup,
      eraseGroups_eq, eraseGroups_eq, AssocList.mapValues, List.map_append]
    rfl
  · intro p hp
    rcases List.mem_append.mp hp with hp | hp
    · exact h.below p hp
    · rw [List.mem_singleton.mp hp]
      exact hspec.indexed

theorem Collects.addField (h : ret.Collects ret') (entry : Int × Bool) :
    Simulates Collects (addField ret entry) (addField ret' entry) := by
  rw [addField_eq]
  apply Simulates.ite
  · rw [← h.erase, fields_erase]
    rfl
  · exact fun _ => rfl
  · exact fun _ => h.pushField entry

/-- Both have the same groups. -/
theorem Collects.find?_isSome_iff (h : ret.Collects ret') (tag : Int) :
    (AssocList.find? tag ret.groups).isSome = true ↔
      (AssocList.find? tag ret'.groups).isSome = true := by
  rw [← h.erase, groups_erase, AssocList.find?_mapValues, Option.isSome_map]

theorem Collects.addGroup (h : ret.Collects ret') (tag : Int) (hspec : spec.Represents spec') :
    Simulates Collects (addGroup ret (tag, spec)) (addGroup ret' (tag, spec')) := by
  rw [addGroup_eq]
  apply Simulates.ite
  · exact h.find?_isSome_iff tag
  · exact fun _ => rfl
  · exact fun _ => h.pushGroup tag hspec

/-- The groups of a component keep the tables they have. -/
theorem Collects.mergeComponent (h : ret.Collects ret') (env : LoadEnv)
    (hspec : spec.Represents spec') :
    Simulates Collects (mergeComponent env ret spec) (mergeComponent env ret' spec') := by
  have hfields : spec'.fields = spec.fields := by rw [← hspec.erase, fields_erase]
  have hgroups : env.groups.entries spec'.groups =
      (env.groups.entries spec.groups).map fun p => (p.1, p.2.erase) := by
    rw [← hspec.erase, groups_erase, AssocList.IterationOrder.entries_mapValues]
    rfl
  rw [mergeComponent_eq, hfields, hgroups]
  apply Simulates.bind (R := Collects)
  · exact Simulates.foldlM_same (fun _ _ entry hret => Collects.addField hret entry) _ h
  · intro ret ret' hret
    apply Simulates.foldlM
    · intro ret ret' p hp hret
      have hindexed := hspec.indexed.of_mem_groups (AssocList.IterationOrder.mem_of_mem_entries hp)
      exact hret.addGroup p.1 ⟨rfl, hindexed⟩
    · exact hret

end

end GroupSpec

/-- The components that are built so far. -/
structure RepresentsAll (componentMap : List (Bytes × GroupSpec))
    (componentMap' : List (Bytes × OpenFix.GroupSpec)) : Prop where
  erase : AssocList.mapValues GroupSpec.erase componentMap = componentMap'
  indexed : ∀ p ∈ componentMap, p.2.Indexed

section

variable {componentMap : List (Bytes × GroupSpec)}
  {componentMap' : List (Bytes × OpenFix.GroupSpec)}

theorem RepresentsAll.componentSpec (h : RepresentsAll componentMap componentMap') (name : Bytes) :
    (componentSpec componentMap name).Represents (componentSpec componentMap' name) := by
  unfold OpenFix.componentSpec
  rw [← h.erase, AssocList.find?_mapValues]
  cases hfind : AssocList.find? name componentMap with
  | none => exact ⟨rfl, GroupSpec.indexed_fresh⟩
  | some spec => exact ⟨rfl, h.indexed _ (AssocList.mem_of_find? hfind)⟩

theorem RepresentsAll.set (h : RepresentsAll componentMap componentMap') (name : Bytes)
    {spec : GroupSpec} {spec' : OpenFix.GroupSpec} (hspec : spec.Represents spec') :
    RepresentsAll (AssocList.set name spec componentMap)
      (AssocList.set name spec' componentMap') := by
  constructor
  · rw [← h.erase, ← hspec.erase, AssocList.set_mapValues]
  · intro p hp
    rcases AssocList.mem_set hp with heq | hp
    · rw [heq]
      exact hspec.indexed
    · exact h.indexed p hp

end

mutual

theorem buildGroup_simulates (env : LoadEnv) (d : Definitions)
    {componentMap : List (Bytes × GroupSpec)} {componentMap' : List (Bytes × OpenFix.GroupSpec)}
    (h : RepresentsAll componentMap componentMap') : ∀ node : XmlNode,
    Simulates GroupSpec.Represents (buildGroup env d componentMap node)
      (buildGroup env d componentMap' node)
  | ⟨name, attributes, children⟩ => by
      rw [buildGroup, buildGroup_eq]
      have hempty : ∀ ordered, GroupSpec.Collects { GroupSpec.fresh with ordered := ordered }
          { OpenFix.GroupSpec.fresh with ordered := ordered } := by
        intro ordered
        constructor
        · rw [GroupSpec.fresh, GroupSpec.erase, GroupSpec.eraseGroups]
          rfl
        · exact fun _ hp => absurd hp List.not_mem_nil
      apply (buildChildren_simulates env d h children (hempty _)).then_left
      exact fun _ _ hret => hret.buildLookup

theorem buildChildren_simulates (env : LoadEnv) (d : Definitions)
    {componentMap : List (Bytes × GroupSpec)} {componentMap' : List (Bytes × OpenFix.GroupSpec)}
    (h : RepresentsAll componentMap componentMap') : ∀ (children : List XmlNode)
    {ret : GroupSpec} {ret' : OpenFix.GroupSpec}, ret.Collects ret' →
      Simulates GroupSpec.Collects (buildChildren env d componentMap children ret)
        (buildChildren env d componentMap' children ret')
  | [], _, _, hret => hret
  | child :: rest, ret, ret', hret => by
      rw [buildChildren, buildChildren_cons]
      have hnext : ∀ ret ret', GroupSpec.Collects ret ret' → Simulates GroupSpec.Collects
          (buildChildren env d componentMap rest ret)
          (buildChildren env d componentMap' rest ret') :=
        fun _ _ hret => buildChildren_simulates env d h rest hret
      cases child.reference with
      | component name => exact (hret.mergeComponent env (h.componentSpec name)).bind hnext
      | group name =>
          apply Simulates.ite
          · exact hret.find?_isSome_iff _
          · exact fun _ => rfl
          · intro _
            apply (buildGroup_simulates env d h child).bind
            exact fun _ _ hgroup => hnext _ _ (hret.pushGroup _ hgroup)
      | field name required => exact (hret.addField _).bind hnext
      | other => exact hnext _ _ hret

end

theorem buildComponents_simulates (env : LoadEnv) (d : Definitions) (names : List Bytes) :
    Simulates RepresentsAll (buildComponents env d names) (buildComponents env d names) := by
  induction names with
  | nil =>
      constructor
      · rw [AssocList.mapValues, List.map_map]
        rfl
      · intro p hp
        obtain ⟨q, -, rfl⟩ := List.mem_map.mp hp
        exact GroupSpec.indexed_fresh
  | cons name rest ih =>
      rw [buildComponents, buildComponents]
      apply ih.bind
      intro componentMap componentMap' hmap
      apply (buildGroup_simulates env d hmap (d.node name)).bind
      exact fun _ _ hspec => hmap.set name hspec

/-! ## The messages -/

/-- The map of the specifications, with the array. -/
structure BodySpecs.Represents (specs : BodySpecs) (bodySpecs : List (Bytes × OpenFix.GroupSpec)) :
    Prop where
  all : RepresentsAll specs.bodySpecs bodySpecs
  fast : Table.Shadows msgSlot? specs.bodySpecsFast specs.bodySpecs

theorem buildMessage_simulates (env : LoadEnv) (d : Definitions)
    {componentMap : List (Bytes × GroupSpec)} {componentMap' : List (Bytes × OpenFix.GroupSpec)}
    (h : RepresentsAll componentMap componentMap') {specs : BodySpecs}
    {bodySpecs : List (Bytes × OpenFix.GroupSpec)} (hspecs : specs.Represents bodySpecs)
    (node : XmlNode) :
    Simulates BodySpecs.Represents (buildMessage env d componentMap specs node)
      (buildMessage env d componentMap' bodySpecs node) := by
  have hfind : ∀ msgtype, (AssocList.find? msgtype specs.bodySpecs).isSome = true ↔
      (AssocList.find? msgtype bodySpecs).isSome = true := by
    intro msgtype
    rw [← hspecs.all.erase, AssocList.find?_mapValues, Option.isSome_map]
  unfold buildMessage
  apply Simulates.ite Iff.rfl
  · exact fun _ => rfl
  · intro _
    apply Simulates.ite
    · exact hfind _
    · exact fun _ => rfl
    · intro _
      apply (buildGroup_simulates env d h node).bind
      exact fun _ _ hspec => ⟨hspecs.all.set _ hspec, hspecs.fast.put exclusive_msgSlot? _ _⟩

theorem messages_simulates (env : LoadEnv) (d : Definitions)
    {componentMap : List (Bytes × GroupSpec)} {componentMap' : List (Bytes × OpenFix.GroupSpec)}
    (h : RepresentsAll componentMap componentMap') (messages : List XmlNode) :
    Simulates BodySpecs.Represents
      (messages.foldlM (buildMessage env d componentMap) (MessageTable.empty : BodySpecs))
      (messages.foldlM (buildMessage env d componentMap')
        (MessageTable.empty : List (Bytes × OpenFix.GroupSpec))) := by
  have hempty : BodySpecs.Represents {} [] :=
    ⟨⟨rfl, fun _ hp => absurd hp List.not_mem_nil⟩, Table.shadows_nil msgSlot?⟩
  exact Simulates.foldlM_same
    (fun _ _ node hspecs => buildMessage_simulates env d h hspecs node) messages hempty

/-! ## The types of the fields -/

namespace FieldDefinitions

/-- The type that the array or the map has. -/
def getFieldType (defs : FieldDefinitions) (tag : Int) : FieldType :=
  match tagSlot? tag with
  | some i => defs.fieldTypes i
  | none => (AssocList.find? tag defs.fieldsFallback).getD .unknown

theorem getFieldType_define (defs : FieldDefinitions) (name : Bytes) (tag : Int)
    (fieldType : FieldType) (tag' : Int) :
    (defs.define name tag fieldType).getFieldType tag' =
      if tag' = tag then fieldType else defs.getFieldType tag' := by
  unfold getFieldType define
  by_cases heq : tag' = tag
  · subst heq
    rw [if_pos rfl]
    cases tagSlot? tag' with
    | none =>
        dsimp only
        rw [AssocList.find?_set_self, Option.getD_some]
    | some i => exact Function.update_self ..
  · rw [if_neg heq]
    cases hslot' : tagSlot? tag' with
    | none =>
        cases tagSlot? tag with
        | none =>
            dsimp only
            rw [AssocList.find?_set_ne heq]
        | some i => rfl
    | some i' =>
        cases hslot : tagSlot? tag with
        | none => rfl
        | some i =>
            have hne : i' ≠ i := by
              rintro rfl
              exact heq (exclusive_tagSlot? _ _ _ hslot' hslot)
            exact Function.update_of_ne hne ..

theorem getFieldType_of_not_defines {defs : FieldDefinitions} {tag : Int} (h : ¬defs.defines tag) :
    defs.getFieldType tag = .unknown := by
  unfold defines at h
  unfold getFieldType
  cases hslot : tagSlot? tag with
  | none =>
      rw [hslot] at h
      dsimp only at h ⊢
      rw [Option.not_isSome_iff_eq_none.mp h]
      rfl
  | some i =>
      rw [hslot] at h
      simpa using h

/-- The array and the map together are the map of the other loader. -/
structure Represents (defs : FieldDefinitions) (defs' : OpenFix.FieldDefinitions) : Prop where
  fieldMap : defs.fieldMap = defs'.fieldMap
  getFieldType : ∀ tag,
    defs.getFieldType tag = (AssocList.find? tag defs'.fieldTypes).getD .unknown
  fieldsFallback : ∀ tag, tagSlot? tag = none →
    AssocList.find? tag defs.fieldsFallback = AssocList.find? tag defs'.fieldTypes

section

variable {defs : FieldDefinitions} {defs' : OpenFix.FieldDefinitions}

theorem represents_empty : FieldDefinitions.Represents {} {} := by
  constructor
  · rfl
  · intro tag
    unfold FieldDefinitions.getFieldType
    cases tagSlot? tag with
    | none => rfl
    | some i => rfl
  · exact fun _ _ => rfl

theorem Represents.defines (h : defs.Represents defs') (tag : Int) :
    defs.defines tag = defs'.defines tag := by
  have htype := h.getFieldType tag
  unfold FieldDefinitions.getFieldType at htype
  unfold FieldDefinitions.defines OpenFix.FieldDefinitions.defines
  cases hslot : tagSlot? tag with
  | none =>
      have hout : ¬(0 ≤ tag ∧ tag < Dictionary.maxFieldTag) := tagSlot?_eq_none_iff.mp hslot
      rw [if_neg hout, ← h.fieldsFallback tag hslot]
  | some i =>
      have hin : 0 ≤ tag ∧ tag < Dictionary.maxFieldTag := by
        rw [tagSlot?_eq_some_iff.mp hslot]
        exact ⟨Int.natCast_nonneg _, Int.ofNat_lt.mpr i.isLt⟩
      rw [hslot] at htype
      rw [if_pos hin, ← htype]

theorem Represents.define (h : defs.Represents defs') (name : Bytes) (tag : Int)
    (fieldType : FieldType) :
    (defs.define name tag fieldType).Represents
      { fieldTypes := AssocList.set tag fieldType defs'.fieldTypes
        fieldMap := AssocList.set name tag defs'.fieldMap } := by
  constructor
  · unfold FieldDefinitions.define
    dsimp only
    rw [h.fieldMap]
    cases tagSlot? tag with
    | none => rfl
    | some i => rfl
  · intro tag'
    rw [getFieldType_define]
    by_cases heq : tag' = tag
    · rw [if_pos heq, heq, AssocList.find?_set_self, Option.getD_some]
    · rw [if_neg heq, AssocList.find?_set_ne heq, h.getFieldType]
  · intro tag' hslot'
    unfold FieldDefinitions.define
    by_cases heq : tag' = tag
    · rw [← heq, hslot', AssocList.find?_set_self]
      exact (AssocList.find?_set_self tag' fieldType _).symm
    · rw [AssocList.find?_set_ne heq, ← h.fieldsFallback tag' hslot']
      cases tagSlot? tag with
      | none => exact AssocList.find?_set_ne heq fieldType _
      | some i => rfl

end

end FieldDefinitions

section

variable (env : LoadEnv)

theorem loadField_simulates {defs : FieldDefinitions} {defs' : OpenFix.FieldDefinitions}
    (h : defs.Represents defs') (field : XmlNode) :
    Simulates FieldDefinitions.Represents (loadField env defs field)
      (loadField env defs' field) := by
  unfold loadField
  apply Simulates.ite Iff.rfl
  · exact fun _ => rfl
  · intro _
    cases AssocList.find? (field.asString (ascii "type")) FieldType.lookup with
    | none => rfl
    | some fieldType =>
        apply Simulates.ite
        · exact Bool.eq_iff_iff.mp (h.defines _)
        · exact fun _ => rfl
        · exact fun _ => h.define _ _ fieldType

theorem loadFields_simulates (fields : XmlNode) :
    Simulates FieldDefinitions.Represents (loadFields env fields : Except _ FieldDefinitions)
      (loadFields env fields : Except _ OpenFix.FieldDefinitions) :=
  Simulates.foldlM_same (fun _ _ field hdefs => loadField_simulates env hdefs field)
    fields.children FieldDefinitions.represents_empty

end

/-! ## The whole document -/

/-- The dictionary of the other loader, and tables that agree with it. -/
structure Dictionary.Represents (dict : Dictionary) (dict' : OpenFix.Dictionary) : Prop where
  headerSpec : dict.headerSpec.Represents dict'.headerSpec
  trailerSpec : dict.trailerSpec.Represents dict'.trailerSpec
  bodySpecs : BodySpecs.Represents ⟨dict.bodySpecs, dict.bodySpecsFast⟩ dict'.bodySpecs
  getFieldType : ∀ tag, dict.getFieldType tag = dict'.getFieldType tag

/-- What both make of the sections of a document. -/
structure SectionsRepresent (s : Sections GroupSpec FieldDefinitions BodySpecs)
    (s' : Sections OpenFix.GroupSpec OpenFix.FieldDefinitions
      (List (Bytes × OpenFix.GroupSpec))) : Prop where
  fields : s.fields.Represents s'.fields
  headerSpec : s.headerSpec.Represents s'.headerSpec
  trailerSpec : s.trailerSpec.Represents s'.trailerSpec
  bodySpecs : s.bodySpecs.Represents s'.bodySpecs

theorem loadSections_simulates (env : LoadEnv) (doc : XmlNode) :
    Simulates SectionsRepresent (loadSections env doc) (loadSections env doc) := by
  simp only [loadSections]
  cases (doc.child (ascii "fix")).child? (ascii "header") with
  | none => rfl
  | some header =>
      cases (doc.child (ascii "fix")).child? (ascii "trailer") with
      | none => rfl
      | some trailer =>
          apply (loadFields_simulates env _).bind
          intro fields fields' hfields
          have hfieldMap : FieldTable.fieldMap fields = FieldTable.fieldMap fields' :=
            hfields.fieldMap
          rw [hfieldMap]
          apply (Simulates.refl _).bind
          rintro components _ rfl
          apply (Simulates.refl _).bind
          rintro sorted _ rfl
          apply (buildComponents_simulates env _ sorted).bind
          intro componentMap componentMap' hmap
          apply (buildGroup_simulates env _ hmap header).bind
          intro headerSpec headerSpec' hheader
          apply (buildGroup_simulates env _ hmap trailer).bind
          intro trailerSpec trailerSpec' htrailer
          apply Simulates.bind (messages_simulates env _ hmap _)
          exact fun specs bodySpecs hspecs => ⟨hfields, hheader, htrailer, hspecs⟩

theorem loadDocument_simulates (env : LoadEnv) (doc : XmlNode) :
    Simulates (fun dict loaded => dict.Represents loaded.dictionary) (loadDocument env doc)
      (OpenFix.loadDocument env doc) := by
  apply (loadSections_simulates env doc).bind
  intro s s' h
  constructor
  · exact h.headerSpec
  · exact h.trailerSpec
  · exact h.bodySpecs
  · exact h.fields.getFieldType

/-! ## What is declared -/

/-- The types that the definitions of fields have for a tag. -/
def declaredTypes (env : LoadEnv) (fields : List XmlNode) (tag : Int) : List FieldType :=
  fields.filterMap fun field =>
    if field.number env = tag then
      AssocList.find? (field.asString (ascii "type")) FieldType.lookup
    else none

section

variable {env : LoadEnv}

/-- A tag that is defined has no type before, and its type afterwards. -/
theorem loadField_eq_ok {defs defs' : FieldDefinitions} {field : XmlNode}
    (h : loadField env defs field = .ok defs') :
    ∃ fieldType, AssocList.find? (field.asString (ascii "type")) FieldType.lookup = some fieldType ∧
      defs.getFieldType (field.number env) = .unknown ∧
      ∀ tag, defs'.getFieldType tag =
        if tag = field.number env then fieldType else defs.getFieldType tag := by
  simp only [loadField] at h
  split at h
  next => cases h
  next =>
    split at h
    next => cases h
    next fieldType htype =>
      split at h
      next => cases h
      next hnew =>
        cases h
        exact ⟨fieldType, htype, FieldDefinitions.getFieldType_of_not_defines hnew,
          defs.getFieldType_define _ _ fieldType⟩

/-- The type of a tag is the last that is declared, and the only one that is known. -/
theorem getFieldType_of_eq_ok {fields : List XmlNode} {defs defs' : FieldDefinitions}
    (h : fields.foldlM (loadField env) defs = .ok defs') (tag : Int) :
    defs'.getFieldType tag = (declaredTypes env fields tag).getLastD (defs.getFieldType tag) ∧
      ∀ fieldType ∈ defs.getFieldType tag :: declaredTypes env fields tag,
        fieldType ≠ .unknown → defs'.getFieldType tag = fieldType := by
  induction fields generalizing defs with
  | nil =>
      cases h
      constructor
      · rfl
      · intro fieldType hmem _
        rw [List.mem_singleton.mp hmem]
  | cons field rest ih =>
      rw [List.foldlM_cons] at h
      obtain ⟨defs₁, hround, h⟩ := bind_eq_ok.mp h
      obtain ⟨fieldType₁, htype, hnew, hdefs₁⟩ := loadField_eq_ok hround
      obtain ⟨hlast, honly⟩ := ih h
      by_cases htag : tag = field.number env
      · have hdeclared : declaredTypes env (field :: rest) tag =
            fieldType₁ :: declaredTypes env rest tag := by
          rw [declaredTypes, List.filterMap_cons, if_pos htag.symm, htype]
          rfl
        rw [hdefs₁, if_pos htag] at hlast honly
        rw [hdeclared]
        constructor
        · rw [List.getLastD_cons]
          exact hlast
        · intro fieldType hmem hknown
          rcases List.mem_cons.mp hmem with heq | hmem
          · rw [htag, hnew] at heq
            exact absurd heq hknown
          · exact honly fieldType hmem hknown
      · have hdeclared : declaredTypes env (field :: rest) tag = declaredTypes env rest tag := by
          rw [declaredTypes, List.filterMap_cons, if_neg fun heq => htag heq.symm]
          rfl
        rw [hdefs₁, if_neg htag] at hlast honly
        rw [hdeclared]
        exact ⟨hlast, honly⟩

end

/-- The types of the messages that are built are those that the messages have. -/
theorem keys_of_eq_ok {env : LoadEnv} {d : Definitions}
    {componentMap : List (Bytes × OpenFix.GroupSpec)} {messages : List XmlNode}
    {bodySpecs out : List (Bytes × OpenFix.GroupSpec)}
    (h : messages.foldlM (buildMessage env d componentMap) bodySpecs = .ok out) :
    keys out = keys bodySpecs ++ messages.map fun m => m.asString (ascii "msgtype") := by
  induction messages generalizing bodySpecs with
  | nil =>
      cases h
      rw [List.map_nil, List.append_nil]
  | cons m rest ih =>
      rw [List.foldlM_cons] at h
      obtain ⟨out₁, hround, h⟩ := bind_eq_ok.mp h
      obtain ⟨spec, -, -, rfl⟩ := buildMessage_eq_ok hround
      rw [ih h, keys, List.map_append, List.append_assoc]
      rfl

/-! ## Lookups -/

/-- The specifications that a dictionary leads to. -/
inductive Dictionary.Reachable (dict : Dictionary) : GroupSpec → Prop where
  | header : dict.Reachable dict.headerSpec
  | trailer : dict.Reachable dict.trailerSpec
  | message {p : Bytes × GroupSpec} (hp : p ∈ dict.bodySpecs) : dict.Reachable p.2
  | fast {c : Fin 128} {spec : GroupSpec} (hc : dict.bodySpecsFast c = some spec) :
      dict.Reachable spec
  | group {spec : GroupSpec} {p : Int × GroupSpec} (h : dict.Reachable spec)
      (hp : p ∈ spec.groups) : dict.Reachable p.2

/-- What the lookups in a dictionary have of its maps and of the document it is from. -/
structure Agrees (env : LoadEnv) (doc : XmlNode) (dict : Dictionary) : Prop where
  hasField : ∀ spec, dict.Reachable spec → ∀ tag,
    spec.hasField tag = true ↔ tag ∈ keys spec.fields
  findGroup : ∀ spec, dict.Reachable spec → ∀ tag,
    spec.findGroup tag = AssocList.find? tag spec.groups ∧
      ((spec.findGroup tag).isSome = true ↔ tag ∈ keys spec.groups)
  /-- A tag may have the type `UNKNOWN` declared before another one. -/
  getFieldType : ∀ tag,
    dict.getFieldType tag = (declaredTypes env doc.fieldNodes tag).getLastD .unknown ∧
      ∀ fieldType ∈ declaredTypes env doc.fieldNodes tag, fieldType ≠ .unknown →
        dict.getFieldType tag = fieldType
  messages : keys dict.bodySpecs = doc.messageNodes.map fun m => m.asString (ascii "msgtype")
  getMessageSpec : ∀ msgType,
    dict.getMessageSpec msgType = AssocList.find? msgType dict.bodySpecs ∧
      dict.getMessageSpecRaw msgType = AssocList.find? msgType dict.bodySpecs

section

variable {dict : Dictionary} {dict' : OpenFix.Dictionary}

theorem Dictionary.Represents.indexed (h : dict.Represents dict') {spec : GroupSpec}
    (hspec : dict.Reachable spec) : spec.Indexed := by
  induction hspec with
  | header => exact h.headerSpec.indexed
  | trailer => exact h.trailerSpec.indexed
  | message hp => exact h.bodySpecs.all.indexed _ hp
  | @fast c spec hc =>
      obtain ⟨msgType, hslot⟩ := exists_msgSlot? c
      have hfind := h.bodySpecs.fast _ _ hslot
      exact h.bodySpecs.all.indexed _ (AssocList.mem_of_find? (hfind.symm.trans hc))
  | group _ hp ih => exact ih.of_mem_groups hp

theorem Dictionary.Represents.getMessageSpecRaw (h : dict.Represents dict') (msgType : Bytes) :
    dict.getMessageSpecRaw msgType = AssocList.find? msgType dict.bodySpecs := by
  unfold Dictionary.getMessageSpecRaw
  cases hslot : msgSlot? msgType with
  | none => rfl
  | some c => exact h.bodySpecs.fast _ _ hslot

theorem Dictionary.Represents.getMessageSpec (h : dict.Represents dict') (msgType : Bytes) :
    dict.getMessageSpec msgType = AssocList.find? msgType dict.bodySpecs := by
  unfold Dictionary.getMessageSpec
  cases hslot : msgSlot? msgType with
  | none => rfl
  | some c =>
      have hfast := h.bodySpecs.fast _ _ hslot
      dsimp only at hfast ⊢
      rw [hfast, Option.or_self]

end

/-- The step of a load that is about the fields. -/
theorem loadFields_of_eq_ok {env : LoadEnv} {doc : XmlNode} {dict : Dictionary}
    (h : loadDocument env doc = .ok dict) :
    ∃ defs : FieldDefinitions, doc.fieldNodes.foldlM (loadField env) {} = .ok defs ∧
      ∀ tag, dict.getFieldType tag = defs.getFieldType tag := by
  obtain ⟨s, hsections, h⟩ := bind_eq_ok.mp h
  cases h
  exact ⟨s.fields, (loadSections_eq_ok hsections).1, fun _ => rfl⟩

theorem agrees_of_eq_ok {env : LoadEnv} {doc : XmlNode} {dict : Dictionary}
    (h : loadDocument env doc = .ok dict) : Agrees env doc dict := by
  obtain ⟨loaded, hloaded, hdict⟩ := (loadDocument_simulates env doc).exists_of_ok h
  constructor
  · exact fun spec hspec tag => (hdict.indexed hspec).hasField_iff
  · intro spec hspec tag
    have hfind := (hdict.indexed hspec).findGroup_eq tag
    exact ⟨hfind, hfind ▸ AssocList.find?_isSome_iff⟩
  · intro tag
    obtain ⟨defs, hdefs, htypes⟩ := loadFields_of_eq_ok h
    obtain ⟨hlast, honly⟩ := getFieldType_of_eq_ok hdefs tag
    have hempty : FieldDefinitions.getFieldType {} tag = .unknown :=
      FieldDefinitions.represents_empty.getFieldType tag
    rw [hempty] at hlast
    rw [htypes]
    exact ⟨hlast, fun fieldType hmem => honly fieldType (List.mem_cons_of_mem _ hmem)⟩
  · have hkeys := keys_of_eq_ok (loadsAs_of_eq_ok hloaded).messages
    rw [← hdict.bodySpecs.all.erase, AssocList.keys_mapValues] at hkeys
    exact hkeys
  · exact fun msgType => ⟨hdict.getMessageSpec msgType, hdict.getMessageSpecRaw msgType⟩

/-! ## Loads one after the other -/

/-- A call of `load`, with what reading the file gives. -/
structure LoadCall where
  env : LoadEnv
  path : Bytes
  file : Except Bytes XmlNode

namespace DictionaryRegistry

def call (registry : DictionaryRegistry) (c : LoadCall) :
    Except DictionaryParsingError (Dictionary × DictionaryRegistry) :=
  registry.load c.env c.path c.file

/-- The registry after a call.  A load that fails leaves it as it is. -/
def next (registry : DictionaryRegistry) (c : LoadCall) : DictionaryRegistry :=
  match registry.call c with
  | .ok (_, registry') => registry'
  | .error _ => registry

def after (calls : List LoadCall) : DictionaryRegistry := calls.foldl next {}

/-- Every dictionary is from the document that one of the calls read at its path. -/
def FromCalls (registry : DictionaryRegistry) (calls : List LoadCall) : Prop :=
  ∀ path dict, AssocList.find? path registry.dictionaries = some dict →
    ∃ c ∈ calls, c.path = path ∧ ∃ doc, c.file = .ok doc ∧ loadDocument c.env doc = .ok dict

/-- A call returns a dictionary that is in the registry afterwards. -/
theorem FromCalls.call {registry registry' : DictionaryRegistry} {calls : List LoadCall}
    (h : registry.FromCalls calls) {c : LoadCall} {dict : Dictionary}
    (hcall : registry.call c = .ok (dict, registry')) :
    registry'.FromCalls (calls ++ [c]) ∧
      AssocList.find? c.path registry'.dictionaries = some dict := by
  have hkept : ∀ path dict, AssocList.find? path registry.dictionaries = some dict →
      ∃ c' ∈ calls ++ [c], c'.path = path ∧
        ∃ doc, c'.file = .ok doc ∧ loadDocument c'.env doc = .ok dict := by
    intro path dict hfind
    obtain ⟨c', hmem, hdoc⟩ := h path dict hfind
    exact ⟨c', List.mem_append_left _ hmem, hdoc⟩
  unfold DictionaryRegistry.call load at hcall
  split at hcall
  next dict' hfind =>
    cases hcall
    exact ⟨hkept, hfind⟩
  next =>
    split at hcall
    next => cases hcall
    next doc hdoc =>
      obtain ⟨dict', hdict, hcall⟩ := bind_eq_ok.mp hcall
      cases hcall
      refine ⟨?_, AssocList.find?_set_self ..⟩
      intro path dict' hfind
      by_cases hpath : path = c.path
      · rw [hpath, AssocList.find?_set_self] at hfind
        cases hfind
        exact ⟨c, List.mem_append_right _ List.mem_cons_self, hpath.symm, doc, hdoc, hdict⟩
      · rw [AssocList.find?_set_ne hpath] at hfind
        exact hkept path dict' hfind

theorem fromCalls_after (calls : List LoadCall) : (after calls).FromCalls calls := by
  induction calls using List.reverseRecOn with
  | nil =>
      intro path dict hfind
      cases hfind
  | append_singleton calls c ih =>
      rw [after, List.foldl_append, List.foldl_cons, List.foldl_nil, next]
      split
      next dict registry' hcall => exact (ih.call hcall).1
      next =>
        intro path dict hfind
        obtain ⟨c', hmem, hdoc⟩ := ih path dict hfind
        exact ⟨c', List.mem_append_left _ hmem, hdoc⟩

/-- Whatever was loaded before, the lookups in a dictionary that `load` returns agree with its
maps, and with the document that was read at its path. -/
theorem load_agrees (calls : List LoadCall) (c : LoadCall) (dict : Dictionary)
    (registry' : DictionaryRegistry) (h : (after calls).call c = .ok (dict, registry')) :
    ∃ c' ∈ calls ++ [c], c'.path = c.path ∧
      ∃ doc, c'.file = .ok doc ∧ loadDocument c'.env doc = .ok dict ∧ Agrees c'.env doc dict := by
  obtain ⟨hfrom, hfind⟩ := (fromCalls_after calls).call h
  obtain ⟨c', hmem, hpath, doc, hdoc, hdict⟩ := hfrom c.path dict hfind
  exact ⟨c', hmem, hpath, doc, hdoc, hdict, agrees_of_eq_ok hdict⟩

def smallCall : LoadCall := ⟨plainEnv, ascii "a.xml", .ok (smallDoc "A")⟩

/-- A load of a path whose file is gone. -/
def goneCall : LoadCall := ⟨plainEnv, ascii "a.xml", .error (ascii "File was not found")⟩

/-- The second load of a path does not read the file again. -/
theorem load_agrees_small : ∃ dict registry',
    (after [smallCall]).call goneCall = .ok (dict, registry') ∧
      ∃ c' ∈ [smallCall] ++ [goneCall], c'.path = goneCall.path ∧
        ∃ doc, c'.file = .ok doc ∧ loadDocument c'.env doc = .ok dict ∧ Agrees c'.env doc dict :=
  ⟨_, _, rfl, load_agrees [smallCall] goneCall _ _ rfl⟩

end DictionaryRegistry

end Flat

end OpenFix
