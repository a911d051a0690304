import OpenFix.Lib.Toposort
import OpenFix.Dictionary

/-!
# Loading a dictionary

`DictionaryRegistry::load` reads the definitions of the fields and components of
an XML file, checks the components, sorts them so that a component comes before
those it references, builds their specifications from the last one up, and then
those of the header, the trailer and the messages.

A reference to a component copies the fields of its finished specification, then
its groups.  The names are looked up by `operator[]` while the specifications
are built: a name that is not there denotes the tag 0 or an empty specification.
(The entry this adds to the map is the same value once more, so the maps stay
what they are here.)

The document is the tree that pugixml makes of the file.  Its reading of a
number and the orders in which the hash tables run over their entries are
parameters.

What a specification, the definitions of the fields and the specifications of the
messages keep next to their maps is a parameter too (`Specification`, `FieldTable`,
`MessageTable`).  In a `Dictionary`, which is what messages are parsed with here, they
keep nothing.
-/

namespace OpenFix

open AssocList (IterationOrder)
open Toposort (Graph)

/-! ## XML -/

structure XmlNode where
  name : Bytes
  attributes : List (Bytes × Bytes)
  children : List XmlNode

namespace XmlNode

/-- A null node. -/
def null : XmlNode := ⟨[], [], []⟩

/-- The first child with a name, if there is one. -/
def child? (node : XmlNode) (name : Bytes) : Option XmlNode :=
  node.children.find? fun child => child.name = name

def child (node : XmlNode) (name : Bytes) : XmlNode := (node.child? name).getD null

theorem child?_eq_some {node : XmlNode} {name : Bytes} (h : (node.child? name).isSome) :
    node.child? name = some (node.child name) := by
  obtain ⟨c, hc⟩ := Option.isSome_iff_exists.mp h
  rw [child, hc]
  rfl

def attributeValue? (node : XmlNode) (name : Bytes) : Option Bytes :=
  AssocList.find? name node.attributes

/-- `attribute(name).as_string()`. -/
def asString (node : XmlNode) (name : Bytes) : Bytes := (node.attributeValue? name).getD []

/-- `attribute(name).as_bool()`: whether the value starts like a yes. -/
def asBool (node : XmlNode) (name : Bytes) : Bool :=
  (node.asString name).head?.any fun b => b ∈ ascii "1tTyY"

end XmlNode

/-- What `load` takes from the XML parser and from the hash tables. -/
structure LoadEnv where
  /-- The number that `as_int` reads. -/
  asInt : Bytes → Int
  /-- How a map with names for keys is run over. -/
  maps : IterationOrder Bytes
  /-- How a set of names is run over. -/
  sets : IterationOrder Bytes
  /-- How `m_fields` is run over. -/
  fields : IterationOrder Int
  /-- How `m_groups` is run over. -/
  groups : IterationOrder Int

/-! ## Errors -/

/-- The exception, with its text. -/
structure DictionaryParsingError where
  text : Bytes
deriving Repr, DecidableEq

namespace DictionaryParsingError

def unableToLoad (description : Bytes) : DictionaryParsingError :=
  ⟨ascii "Unable to load FIX dictionary: " ++ description⟩

def missingHeader : DictionaryParsingError := ⟨ascii "FIX dictionary missing <header> section"⟩

def missingTrailer : DictionaryParsingError := ⟨ascii "FIX dictionary missing <trailer> section"⟩

def invalidField : DictionaryParsingError := ⟨ascii "Invalid <field> definition"⟩

def unknownFieldType (type : Bytes) : DictionaryParsingError :=
  ⟨ascii "Unknown field type: " ++ type⟩

def multipleDefinitions (tag : Int) : DictionaryParsingError :=
  ⟨ascii "Multiple field definitions for tag: " ++ toChars tag⟩

/-- A reference to a component, a group or a field that has no name. -/
def unnamed (kind : String) : DictionaryParsingError :=
  ⟨ascii "Tried to reference a " ++ ascii kind ++ ascii " without specifying a name"⟩

/-- A reference to a component, a group or a field that is not defined. -/
def undefined (kind : String) (name : Bytes) : DictionaryParsingError :=
  ⟨ascii "Tried to reference undefined " ++ ascii kind ++ ascii ": " ++ name⟩

def componentWithoutName : DictionaryParsingError := ⟨ascii "Component definition missing name"⟩

def multipleComponents (name : Bytes) : DictionaryParsingError :=
  ⟨ascii "Multiple component definitions with name: " ++ name⟩

def cycle : DictionaryParsingError := ⟨ascii "Cycle in component graph!"⟩

/-- A field or a group that a specification has twice. -/
def multipleReferences (kind : String) (tag : Int) : DictionaryParsingError :=
  ⟨ascii "Multiple references of " ++ ascii kind ++ ascii " in group: " ++ toChars tag⟩

def msgtypeMissing : DictionaryParsingError := ⟨ascii "msgtype definition missing from message"⟩

def redefinition (msgtype : Bytes) : DictionaryParsingError :=
  ⟨ascii "Redefinition of message type: " ++ msgtype⟩

end DictionaryParsingError

/-! ## Fields -/

/-- `FieldTypes::LOOKUP`. -/
def FieldType.lookup : List (Bytes × FieldType) :=
  [(ascii "UNKNOWN", .unknown), (ascii "INT", .int), (ascii "LENGTH", .length),
    (ascii "NUMINGROUP", .numInGroup), (ascii "SEQNUM", .seqNum), (ascii "TAGNUM", .tagNum),
    (ascii "DAYOFMONTH", .dayOfMonth), (ascii "FLOAT", .float), (ascii "QTY", .qty),
    (ascii "PRICE", .price), (ascii "PRICEOFFSET", .priceOffset), (ascii "AMT", .amt),
    (ascii "PERCENTAGE", .percentage), (ascii "CHAR", .char), (ascii "BOOLEAN", .boolean),
    (ascii "STRING", .string), (ascii "MULTIPLEVALUESTRING", .multipleValueString),
    (ascii "COUNTRY", .country), (ascii "CURRENCY", .currency), (ascii "EXCHANGE", .exchange),
    (ascii "MONTHYEAR", .monthYear), (ascii "UTCTIMESTAMP", .utcTimestamp),
    (ascii "UTCTIMEONLY", .utcTimeOnly), (ascii "UTCDATEONLY", .utcDateOnly),
    (ascii "LOCALMKTDATE", .localMktDate), (ascii "DATA", .data)]

/-- The types by tag and the tags by name.  A name that is defined twice has the
tag of its last definition. -/
structure FieldDefinitions where
  fieldTypes : List (Int × FieldType) := []
  fieldMap : List (Bytes × Int) := []

/-- `MAX_FIELD_TAG`. -/
def Dictionary.maxFieldTag : Int := 1024

namespace FieldDefinitions

/-- Whether a tag counts as defined.  The tags below `MAX_FIELD_TAG` are in an
array of types, and there the type `UNKNOWN` stands for an empty slot. -/
def defines (defs : FieldDefinitions) (tag : Int) : Bool :=
  if 0 ≤ tag ∧ tag < Dictionary.maxFieldTag then
    (AssocList.find? tag defs.fieldTypes).getD .unknown ≠ .unknown
  else (AssocList.find? tag defs.fieldTypes).isSome

end FieldDefinitions

/-- The tag of a `<field>` definition. -/
def XmlNode.number (env : LoadEnv) (field : XmlNode) : Int :=
  ((field.attributeValue? (ascii "number")).map env.asInt).getD (-1)

/-- The definitions of the fields, as a loader keeps them. -/
class FieldTable (δ : Type) where
  empty : δ
  fieldMap : δ → List (Bytes × Int)
  defines : δ → Int → Bool
  define : δ → Bytes → Int → FieldType → δ

instance : FieldTable FieldDefinitions where
  empty := {}
  fieldMap := FieldDefinitions.fieldMap
  defines := FieldDefinitions.defines
  define defs name tag fieldType :=
    { fieldTypes := AssocList.set tag fieldType defs.fieldTypes
      fieldMap := AssocList.set name tag defs.fieldMap }

/-- One round of the loop over the `<field>` definitions. -/
def loadField {δ : Type} [FieldTable δ] (env : LoadEnv) (defs : δ) (field : XmlNode) :
    Except DictionaryParsingError δ :=
  let tag := field.number env
  let name := field.asString (ascii "name")
  let type := field.asString (ascii "type")
  if tag = -1 ∨ name = [] ∨ type = [] then .error .invalidField
  else
    match AssocList.find? type FieldType.lookup with
    | none => .error (.unknownFieldType type)
    | some fieldType =>
        if FieldTable.defines defs tag then .error (.multipleDefinitions tag)
        else .ok (FieldTable.define defs name tag fieldType)

def loadFields {δ : Type} [FieldTable δ] (env : LoadEnv) (fields : XmlNode) :
    Except DictionaryParsingError δ :=
  fields.children.foldlM (loadField env) FieldTable.empty

/-! ## References -/

/-- What a child of a section, a message, a group or a component stands for. -/
inductive Reference where
  | component (name : Bytes)
  | group (name : Bytes)
  | field (name : Bytes) (required : Bool)
  /-- Anything else is ignored. -/
  | other
deriving Repr, DecidableEq

def XmlNode.reference (node : XmlNode) : Reference :=
  if strcaseeq node.name (ascii "component") then .component (node.asString (ascii "name"))
  else if strcaseeq node.name (ascii "group") then .group (node.asString (ascii "name"))
  else if strcaseeq node.name (ascii "field") then
    .field (node.asString (ascii "name")) (node.asBool (ascii "required"))
  else .other

/-- The names that can be referenced: `fieldMap` and `componentXMLMap`. -/
structure Definitions where
  fieldMap : List (Bytes × Int)
  components : List (Bytes × XmlNode)

namespace Definitions

/-- `fieldMap[name]`. -/
def tag (d : Definitions) (name : Bytes) : Int := (AssocList.find? name d.fieldMap).getD 0

/-- `componentXMLMap[name]`. -/
def node (d : Definitions) (name : Bytes) : XmlNode :=
  (AssocList.find? name d.components).getD .null

end Definitions

/-- The first pass over the components. -/
def declareComponent (components : List (Bytes × XmlNode)) (component : XmlNode) :
    Except DictionaryParsingError (List (Bytes × XmlNode)) :=
  let name := component.asString (ascii "name")
  if name = [] then .error .componentWithoutName
  else if (AssocList.find? name components).isSome then .error (.multipleComponents name)
  else .ok (AssocList.set name component components)

def declareComponents (components : XmlNode) :
    Except DictionaryParsingError (List (Bytes × XmlNode)) :=
  components.children.foldlM declareComponent []

/-! ## The graph of the components -/

/-- The test that `validateGroup` makes of one child. -/
def Definitions.check (d : Definitions) : Reference → Except DictionaryParsingError Unit
  | .component name =>
      if name = [] then .error (.unnamed "component")
      else if (AssocList.find? name d.components).isNone then .error (.undefined "component" name)
      else .ok ()
  | .group name =>
      if name = [] then .error (.unnamed "group")
      else if (AssocList.find? name d.fieldMap).isNone then .error (.undefined "group" name)
      else .ok ()
  | .field name _ =>
      if name = [] then .error (.unnamed "field")
      else if (AssocList.find? name d.fieldMap).isNone then .error (.undefined "field" name)
      else .ok ()
  | .other => .ok ()

/-- `componentGraph[parentComponent].insert(componentName)`. -/
def addEdge (parentComponent componentName : Bytes) (graph : Graph Bytes) : Graph Bytes :=
  let children := graph.children parentComponent
  AssocList.set parentComponent
    (if children.contains componentName then children else children ++ [componentName]) graph

mutual

def validateGroup (d : Definitions) (parentComponent : Bytes) :
    XmlNode → Graph Bytes → Except DictionaryParsingError (Graph Bytes)
  | ⟨_, _, children⟩, graph => validateChildren d parentComponent children graph

/-- The loop over the children of a node. -/
def validateChildren (d : Definitions) (parentComponent : Bytes) :
    List XmlNode → Graph Bytes → Except DictionaryParsingError (Graph Bytes)
  | [], graph => .ok graph
  | child :: rest, graph => do
      d.check child.reference
      let graph ← match child.reference with
        | .component name =>
            .ok (if parentComponent = [] then graph else addEdge parentComponent name graph)
        | .group _ => validateGroup d parentComponent child graph
        | _ => .ok graph
      validateChildren d parentComponent rest graph

end

/-- The second pass over the components. -/
def validateComponents (d : Definitions) (components : List XmlNode) :
    Except DictionaryParsingError (Graph Bytes) :=
  components.foldlM
    (fun graph component => validateGroup d (component.asString (ascii "name")) component graph)
    (d.components.map fun p => (p.1, []))

/-- The second and the third pass: the components in topological order. -/
def sortComponents (env : LoadEnv) (d : Definitions) (components : List XmlNode) :
    Except DictionaryParsingError (List Bytes) := do
  let graph ← validateComponents d components
  let sorted := Toposort.toposort env.maps env.sets graph
  if sorted.length ≠ graph.length then .error .cycle else .ok sorted

/-! ## Building specifications -/

namespace GroupSpec

def fresh : GroupSpec := { fields := [], groups := [], ordered := false, fieldOrder := [] }

def pushField (ret : GroupSpec) (entry : Int × Bool) : GroupSpec :=
  { ret with fields := ret.fields ++ [entry], fieldOrder := ret.fieldOrder ++ [entry.1] }

def pushGroup (ret : GroupSpec) (entry : Int × GroupSpec) : GroupSpec :=
  { ret with groups := ret.groups ++ [entry], fieldOrder := ret.fieldOrder ++ [entry.1] }

end GroupSpec

/-- A specification, as a loader builds it.  `buildLookup` fills what it keeps next to its maps. -/
class Specification (σ : Type) where
  fields : σ → List (Int × Bool)
  groups : σ → List (Int × σ)
  /-- An empty one, with the attribute `ordered`. -/
  fresh : Bool → σ
  pushField : σ → Int × Bool → σ
  pushGroup : σ → Int × σ → σ
  buildLookup : σ → σ

instance : Specification GroupSpec where
  fields := GroupSpec.fields
  groups := GroupSpec.groups
  fresh ordered := { GroupSpec.fresh with ordered := ordered }
  pushField := GroupSpec.pushField
  pushGroup := GroupSpec.pushGroup
  buildLookup ret := ret

/-- The specifications of the messages, as a loader keeps them. -/
class MessageTable (β : Type) (σ : outParam Type) where
  empty : β
  bodySpecs : β → List (Bytes × σ)
  set : β → Bytes → σ → β

instance : MessageTable (List (Bytes × GroupSpec)) GroupSpec where
  empty := []
  bodySpecs specs := specs
  set specs msgtype spec := AssocList.set msgtype spec specs

section

variable {σ : Type} [Specification σ]

open Specification

/-- Add a field that is not there yet. -/
def addField (ret : σ) (entry : Int × Bool) : Except DictionaryParsingError σ :=
  if (AssocList.find? entry.1 (fields ret)).isSome then
    .error (.multipleReferences "field" entry.1)
  else .ok (pushField ret entry)

/-- Add a group that is not there yet. -/
def addGroup (ret : σ) (entry : Int × σ) : Except DictionaryParsingError σ :=
  if (AssocList.find? entry.1 (groups ret)).isSome then
    .error (.multipleReferences "group" entry.1)
  else .ok (pushGroup ret entry)

/-- Add what a component holds, its fields and then its groups. -/
def mergeComponent (env : LoadEnv) (ret component : σ) : Except DictionaryParsingError σ := do
  let ret ← (env.fields.entries (fields component)).foldlM addField ret
  (env.groups.entries (groups component)).foldlM addGroup ret

/-- `componentMap[name]`. -/
def componentSpec (componentMap : List (Bytes × σ)) (name : Bytes) : σ :=
  (AssocList.find? name componentMap).getD (fresh false)

mutual

def buildGroup (env : LoadEnv) (d : Definitions) (componentMap : List (Bytes × σ)) :
    XmlNode → Except DictionaryParsingError σ
  | ⟨name, attributes, children⟩ => do
      let ret ← buildChildren env d componentMap children
        (fresh (XmlNode.asBool ⟨name, attributes, children⟩ (ascii "ordered")))
      .ok (buildLookup ret)

/-- The loop over the children of a node. -/
def buildChildren (env : LoadEnv) (d : Definitions) (componentMap : List (Bytes × σ)) :
    List XmlNode → σ → Except DictionaryParsingError σ
  | [], ret => .ok ret
  | child :: rest, ret => do
      let ret ← match child.reference with
        | .component name => mergeComponent env ret (componentSpec componentMap name)
        | .group name =>
            if (AssocList.find? (d.tag name) (groups ret)).isSome then
              .error (.multipleReferences "group" (d.tag name))
            else do
              let group ← buildGroup env d componentMap child
              .ok (pushGroup ret (d.tag name, group))
        | .field name required => addField ret (d.tag name, required)
        | .other => .ok ret
      buildChildren env d componentMap rest ret

end

/-- The loop that builds the components, from the last of the sorted names up. -/
def buildComponents (env : LoadEnv) (d : Definitions) :
    List Bytes → Except DictionaryParsingError (List (Bytes × σ))
  | [] => .ok (d.components.map fun p => (p.1, fresh false))
  | name :: rest => do
      let componentMap ← buildComponents env d rest
      let spec ← buildGroup env d componentMap (d.node name)
      .ok (AssocList.set name spec componentMap)

/-- One round of the loop over the messages. -/
def buildMessage {β : Type} [MessageTable β σ] (env : LoadEnv) (d : Definitions)
    (componentMap : List (Bytes × σ)) (specs : β) (node : XmlNode) :
    Except DictionaryParsingError β :=
  let msgtype := node.asString (ascii "msgtype")
  if msgtype = [] then .error .msgtypeMissing
  else if (AssocList.find? msgtype (MessageTable.bodySpecs specs)).isSome then
    .error (.redefinition msgtype)
  else do
    let spec ← buildGroup env d componentMap node
    .ok (MessageTable.set specs msgtype spec)

end

/-! ## Specifications without tables -/

section

variable (env : LoadEnv) (d : Definitions) (componentMap : List (Bytes × GroupSpec))
  (ret : GroupSpec)

theorem addField_eq (entry : Int × Bool) :
    addField ret entry = if (AssocList.find? entry.1 ret.fields).isSome then
      .error (.multipleReferences "field" entry.1) else .ok (ret.pushField entry) := rfl

theorem addGroup_eq (entry : Int × GroupSpec) :
    addGroup ret entry = if (AssocList.find? entry.1 ret.groups).isSome then
      .error (.multipleReferences "group" entry.1) else .ok (ret.pushGroup entry) := rfl

theorem mergeComponent_eq (component : GroupSpec) :
    mergeComponent env ret component = (do
      let ret ← (env.fields.entries component.fields).foldlM addField ret
      (env.groups.entries component.groups).foldlM addGroup ret) := rfl

theorem buildGroup_eq (name : Bytes) (attributes : List (Bytes × Bytes))
    (children : List XmlNode) : buildGroup env d componentMap ⟨name, attributes, children⟩ =
      buildChildren env d componentMap children { GroupSpec.fresh with
        ordered := XmlNode.asBool ⟨name, attributes, children⟩ (ascii "ordered") } := by
  rw [buildGroup]
  exact bind_pure _

theorem buildChildren_nil : buildChildren env d componentMap [] ret = .ok ret := by
  rw [buildChildren]

theorem buildChildren_cons (child : XmlNode) (rest : List XmlNode) :
    buildChildren env d componentMap (child :: rest) ret = (do
      let ret ← match child.reference with
        | .component name => mergeComponent env ret (componentSpec componentMap name)
        | .group name =>
            if (AssocList.find? (d.tag name) ret.groups).isSome then
              .error (.multipleReferences "group" (d.tag name))
            else do
              let group ← buildGroup env d componentMap child
              .ok (ret.pushGroup (d.tag name, group))
        | .field name required => addField ret (d.tag name, required)
        | .other => .ok ret
      buildChildren env d componentMap rest ret) := by
  rw [buildChildren]
  rfl

end

/-! ## The whole document -/

/-- What is made of the sections of a document. -/
structure Sections (σ δ β : Type) where
  fields : δ
  componentMap : List (Bytes × σ)
  headerSpec : σ
  trailerSpec : σ
  bodySpecs : β

/-- What `load` makes of a document, section by section. -/
def loadSections {σ δ β : Type} [Specification σ] [FieldTable δ] [MessageTable β σ]
    (env : LoadEnv) (doc : XmlNode) : Except DictionaryParsingError (Sections σ δ β) := do
  let root := doc.child (ascii "fix")
  let header ← match root.child? (ascii "header") with
    | none => .error .missingHeader
    | some header => .ok header
  let trailer ← match root.child? (ascii "trailer") with
    | none => .error .missingTrailer
    | some trailer => .ok trailer
  let fields : δ ← loadFields env (root.child (ascii "fields"))
  let components ← declareComponents (root.child (ascii "components"))
  let d : Definitions := ⟨FieldTable.fieldMap fields, components⟩
  let sorted ← sortComponents env d (root.child (ascii "components")).children
  let componentMap ← buildComponents env d sorted
  let headerSpec ← buildGroup env d componentMap header
  let trailerSpec ← buildGroup env d componentMap trailer
  let bodySpecs ← (root.child (ascii "messages")).children.foldlM
    (buildMessage env d componentMap) MessageTable.empty
  .ok ⟨fields, componentMap, headerSpec, trailerSpec, bodySpecs⟩

/-- The specifications of the components and the dictionary. -/
structure Loaded where
  componentMap : List (Bytes × GroupSpec)
  dictionary : Dictionary

/-- What `load` makes of a document. -/
def loadDocument (env : LoadEnv) (doc : XmlNode) : Except DictionaryParsingError Loaded := do
  let s : Sections GroupSpec FieldDefinitions (List (Bytes × GroupSpec)) ← loadSections env doc
  .ok ⟨s.componentMap, ⟨s.headerSpec, s.trailerSpec, s.bodySpecs, s.fields.fieldTypes⟩⟩

/-- The dictionaries loaded so far, by path. -/
structure DictionaryRegistry where
  dictionaries : List (Bytes × Dictionary) := []

/-- `load`, where `file` is what reading the file at `path` gives. -/
def DictionaryRegistry.load (env : LoadEnv) (registry : DictionaryRegistry) (path : Bytes)
    (file : Except Bytes XmlNode) :
    Except DictionaryParsingError (Dictionary × DictionaryRegistry) :=
  match AssocList.find? path registry.dictionaries with
  | some dict => .ok (dict, registry)
  | none =>
      match file with
      | .error description => .error (.unableToLoad description)
      | .ok doc => do
          let loaded ← loadDocument env doc
          .ok (loaded.dictionary,
            ⟨AssocList.set path loaded.dictionary registry.dictionaries⟩)

end OpenFix
