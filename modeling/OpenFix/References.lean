import OpenFix.Lib.Loop
import OpenFix.Loading

/-!
# The references of a dictionary

`validateGroup` runs over the references of a component, those inside of groups
included, and tests each of them.  What it leaves is the graph of the components.
-/

namespace OpenFix

open Loop (Yields bind_eq_ok bind_eq_error)
open Toposort (Graph)

/-! ## References at any depth -/

mutual

/-- The references inside of a node, those in its groups included, in the order
of the text. -/
def XmlNode.references : XmlNode → List Reference
  | ⟨_, _, children⟩ => referencesIn children

def referencesIn : List XmlNode → List Reference
  | [] => []
  | child :: rest =>
      match child.reference with
      | .group name => .group name :: (child.references ++ referencesIn rest)
      | reference => reference :: referencesIn rest

end

theorem XmlNode.references_eq (node : XmlNode) : node.references = referencesIn node.children := by
  cases node
  rw [XmlNode.references]

namespace Definitions

/-- The name a reference mentions is defined. -/
def Resolves (d : Definitions) : Reference → Prop
  | .component name => name ∈ AssocList.keys d.components
  | .group name => name ∈ AssocList.keys d.fieldMap
  | .field name _ => name ∈ AssocList.keys d.fieldMap
  | .other => True

instance (d : Definitions) (reference : Reference) : Decidable (d.Resolves reference) :=
  match reference with
  | .component _ => inferInstanceAs (Decidable (_ ∈ _))
  | .group _ => inferInstanceAs (Decidable (_ ∈ _))
  | .field _ _ => inferInstanceAs (Decidable (_ ∈ _))
  | .other => .isTrue trivial

/-- What the loops over the definitions leave: no name is empty, and no component
has two definitions. -/
structure Sound (d : Definitions) : Prop where
  fields_ne : [] ∉ AssocList.keys d.fieldMap
  components_ne : [] ∉ AssocList.keys d.components
  nodup : (AssocList.keys d.components).Nodup

variable {d : Definitions}

theorem check_eq_ok_iff (hd : d.Sound) {reference : Reference} :
    d.check reference = .ok () ↔ d.Resolves reference := by
  have hisNone : ∀ {α : Type} (name : Bytes) (l : List (Bytes × α)),
      (AssocList.find? name l).isNone = true ↔ name ∉ AssocList.keys l := by
    intro α name l
    rw [Option.isNone_iff_eq_none, AssocList.find?_eq_none_iff]
  cases reference with
  | component name =>
      rw [check, Resolves]
      by_cases hname : name = []
      · simp [hname, hd.components_ne]
      · by_cases hmem : name ∈ AssocList.keys d.components <;> simp [hname, hisNone, hmem]
  | group name =>
      rw [check, Resolves]
      by_cases hname : name = []
      · simp [hname, hd.fields_ne]
      · by_cases hmem : name ∈ AssocList.keys d.fieldMap <;> simp [hname, hisNone, hmem]
  | field name required =>
      rw [check, Resolves]
      by_cases hname : name = []
      · simp [hname, hd.fields_ne]
      · by_cases hmem : name ∈ AssocList.keys d.fieldMap <;> simp [hname, hisNone, hmem]
  | other => simp [check, Resolves]

end Definitions

/-! ## The walk of `validateGroup` -/

/-- What `validateGroup` does to the graph at one reference. -/
def visit (d : Definitions) (parentComponent : Bytes) (graph : Graph Bytes)
    (reference : Reference) : Except DictionaryParsingError (Graph Bytes) := do
  d.check reference
  match reference with
  | .component name =>
      .ok (if parentComponent = [] then graph else addEdge parentComponent name graph)
  | _ => .ok graph

mutual

/-- The recursion visits the references one after the other. -/
theorem validateGroup_eq (d : Definitions) (parentComponent : Bytes) :
    ∀ (node : XmlNode) (graph : Graph Bytes),
      validateGroup d parentComponent node graph =
        node.references.foldlM (visit d parentComponent) graph
  | ⟨_, _, children⟩, graph => by
      rw [validateGroup, XmlNode.references]
      exact validateChildren_eq d parentComponent children graph

theorem validateChildren_eq (d : Definitions) (parentComponent : Bytes) :
    ∀ (children : List XmlNode) (graph : Graph Bytes),
      validateChildren d parentComponent children graph =
        (referencesIn children).foldlM (visit d parentComponent) graph
  | [], graph => by
      rw [validateChildren, referencesIn]
      rfl
  | child :: rest, graph => by
      have hrest := validateChildren_eq d parentComponent rest
      have hchild := validateGroup_eq d parentComponent child
      rw [validateChildren, referencesIn]
      cases hreference : child.reference with
      | group name =>
          simp only [List.foldlM_cons, List.foldlM_append, visit, hrest, hchild, bind_assoc]
          rfl
      | component name =>
          simp only [List.foldlM_cons, visit, hrest, bind_assoc]
      | field name required =>
          simp only [List.foldlM_cons, visit, hrest, bind_assoc]
      | other =>
          simp only [List.foldlM_cons, visit, hrest, bind_assoc]

end

/-! ## The graph -/

theorem children_addEdge (parentComponent componentName : Bytes) (graph : Graph Bytes)
    (a : Bytes) :
    (addEdge parentComponent componentName graph).children a =
      if a = parentComponent then
        if (graph.children a).contains componentName then graph.children a
        else graph.children a ++ [componentName]
      else graph.children a := by
  unfold addEdge
  by_cases h : a = parentComponent
  · subst h
    rw [if_pos rfl, Graph.children, AssocList.find?_set_self]
    rfl
  · rw [if_neg h, Graph.children, AssocList.find?_set_ne h]
    rfl

theorem edge_addEdge {parentComponent componentName : Bytes} {graph : Graph Bytes} {a b : Bytes} :
    (addEdge parentComponent componentName graph).Edge a b ↔
      graph.Edge a b ∨ a = parentComponent ∧ b = componentName := by
  rw [Graph.Edge, children_addEdge]
  by_cases h : a = parentComponent
  · by_cases hmem : componentName ∈ graph.children a
    · rw [if_pos h, if_pos (List.contains_iff_mem.mpr hmem)]
      constructor
      · exact .inl
      · intro hedge
        rcases hedge with hedge | hedge
        · exact hedge
        · exact hedge.2 ▸ hmem
    · rw [if_pos h, if_neg (mt List.contains_iff_mem.mp hmem), List.mem_append,
        List.mem_singleton]
      simp [h, Graph.Edge]
  · rw [if_neg h]
    simp [h, Graph.Edge]

/-- `graph` has the components for nodes and the edges `E`. -/
structure GraphOf (d : Definitions) (E : Bytes → Bytes → Prop) (graph : Graph Bytes) : Prop where
  nodes : graph.nodes = AssocList.keys d.components
  edge : ∀ a b, graph.Edge a b ↔ E a b
  nodup_children : ∀ a, (graph.children a).Nodup

namespace GraphOf

variable {d : Definitions} {E E' : Bytes → Bytes → Prop} {graph : Graph Bytes}

theorem congr (h : GraphOf d E graph) (hE : ∀ a b, E a b ↔ E' a b) : GraphOf d E' graph :=
  ⟨h.nodes, fun a b => (h.edge a b).trans (hE a b), h.nodup_children⟩

theorem addEdge {parentComponent componentName : Bytes} (h : GraphOf d E graph)
    (hparent : parentComponent ∈ AssocList.keys d.components) :
    GraphOf d (fun a b => E a b ∨ a = parentComponent ∧ b = componentName)
      (addEdge parentComponent componentName graph) where
  nodes := by
    rw [← h.nodes] at hparent ⊢
    exact AssocList.keys_set_of_mem _ hparent
  edge a b := by rw [edge_addEdge, h.edge]
  nodup_children a := by
    rw [children_addEdge]
    have hnodup := h.nodup_children a
    split
    next =>
      split
      next => exact hnodup
      next hmem =>
        have hmem := mt List.contains_iff_mem.mpr hmem
        exact List.nodup_append_comm.mp (List.nodup_cons.mpr ⟨hmem, hnodup⟩)
    next => exact hnodup

theorem initial (d : Definitions) :
    GraphOf d (fun _ _ => False) (d.components.map fun p => (p.1, [])) := by
  have hchildren : ∀ a, Graph.children (d.components.map fun p => (p.1, [])) a = [] := by
    intro a
    unfold Graph.children
    induction d.components with
    | nil => rfl
    | cons p l ih =>
        by_cases h : p.1 = a
        · rw [List.map_cons, h, AssocList.find?_cons_self]
          rfl
        · rw [List.map_cons, AssocList.find?_cons_ne h]
          exact ih
  constructor
  · simp [Graph.nodes, AssocList.keys]
  · intro a b
    simp [Graph.Edge, hchildren]
  · intro a
    rw [hchildren]
    exact List.nodup_nil

/-- A graph whose references resolve is one that can be sorted. -/
theorem sound (h : GraphOf d E graph) (hd : d.Sound)
    (hE : ∀ a b, E a b → d.Resolves (.component b)) : graph.Sound where
  nodup := h.nodes ▸ hd.nodup
  nodup_children := h.nodup_children
  closed a b hedge := h.nodes ▸ hE a b ((h.edge a b).mp hedge)

end GraphOf

section

variable {d : Definitions} (hd : d.Sound)
include hd

/-- A reference that resolves adds at most one edge. -/
theorem visit_of_resolves {parentComponent : Bytes}
    (hparent : parentComponent ∈ AssocList.keys d.components) {r : Reference}
    (hr : d.Resolves r) {E : Bytes → Bytes → Prop} {graph : Graph Bytes} (h : GraphOf d E graph) :
    ∃ graph', visit d parentComponent graph r = .ok graph' ∧
      GraphOf d (fun a b => E a b ∨ a = parentComponent ∧ r = .component b) graph' := by
  have hcheck := (Definitions.check_eq_ok_iff hd).mpr hr
  have hne : parentComponent ≠ [] := fun he => hd.components_ne (he ▸ hparent)
  cases r with
  | component name =>
      have hvisit : visit d parentComponent graph (.component name) =
          .ok (addEdge parentComponent name graph) := by
        simp only [visit, hcheck, if_neg hne]
        rfl
      apply Exists.intro _
      apply And.intro hvisit
      apply (h.addEdge hparent).congr
      intro a b
      rw [Reference.component.injEq, eq_comm (a := b)]
  | group name =>
      have hvisit : visit d parentComponent graph (.group name) = .ok graph := by
        simp only [visit, hcheck]
        rfl
      exact ⟨graph, hvisit, h.congr (by simp)⟩
  | field name required =>
      have hvisit : visit d parentComponent graph (.field name required) = .ok graph := by
        simp only [visit, hcheck]
        rfl
      exact ⟨graph, hvisit, h.congr (by simp)⟩
  | other =>
      have hvisit : visit d parentComponent graph .other = .ok graph := by
        simp only [visit, hcheck]
        rfl
      exact ⟨graph, hvisit, h.congr (by simp)⟩

theorem visit_of_not_resolves (parentComponent : Bytes) {r : Reference} (hr : ¬d.Resolves r)
    (graph : Graph Bytes) : ∃ e, visit d parentComponent graph r = .error e := by
  cases hcheck : d.check r with
  | ok u => exact absurd ((Definitions.check_eq_ok_iff hd).mp hcheck) hr
  | error e =>
      apply Exists.intro e
      simp only [visit, hcheck]
      rfl

theorem yields_visits {parentComponent : Bytes}
    (hparent : parentComponent ∈ AssocList.keys d.components) {references : List Reference}
    {E : Bytes → Bytes → Prop} {graph : Graph Bytes} (h : GraphOf d E graph) :
    Yields (references.foldlM (visit d parentComponent) graph)
      (fun graph' => (∀ r ∈ references, d.Resolves r) ∧
        GraphOf d (fun a b => E a b ∨ a = parentComponent ∧ .component b ∈ references) graph')
      fun _ => ∃ r ∈ references, ¬d.Resolves r := by
  induction references generalizing E graph with
  | nil => exact ⟨by simp, h.congr (by simp)⟩
  | cons r rest ih =>
      rw [List.foldlM_cons]
      by_cases hr : d.Resolves r
      · obtain ⟨graph', hvisit, hgraph⟩ := visit_of_resolves hd hparent hr h
        rw [hvisit]
        apply (ih hgraph).mono
        · intro graph'' hrest
          constructor
          · exact List.forall_mem_cons.mpr ⟨hr, hrest.1⟩
          · apply hrest.2.congr
            intro a b
            rw [List.mem_cons, or_assoc, ← and_or_left, eq_comm (a := r)]
        · intro e hrest
          obtain ⟨r', hr', hres⟩ := hrest
          exact ⟨r', List.mem_cons_of_mem _ hr', hres⟩
      · obtain ⟨e, hvisit⟩ := visit_of_not_resolves hd parentComponent hr graph
        rw [hvisit]
        exact ⟨r, List.mem_cons_self, hr⟩

theorem yields_validate {components : List XmlNode}
    (hnames : ∀ c ∈ components, c.asString (ascii "name") ∈ AssocList.keys d.components)
    {E : Bytes → Bytes → Prop} {graph : Graph Bytes} (h : GraphOf d E graph) :
    Yields (components.foldlM
        (fun graph c => validateGroup d (c.asString (ascii "name")) c graph) graph)
      (fun graph' => (∀ c ∈ components, ∀ r ∈ c.references, d.Resolves r) ∧
        GraphOf d (fun a b => E a b ∨
          ∃ c ∈ components, a = c.asString (ascii "name") ∧ .component b ∈ c.references) graph')
      fun _ => ∃ c ∈ components, ∃ r ∈ c.references, ¬d.Resolves r := by
  induction components generalizing E graph with
  | nil => exact ⟨by simp, h.congr (by simp)⟩
  | cons c rest ih =>
      have hnames := List.forall_mem_cons.mp hnames
      rw [List.foldlM_cons, validateGroup_eq]
      apply ((yields_visits hd hnames.1 h).mono (fun _ hvisits => hvisits) _).bind
      · intro graph' hvisits
        apply (ih hnames.2 hvisits.2).mono
        · intro graph'' hrest
          constructor
          · exact List.forall_mem_cons.mpr ⟨hvisits.1, hrest.1⟩
          · apply hrest.2.congr
            intro a b
            simp only [List.mem_cons, exists_eq_or_imp, or_assoc]
        · intro e hrest
          obtain ⟨c', hc', hres⟩ := hrest
          exact ⟨c', List.mem_cons_of_mem _ hc', hres⟩
      · intro e hvisits
        exact ⟨c, List.mem_cons_self, hvisits⟩

end

/-! ## The definitions -/

/-- The loop over the components keeps each under its name. -/
theorem yields_declareComponents {components : List XmlNode}
    {acc : List (Bytes × XmlNode)} (hacc : (AssocList.keys acc).Nodup) :
    Yields (components.foldlM declareComponent acc)
      (fun out => (∀ c ∈ components, c.asString (ascii "name") ≠ []) ∧
        (AssocList.keys out).Nodup ∧
        out = acc ++ components.map fun c => (c.asString (ascii "name"), c))
      fun _ => ¬((∀ c ∈ components, c.asString (ascii "name") ≠ []) ∧
        (AssocList.keys
          (acc ++ components.map fun c => (c.asString (ascii "name"), c))).Nodup) := by
  induction components generalizing acc with
  | nil => exact ⟨by simp, hacc, by simp⟩
  | cons c rest ih =>
      rw [List.foldlM_cons]
      by_cases hname : c.asString (ascii "name") = []
      · rw [declareComponent, if_pos hname]
        intro hvalid
        exact hvalid.1 c List.mem_cons_self hname
      · by_cases hmem : c.asString (ascii "name") ∈ AssocList.keys acc
        · rw [declareComponent, if_neg hname, if_pos (AssocList.find?_isSome_iff.mpr hmem)]
          intro hvalid
          rw [AssocList.keys, List.map_append, List.map_cons, List.map_cons] at hvalid
          exact List.disjoint_of_nodup_append hvalid.2 hmem List.mem_cons_self
        · have hkeys : (AssocList.keys (acc ++ [(c.asString (ascii "name"), c)])).Nodup := by
            rw [AssocList.keys, List.map_append]
            exact List.nodup_append_comm.mp (List.nodup_cons.mpr ⟨hmem, hacc⟩)
          have hassoc : acc ++ ((c.asString (ascii "name"), c) ::
              rest.map fun c => (c.asString (ascii "name"), c)) =
              acc ++ [(c.asString (ascii "name"), c)] ++
                rest.map fun c => (c.asString (ascii "name"), c) := by
            rw [List.append_assoc]
            rfl
          rw [declareComponent, if_neg hname,
            if_neg (fun h => hmem (AssocList.find?_isSome_iff.mp h)),
            AssocList.set_of_not_mem _ hmem, List.map_cons, hassoc]
          apply (ih hkeys).mono
          · intro out hrest
            exact ⟨List.forall_mem_cons.mpr ⟨hname, hrest.1⟩, hrest.2⟩
          · intro e hrest hvalid
            exact hrest ⟨(List.forall_mem_cons.mp hvalid.1).2, hvalid.2⟩

namespace Definitions

/-- The component `a` references the component `b`. -/
def Edge (d : Definitions) (a b : Bytes) : Prop := .component b ∈ (d.node a).references

def Acyclic (d : Definitions) : Prop := ∀ name, ¬Relation.TransGen d.Edge name name

/-- The components are those of a section of the document. -/
def Declares (d : Definitions) (components : List XmlNode) : Prop :=
  d.components = components.map fun c => (c.asString (ascii "name"), c)

/-- A list with every component once, and each before those it references. -/
structure Sorted (d : Definitions) (names : List Bytes) : Prop where
  mem : ∀ name, name ∈ names ↔ name ∈ AssocList.keys d.components
  nodup : names.Nodup
  before : ∀ a b, d.Edge a b → names.idxOf a < names.idxOf b

variable {d : Definitions}

theorem Declares.keys {components : List XmlNode} (h : d.Declares components) :
    AssocList.keys d.components = components.map fun c => c.asString (ascii "name") := by
  rw [h, AssocList.keys, List.map_map]
  rfl

theorem node_of_not_mem {name : Bytes} (h : name ∉ AssocList.keys d.components) :
    d.node name = .null := by
  rw [node, AssocList.find?_eq_none_iff.mpr h]
  rfl

theorem Declares.node {components : List XmlNode} (h : d.Declares components) (hd : d.Sound)
    {c : XmlNode} (hc : c ∈ components) : d.node (c.asString (ascii "name")) = c := by
  have hmem : (c.asString (ascii "name"), c) ∈ d.components := by
    rw [h]
    exact List.mem_map_of_mem hc
  rw [Definitions.node, AssocList.find?_of_mem hd.nodup hmem]
  rfl

/-- An edge comes from one of the components of the section. -/
theorem Declares.edge_iff {components : List XmlNode} (h : d.Declares components) (hd : d.Sound)
    {a b : Bytes} :
    d.Edge a b ↔
      ∃ c ∈ components, a = c.asString (ascii "name") ∧ .component b ∈ c.references := by
  constructor
  · intro hedge
    by_cases ha : a ∈ AssocList.keys d.components
    · rw [h.keys] at ha
      obtain ⟨c, hc, hname⟩ := List.mem_map.mp ha
      rw [Edge, ← hname, h.node hd hc] at hedge
      exact ⟨c, hc, hname.symm, hedge⟩
    · rw [Edge, node_of_not_mem ha, XmlNode.null, XmlNode.references, referencesIn] at hedge
      cases hedge
  · intro hedge
    obtain ⟨c, hc, hname, href⟩ := hedge
    rw [Edge, hname, h.node hd hc]
    exact href

end Definitions

/-- The check of the components, and the sort. -/
theorem yields_sortComponents (env : LoadEnv) {d : Definitions} (hd : d.Sound)
    {components : List XmlNode} (h : d.Declares components) :
    Yields (sortComponents env d components)
      (fun sorted => (∀ c ∈ components, ∀ r ∈ c.references, d.Resolves r) ∧ d.Acyclic ∧
        d.Sorted sorted)
      fun e => (∃ c ∈ components, ∃ r ∈ c.references, ¬d.Resolves r) ∨
        ¬d.Acyclic ∧ e = .cycle := by
  have hnames : ∀ c ∈ components, c.asString (ascii "name") ∈ AssocList.keys d.components := by
    intro c hc
    rw [h.keys]
    exact List.mem_map_of_mem hc
  apply ((yields_validate hd hnames (.initial d)).mono (fun _ hgraph => hgraph)
    fun _ he => .inl he).bind
  intro graph hgraph
  obtain ⟨hresolves, hgraph⟩ := hgraph
  have hgraph : GraphOf d d.Edge graph := by
    apply hgraph.congr
    intro a b
    rw [false_or, h.edge_iff hd]
  have hedge : graph.Edge = d.Edge := funext fun a => funext fun b => propext (hgraph.edge a b)
  have hsound : graph.Sound := by
    apply hgraph.sound hd
    intro a b hab
    obtain ⟨c, hc, -, href⟩ := (h.edge_iff hd).mp hab
    exact hresolves c hc _ href
  have hcycle := Toposort.length_toposort_eq_iff env.maps env.sets hsound
  rw [Graph.Acyclic, hedge] at hcycle
  show Yields (if (Toposort.toposort env.maps env.sets graph).length ≠ graph.length then
      .error DictionaryParsingError.cycle
    else .ok (Toposort.toposort env.maps env.sets graph)) _ _
  split
  next hlength => exact .inr ⟨fun hacyclic => hlength (hcycle.mpr hacyclic), rfl⟩
  next hlength =>
    have hacyclic := hcycle.mp (not_not.mp hlength)
    have hmem : ∀ name, name ∈ graph.nodes → name ∈ Toposort.toposort env.maps env.sets graph := by
      intro name
      apply Toposort.mem_toposort_of_acyclic env.maps env.sets hsound
      rw [Graph.Acyclic, hedge]
      exact hacyclic
    constructor
    · exact hresolves
    · constructor
      · exact hacyclic
      · constructor
        · intro name
          rw [← hgraph.nodes]
          constructor
          · intro hname
            exact ((Toposort.mem_toposort_iff env.maps env.sets hsound).mp hname).1
          · exact hmem name
        · exact Toposort.nodup_toposort env.maps env.sets hsound
        · intro a b hab
          rw [← hedge] at hab
          have hlt := Toposort.idxOf_lt_of_edge env.maps env.sets hsound
            (hmem b (hsound.closed a b hab)) hab
          have hbeq : (instBEqOfDecidableEq : BEq Bytes) = List.instBEq :=
            lawful_beq_subsingleton _ _
          rwa [hbeq] at hlt

/-! ## The parts of a document -/

namespace XmlNode

def root (doc : XmlNode) : XmlNode := doc.child (ascii "fix")

def header (doc : XmlNode) : XmlNode := doc.root.child (ascii "header")

def trailer (doc : XmlNode) : XmlNode := doc.root.child (ascii "trailer")

def fieldNodes (doc : XmlNode) : List XmlNode := (doc.root.child (ascii "fields")).children

def componentNodes (doc : XmlNode) : List XmlNode :=
  (doc.root.child (ascii "components")).children

def messageNodes (doc : XmlNode) : List XmlNode := (doc.root.child (ascii "messages")).children

/-- The nodes that a specification is built from. -/
def specNodes (doc : XmlNode) : List XmlNode :=
  doc.componentNodes ++ doc.header :: doc.trailer :: doc.messageNodes

/-- The names a document defines. -/
def definitions (env : LoadEnv) (doc : XmlNode) : Definitions where
  fieldMap := doc.fieldNodes.foldl
    (fun fieldMap f => AssocList.set (f.asString (ascii "name")) (f.number env) fieldMap) []
  components := doc.componentNodes.map fun c => (c.asString (ascii "name"), c)

end XmlNode

/-- The loop over the fields rejects an empty name. -/
theorem yields_loadFields (env : LoadEnv) {fields : List XmlNode} {defs : FieldDefinitions} :
    Yields (fields.foldlM (loadField env) defs)
      (fun out => (∀ f ∈ fields, f.asString (ascii "name") ≠ []) ∧
        out.fieldMap = fields.foldl
          (fun fieldMap f => AssocList.set (f.asString (ascii "name")) (f.number env) fieldMap)
          defs.fieldMap)
      fun _ => True := by
  induction fields generalizing defs with
  | nil => exact ⟨by simp, rfl⟩
  | cons f rest ih =>
      rw [List.foldlM_cons]
      apply Yields.bind (Q := fun out => f.asString (ascii "name") ≠ [] ∧
        out.fieldMap = AssocList.set (f.asString (ascii "name")) (f.number env) defs.fieldMap)
      · simp only [loadField]
        split
        next => trivial
        next hvalid =>
          have hname : f.asString (ascii "name") ≠ [] := fun h => hvalid (.inr (.inl h))
          split
          next => trivial
          next =>
            split
            next => trivial
            next => exact ⟨hname, rfl⟩
      · intro out hout
        apply ih.mono
        · intro out' hrest
          constructor
          · exact List.forall_mem_cons.mpr ⟨hout.1, hrest.1⟩
          · rw [hrest.2, List.foldl_cons, hout.2]
        · intro _ _
          trivial

section

variable (env : LoadEnv) (fields : List XmlNode) (fieldMap : List (Bytes × Int))

theorem mem_keys_foldl_set {name : Bytes} :
    name ∈ AssocList.keys (fields.foldl
        (fun fieldMap f => AssocList.set (f.asString (ascii "name")) (f.number env) fieldMap)
        fieldMap) ↔
      name ∈ AssocList.keys fieldMap ∨ ∃ f ∈ fields, f.asString (ascii "name") = name := by
  induction fields generalizing fieldMap with
  | nil => simp
  | cons f rest ih =>
      have hset : name ∈ AssocList.keys
          (AssocList.set (f.asString (ascii "name")) (f.number env) fieldMap) ↔
          name ∈ AssocList.keys fieldMap ∨ f.asString (ascii "name") = name := by
        rw [AssocList.keys_set]
        split
        next h =>
          constructor
          · exact .inl
          · intro h'
            rcases h' with h' | h'
            · exact h'
            · exact h' ▸ h
        next => rw [List.mem_append, List.mem_singleton, eq_comm (a := name)]
      rw [List.foldl_cons, ih, hset, or_assoc]
      simp only [List.mem_cons, exists_eq_or_imp]

theorem mem_foldl_set {p : Bytes × Int}
    (h : p ∈ fields.foldl
      (fun fieldMap f => AssocList.set (f.asString (ascii "name")) (f.number env) fieldMap)
      fieldMap) : p ∈ fieldMap ∨ ∃ f ∈ fields, f.number env = p.2 := by
  induction fields generalizing fieldMap with
  | nil => exact .inl h
  | cons f rest ih =>
      rcases ih _ h with h | h
      · rcases AssocList.mem_set h with h | h
        · exact .inr ⟨f, List.mem_cons_self, h ▸ rfl⟩
        · exact .inl h
      · obtain ⟨f', hf', htag⟩ := h
        exact .inr ⟨f', List.mem_cons_of_mem _ hf', htag⟩

end

namespace XmlNode

variable {env : LoadEnv} {doc : XmlNode}

theorem declares_definitions (env : LoadEnv) (doc : XmlNode) :
    (doc.definitions env).Declares doc.componentNodes := rfl

theorem mem_fieldMap {name : Bytes} :
    name ∈ AssocList.keys (doc.definitions env).fieldMap ↔
      ∃ f ∈ doc.fieldNodes, f.asString (ascii "name") = name := by
  have hnil : name ∉ AssocList.keys ([] : List (Bytes × Int)) := List.not_mem_nil
  rw [XmlNode.definitions, mem_keys_foldl_set]
  simp only [hnil, false_or]

/-- The definitions of a document are sound when no name is empty and none is the
name of two components. -/
theorem sound_definitions (hfields : ∀ f ∈ doc.fieldNodes, f.asString (ascii "name") ≠ [])
    (hcomponents : ∀ c ∈ doc.componentNodes, c.asString (ascii "name") ≠ [])
    (hnodup : (doc.componentNodes.map fun c => c.asString (ascii "name")).Nodup) :
    (doc.definitions env).Sound where
  fields_ne h := by
    obtain ⟨f, hf, hname⟩ := mem_fieldMap.mp h
    exact hfields f hf hname
  components_ne h := by
    rw [(declares_definitions env doc).keys] at h
    obtain ⟨c, hc, hname⟩ := List.mem_map.mp h
    exact hcomponents c hc hname
  nodup := by
    rw [(declares_definitions env doc).keys]
    exact hnodup

end XmlNode

/-! ## The steps of a load -/

/-- The specifications of a dictionary and of its components. -/
def Loaded.specs (loaded : Loaded) : List GroupSpec :=
  loaded.componentMap.map Prod.snd ++ loaded.dictionary.headerSpec ::
    loaded.dictionary.trailerSpec :: loaded.dictionary.bodySpecs.map Prod.snd

/-- A document that is not in the registry is loaded. -/
theorem DictionaryRegistry.load_eq (env : LoadEnv) {registry : DictionaryRegistry} {path : Bytes}
    (hnew : AssocList.find? path registry.dictionaries = none) (doc : XmlNode) :
    registry.load env path (.ok doc) = (do
      let loaded ← loadDocument env doc
      .ok (loaded.dictionary,
        ⟨AssocList.set path loaded.dictionary registry.dictionaries⟩)) := by
  rw [load, hnew]

/-- A load of a document that is not in the registry comes out with the dictionary
of its document. -/
theorem DictionaryRegistry.load_eq_ok {env : LoadEnv} {registry registry' : DictionaryRegistry}
    {path : Bytes} {doc : XmlNode} {dict : Dictionary}
    (hnew : AssocList.find? path registry.dictionaries = none)
    (h : registry.load env path (.ok doc) = .ok (dict, registry')) :
    ∃ componentMap, loadDocument env doc = .ok ⟨componentMap, dict⟩ := by
  rw [load_eq env hnew] at h
  obtain ⟨loaded, hloaded, h⟩ := bind_eq_ok.mp h
  cases h
  exact ⟨loaded.componentMap, hloaded⟩

/-- The steps of a load that comes out with `loaded`. -/
structure LoadsAs (env : LoadEnv) (doc : XmlNode) (loaded : Loaded) : Prop where
  sound : (doc.definitions env).Sound
  components : ∃ sorted,
    sortComponents env (doc.definitions env) doc.componentNodes = .ok sorted ∧
      buildComponents env (doc.definitions env) sorted = .ok loaded.componentMap
  header : buildGroup env (doc.definitions env) loaded.componentMap doc.header =
    .ok loaded.dictionary.headerSpec
  trailer : buildGroup env (doc.definitions env) loaded.componentMap doc.trailer =
    .ok loaded.dictionary.trailerSpec
  messages : doc.messageNodes.foldlM
    (buildMessage env (doc.definitions env) loaded.componentMap) [] =
      .ok loaded.dictionary.bodySpecs

/-- The steps of a load that returns, whatever the loader keeps. -/
theorem loadSections_eq_ok {σ δ β : Type} [Specification σ] [FieldTable δ] [MessageTable β σ]
    {env : LoadEnv} {doc : XmlNode} {s : Sections σ δ β} (h : loadSections env doc = .ok s) :
    loadFields env (doc.root.child (ascii "fields")) = .ok s.fields ∧
      ∃ components sorted, declareComponents (doc.root.child (ascii "components")) =
          .ok components ∧
        sortComponents env ⟨FieldTable.fieldMap s.fields, components⟩ doc.componentNodes =
          .ok sorted ∧
        buildComponents env ⟨FieldTable.fieldMap s.fields, components⟩ sorted =
          .ok s.componentMap ∧
        buildGroup env ⟨FieldTable.fieldMap s.fields, components⟩ s.componentMap doc.header =
          .ok s.headerSpec ∧
        buildGroup env ⟨FieldTable.fieldMap s.fields, components⟩ s.componentMap doc.trailer =
          .ok s.trailerSpec ∧
        doc.messageNodes.foldlM
          (buildMessage env ⟨FieldTable.fieldMap s.fields, components⟩ s.componentMap)
          MessageTable.empty = .ok s.bodySpecs := by
  have hroot : doc.child (ascii "fix") = doc.root := rfl
  simp only [loadSections, hroot] at h
  cases hheader : doc.root.child? (ascii "header") with
  | none =>
      rw [hheader] at h
      cases h
  | some header =>
      cases htrailer : doc.root.child? (ascii "trailer") with
      | none =>
          rw [hheader, htrailer] at h
          cases h
      | some trailer =>
          rw [hheader, htrailer] at h
          have hheader : doc.header = header := by rw [XmlNode.header, XmlNode.child, hheader]; rfl
          have htrailer : doc.trailer = trailer := by
            rw [XmlNode.trailer, XmlNode.child, htrailer]
            rfl
          obtain ⟨_, hok, h⟩ := bind_eq_ok.mp h
          cases hok
          obtain ⟨_, hok, h⟩ := bind_eq_ok.mp h
          cases hok
          obtain ⟨fields, hfields, h⟩ := bind_eq_ok.mp h
          obtain ⟨components, hcomponents, h⟩ := bind_eq_ok.mp h
          obtain ⟨sorted, hsorted, h⟩ := bind_eq_ok.mp h
          obtain ⟨componentMap, hcomponentMap, h⟩ := bind_eq_ok.mp h
          obtain ⟨headerSpec, hheaderSpec, h⟩ := bind_eq_ok.mp h
          obtain ⟨trailerSpec, htrailerSpec, h⟩ := bind_eq_ok.mp h
          obtain ⟨bodySpecs, hbodySpecs, h⟩ := bind_eq_ok.mp h
          cases h
          refine ⟨hfields, components, sorted, hcomponents, hsorted, hcomponentMap, ?_, ?_,
            hbodySpecs⟩
          · rw [hheader]
            exact hheaderSpec
          · rw [htrailer]
            exact htrailerSpec

theorem loadsAs_of_eq_ok {env : LoadEnv} {doc : XmlNode} {loaded : Loaded}
    (h : loadDocument env doc = .ok loaded) : LoadsAs env doc loaded := by
  have hempty : (AssocList.keys ([] : List (Bytes × XmlNode))).Nodup := List.nodup_nil
  obtain ⟨s, hsections, h⟩ := bind_eq_ok.mp h
  cases h
  obtain ⟨hfields, components, sorted, hcomponents, hsorted, hcomponentMap, hheader, htrailer,
    hbodySpecs⟩ := loadSections_eq_ok hsections
  obtain ⟨hnames, hmap⟩ := (yields_loadFields env).of_ok hfields
  obtain ⟨hne, hnodup, hdeclared⟩ := (yields_declareComponents hempty).of_ok hcomponents
  have hdefinitions : (⟨FieldTable.fieldMap s.fields, components⟩ : Definitions) =
      doc.definitions env := by
    rw [show FieldTable.fieldMap s.fields = s.fields.fieldMap from rfl, hmap, hdeclared]
    rfl
  rw [hdeclared, List.nil_append, AssocList.keys, List.map_map] at hnodup
  rw [hdefinitions] at hsorted hcomponentMap hheader htrailer hbodySpecs
  exact {
    sound := XmlNode.sound_definitions hnames hne hnodup
    components := ⟨sorted, hsorted, hcomponentMap⟩
    header := hheader
    trailer := htrailer
    messages := hbodySpecs }

section

variable {env : LoadEnv} {d : Definitions} {componentMap : List (Bytes × GroupSpec)}

/-- One message adds its specification under its type. -/
theorem buildMessage_eq_ok {bodySpecs out : List (Bytes × GroupSpec)} {m : XmlNode}
    (h : buildMessage env d componentMap bodySpecs m = .ok out) :
    ∃ spec, buildGroup env d componentMap m = .ok spec ∧
      m.asString (ascii "msgtype") ∉ AssocList.keys bodySpecs ∧
      out = bodySpecs ++ [(m.asString (ascii "msgtype"), spec)] := by
  simp only [buildMessage] at h
  split at h
  next => cases h
  next =>
    split at h
    next => cases h
    next hnew =>
      rw [AssocList.find?_isSome_iff] at hnew
      obtain ⟨spec, hspec, h⟩ := bind_eq_ok.mp h
      cases h
      exact ⟨spec, hspec, hnew, AssocList.set_of_not_mem spec hnew⟩

/-- Every message has its specification, and every specification its message. -/
theorem messages_of_eq_ok {messages : List XmlNode} {bodySpecs out : List (Bytes × GroupSpec)}
    (h : messages.foldlM (buildMessage env d componentMap) bodySpecs = .ok out) :
    (∀ m ∈ messages, ∃ spec, AssocList.find? (m.asString (ascii "msgtype")) out = some spec ∧
        buildGroup env d componentMap m = .ok spec) ∧
      (∀ p ∈ out, p ∈ bodySpecs ∨ ∃ m ∈ messages, buildGroup env d componentMap m = .ok p.2) ∧
      ∀ msgtype ∈ AssocList.keys bodySpecs,
        AssocList.find? msgtype out = AssocList.find? msgtype bodySpecs := by
  induction messages generalizing bodySpecs with
  | nil =>
      cases h
      simp
  | cons m rest ih =>
      rw [List.foldlM_cons] at h
      obtain ⟨out₁, hround, h⟩ := bind_eq_ok.mp h
      obtain ⟨spec, hspec, hnew, rfl⟩ := buildMessage_eq_ok hround
      obtain ⟨hto, hfrom, hkept⟩ := ih h
      rw [AssocList.keys, List.map_append] at hkept
      constructor
      · intro m' hm'
        rcases List.mem_cons.mp hm' with heq | hm'
        · have hfind := hkept (m.asString (ascii "msgtype"))
            (List.mem_append_right _ List.mem_cons_self)
          rw [AssocList.find?_append, AssocList.find?_eq_none_iff.mpr hnew,
            AssocList.find?_cons_self] at hfind
          rw [heq]
          exact ⟨spec, hfind, hspec⟩
        · exact hto m' hm'
      · constructor
        · intro p hp
          rcases hfrom p hp with hp | hp
          · rcases List.mem_append.mp hp with hp | hp
            · exact .inl hp
            · exact .inr ⟨m, List.mem_cons_self, List.mem_singleton.mp hp ▸ hspec⟩
          · obtain ⟨m', hm', hbuild⟩ := hp
            exact .inr ⟨m', List.mem_cons_of_mem _ hm', hbuild⟩
        · intro msgtype hmsgtype
          have hsome := AssocList.find?_isSome_iff.mpr hmsgtype
          rw [hkept msgtype (List.mem_append_left _ hmsgtype), AssocList.find?_append,
            Option.or_of_isSome hsome]

/-- With types that are there and distinct, only building can fail. -/
theorem messages_of_eq_error {messages : List XmlNode} {bodySpecs : List (Bytes × GroupSpec)}
    (hne : ∀ m ∈ messages, m.asString (ascii "msgtype") ≠ [])
    (hnodup : (AssocList.keys bodySpecs ++
      messages.map fun m => m.asString (ascii "msgtype")).Nodup)
    {e : DictionaryParsingError}
    (h : messages.foldlM (buildMessage env d componentMap) bodySpecs = .error e) :
    ∃ m ∈ messages, buildGroup env d componentMap m = .error e := by
  induction messages generalizing bodySpecs with
  | nil => cases h
  | cons m rest ih =>
      obtain ⟨hm, hrest⟩ := List.forall_mem_cons.mp hne
      have hnew : m.asString (ascii "msgtype") ∉ AssocList.keys bodySpecs := fun hmem =>
        List.disjoint_of_nodup_append hnodup hmem List.mem_cons_self
      have hfind : ¬(AssocList.find? (m.asString (ascii "msgtype")) bodySpecs).isSome = true :=
        fun hmem => hnew (AssocList.find?_isSome_iff.mp hmem)
      rw [List.foldlM_cons] at h
      rcases bind_eq_error.mp h with hround | hrounds
      · rw [buildMessage, if_neg hm] at hround
        replace hround := (if_neg hfind).symm.trans hround
        rcases bind_eq_error.mp hround with hbuild | hround
        · exact ⟨m, List.mem_cons_self, hbuild⟩
        · obtain ⟨spec, -, hround⟩ := hround
          cases hround
      · obtain ⟨out, hround, h⟩ := hrounds
        obtain ⟨spec, -, -, rfl⟩ := buildMessage_eq_ok hround
        have hnodup' : (AssocList.keys (bodySpecs ++ [(m.asString (ascii "msgtype"), spec)]) ++
            rest.map fun m => m.asString (ascii "msgtype")).Nodup := by
          rw [AssocList.keys, List.map_append, List.append_assoc]
          exact hnodup
        obtain ⟨m', hm', hbuild⟩ := ih hrest hnodup' h
        exact ⟨m', List.mem_cons_of_mem _ hm', hbuild⟩

end

/-! ## Building the components -/

theorem componentSpec_set_self (name : Bytes) (spec : GroupSpec)
    (componentMap : List (Bytes × GroupSpec)) :
    componentSpec (AssocList.set name spec componentMap) name = spec := by
  rw [componentSpec, AssocList.find?_set_self]
  rfl

theorem componentSpec_set_ne {name name' : Bytes} (h : name' ≠ name) (spec : GroupSpec)
    (componentMap : List (Bytes × GroupSpec)) :
    componentSpec (AssocList.set name spec componentMap) name' =
      componentSpec componentMap name' := by
  rw [componentSpec, AssocList.find?_set_ne h]
  rfl

theorem componentSpec_of_not_mem {name : Bytes} {componentMap : List (Bytes × GroupSpec)}
    (h : name ∉ AssocList.keys componentMap) : componentSpec componentMap name = .fresh := by
  rw [componentSpec, AssocList.find?_eq_none_iff.mpr h]
  rfl

theorem componentSpec_of_mem {p : Bytes × GroupSpec} {componentMap : List (Bytes × GroupSpec)}
    (hnodup : (AssocList.keys componentMap).Nodup) (h : p ∈ componentMap) :
    componentSpec componentMap p.1 = p.2 := by
  rw [componentSpec, AssocList.find?_of_mem hnodup h]
  rfl

/-- What is found behind `a` comes after it. -/
theorem mem_of_idxOf_lt {a b : Bytes} {l l' : List Bytes} (ha : a ∉ l) (hb : b ∈ l ++ a :: l')
    (hlt : (l ++ a :: l').idxOf a < (l ++ a :: l').idxOf b) : b ∈ l' := by
  rw [List.idxOf_append_of_notMem ha, List.idxOf_cons_self] at hlt
  rcases List.mem_append.mp hb with hb | hb
  · rw [List.idxOf_append_of_mem hb] at hlt
    have hle := List.idxOf_lt_length_of_mem hb
    omega
  · rcases List.mem_cons.mp hb with hb | hb
    · rw [hb, List.idxOf_append_of_notMem ha, List.idxOf_cons_self] at hlt
      omega
    · exact hb

section

variable (env : LoadEnv) {d : Definitions} {sorted : List Bytes} (hsorted : d.Sorted sorted)
  {P : Bytes → GroupSpec → Prop} {E : DictionaryParsingError → Prop}
  (hundefined : ∀ name, name ∉ AssocList.keys d.components → P name .fresh)
  (hstep : ∀ name ∈ AssocList.keys d.components, ∀ componentMap,
    (∀ name', .component name' ∈ (d.node name).references →
      P name' (componentSpec componentMap name')) →
    Yields (buildGroup env d componentMap (d.node name)) (P name) E)
include hsorted hundefined hstep

theorem yields_buildComponents_of_append {before names : List Bytes}
    (h : sorted = before ++ names) :
    Yields (buildComponents env d names)
      (fun componentMap => AssocList.keys componentMap = AssocList.keys d.components ∧
        ∀ name ∈ names, P name (componentSpec componentMap name)) E := by
  induction names generalizing before with
  | nil =>
      constructor
      · rw [AssocList.keys, List.map_map]
        rfl
      · simp
  | cons name rest ih =>
      have hnodup := hsorted.nodup
      rw [h] at hnodup
      have hrest : name ∉ rest := (List.nodup_cons.mp (List.nodup_append.mp hnodup).2.1).1
      have hbefore : name ∉ before := fun hmem =>
        List.disjoint_of_nodup_append hnodup hmem List.mem_cons_self
      have hname : name ∈ AssocList.keys d.components := by
        apply (hsorted.mem name).mp
        rw [h]
        exact List.mem_append_right _ List.mem_cons_self
      rw [buildComponents]
      apply (ih (h.trans (List.append_cons before name rest))).bind
      intro componentMap hmap
      -- The components it references come later in the list, so they are built.
      have hreferenced : ∀ name', .component name' ∈ (d.node name).references →
          P name' (componentSpec componentMap name') := by
        intro name' href
        by_cases hmem : name' ∈ AssocList.keys d.components
        · apply hmap.2
          have hlt := hsorted.before name name' href
          have hmem := (hsorted.mem name').mpr hmem
          rw [h] at hlt hmem
          exact mem_of_idxOf_lt hbefore hmem hlt
        · rw [componentSpec_of_not_mem (hmap.1 ▸ hmem)]
          exact hundefined name' hmem
      apply (hstep name hname componentMap hreferenced).bind
      intro spec hspec
      constructor
      · rw [AssocList.keys_set_of_mem _ (hmap.1 ▸ hname)]
        exact hmap.1
      · intro name' hname'
        rcases List.mem_cons.mp hname' with heq | hname'
        · rw [heq, componentSpec_set_self]
          exact hspec
        · have hne : name' ≠ name := fun he => hrest (he ▸ hname')
          rw [componentSpec_set_ne hne]
          exact hmap.2 name' hname'

/-- What `buildGroup` makes of components for which it holds, holds of all components
in the end: when a component is built, those it references are there. -/
theorem yields_buildComponents :
    Yields (buildComponents env d sorted)
      (fun componentMap => AssocList.keys componentMap = AssocList.keys d.components ∧
        ∀ name, P name (componentSpec componentMap name)) E := by
  apply (yields_buildComponents_of_append env hsorted hundefined hstep
    (List.nil_append sorted).symm).mono
  · intro componentMap hmap
    constructor
    · exact hmap.1
    · intro name
      by_cases hname : name ∈ AssocList.keys d.components
      · exact hmap.2 name ((hsorted.mem name).mpr hname)
      · rw [componentSpec_of_not_mem (hmap.1 ▸ hname)]
        exact hundefined name hname
  · exact fun _ he => he

end

end OpenFix
