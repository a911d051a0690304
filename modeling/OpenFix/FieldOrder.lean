import OpenFix.Expansion

/-!
# The order of the fields

The order of a specification is that of the text when it is the order of the
expansion.  A component that is referenced is copied table by table, its fields
first, so it keeps its order only when its tables give it (`KeepsOrder`).  With
tables that keep the order of insertion this means that no group stands before a
field (`keepsOrder_iff`).

`Makes` describes what `buildGroup` does without the map of the finished
components: a reference leads to the children of the component.
-/

namespace OpenFix

open Loop (Yields bind_eq_ok)
open AssocList (IterationOrder keys)

/-! ## The specification of a node -/

/-- The empty specification that `buildGroup` starts from. -/
def XmlNode.initialSpec (node : XmlNode) : GroupSpec :=
  { GroupSpec.fresh with ordered := node.asBool (ascii "ordered") }

/-- What the loop over the children of a node makes of a specification. -/
inductive Makes (env : LoadEnv) (d : Definitions) : List XmlNode → GroupSpec → GroupSpec → Prop
    where
  | nil {ret : GroupSpec} : Makes env d [] ret ret
  | component {child : XmlNode} {rest : List XmlNode} {name : Bytes}
      {ret component ret₁ ret' : GroupSpec} (hreference : child.reference = .component name)
      (hinside : Makes env d (d.node name).children (d.node name).initialSpec component)
      (hmerge : mergeComponent env ret component = .ok ret₁) (hrest : Makes env d rest ret₁ ret') :
      Makes env d (child :: rest) ret ret'
  | group {child : XmlNode} {rest : List XmlNode} {name : Bytes} {ret group ret' : GroupSpec}
      (hreference : child.reference = .group name) (hnew : d.tag name ∉ keys ret.groups)
      (hinside : Makes env d child.children child.initialSpec group)
      (hrest : Makes env d rest (ret.pushGroup (d.tag name, group)) ret') :
      Makes env d (child :: rest) ret ret'
  | field {child : XmlNode} {rest : List XmlNode} {name : Bytes} {required : Bool}
      {ret ret' : GroupSpec} (hreference : child.reference = .field name required)
      (hnew : d.tag name ∉ keys ret.fields)
      (hrest : Makes env d rest (ret.pushField (d.tag name, required)) ret') :
      Makes env d (child :: rest) ret ret'
  | other {child : XmlNode} {rest : List XmlNode} {ret ret' : GroupSpec}
      (hreference : child.reference = .other) (hrest : Makes env d rest ret ret') :
      Makes env d (child :: rest) ret ret'

/-- The specification that a node has. -/
def MakesSpec (env : LoadEnv) (d : Definitions) (node : XmlNode) (spec : GroupSpec) : Prop :=
  Makes env d node.children node.initialSpec spec

mutual

theorem makes_buildGroup (env : LoadEnv) (d : Definitions)
    (componentMap : List (Bytes × GroupSpec)) :
    ∀ node : XmlNode, (∀ name, .component name ∈ node.references →
      MakesSpec env d (d.node name) (componentSpec componentMap name)) →
      Yields (buildGroup env d componentMap node) (MakesSpec env d node) fun _ => True
  | ⟨name, attributes, children⟩, hmap => by
      rw [XmlNode.references] at hmap
      rw [buildGroup_eq]
      exact makes_buildChildren env d componentMap children hmap _

theorem makes_buildChildren (env : LoadEnv) (d : Definitions)
    (componentMap : List (Bytes × GroupSpec)) :
    ∀ children : List XmlNode, (∀ name, .component name ∈ referencesIn children →
      MakesSpec env d (d.node name) (componentSpec componentMap name)) →
      ∀ ret : GroupSpec, Yields (buildChildren env d componentMap children ret)
        (Makes env d children ret) fun _ => True
  | [], _, ret => by
      rw [buildChildren_nil]
      exact .nil
  | child :: rest, hmap, ret => by
      rw [referencesIn] at hmap
      have hchild := makes_buildGroup env d componentMap child
      have hrest := makes_buildChildren env d componentMap rest
      rw [buildChildren_cons]
      cases hreference : child.reference with
      | component name =>
          simp only [hreference, List.mem_cons] at hmap
          apply ((Loop.yields_self _).mono (fun _ hmerge => hmerge) fun _ _ => trivial).bind
          intro ret₁ hmerge
          apply (hrest (fun name hname => hmap name (.inr hname)) ret₁).mono
          · exact fun ret' hmakes => .component hreference (hmap name (.inl rfl)) hmerge hmakes
          · exact fun _ _ => trivial
      | group name =>
          simp only [hreference, List.mem_cons, List.mem_append] at hmap
          by_cases hmem : d.tag name ∈ keys ret.groups
          · simp only [if_pos (AssocList.find?_isSome_iff.mpr hmem)]
            trivial
          · simp only [if_neg fun h => hmem (AssocList.find?_isSome_iff.mp h)]
            apply (hchild fun name hname => hmap name (.inr (.inl hname))).bind
            intro group hgroup
            apply (hrest (fun name hname => hmap name (.inr (.inr hname))) _).mono
            · exact fun ret' hmakes => .group hreference hmem hgroup hmakes
            · exact fun _ _ => trivial
      | field name required =>
          simp only [hreference, List.mem_cons] at hmap
          by_cases hmem : d.tag name ∈ keys ret.fields
          · simp only [addField_eq, if_pos (AssocList.find?_isSome_iff.mpr hmem)]
            trivial
          · simp only [addField_eq, if_neg fun h => hmem (AssocList.find?_isSome_iff.mp h)]
            apply (hrest (fun name hname => hmap name (.inr hname)) _).mono
            · exact fun ret' hmakes => .field hreference hmem hmakes
            · exact fun _ _ => trivial
      | other =>
          simp only [hreference, List.mem_cons] at hmap
          apply (hrest (fun name hname => hmap name (.inr hname)) ret).mono
          · exact fun ret' hmakes => .other hreference hmakes
          · exact fun _ _ => trivial

end

/-! ## The tables of a specification -/

def Item.tag : Item → Int
  | .field tag _ => tag
  | .group tag _ => tag

/-- The expansion of a list of children, and the tags of the fields and of the
groups in the order in which they are put into their tables.  Those of a component
come in the order in which its own tables are run over. -/
inductive Listed (env : LoadEnv) (d : Definitions) :
    List XmlNode → List Item → List Int → List Int → Prop where
  | nil : Listed env d [] [] [] []
  | component {child : XmlNode} {rest : List XmlNode} {name : Bytes} {inside items : List Item}
      {fields groups fields' groups' : List Int} (hreference : child.reference = .component name)
      (hinside : Listed env d (d.node name).children inside fields groups)
      (hrest : Listed env d rest items fields' groups') :
      Listed env d (child :: rest) (inside ++ items) (env.fields.run fields ++ fields')
        (env.groups.run groups ++ groups')
  | group {child : XmlNode} {rest : List XmlNode} {name : Bytes} {items : List Item}
      {fields groups : List Int} (hreference : child.reference = .group name)
      (hrest : Listed env d rest items fields groups) :
      Listed env d (child :: rest) (.group (d.tag name) child :: items) fields
        (d.tag name :: groups)
  | field {child : XmlNode} {rest : List XmlNode} {name : Bytes} {required : Bool}
      {items : List Item} {fields groups : List Int}
      (hreference : child.reference = .field name required)
      (hrest : Listed env d rest items fields groups) :
      Listed env d (child :: rest) (.field (d.tag name) required :: items)
        (d.tag name :: fields) groups
  | other {child : XmlNode} {rest : List XmlNode} {items : List Item} {fields groups : List Int}
      (hreference : child.reference = .other) (hrest : Listed env d rest items fields groups) :
      Listed env d (child :: rest) items fields groups

section

variable {env : LoadEnv} {d : Definitions} {children : List XmlNode} {items items' : List Item}
  {fields groups fields' groups' : List Int}

theorem Listed.expands (h : Listed env d children items fields groups) :
    Expands d children items := by
  induction h with
  | nil => exact .nil
  | component hreference _ _ ihinside ihrest => exact .component hreference ihinside ihrest
  | group hreference _ ih => exact .group hreference ih
  | field hreference _ ih => exact .field hreference ih
  | other hreference _ ih => exact .other hreference ih

theorem Listed.unique (h : Listed env d children items fields groups)
    (h' : Listed env d children items' fields' groups') :
    items = items' ∧ fields = fields' ∧ groups = groups' := by
  constructor
  · exact h.expands.unique h'.expands
  · induction h generalizing items' fields' groups' with
    | nil =>
        cases h'
        exact ⟨rfl, rfl⟩
    | component hreference _ _ ihinside ihrest =>
        cases h' with
        | component hreference' hinside hrest =>
            cases hreference.symm.trans hreference'
            obtain ⟨hfields, hgroups⟩ := ihinside hinside
            obtain ⟨hfields', hgroups'⟩ := ihrest hrest
            rw [hfields, hgroups, hfields', hgroups']
            exact ⟨rfl, rfl⟩
        | _ => simp_all
    | group hreference _ ih =>
        cases h' with
        | group hreference' hrest =>
            cases hreference.symm.trans hreference'
            obtain ⟨hfields, hgroups⟩ := ih hrest
            rw [hfields, hgroups]
            exact ⟨rfl, rfl⟩
        | _ => simp_all
    | field hreference _ ih =>
        cases h' with
        | field hreference' hrest =>
            cases hreference.symm.trans hreference'
            obtain ⟨hfields, hgroups⟩ := ih hrest
            rw [hfields, hgroups]
            exact ⟨rfl, rfl⟩
        | _ => simp_all
    | other hreference _ ih =>
        cases h' with
        | other hreference' hrest => exact ih hrest
        | _ => simp_all

theorem Listed.length_add_length (h : Listed env d children items fields groups) :
    fields.length + groups.length = items.length := by
  induction h with
  | nil => rfl
  | component _ _ _ ihinside ihrest =>
      have hfields := fun l => (env.fields.perm l).length_eq
      have hgroups := fun l => (env.groups.perm l).length_eq
      simp only [List.length_append, hfields, hgroups]
      omega
  | group _ _ ih =>
      simp only [List.length_cons]
      omega
  | field _ _ ih =>
      simp only [List.length_cons]
      omega
  | other _ _ ih => exact ih

end

/-- The tables of a component give its tags in the order of the text. -/
def KeepsOrder (env : LoadEnv) (d : Definitions) (name : Bytes) : Prop :=
  ∃ items fields groups, Listed env d (d.node name).children items fields groups ∧
    env.fields.run fields ++ env.groups.run groups = items.map Item.tag

theorem Listed.keepsOrder_iff {env : LoadEnv} {d : Definitions} {name : Bytes}
    {items : List Item} {fields groups : List Int}
    (h : Listed env d (d.node name).children items fields groups) :
    KeepsOrder env d name ↔
      env.fields.run fields ++ env.groups.run groups = items.map Item.tag := by
  constructor
  · intro hkeeps
    obtain ⟨items', fields', groups', hlisted, heq⟩ := hkeeps
    obtain ⟨rfl, rfl, rfl⟩ := h.unique hlisted
    exact heq
  · intro heq
    exact ⟨items, fields, groups, h, heq⟩

section

variable {env : LoadEnv} (hfields : env.fields = .insertion) (hgroups : env.groups = .insertion)
include hfields hgroups

/-- Tables that keep the order of insertion list the fields and the groups of the
expansion. -/
theorem Expands.listed {d : Definitions} {children : List XmlNode} {items : List Item}
    (h : Expands d children items) :
    Listed env d children items (keys (Item.fields items)) (keys (Item.groups items)) := by
  induction h with
  | nil => exact .nil
  | component hreference _ _ ihinside ihrest =>
      have hcomponent := Listed.component hreference ihinside ihrest
      rw [hfields, hgroups] at hcomponent
      rw [keys_fields_append, keys_groups_append]
      exact hcomponent
  | group hreference _ ih => exact .group hreference ih
  | field hreference _ ih => exact .field hreference ih
  | other hreference _ ih => exact .other hreference ih

/-- A component then keeps its order when its fields come before its groups. -/
theorem keepsOrder_iff {d : Definitions} {name : Bytes} :
    KeepsOrder env d name ↔ ∃ items, Expands d (d.node name).children items ∧
      keys (Item.fields items) ++ keys (Item.groups items) = items.map Item.tag := by
  have hrun : ∀ items, env.fields.run (keys (Item.fields items)) ++
      env.groups.run (keys (Item.groups items)) =
        keys (Item.fields items) ++ keys (Item.groups items) := by
    intro items
    rw [hfields, hgroups]
    rfl
  constructor
  · intro hkeeps
    obtain ⟨items, _, _, hlisted, -⟩ := id hkeeps
    have hlisted' := hlisted.expands.listed hfields hgroups
    rw [hlisted'.keepsOrder_iff, hrun] at hkeeps
    exact ⟨items, hlisted.expands, hkeeps⟩
  · intro hitems
    obtain ⟨items, hexpands, heq⟩ := hitems
    rw [(hexpands.listed hfields hgroups).keepsOrder_iff, hrun]
    exact heq

end

/-! ## What merging a component does -/

theorem foldlM_addField_eq_ok {entries : List (Int × Bool)} {ret ret' : GroupSpec}
    (h : entries.foldlM addField ret = .ok ret') :
    ret' = { ret with
      fields := ret.fields ++ entries, fieldOrder := ret.fieldOrder ++ keys entries } := by
  induction entries generalizing ret with
  | nil =>
      cases h
      cases ret'
      simp [keys]
  | cons entry rest ih =>
      rw [List.foldlM_cons] at h
      obtain ⟨ret₁, hround, h⟩ := bind_eq_ok.mp h
      rw [addField_eq] at hround
      split at hround
      next => cases hround
      next =>
        cases hround
        rw [ih h]
        simp [GroupSpec.pushField, keys]

theorem foldlM_addGroup_eq_ok {entries : List (Int × GroupSpec)} {ret ret' : GroupSpec}
    (h : entries.foldlM addGroup ret = .ok ret') :
    ret' = { ret with
        groups := ret.groups ++ entries, fieldOrder := ret.fieldOrder ++ keys entries } ∧
      ((keys ret.groups).Nodup → (keys ret'.groups).Nodup) := by
  induction entries generalizing ret with
  | nil =>
      cases h
      cases ret'
      simp [keys]
  | cons entry rest ih =>
      rw [List.foldlM_cons] at h
      obtain ⟨ret₁, hround, h⟩ := bind_eq_ok.mp h
      rw [addGroup_eq] at hround
      split at hround
      next => cases hround
      next hnew =>
        cases hround
        obtain ⟨heq, hnodup⟩ := ih h
        constructor
        · rw [heq]
          simp [GroupSpec.pushGroup, keys]
        · intro hret
          apply hnodup
          rw [AssocList.find?_isSome_iff] at hnew
          rw [GroupSpec.pushGroup, keys, List.map_append]
          exact List.nodup_append_comm.mp (List.nodup_cons.mpr ⟨hnew, hret⟩)

/-- A component is added table by table. -/
theorem mergeComponent_eq_ok {env : LoadEnv} {component ret ret' : GroupSpec}
    (h : mergeComponent env ret component = .ok ret') :
    keys ret'.fields = keys ret.fields ++ env.fields.run (keys component.fields) ∧
      ret'.groups = ret.groups ++ env.groups.entries component.groups ∧
      ret'.fieldOrder = ret.fieldOrder ++
        (env.fields.run (keys component.fields) ++ env.groups.run (keys component.groups)) ∧
      ((keys ret.groups).Nodup → (keys ret'.groups).Nodup) := by
  rw [mergeComponent_eq] at h
  obtain ⟨ret₁, hfields, hgroups⟩ := bind_eq_ok.mp h
  have hfields := foldlM_addField_eq_ok hfields
  obtain ⟨hgroups, hnodup⟩ := foldlM_addGroup_eq_ok hgroups
  rw [hfields] at hgroups hnodup
  rw [hgroups] at hnodup ⊢
  constructor
  · rw [keys, List.map_append, ← env.fields.keys_entries]
    rfl
  · constructor
    · rfl
    · constructor
      · rw [List.append_assoc, env.fields.keys_entries, env.groups.keys_entries]
      · exact hnodup

/-! ## What is made of a list of children -/

section

variable {env : LoadEnv} {d : Definitions} {children : List XmlNode} {ret ret' : GroupSpec}

theorem Makes.listed (h : Makes env d children ret ret') :
    ∃ items fields groups, Listed env d children items fields groups ∧
      keys ret'.fields = keys ret.fields ++ fields ∧
      keys ret'.groups = keys ret.groups ++ groups := by
  induction h with
  | nil => exact ⟨[], [], [], .nil, by simp, by simp⟩
  | component hreference _ hmerge _ ihinside ihrest =>
      obtain ⟨inside, fields, groups, hinside, hfields, hgroups⟩ := ihinside
      obtain ⟨items, fields', groups', hrest, hfields', hgroups'⟩ := ihrest
      obtain ⟨hmergeFields, hmergeGroups, -, -⟩ := mergeComponent_eq_ok hmerge
      have hfields : keys _ = fields := hfields
      have hgroups : keys _ = groups := hgroups
      apply Exists.intro _
      apply Exists.intro _
      apply Exists.intro _
      apply And.intro (Listed.component hreference hinside hrest)
      constructor
      · rw [hfields', hmergeFields, hfields, List.append_assoc]
      · rw [hgroups', hmergeGroups, keys, List.map_append, List.append_assoc, ← hgroups,
          ← env.groups.keys_entries]
        rfl
  | group hreference _ _ _ _ ih =>
      obtain ⟨items, fields, groups, hrest, hfields, hgroups⟩ := ih
      apply Exists.intro _
      apply Exists.intro _
      apply Exists.intro _
      apply And.intro (Listed.group hreference hrest)
      constructor
      · exact hfields
      · rw [hgroups, GroupSpec.pushGroup, keys, List.map_append, List.append_assoc]
        rfl
  | field hreference _ _ ih =>
      obtain ⟨items, fields, groups, hrest, hfields, hgroups⟩ := ih
      apply Exists.intro _
      apply Exists.intro _
      apply Exists.intro _
      apply And.intro (Listed.field hreference hrest)
      constructor
      · rw [hfields, GroupSpec.pushField, keys, List.map_append, List.append_assoc]
        rfl
      · exact hgroups
  | other hreference _ ih =>
      obtain ⟨items, fields, groups, hrest, hkeys⟩ := ih
      exact ⟨items, fields, groups, .other hreference hrest, hkeys⟩

theorem Makes.nodup (h : Makes env d children ret ret') (hret : (keys ret.groups).Nodup) :
    (keys ret'.groups).Nodup := by
  induction h with
  | nil => exact hret
  | component _ _ hmerge _ _ ihrest => exact ihrest ((mergeComponent_eq_ok hmerge).2.2.2 hret)
  | group _ hnew _ _ _ ih =>
      apply ih
      rw [GroupSpec.pushGroup, keys, List.map_append]
      exact List.nodup_append_comm.mp (List.nodup_cons.mpr ⟨hnew, hret⟩)
  | field _ _ _ ih => exact ih hret
  | other _ _ ih => exact ih hret

theorem Makes.groups_subset (h : Makes env d children ret ret') : ret.groups ⊆ ret'.groups := by
  induction h with
  | nil => exact List.Subset.refl _
  | component _ _ hmerge _ _ ihrest =>
      intro p hp
      apply ihrest
      rw [(mergeComponent_eq_ok hmerge).2.1]
      exact List.mem_append_left _ hp
  | group _ _ _ _ _ ih =>
      intro p hp
      exact ih (List.mem_append_left _ hp)
  | field _ _ _ ih => exact ih
  | other _ _ ih => exact ih

/-- The tags that the children add are those of their expansion, in its order when
the components among them keep theirs. -/
theorem Makes.order (h : Makes env d children ret ret') :
    ∃ items order, Expands d children items ∧ ret'.fieldOrder = ret.fieldOrder ++ order ∧
      order.length = items.length ∧
      (order = items.map Item.tag ↔
        ∀ name, .component name ∈ children.map XmlNode.reference → KeepsOrder env d name) := by
  induction h with
  | nil => exact ⟨[], [], .nil, by simp, rfl, by simp⟩
  | component hreference hinside hmerge _ _ ihrest =>
      obtain ⟨items, order, hexpands, horder, hlength, hiff⟩ := ihrest
      obtain ⟨inside, fields, groups, hlisted, hfields, hgroups⟩ := hinside.listed
      have hfields : keys _ = fields := hfields
      have hgroups : keys _ = groups := hgroups
      have hmerge := (mergeComponent_eq_ok hmerge).2.2.1
      rw [hfields, hgroups] at hmerge
      have hinsideLength :
          (env.fields.run fields ++ env.groups.run groups).length =
            (inside.map Item.tag).length := by
        rw [List.length_append, (env.fields.perm fields).length_eq,
          (env.groups.perm groups).length_eq, hlisted.length_add_length, List.length_map]
      apply Exists.intro _
      apply Exists.intro _
      apply And.intro (Expands.component hreference hlisted.expands hexpands)
      constructor
      · rw [horder, hmerge, List.append_assoc]
      · constructor
        · rw [List.length_append, hinsideLength, hlength, List.length_append, List.length_map]
        · rw [List.map_append, List.map_cons, hreference]
          constructor
          · intro heq
            obtain ⟨hhead, htail⟩ := List.append_inj heq hinsideLength
            intro name hname
            rcases List.mem_cons.mp hname with hname | hname
            · cases hname
              exact hlisted.keepsOrder_iff.mpr hhead
            · exact hiff.mp htail name hname
          · intro hall
            rw [hlisted.keepsOrder_iff.mp (hall _ List.mem_cons_self),
              hiff.mpr fun name hname => hall name (List.mem_cons_of_mem _ hname)]
  | group hreference _ _ _ _ ih =>
      obtain ⟨items, order, hexpands, horder, hlength, hiff⟩ := ih
      apply Exists.intro _
      apply Exists.intro (_ :: order)
      apply And.intro (Expands.group hreference hexpands)
      constructor
      · rw [horder, GroupSpec.pushGroup, List.append_assoc]
        rfl
      · constructor
        · simp [hlength]
        · simp [Item.tag, hreference, hiff]
  | field hreference _ _ ih =>
      obtain ⟨items, order, hexpands, horder, hlength, hiff⟩ := ih
      apply Exists.intro _
      apply Exists.intro (_ :: order)
      apply And.intro (Expands.field hreference hexpands)
      constructor
      · rw [horder, GroupSpec.pushField, List.append_assoc]
        rfl
      · constructor
        · simp [hlength]
        · simp [Item.tag, hreference, hiff]
  | other hreference _ ih =>
      obtain ⟨items, order, hexpands, horder, hlength, hiff⟩ := ih
      exact ⟨items, order, .other hreference hexpands, horder, hlength, by simp [hreference, hiff]⟩

end

/-! ## Specifications at any depth -/

/-- The order of a specification is that of the text of its node. -/
def Ordered (d : Definitions) (node : XmlNode) (spec : GroupSpec) : Prop :=
  ∃ items, Expands d node.children items ∧ spec.fieldOrder = items.map Item.tag

/-- A node and its specification, or those of a group below it. -/
inductive Under (d : Definitions) : XmlNode → GroupSpec → XmlNode → GroupSpec → Prop where
  | here {node : XmlNode} {spec : GroupSpec} : Under d node spec node spec
  | group {node child node' : XmlNode} {spec group spec' : GroupSpec} {items : List Item}
      {tag : Int} (hexpands : Expands d node.children items)
      (hchild : (tag, child) ∈ Item.groups items) (hgroup : (tag, group) ∈ spec.groups)
      (hunder : Under d child group node' spec') : Under d node spec node' spec'

section

variable {env : LoadEnv} {d : Definitions}

theorem component_mem_referencesIn {children : List XmlNode} {name : Bytes}
    (h : .component name ∈ children.map XmlNode.reference) :
    .component name ∈ referencesIn children := by
  induction children with
  | nil => cases h
  | cons child rest ih =>
      rw [referencesIn]
      rcases List.mem_cons.mp h with h | h
      · rw [← h]
        exact List.mem_cons_self
      · split
        next => exact List.mem_cons_of_mem _ (List.mem_append_right _ (ih h))
        next => exact List.mem_cons_of_mem _ (ih h)

theorem MakesSpec.nodup {node : XmlNode} {spec : GroupSpec} (h : MakesSpec env d node spec) :
    (keys spec.groups).Nodup := Makes.nodup h List.nodup_nil

theorem MakesSpec.ordered_iff {node : XmlNode} {spec : GroupSpec} (h : MakesSpec env d node spec) :
    Ordered d node spec ↔
      ∀ name, .component name ∈ node.children.map XmlNode.reference → KeepsOrder env d name := by
  obtain ⟨items, order, hexpands, horder, -, hiff⟩ := Makes.order h
  have horder : spec.fieldOrder = order := horder
  rw [← hiff, ← horder]
  constructor
  · intro hordered
    obtain ⟨items', hexpands', heq⟩ := hordered
    rw [hexpands.unique hexpands', heq]
  · intro heq
    exact ⟨items, hexpands, heq⟩

/-- The specification was made of the node, and the components that are referenced
inside of it keep their order. -/
structure MadeInOrder (env : LoadEnv) (d : Definitions) (node : XmlNode) (spec : GroupSpec) : Prop where
  makes : MakesSpec env d node spec
  keeps : ∀ name, .component name ∈ node.references → KeepsOrder env d name

/-- The groups of an expansion are made like the node itself. -/
theorem Makes.madeInOrder_group
    (hcomponents : ∀ name name', .component name' ∈ referencesIn (d.node name).children →
      KeepsOrder env d name')
    {children : List XmlNode} {ret ret' : GroupSpec} (h : Makes env d children ret ret')
    (hkeeps : ∀ name, .component name ∈ referencesIn children → KeepsOrder env d name)
    {items : List Item} (hexpands : Expands d children items) {tag : Int} {child : XmlNode}
    (hchild : (tag, child) ∈ Item.groups items) :
    ∃ group, (tag, group) ∈ ret'.groups ∧ MadeInOrder env d child group := by
  induction h generalizing items with
  | nil =>
      cases hexpands
      cases hchild
  | component hreference hinside hmerge hrest ihinside ihrest =>
      cases hexpands with
      | component hreference' hexpandsInside hexpandsRest =>
          cases hreference.symm.trans hreference'
          rw [referencesIn, hreference] at hkeeps
          rw [Item.groups_append] at hchild
          rcases List.mem_append.mp hchild with hchild | hchild
          · obtain ⟨group, hgroup, hmade⟩ := ihinside (hcomponents _) hexpandsInside hchild
            apply Exists.intro group
            constructor
            · apply hrest.groups_subset
              rw [(mergeComponent_eq_ok hmerge).2.1]
              apply List.mem_append_right
              exact (env.groups.entries_perm (MakesSpec.nodup hinside)).mem_iff.mpr hgroup
            · exact hmade
          · exact ihrest (fun name hname => hkeeps name (List.mem_cons_of_mem _ hname))
              hexpandsRest hchild
      | _ => simp_all
  | group hreference hnew hinside hrest ihinside ihrest =>
      cases hexpands with
      | group hreference' hexpandsRest =>
          cases hreference.symm.trans hreference'
          rw [referencesIn, hreference] at hkeeps
          rcases List.mem_cons.mp hchild with hchild | hchild
          · cases hchild
            apply Exists.intro _
            constructor
            · apply hrest.groups_subset
              exact List.mem_append_right _ List.mem_cons_self
            · constructor
              · exact hinside
              · intro name hname
                exact hkeeps name (List.mem_cons_of_mem _ (List.mem_append_left _ hname))
          · exact ihrest
              (fun name hname => hkeeps name
                (List.mem_cons_of_mem _ (List.mem_append_right _ hname)))
              hexpandsRest hchild
      | _ => simp_all
  | field hreference _ _ ih =>
      cases hexpands with
      | field hreference' hexpandsRest =>
          cases hreference.symm.trans hreference'
          rw [referencesIn, hreference] at hkeeps
          exact ih (fun name hname => hkeeps name (List.mem_cons_of_mem _ hname))
            hexpandsRest hchild
      | _ => simp_all
  | other hreference _ ih =>
      cases hexpands with
      | other hreference' hexpandsRest =>
          rw [referencesIn, hreference] at hkeeps
          exact ih (fun name hname => hkeeps name (List.mem_cons_of_mem _ hname))
            hexpandsRest hchild
      | _ => simp_all

theorem MadeInOrder.ordered {node : XmlNode} {spec : GroupSpec} (h : MadeInOrder env d node spec) :
    Ordered d node spec := by
  apply h.makes.ordered_iff.mpr
  intro name hname
  apply h.keeps
  rw [XmlNode.references_eq]
  exact component_mem_referencesIn hname

/-- When every component that is referenced keeps its order, so does everything below
a node. -/
theorem MadeInOrder.under
    (hcomponents : ∀ name name', .component name' ∈ referencesIn (d.node name).children →
      KeepsOrder env d name')
    {node node' : XmlNode} {spec spec' : GroupSpec} (h : MadeInOrder env d node spec)
    (hunder : Under d node spec node' spec') : Ordered d node' spec' := by
  induction hunder with
  | here => exact h.ordered
  | group hexpands hchild hgroup _ ih =>
      apply ih
      obtain ⟨group', hgroup', hmade⟩ := Makes.madeInOrder_group hcomponents h.makes
        (fun name hname => h.keeps name (XmlNode.references_eq _ ▸ hname)) hexpands hchild
      have hnodup := h.makes.nodup
      have heq := (AssocList.find?_of_mem hnodup hgroup).symm.trans
        (AssocList.find?_of_mem hnodup hgroup')
      cases heq
      exact hmade

theorem mem_groups_of_reference {children : List XmlNode} {items : List Item}
    (h : Expands d children items) {child : XmlNode} (hchild : child ∈ children) {name : Bytes}
    (hreference : child.reference = .group name) :
    (d.tag name, child) ∈ Item.groups items := by
  induction h with
  | nil => cases hchild
  | component hreference' _ _ _ ih =>
      rw [Item.groups_append]
      rcases List.mem_cons.mp hchild with heq | hchild
      · rw [← heq, hreference] at hreference'
        cases hreference'
      · exact List.mem_append_right _ (ih hchild)
  | group hreference' _ ih =>
      rcases List.mem_cons.mp hchild with heq | hchild
      · rw [← heq, hreference] at hreference'
        cases hreference'
        rw [heq]
        exact List.mem_cons_self
      · exact List.mem_cons_of_mem _ (ih hchild)
  | field hreference' _ ih =>
      rcases List.mem_cons.mp hchild with heq | hchild
      · rw [← heq, hreference] at hreference'
        cases hreference'
      · exact ih hchild
  | other hreference' _ ih =>
      rcases List.mem_cons.mp hchild with heq | hchild
      · rw [← heq, hreference] at hreference'
        cases hreference'
      · exact ih hchild

/-- The components keep their order that are referenced in a list of children whose
specification is ordered, with those of its groups. -/
theorem Makes.keepsOrder {children : List XmlNode} {ret ret' : GroupSpec}
    (h : Makes env d children ret ret')
    (hhere : ∀ name, .component name ∈ children.map XmlNode.reference → KeepsOrder env d name)
    (hbelow : ∀ child ∈ children, ∀ name, child.reference = .group name →
      ∀ group, (d.tag name, group) ∈ ret'.groups →
        ∀ node' spec', Under d child group node' spec' → Ordered d node' spec') :
    ∀ name, .component name ∈ referencesIn children → KeepsOrder env d name := by
  induction h with
  | nil =>
      intro name hname
      rw [referencesIn] at hname
      cases hname
  | component hreference _ _ _ _ ihrest =>
      intro name hname
      rw [referencesIn, hreference] at hname
      rcases List.mem_cons.mp hname with heq | hname
      · exact hhere name (by rw [List.map_cons, hreference, heq]; exact List.mem_cons_self)
      · exact ihrest (fun name hname => hhere name (List.mem_cons_of_mem _ hname))
          (fun child hchild => hbelow child (List.mem_cons_of_mem _ hchild)) name hname
  | group hreference _ hinside hrest ihinside ihrest =>
      intro name hname
      rw [referencesIn, hreference] at hname
      rcases List.mem_cons.mp hname with heq | hname
      · cases heq
      · rcases List.mem_append.mp hname with hname | hname
        · -- The group is made like the node, and what is below it is below the node.
          have hgroup := hbelow _ List.mem_cons_self _ hreference _
            (hrest.groups_subset (List.mem_append_right _ List.mem_cons_self))
          have hspec : MakesSpec env d _ _ := hinside
          have hexpands := (Makes.listed hinside)
          obtain ⟨items, _, _, hlisted, -⟩ := hexpands
          rw [XmlNode.references_eq] at hname
          apply ihinside (hspec.ordered_iff.mp (hgroup _ _ .here)) _ name hname
          intro child hchild name' hreference' group hmem node' spec' hunder
          exact hgroup node' spec' (.group hlisted.expands
            (mem_groups_of_reference hlisted.expands hchild hreference') hmem hunder)
        · exact ihrest (fun name hname => hhere name (List.mem_cons_of_mem _ hname))
            (fun child hchild => hbelow child (List.mem_cons_of_mem _ hchild)) name hname
  | field hreference _ _ ih =>
      intro name hname
      rw [referencesIn, hreference] at hname
      rcases List.mem_cons.mp hname with heq | hname
      · cases heq
      · exact ih (fun name hname => hhere name (List.mem_cons_of_mem _ hname))
          (fun child hchild => hbelow child (List.mem_cons_of_mem _ hchild)) name hname
  | other hreference _ ih =>
      intro name hname
      rw [referencesIn, hreference] at hname
      rcases List.mem_cons.mp hname with heq | hname
      · cases heq
      · exact ih (fun name hname => hhere name (List.mem_cons_of_mem _ hname))
          (fun child hchild => hbelow child (List.mem_cons_of_mem _ hchild)) name hname

/-- The same for a node. -/
theorem MakesSpec.keepsOrder {node : XmlNode} {spec : GroupSpec} (h : MakesSpec env d node spec)
    (hordered : ∀ node' spec', Under d node spec node' spec' → Ordered d node' spec') :
    ∀ name, .component name ∈ node.references → KeepsOrder env d name := by
  obtain ⟨items, _, _, hlisted, -⟩ := Makes.listed h
  rw [XmlNode.references_eq]
  apply Makes.keepsOrder h (h.ordered_iff.mp (hordered _ _ .here))
  intro child hchild name hreference group hmem node' spec' hunder
  exact hordered node' spec' (.group hlisted.expands
    (mem_groups_of_reference hlisted.expands hchild hreference) hmem hunder)

end

/-! ## The specifications of a dictionary -/

/-- The nodes of a document that have a specification of their own. -/
inductive SpecOf (doc : XmlNode) (loaded : Loaded) : XmlNode → GroupSpec → Prop where
  | component {c : XmlNode} {spec : GroupSpec} (hc : c ∈ doc.componentNodes)
      (hspec : AssocList.find? (c.asString (ascii "name")) loaded.componentMap = some spec) :
      SpecOf doc loaded c spec
  | header : SpecOf doc loaded doc.header loaded.dictionary.headerSpec
  | trailer : SpecOf doc loaded doc.trailer loaded.dictionary.trailerSpec
  | message {m : XmlNode} {spec : GroupSpec} (hm : m ∈ doc.messageNodes)
      (hspec : loaded.dictionary.getMessageSpecRaw (m.asString (ascii "msgtype")) = some spec) :
      SpecOf doc loaded m spec

/-- Every specification, and every one of a group, has the order of the text. -/
def FollowsText (env : LoadEnv) (doc : XmlNode) (loaded : Loaded) : Prop :=
  ∀ node spec, SpecOf doc loaded node spec →
    ∀ node' spec', Under (doc.definitions env) node spec node' spec' →
      Ordered (doc.definitions env) node' spec'

section

variable {env : LoadEnv} {doc : XmlNode} {loaded : Loaded}

theorem LoadsAs.componentMap (h : LoadsAs env doc loaded) :
    keys loaded.componentMap = keys (doc.definitions env).components ∧
      ∀ name, MakesSpec env (doc.definitions env) ((doc.definitions env).node name)
        (componentSpec loaded.componentMap name) := by
  obtain ⟨sorted, hsort, hbuild⟩ := h.components
  have hsorted := ((yields_sortComponents env h.sound
    (XmlNode.declares_definitions env doc)).of_ok hsort).2.2
  have hundefined : ∀ name, name ∉ keys (doc.definitions env).components →
      MakesSpec env (doc.definitions env) ((doc.definitions env).node name) .fresh := by
    intro name hname
    rw [Definitions.node_of_not_mem hname]
    exact .nil
  exact (yields_buildComponents env hsorted hundefined fun name _ componentMap hmap =>
    makes_buildGroup env _ componentMap _ hmap).of_ok hbuild

theorem LoadsAs.makesSpec (h : LoadsAs env doc loaded) {node : XmlNode} {spec : GroupSpec}
    (hspec : SpecOf doc loaded node spec) : MakesSpec env (doc.definitions env) node spec := by
  have hmap := h.componentMap.2
  have hbuild : ∀ node spec,
      buildGroup env (doc.definitions env) loaded.componentMap node = .ok spec →
        MakesSpec env (doc.definitions env) node spec := fun node spec hbuild =>
    (makes_buildGroup env _ loaded.componentMap node fun name _ => hmap name).of_ok hbuild
  cases hspec with
  | component hc hfind =>
      have hmakes := hmap (node.asString (ascii "name"))
      rw [(XmlNode.declares_definitions env doc).node h.sound hc, componentSpec, hfind] at hmakes
      exact hmakes
  | header => exact hbuild _ _ h.header
  | trailer => exact hbuild _ _ h.trailer
  | message hm hfind =>
      obtain ⟨spec', hfind', hspec'⟩ := (messages_of_eq_ok h.messages).1 node hm
      have heq := hfind.symm.trans hfind'
      cases heq
      exact hbuild _ _ hspec'

theorem LoadsAs.exists_specOf (h : LoadsAs env doc loaded) {node : XmlNode}
    (hnode : node ∈ doc.specNodes) : ∃ spec, SpecOf doc loaded node spec := by
  rcases List.mem_append.mp hnode with hnode | hnode
  · have hname : node.asString (ascii "name") ∈ keys loaded.componentMap := by
      rw [h.componentMap.1, (XmlNode.declares_definitions env doc).keys]
      exact List.mem_map_of_mem hnode
    obtain ⟨spec, hspec⟩ := Option.isSome_iff_exists.mp (AssocList.find?_isSome_iff.mpr hname)
    exact ⟨spec, .component hnode hspec⟩
  · rcases List.mem_cons.mp hnode with rfl | hnode
    · exact ⟨_, .header⟩
    · rcases List.mem_cons.mp hnode with rfl | hnode
      · exact ⟨_, .trailer⟩
      · obtain ⟨spec, hfind, -⟩ := (messages_of_eq_ok h.messages).1 node hnode
        exact ⟨spec, .message hnode hfind⟩

theorem SpecOf.mem_specNodes {node : XmlNode} {spec : GroupSpec} (h : SpecOf doc loaded node spec) :
    node ∈ doc.specNodes := by
  cases h with
  | component hc => exact List.mem_append_left _ hc
  | header => exact List.mem_append_right _ List.mem_cons_self
  | trailer => exact List.mem_append_right _ (List.mem_cons_of_mem _ List.mem_cons_self)
  | message hm =>
      exact List.mem_append_right _ (List.mem_cons_of_mem _ (List.mem_cons_of_mem _ hm))

theorem LoadsAs.followsText_iff (h : LoadsAs env doc loaded) :
    FollowsText env doc loaded ↔ ∀ node ∈ doc.specNodes, ∀ name,
      .component name ∈ node.references → KeepsOrder env (doc.definitions env) name := by
  constructor
  · intro hfollows node hnode
    obtain ⟨spec, hspec⟩ := h.exists_specOf hnode
    exact (h.makesSpec hspec).keepsOrder (hfollows node spec hspec)
  · intro hkeeps node spec hspec node' spec' hunder
    have hcomponents : ∀ name name',
        .component name' ∈ referencesIn ((doc.definitions env).node name).children →
          KeepsOrder env (doc.definitions env) name' := by
      intro name name' hname'
      rw [← XmlNode.references_eq] at hname'
      by_cases hname : name ∈ keys (doc.definitions env).components
      · rw [(XmlNode.declares_definitions env doc).keys] at hname
        obtain ⟨c, hc, rfl⟩ := List.mem_map.mp hname
        rw [(XmlNode.declares_definitions env doc).node h.sound hc] at hname'
        exact hkeeps c (List.mem_append_left _ hc) name' hname'
      · rw [Definitions.node_of_not_mem hname, XmlNode.null, XmlNode.references,
          referencesIn] at hname'
        cases hname'
    have hmade : MadeInOrder env (doc.definitions env) node spec :=
      ⟨h.makesSpec hspec, hkeeps node hspec.mem_specNodes⟩
    exact hmade.under hcomponents hunder

end

/-- When a document is loaded, every specification has the order of the text just
when every component that is referenced keeps its order. -/
theorem DictionaryRegistry.load_followsText_iff {env : LoadEnv}
    {registry registry' : DictionaryRegistry} {path : Bytes} {doc : XmlNode} {dict : Dictionary}
    (hnew : AssocList.find? path registry.dictionaries = none)
    (hload : registry.load env path (.ok doc) = .ok (dict, registry')) :
    ∃ componentMap, loadDocument env doc = .ok ⟨componentMap, dict⟩ ∧
      (FollowsText env doc ⟨componentMap, dict⟩ ↔
        ∀ node ∈ doc.specNodes, ∀ name, .component name ∈ node.references →
          KeepsOrder env (doc.definitions env) name) := by
  obtain ⟨componentMap, hdoc⟩ := load_eq_ok hnew hload
  exact ⟨componentMap, hdoc, (loadsAs_of_eq_ok hdoc).followsText_iff⟩

/-! ## A group between two fields -/

example : (loadDocument plainEnv (smallDoc "A")).map
    (fun loaded => loaded.componentMap.map fun p => p.2.fieldOrder) = .ok [[1, 2, 3]] := rfl

example : (loadDocument plainEnv (smallDoc "A")).map
    (fun loaded => loaded.dictionary.bodySpecs.map fun p => p.2.fieldOrder) =
      .ok [[1, 3, 2]] := rfl

theorem not_keepsOrder_smallDoc :
    ¬KeepsOrder plainEnv ((smallDoc "A").definitions plainEnv) (ascii "C") := by
  have hlast : Expands ((smallDoc "A").definitions plainEnv) [namedNode "field" "B" []]
      [.field 3 false] :=
    .field (rfl : (namedNode "field" "B" []).reference = .field (ascii "B") false) .nil
  have hgroup : Expands ((smallDoc "A").definitions plainEnv)
      [namedNode "group" "G" [namedNode "field" "A" []], namedNode "field" "B" []]
      [.group 2 (namedNode "group" "G" [namedNode "field" "A" []]), .field 3 false] :=
    .group (rfl : (namedNode "group" "G" [namedNode "field" "A" []]).reference =
      .group (ascii "G")) hlast
  have hexpands : Expands ((smallDoc "A").definitions plainEnv)
      (((smallDoc "A").definitions plainEnv).node (ascii "C")).children
      [.field 1 false, .group 2 (namedNode "group" "G" [namedNode "field" "A" []]),
        .field 3 false] :=
    .field (rfl : (namedNode "field" "A" []).reference = .field (ascii "A") false) hgroup
  intro hkeeps
  obtain ⟨items, hexpands', heq⟩ := (keepsOrder_iff rfl rfl).mp hkeeps
  cases hexpands.unique hexpands'
  revert heq
  decide

/-- The message of the small dictionary. -/
def smallMessage : XmlNode :=
  ⟨ascii "message", [(ascii "msgtype", ascii "X")], [namedNode "component" "C" []]⟩

theorem smallMessage_mem : smallMessage ∈ (smallDoc "A").specNodes := by
  have hmem : smallMessage ∈ (smallDoc "A").messageNodes := List.mem_cons_self
  exact List.mem_append_right _ (List.mem_cons_of_mem _ (List.mem_cons_of_mem _ hmem))

/-- The message of the small dictionary references a component with a group
between two fields. -/
theorem DictionaryRegistry.load_followsText_iff_test :
    ∃ dict registry' componentMap,
      DictionaryRegistry.load plainEnv ⟨[]⟩ (ascii "a.xml") (.ok (smallDoc "A")) =
        .ok (dict, registry') ∧
      loadDocument plainEnv (smallDoc "A") = .ok ⟨componentMap, dict⟩ ∧
      ¬FollowsText plainEnv (smallDoc "A") ⟨componentMap, dict⟩ := by
  have hload : ∃ dict registry', DictionaryRegistry.load plainEnv ⟨[]⟩ (ascii "a.xml")
      (.ok (smallDoc "A")) = .ok (dict, registry') := ⟨_, _, rfl⟩
  obtain ⟨dict, registry', hload⟩ := hload
  obtain ⟨componentMap, hdoc, hiff⟩ := DictionaryRegistry.load_followsText_iff rfl hload
  have hfollows : ¬FollowsText plainEnv (smallDoc "A") ⟨componentMap, dict⟩ := fun hfollows =>
    not_keepsOrder_smallDoc
      (hiff.mp hfollows smallMessage smallMessage_mem (ascii "C") (by decide))
  exact ⟨dict, registry', componentMap, hload, hdoc, hfollows⟩

/-- A loaded specification need not have the order of the text. -/
theorem DictionaryRegistry.not_load_followsText :
    ¬∀ (env : LoadEnv) (registry registry' : DictionaryRegistry) (path : Bytes) (doc : XmlNode)
      (dict : Dictionary) (componentMap : List (Bytes × GroupSpec)),
      AssocList.find? path registry.dictionaries = none →
      registry.load env path (.ok doc) = .ok (dict, registry') →
      loadDocument env doc = .ok ⟨componentMap, dict⟩ →
      FollowsText env doc ⟨componentMap, dict⟩ := by
  intro h
  have hload : ∃ dict registry', DictionaryRegistry.load plainEnv ⟨[]⟩ (ascii "a.xml")
      (.ok (smallDoc "A")) = .ok (dict, registry') := ⟨_, _, rfl⟩
  obtain ⟨dict, registry', hload⟩ := hload
  obtain ⟨componentMap, hdoc⟩ := DictionaryRegistry.load_eq_ok rfl hload
  have hfollows := h plainEnv ⟨[]⟩ registry' (ascii "a.xml") (smallDoc "A") dict componentMap rfl
    hload hdoc
  exact not_keepsOrder_smallDoc ((loadsAs_of_eq_ok hdoc).followsText_iff.mp hfollows smallMessage
    smallMessage_mem (ascii "C") (by decide))

end OpenFix
