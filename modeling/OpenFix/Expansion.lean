import OpenFix.References

/-!
# The expansion of components

The expansion of a node is the list of the fields and groups among its children,
with those of a component in the place of each reference to it.  A group is one
item of it, and has an expansion of its own.

`buildGroup` comes out with a specification that holds the fields and groups of
the expansion (`Matches`) when no field and no group occurs twice (`Clean`), and
with an error otherwise.  It needs the finished specifications of the components
that are referenced, and the order in which the components are built provides
them.
-/

namespace OpenFix

open Loop (Yields bind_eq_ok)
open AssocList (IterationOrder keys)

/-! ## Expansions -/

/-- A field or a group of an expansion. -/
inductive Item where
  | field (tag : Int) (required : Bool)
  | group (tag : Int) (node : XmlNode)

namespace Item

/-- The fields of an expansion. -/
def fields (items : List Item) : List (Int × Bool) :=
  items.filterMap fun
    | .field tag required => some (tag, required)
    | .group _ _ => none

/-- The groups of an expansion. -/
def groups (items : List Item) : List (Int × XmlNode) :=
  items.filterMap fun
    | .field _ _ => none
    | .group tag node => some (tag, node)

@[simp] theorem fields_append (items items' : List Item) :
    fields (items ++ items') = fields items ++ fields items' := List.filterMap_append ..

@[simp] theorem groups_append (items items' : List Item) :
    groups (items ++ items') = groups items ++ groups items' := List.filterMap_append ..

end Item

/-- What a list of children expands to. -/
inductive Expands (d : Definitions) : List XmlNode → List Item → Prop where
  | nil : Expands d [] []
  | component {child : XmlNode} {rest : List XmlNode} {name : Bytes} {inside items : List Item}
      (hreference : child.reference = .component name)
      (hinside : Expands d (d.node name).children inside) (hrest : Expands d rest items) :
      Expands d (child :: rest) (inside ++ items)
  | group {child : XmlNode} {rest : List XmlNode} {name : Bytes} {items : List Item}
      (hreference : child.reference = .group name) (hrest : Expands d rest items) :
      Expands d (child :: rest) (.group (d.tag name) child :: items)
  | field {child : XmlNode} {rest : List XmlNode} {name : Bytes} {required : Bool}
      {items : List Item} (hreference : child.reference = .field name required)
      (hrest : Expands d rest items) :
      Expands d (child :: rest) (.field (d.tag name) required :: items)
  | other {child : XmlNode} {rest : List XmlNode} {items : List Item}
      (hreference : child.reference = .other) (hrest : Expands d rest items) :
      Expands d (child :: rest) items

/-- There is at most one expansion. -/
theorem Expands.unique {d : Definitions} {children : List XmlNode} {items items' : List Item}
    (h : Expands d children items) (h' : Expands d children items') : items = items' := by
  induction h generalizing items' with
  | nil =>
      cases h'
      rfl
  | component hreference _ _ ihinside ihrest =>
      cases h' with
      | component hreference' hinside hrest =>
          cases hreference.symm.trans hreference'
          rw [ihinside hinside, ihrest hrest]
      | _ => simp_all
  | group hreference _ ihrest =>
      cases h' with
      | group hreference' hrest =>
          cases hreference.symm.trans hreference'
          rw [ihrest hrest]
      | _ => simp_all
  | field hreference _ ihrest =>
      cases h' with
      | field hreference' hrest =>
          cases hreference.symm.trans hreference'
          rw [ihrest hrest]
      | _ => simp_all
  | other hreference _ ihrest =>
      cases h' with
      | other hreference' hrest => exact ihrest hrest
      | _ => simp_all

/-- A specification holds the fields and the groups of the expansion of a node. -/
inductive Matches (d : Definitions) : XmlNode → GroupSpec → Prop where
  /-- The list `below` has the groups with the specification of each. -/
  | intro {node : XmlNode} {spec : GroupSpec} {items : List Item}
      (below : List (Int × XmlNode × GroupSpec)) (hexpands : Expands d node.children items)
      (hfields : spec.fields.Perm (Item.fields items))
      (hnodes : (Item.groups items).Perm (below.map fun p => (p.1, p.2.1)))
      (hgroups : spec.groups.Perm (below.map fun p => (p.1, p.2.2)))
      (hbelow : ∀ p ∈ below, Matches d p.2.1 p.2.2) : Matches d node spec

/-- The expansion of a node has no field twice and no group twice, and neither
have those of its groups. -/
inductive Clean (d : Definitions) : XmlNode → Prop where
  | intro {node : XmlNode} {items : List Item} (hexpands : Expands d node.children items)
      (hfields : (keys (Item.fields items)).Nodup) (hgroups : (keys (Item.groups items)).Nodup)
      (hbelow : ∀ p ∈ Item.groups items, Clean d p.2) : Clean d node

/-! ## Adding the items of an expansion -/

/-- No field and no group occurs twice. -/
structure GroupSpec.Distinct (spec : GroupSpec) : Prop where
  fields : (keys spec.fields).Nodup
  groups : (keys spec.groups).Nodup

theorem distinct_fresh (ordered : Bool) :
    GroupSpec.Distinct { GroupSpec.fresh with ordered := ordered } :=
  ⟨List.nodup_nil, List.nodup_nil⟩

/-- The fields and groups of a specification are those it had and those of an
expansion. -/
structure Adds (d : Definitions) (ret : GroupSpec) (items : List Item) (ret' : GroupSpec) :
    Prop where
  fields : ret'.fields.Perm (ret.fields ++ Item.fields items)
  groups : ∃ below : List (Int × XmlNode × GroupSpec),
    (Item.groups items).Perm (below.map fun p => (p.1, p.2.1)) ∧
      ret'.groups.Perm (ret.groups ++ below.map fun p => (p.1, p.2.2)) ∧
      ∀ p ∈ below, Matches d p.2.1 p.2.2

/-- An expansion can be added: no field or group occurs twice. -/
structure Fits (d : Definitions) (ret : GroupSpec) (items : List Item) : Prop where
  fields : (keys ret.fields ++ keys (Item.fields items)).Nodup
  groups : (keys ret.groups ++ keys (Item.groups items)).Nodup
  below : ∀ p ∈ Item.groups items, Clean d p.2

section

variable {d : Definitions} {ret ret' ret'' : GroupSpec} {items items' : List Item}

theorem Adds.keys_fields (h : Adds d ret items ret') :
    (keys ret'.fields).Perm (keys ret.fields ++ keys (Item.fields items)) := by
  have hperm := h.fields.map Prod.fst
  rwa [List.map_append] at hperm

theorem Adds.keys_groups (h : Adds d ret items ret') :
    (keys ret'.groups).Perm (keys ret.groups ++ keys (Item.groups items)) := by
  obtain ⟨below, hnodes, hgroups, -⟩ := h.groups
  have hperm := hgroups.map Prod.fst
  have hkeys :
      (keys (Item.groups items)).Perm ((below.map fun p => (p.1, p.2.2)).map Prod.fst) := by
    have hmap := hnodes.map Prod.fst
    rw [List.map_map] at hmap ⊢
    exact hmap
  rw [List.map_append] at hperm
  exact hperm.trans (hkeys.symm.append_left _)

theorem Adds.append (h : Adds d ret items ret') (h' : Adds d ret' items' ret'') :
    Adds d ret (items ++ items') ret'' := by
  obtain ⟨below, hnodes, hgroups, hbelow⟩ := h.groups
  obtain ⟨below', hnodes', hgroups', hbelow'⟩ := h'.groups
  constructor
  · rw [Item.fields_append, ← List.append_assoc]
    exact h'.fields.trans (h.fields.append_right _)
  · apply Exists.intro (below ++ below')
    constructor
    · rw [Item.groups_append, List.map_append]
      exact hnodes.append hnodes'
    · constructor
      · rw [List.map_append, ← List.append_assoc]
        exact hgroups'.trans (hgroups.append_right _)
      · intro p hp
        rcases List.mem_append.mp hp with hp | hp
        · exact hbelow p hp
        · exact hbelow' p hp

theorem keys_fields_append (items items' : List Item) :
    keys (Item.fields (items ++ items')) =
      keys (Item.fields items) ++ keys (Item.fields items') := by
  rw [Item.fields_append, keys, List.map_append]
  rfl

theorem keys_groups_append (items items' : List Item) :
    keys (Item.groups (items ++ items')) =
      keys (Item.groups items) ++ keys (Item.groups items') := by
  rw [Item.groups_append, keys, List.map_append]
  rfl

theorem Fits.left (h : Fits d ret (items ++ items')) : Fits d ret items := by
  have hfields := h.fields
  have hgroups := h.groups
  rw [keys_fields_append, ← List.append_assoc] at hfields
  rw [keys_groups_append, ← List.append_assoc] at hgroups
  constructor
  · exact hfields.sublist (List.sublist_append_left ..)
  · exact hgroups.sublist (List.sublist_append_left ..)
  · intro p hp
    exact h.below p (by simp [hp])

/-- What fits behind an expansion that was added. -/
theorem Adds.fits_iff (h : Adds d ret items ret') :
    Fits d ret (items ++ items') ↔ Fits d ret items ∧ Fits d ret' items' := by
  have hfields := (h.keys_fields.append_right (keys (Item.fields items'))).nodup_iff
  have hgroups := (h.keys_groups.append_right (keys (Item.groups items'))).nodup_iff
  rw [List.append_assoc, ← keys_fields_append] at hfields
  rw [List.append_assoc, ← keys_groups_append] at hgroups
  constructor
  · intro hfits
    constructor
    · exact hfits.left
    · constructor
      · exact hfields.mpr hfits.fields
      · exact hgroups.mpr hfits.groups
      · intro p hp
        exact hfits.below p (by simp [hp])
  · intro hfits
    constructor
    · exact hfields.mp hfits.2.fields
    · exact hgroups.mp hfits.2.groups
    · intro p hp
      rw [Item.groups_append] at hp
      rcases List.mem_append.mp hp with hp | hp
      · exact hfits.1.below p hp
      · exact hfits.2.below p hp

theorem Adds.nil (d : Definitions) (ret : GroupSpec) : Adds d ret [] ret :=
  ⟨by simp [Item.fields], ⟨[], List.Perm.nil, by simp, by simp⟩⟩

theorem Fits.nil (h : ret.Distinct) : Fits d ret [] :=
  ⟨by simpa [Item.fields, keys] using h.fields, by simpa [Item.groups, keys] using h.groups,
    by simp [Item.groups]⟩

theorem Adds.distinct (h : Adds d ret items ret') (hfits : Fits d ret items) : ret'.Distinct :=
  ⟨h.keys_fields.nodup_iff.mpr hfits.fields, h.keys_groups.nodup_iff.mpr hfits.groups⟩

end

/-! ## One item after the other -/

/-- The error that a field or a group occurs twice. -/
def DictionaryParsingError.Repeats (e : DictionaryParsingError) : Prop :=
  ∃ tag, e = .multipleReferences "field" tag ∨ e = .multipleReferences "group" tag

/-- A computation adds `items` to `ret`, if they fit. -/
def AddsOrRepeats (d : Definitions) (ret : GroupSpec) (items : List Item)
    (x : Except DictionaryParsingError GroupSpec) : Prop :=
  Yields x (fun ret' => Adds d ret items ret' ∧ Fits d ret items)
    fun e => e.Repeats ∧ ¬Fits d ret items

section

variable {d : Definitions} {ret : GroupSpec} {items items' : List Item}

theorem AddsOrRepeats.nil (hret : ret.Distinct) : AddsOrRepeats d ret [] (.ok ret) :=
  ⟨.nil d ret, .nil hret⟩

theorem AddsOrRepeats.bind {x : Except DictionaryParsingError GroupSpec}
    {f : GroupSpec → Except DictionaryParsingError GroupSpec} (h : AddsOrRepeats d ret items x)
    (hf : ∀ ret', ret'.Distinct → AddsOrRepeats d ret' items' (f ret')) :
    AddsOrRepeats d ret (items ++ items') (x >>= f) := by
  cases x with
  | error e =>
      obtain ⟨hrepeats, hfits⟩ := h
      exact ⟨hrepeats, fun hall => hfits hall.left⟩
  | ok ret' =>
      obtain ⟨hadds, hfits⟩ := h
      apply (hf ret' (hadds.distinct hfits)).mono
      · intro ret'' hrest
        exact ⟨hadds.append hrest.1, hadds.fits_iff.mpr ⟨hfits, hrest.2⟩⟩
      · intro e hrest
        exact ⟨hrest.1, fun hall => hrest.2 (hadds.fits_iff.mp hall).2⟩

/-- The order of the items does not matter. -/
theorem AddsOrRepeats.perm {x : Except DictionaryParsingError GroupSpec}
    (h : AddsOrRepeats d ret items x) (hfields : (Item.fields items).Perm (Item.fields items'))
    (hgroups : (Item.groups items).Perm (Item.groups items')) : AddsOrRepeats d ret items' x := by
  have hfits : Fits d ret items ↔ Fits d ret items' := by
    have hkeysFields := ((hfields.map Prod.fst).append_left (keys ret.fields)).nodup_iff
    have hkeysGroups := ((hgroups.map Prod.fst).append_left (keys ret.groups)).nodup_iff
    constructor
    · intro h
      exact ⟨hkeysFields.mp h.fields, hkeysGroups.mp h.groups,
        fun p hp => h.below p (hgroups.mem_iff.mpr hp)⟩
    · intro h
      exact ⟨hkeysFields.mpr h.fields, hkeysGroups.mpr h.groups,
        fun p hp => h.below p (hgroups.mem_iff.mp hp)⟩
  apply Yields.mono h
  · intro ret' hret'
    obtain ⟨hadds, hfit⟩ := hret'
    obtain ⟨below, hnodes, hspecs, hbelow⟩ := hadds.groups
    constructor
    · constructor
      · exact hadds.fields.trans (hfields.append_left _)
      · exact ⟨below, hgroups.symm.trans hnodes, hspecs, hbelow⟩
    · exact hfits.mp hfit
  · intro e he
    exact ⟨he.1, fun hfit => he.2 (hfits.mpr hfit)⟩

theorem addsOrRepeats_addField (hret : ret.Distinct) (entry : Int × Bool) :
    AddsOrRepeats d ret [.field entry.1 entry.2] (addField ret entry) := by
  rw [addField_eq]
  by_cases hmem : entry.1 ∈ keys ret.fields
  · rw [if_pos (AssocList.find?_isSome_iff.mpr hmem)]
    constructor
    · exact ⟨entry.1, .inl rfl⟩
    · intro hfits
      exact List.disjoint_of_nodup_append hfits.fields hmem List.mem_cons_self
  · rw [if_neg fun h => hmem (AssocList.find?_isSome_iff.mp h)]
    constructor
    · constructor
      · exact List.Perm.refl _
      · exact ⟨[], List.Perm.refl _, by simp [GroupSpec.pushField], by simp⟩
    · constructor
      · exact List.nodup_append_comm.mp (List.nodup_cons.mpr ⟨hmem, hret.fields⟩)
      · simpa [Item.groups, keys] using hret.groups
      · simp [Item.groups]

theorem adds_pushGroup {tag : Int} {node : XmlNode} {group : GroupSpec}
    (h : Matches d node group) : Adds d ret [.group tag node] (ret.pushGroup (tag, group)) where
  fields := by simp [GroupSpec.pushGroup, Item.fields]
  groups := ⟨[(tag, node, group)], List.Perm.refl _, List.Perm.refl _, by simpa using h⟩

theorem fits_group (hret : ret.Distinct) {tag : Int} {node : XmlNode} :
    Fits d ret [.group tag node] ↔ tag ∉ keys ret.groups ∧ Clean d node := by
  constructor
  · intro h
    constructor
    · intro hmem
      exact List.disjoint_of_nodup_append h.groups hmem List.mem_cons_self
    · exact h.below (tag, node) List.mem_cons_self
  · intro h
    constructor
    · simpa [Item.fields, keys] using hret.fields
    · exact List.nodup_append_comm.mp (List.nodup_cons.mpr ⟨h.1, hret.groups⟩)
    · simpa [Item.groups] using h.2

theorem addsOrRepeats_addGroup (hret : ret.Distinct) {tag : Int} {node : XmlNode}
    {group : GroupSpec} (hmatches : Matches d node group) (hclean : Clean d node) :
    AddsOrRepeats d ret [.group tag node] (addGroup ret (tag, group)) := by
  rw [addGroup_eq]
  by_cases hmem : tag ∈ keys ret.groups
  · rw [if_pos (AssocList.find?_isSome_iff.mpr hmem)]
    constructor
    · exact ⟨tag, .inr rfl⟩
    · intro hfits
      exact ((fits_group hret).mp hfits).1 hmem
  · rw [if_neg fun h => hmem (AssocList.find?_isSome_iff.mp h)]
    exact ⟨adds_pushGroup hmatches, (fits_group hret).mpr ⟨hmem, hclean⟩⟩

end

/-! ## Merging a component -/

section

variable {d : Definitions} {ret : GroupSpec}

theorem addsOrRepeats_fields (hret : ret.Distinct) (entries : List (Int × Bool)) :
    AddsOrRepeats d ret (entries.map fun p => .field p.1 p.2)
      (entries.foldlM addField ret) := by
  induction entries generalizing ret with
  | nil => exact .nil hret
  | cons entry rest ih =>
      rw [List.foldlM_cons]
      exact (addsOrRepeats_addField hret entry).bind fun ret' hret' => ih hret'

theorem addsOrRepeats_groups (hret : ret.Distinct) (below : List (Int × XmlNode × GroupSpec))
    (hbelow : ∀ p ∈ below, Matches d p.2.1 p.2.2 ∧ Clean d p.2.1) :
    AddsOrRepeats d ret (below.map fun p => .group p.1 p.2.1)
      ((below.map fun p => (p.1, p.2.2)).foldlM addGroup ret) := by
  induction below generalizing ret with
  | nil => exact .nil hret
  | cons p rest ih =>
      obtain ⟨hp, hrest⟩ := List.forall_mem_cons.mp hbelow
      rw [List.map_cons, List.map_cons, List.foldlM_cons]
      exact (addsOrRepeats_addGroup hret hp.1 hp.2).bind fun ret' hret' => ih hret' hrest

theorem Item.fields_map_field (entries : List (Int × Bool)) :
    Item.fields (entries.map fun p => .field p.1 p.2) = entries := by
  induction entries with
  | nil => rfl
  | cons p rest ih =>
      rw [List.map_cons]
      exact congrArg (p :: ·) ih

theorem Item.groups_map_field (entries : List (Int × Bool)) :
    Item.groups (entries.map fun p => .field p.1 p.2) = [] := by
  induction entries with
  | nil => rfl
  | cons p rest ih => exact ih

theorem Item.fields_map_group (below : List (Int × XmlNode × GroupSpec)) :
    Item.fields (below.map fun p => .group p.1 p.2.1) = [] := by
  induction below with
  | nil => rfl
  | cons p rest ih => exact ih

theorem Item.groups_map_group (below : List (Int × XmlNode × GroupSpec)) :
    Item.groups (below.map fun p => .group p.1 p.2.1) = below.map fun p => (p.1, p.2.1) := by
  induction below with
  | nil => rfl
  | cons p rest ih =>
      rw [List.map_cons, List.map_cons]
      exact congrArg ((p.1, p.2.1) :: ·) ih

theorem Matches.keys_groups {node : XmlNode} {spec : GroupSpec} {items : List Item}
    (h : Matches d node spec) (hexpands : Expands d node.children items) :
    (keys spec.groups).Perm (keys (Item.groups items)) := by
  cases h with
  | intro below hexpands' hfields hnodes hgroups hbelow =>
      rw [hexpands.unique hexpands']
      have hspecs := hgroups.map Prod.fst
      have hnodes := hnodes.map Prod.fst
      rw [List.map_map] at hspecs hnodes
      exact hspecs.trans hnodes.symm

/-- To reference a component is to reference what it expands to. -/
theorem addsOrRepeats_mergeComponent (env : LoadEnv) (hret : ret.Distinct) {node : XmlNode}
    {component : GroupSpec} {inside : List Item} (hexpands : Expands d node.children inside)
    (hmatches : Matches d node component) (hclean : Clean d node) :
    AddsOrRepeats d ret inside (mergeComponent env ret component) := by
  have hkeys := hmatches.keys_groups hexpands
  cases hclean with
  | intro hexpands' hcleanFields hcleanGroups hcleanBelow =>
  cases hexpands.unique hexpands'
  cases hmatches with
  | intro below hexpands'' hfields hnodes hgroups hbelow =>
  cases hexpands.unique hexpands''
  have hdistinctFields : (keys component.fields).Nodup :=
    (hfields.map Prod.fst).nodup_iff.mpr hcleanFields
  have hdistinctGroups : (keys component.groups).Nodup := hkeys.nodup_iff.mpr hcleanGroups
  -- The groups come in another order, and so do the nodes they are built from.
  have hentries : (env.groups.entries component.groups).Perm (below.map fun p => (p.1, p.2.2)) :=
    (env.groups.entries_perm hdistinctGroups).trans hgroups
  obtain ⟨below', heq, hbelow'⟩ :=
    (congrFun (congrFun (List.eq_map_comp_perm _) _) _).mpr hentries
  have hparts : ∀ p ∈ below', Matches d p.2.1 p.2.2 ∧ Clean d p.2.1 := by
    intro p hp
    have hmem := hbelow'.mem_iff.mp hp
    constructor
    · exact hbelow p hmem
    · exact hcleanBelow (p.1, p.2.1)
        (hnodes.mem_iff.mpr (List.mem_map_of_mem (f := fun p => (p.1, p.2.1)) hmem))
  have hmerge := (addsOrRepeats_fields (d := d) hret (env.fields.entries component.fields)).bind
    fun ret' hret' => addsOrRepeats_groups hret' below' hparts
  rw [← heq] at hmerge
  apply hmerge.perm
  · rw [Item.fields_append, Item.fields_map_field, Item.fields_map_group, List.append_nil]
    exact (env.fields.entries_perm hdistinctFields).trans hfields
  · rw [Item.groups_append, Item.groups_map_field, Item.groups_map_group, List.nil_append]
    exact (hbelow'.map _).trans hnodes.symm

end

/-! ## Building a specification -/

/-- A specification is that of a component, and has nothing twice. -/
def Finished (d : Definitions) (name : Bytes) (spec : GroupSpec) : Prop :=
  Matches d (d.node name) spec ∧ Clean d (d.node name)

theorem Finished.exists_expands {d : Definitions} {name : Bytes} {spec : GroupSpec}
    (h : Finished d name spec) : ∃ inside, Expands d (d.node name).children inside := by
  cases h.2 with
  | intro hexpands => exact ⟨_, hexpands⟩

/-- A component that is not defined is an empty one. -/
theorem finished_fresh {d : Definitions} {name : Bytes} (h : name ∉ keys d.components) :
    Finished d name .fresh := by
  rw [Finished, Definitions.node_of_not_mem h]
  constructor
  · exact .intro [] .nil (List.Perm.refl _) (List.Perm.refl _) (List.Perm.refl _) (by simp)
  · exact .intro .nil List.nodup_nil List.nodup_nil (by simp [Item.groups])

/-- The outcome of `buildGroup`. -/
def Builds (d : Definitions) (node : XmlNode) (x : Except DictionaryParsingError GroupSpec) :
    Prop :=
  Yields x (fun spec => Matches d node spec ∧ Clean d node) fun e => e.Repeats ∧ ¬Clean d node

mutual

theorem builds_buildGroup (env : LoadEnv) (d : Definitions)
    (componentMap : List (Bytes × GroupSpec)) :
    ∀ node : XmlNode, (∀ name, .component name ∈ node.references →
      Finished d name (componentSpec componentMap name)) →
      Builds d node (buildGroup env d componentMap node)
  | ⟨name, attributes, children⟩, hfinished => by
      rw [XmlNode.references] at hfinished
      obtain ⟨items, hexpands, hbuild⟩ :=
        addsOrRepeats_buildChildren env d componentMap children hfinished
      rw [buildGroup_eq]
      apply (hbuild _ (distinct_fresh _)).mono
      · intro spec hspec
        obtain ⟨hadds, hfits⟩ := hspec
        obtain ⟨below, hnodes, hgroups, hbelow⟩ := hadds.groups
        exact ⟨.intro below hexpands hadds.fields hnodes hgroups hbelow,
          .intro hexpands hfits.fields hfits.groups hfits.below⟩
      · intro e he
        constructor
        · exact he.1
        · intro hclean
          cases hclean with
          | intro hexpands' hfields hgroups hbelow =>
              cases hexpands.unique hexpands'
              exact he.2 ⟨hfields, hgroups, hbelow⟩

theorem addsOrRepeats_buildChildren (env : LoadEnv) (d : Definitions)
    (componentMap : List (Bytes × GroupSpec)) :
    ∀ children : List XmlNode,
      (∀ name, .component name ∈ referencesIn children →
        Finished d name (componentSpec componentMap name)) →
      ∃ items, Expands d children items ∧ ∀ ret : GroupSpec, ret.Distinct →
        AddsOrRepeats d ret items (buildChildren env d componentMap children ret)
  | [], _ => by
      apply Exists.intro []
      constructor
      · exact .nil
      · intro ret hret
        rw [buildChildren_nil]
        exact .nil hret
  | child :: rest, hfinished => by
      rw [referencesIn] at hfinished
      have hchild := builds_buildGroup env d componentMap child
      have hrest := addsOrRepeats_buildChildren env d componentMap rest
      cases hreference : child.reference with
      | component name =>
          simp only [hreference, List.mem_cons] at hfinished
          obtain ⟨items, hexpands, hbuild⟩ := hrest fun name hname => hfinished name (.inr hname)
          have hname := hfinished name (.inl rfl)
          obtain ⟨inside, hinside⟩ := hname.exists_expands
          apply Exists.intro (inside ++ items)
          constructor
          · exact .component hreference hinside hexpands
          · intro ret hret
            rw [buildChildren_cons, hreference]
            exact (addsOrRepeats_mergeComponent env hret hinside hname.1 hname.2).bind hbuild
      | group name =>
          simp only [hreference, List.mem_cons, List.mem_append] at hfinished
          obtain ⟨items, hexpands, hbuild⟩ :=
            hrest fun name hname => hfinished name (.inr (.inr hname))
          have hgroup := hchild fun name hname => hfinished name (.inr (.inl hname))
          apply Exists.intro (.group (d.tag name) child :: items)
          constructor
          · exact .group hreference hexpands
          · intro ret hret
            rw [buildChildren_cons, hreference]
            by_cases hmem : d.tag name ∈ keys ret.groups
            · simp only [if_pos (AssocList.find?_isSome_iff.mpr hmem)]
              constructor
              · exact ⟨d.tag name, .inr rfl⟩
              · intro hfits
                exact List.disjoint_of_nodup_append hfits.groups hmem List.mem_cons_self
            · simp only [if_neg fun h => hmem (AssocList.find?_isSome_iff.mp h)]
              have hadd : AddsOrRepeats d ret [.group (d.tag name) child] (do
                  let group ← buildGroup env d componentMap child
                  .ok (ret.pushGroup (d.tag name, group))) := by
                apply Yields.bind (Q := fun spec => Matches d child spec ∧ Clean d child)
                · exact hgroup.mono (fun _ h => h) fun e he =>
                    ⟨he.1, fun hfits => he.2 ((fits_group hret).mp hfits).2⟩
                · intro spec hspec
                  exact ⟨adds_pushGroup hspec.1, (fits_group hret).mpr ⟨hmem, hspec.2⟩⟩
              have hboth := hadd.bind hbuild
              rwa [bind_assoc] at hboth
      | field name required =>
          simp only [hreference, List.mem_cons] at hfinished
          obtain ⟨items, hexpands, hbuild⟩ := hrest fun name hname => hfinished name (.inr hname)
          apply Exists.intro (.field (d.tag name) required :: items)
          constructor
          · exact .field hreference hexpands
          · intro ret hret
            rw [buildChildren_cons, hreference]
            exact (addsOrRepeats_addField hret (d.tag name, required)).bind hbuild
      | other =>
          simp only [hreference, List.mem_cons] at hfinished
          obtain ⟨items, hexpands, hbuild⟩ := hrest fun name hname => hfinished name (.inr hname)
          apply Exists.intro items
          constructor
          · exact .other hreference hexpands
          · intro ret hret
            rw [buildChildren_cons, hreference]
            exact hbuild ret hret

end

/-! ## Loading -/

/-- A document with a header and a trailer, with valid definitions of fields,
components and messages, and with references that all resolve. -/
structure WellFormed (env : LoadEnv) (doc : XmlNode) : Prop where
  hasHeader : (doc.root.child? (ascii "header")).isSome
  hasTrailer : (doc.root.child? (ascii "trailer")).isSome
  fields : ∃ defs : FieldDefinitions, loadFields env (doc.root.child (ascii "fields")) = .ok defs
  components_ne : ∀ c ∈ doc.componentNodes, c.asString (ascii "name") ≠ []
  components_nodup : (doc.componentNodes.map fun c => c.asString (ascii "name")).Nodup
  messages_ne : ∀ m ∈ doc.messageNodes, m.asString (ascii "msgtype") ≠ []
  messages_nodup : (doc.messageNodes.map fun m => m.asString (ascii "msgtype")).Nodup
  resolves : ∀ node ∈ doc.specNodes, ∀ r ∈ node.references, (doc.definitions env).Resolves r

/-- Every specification holds what the expansion of its node holds. -/
structure Expanded (env : LoadEnv) (doc : XmlNode) (loaded : Loaded) : Prop where
  components : ∀ c ∈ doc.componentNodes, ∃ spec,
    AssocList.find? (c.asString (ascii "name")) loaded.componentMap = some spec ∧
      Matches (doc.definitions env) c spec
  header : Matches (doc.definitions env) doc.header loaded.dictionary.headerSpec
  trailer : Matches (doc.definitions env) doc.trailer loaded.dictionary.trailerSpec
  messages : ∀ m ∈ doc.messageNodes, ∃ spec,
    loaded.dictionary.getMessageSpecRaw (m.asString (ascii "msgtype")) = some spec ∧
      Matches (doc.definitions env) m spec

section

variable {env : LoadEnv} {doc : XmlNode}

theorem WellFormed.sound (h : WellFormed env doc) :
    (doc.definitions env).Sound := by
  obtain ⟨defs, hdefs⟩ := h.fields
  have hfields := (yields_loadFields env).of_ok hdefs
  exact XmlNode.sound_definitions hfields.1 h.components_ne h.components_nodup

/-- What `loadDocument` does to a document with valid definitions. -/
theorem WellFormed.loadDocument_eq (h : WellFormed env doc) :
    ∃ fieldTypes, loadDocument env doc = (do
      let sorted ← sortComponents env (doc.definitions env) doc.componentNodes
      let componentMap ← buildComponents env (doc.definitions env) sorted
      let headerSpec ← buildGroup env (doc.definitions env) componentMap doc.header
      let trailerSpec ← buildGroup env (doc.definitions env) componentMap doc.trailer
      let bodySpecs ←
        doc.messageNodes.foldlM (buildMessage env (doc.definitions env) componentMap) []
      .ok ⟨componentMap, ⟨headerSpec, trailerSpec, bodySpecs, fieldTypes⟩⟩) := by
  obtain ⟨defs, hdefs⟩ := h.fields
  have hfieldMap := ((yields_loadFields env).of_ok hdefs).2
  have hcomponents : declareComponents (doc.root.child (ascii "components")) =
      .ok (doc.componentNodes.map fun c => (c.asString (ascii "name"), c)) := by
    have hempty : (keys ([] : List (Bytes × XmlNode))).Nodup := List.nodup_nil
    have hdeclare : Yields (doc.componentNodes.foldlM declareComponent []) _ _ :=
      yields_declareComponents hempty
    cases hresult : declareComponents (doc.root.child (ascii "components")) with
    | ok out =>
        have hout := hdeclare.of_ok hresult
        rw [hout.2.2]
        rfl
    | error e =>
        apply absurd _ (hdeclare.of_error hresult)
        constructor
        · exact h.components_ne
        · rw [List.nil_append, keys, List.map_map]
          exact h.components_nodup
  apply Exists.intro defs.fieldTypes
  have hroot : doc.child (ascii "fix") = doc.root := rfl
  have hdefinitions : (⟨defs.fieldMap,
      doc.componentNodes.map fun c => (c.asString (ascii "name"), c)⟩ : Definitions) =
      doc.definitions env := by
    rw [hfieldMap]
    rfl
  have hheader : doc.root.child? (ascii "header") = some doc.header :=
    XmlNode.child?_eq_some h.hasHeader
  have htrailer : doc.root.child? (ascii "trailer") = some doc.trailer :=
    XmlNode.child?_eq_some h.hasTrailer
  simp only [loadDocument, loadSections, hroot, hheader, htrailer, hdefs, hcomponents]
  rw [← hdefinitions]
  simp only [bind_assoc]
  rfl

/-- A component is found under its name, with the specification that is finished. -/
theorem Finished.find? {d : Definitions} {componentMap : List (Bytes × GroupSpec)} {name : Bytes}
    (h : Finished d name (componentSpec componentMap name)) (hmem : name ∈ keys componentMap) :
    ∃ spec, AssocList.find? name componentMap = some spec ∧ Matches d (d.node name) spec := by
  obtain ⟨spec, hspec⟩ := Option.isSome_iff_exists.mp (AssocList.find?_isSome_iff.mpr hmem)
  have hmatches := h.1
  rw [componentSpec, hspec] at hmatches
  exact ⟨spec, hspec, hmatches⟩

theorem WellFormed.yields_loadDocument (h : WellFormed env doc) :
    Yields (loadDocument env doc)
      (fun loaded => (doc.definitions env).Acyclic ∧
        (∀ node ∈ doc.specNodes, Clean (doc.definitions env) node) ∧
        Expanded env doc loaded)
      fun e => ¬(doc.definitions env).Acyclic ∧ e = .cycle ∨
        (doc.definitions env).Acyclic ∧ e.Repeats ∧
          ∃ node ∈ doc.specNodes, ¬Clean (doc.definitions env) node := by
  have hdeclares := XmlNode.declares_definitions env doc
  have hsound := h.sound
  have hresolves : ∀ c ∈ doc.componentNodes, ∀ r ∈ c.references,
      (doc.definitions env).Resolves r := fun c hc => h.resolves c (List.mem_append_left _ hc)
  have hmem : ∀ node, node = doc.header ∨ node = doc.trailer ∨ node ∈ doc.messageNodes →
      node ∈ doc.specNodes := by
    intro node hnode
    apply List.mem_append_right
    simpa using hnode
  obtain ⟨fieldTypes, heq⟩ := h.loadDocument_eq
  rw [heq]
  apply ((yields_sortComponents env hsound hdeclares).mono (fun _ hsort => hsort.2) _).bind
  · intro sorted hsort
    obtain ⟨hacyclic, hsorted⟩ := hsort
    have hrepeats : ∀ e : DictionaryParsingError,
        (e.Repeats ∧ ∃ node ∈ doc.specNodes, ¬Clean (doc.definitions env) node) →
        ¬(doc.definitions env).Acyclic ∧ e = .cycle ∨ (doc.definitions env).Acyclic ∧ e.Repeats ∧
          ∃ node ∈ doc.specNodes, ¬Clean (doc.definitions env) node :=
      fun e he => .inr ⟨hacyclic, he⟩
    have hcomponents := yields_buildComponents env hsorted
      (fun name hname => finished_fresh hname) fun name hname componentMap hfinished =>
        (builds_buildGroup env _ componentMap _ hfinished).mono (fun _ hspec => hspec)
          fun e he => hrepeats e (by
            rw [hdeclares.keys] at hname
            obtain ⟨c, hc, hcname⟩ := List.mem_map.mp hname
            rw [← hcname, hdeclares.node hsound hc] at he
            exact ⟨he.1, c, List.mem_append_left _ hc, he.2⟩)
    apply hcomponents.bind
    · intro componentMap hmap
      have hfinished := hmap.2
      have hbuild : ∀ node, node = doc.header ∨ node = doc.trailer ∨ node ∈ doc.messageNodes →
          Yields (buildGroup env (doc.definitions env) componentMap node)
            (fun spec => Matches (doc.definitions env) node spec ∧
              Clean (doc.definitions env) node)
            fun e => ¬(doc.definitions env).Acyclic ∧ e = .cycle ∨
              (doc.definitions env).Acyclic ∧ e.Repeats ∧
                ∃ node ∈ doc.specNodes, ¬Clean (doc.definitions env) node := by
        intro node hnode
        apply (builds_buildGroup env _ componentMap node fun name _ => hfinished name).mono
        · exact fun _ hspec => hspec
        · exact fun e he => hrepeats e ⟨he.1, node, hmem node hnode, he.2⟩
      apply (hbuild doc.header (.inl rfl)).bind
      intro headerSpec hheader
      apply (hbuild doc.trailer (.inr (.inl rfl))).bind
      intro trailerSpec htrailer
      have hnodup : (keys ([] : List (Bytes × GroupSpec)) ++
          doc.messageNodes.map fun m => m.asString (ascii "msgtype")).Nodup := h.messages_nodup
      have hbuildMessage : ∀ m ∈ doc.messageNodes, _ := fun m hm => hbuild m (.inr (.inr hm))
      apply ((Loop.yields_self _).mono (fun _ hbody => hbody) _).bind
      · intro bodySpecs hbody
        have hbody := (messages_of_eq_ok hbody).1
        have hcomponents : ∀ c ∈ doc.componentNodes, Clean (doc.definitions env) c ∧ ∃ spec,
            AssocList.find? (c.asString (ascii "name")) componentMap = some spec ∧
              Matches (doc.definitions env) c spec := by
          intro c hc
          have hname : c.asString (ascii "name") ∈ keys componentMap := by
            rw [hmap.1, hdeclares.keys]
            exact List.mem_map_of_mem hc
          have hspec := (hfinished (c.asString (ascii "name"))).find? hname
          have hclean := (hfinished (c.asString (ascii "name"))).2
          rw [hdeclares.node hsound hc] at hspec hclean
          exact ⟨hclean, hspec⟩
        constructor
        · exact hacyclic
        · constructor
          · intro node hnode
            rcases List.mem_append.mp hnode with hnode | hnode
            · exact (hcomponents node hnode).1
            · rcases List.mem_cons.mp hnode with hnode | hnode
              · exact hnode ▸ hheader.2
              · rcases List.mem_cons.mp hnode with hnode | hnode
                · exact hnode ▸ htrailer.2
                · obtain ⟨spec, -, hspec⟩ := hbody node hnode
                  exact ((hbuildMessage node hnode).of_ok hspec).2
          · constructor
            · exact fun c hc => (hcomponents c hc).2
            · exact hheader.1
            · exact htrailer.1
            · intro m hm
              obtain ⟨spec, hfind, hspec⟩ := hbody m hm
              exact ⟨spec, hfind, ((hbuildMessage m hm).of_ok hspec).1⟩
      · intro e he
        obtain ⟨m, hm, herror⟩ := messages_of_eq_error h.messages_ne hnodup he
        exact (hbuildMessage m hm).of_error herror
  · intro e he
    rcases he with he | he
    · obtain ⟨c, hc, r, hr, hres⟩ := he
      exact absurd (hresolves c hc r hr) hres
    · exact .inl he

end

theorem DictionaryParsingError.Repeats.ne_cycle {e : DictionaryParsingError} (h : e.Repeats) :
    e ≠ .cycle := by
  have hhead : ∀ kind tag, (multipleReferences kind tag).text.head? = some 77 := by
    intro kind tag
    rw [multipleReferences, List.append_assoc, List.append_assoc, List.head?_append]
    rfl
  have hcycle : cycle.text.head? = some 67 := by decide
  intro heq
  obtain ⟨tag, h | h⟩ := h
  · have hword := hhead "field" tag
    rw [← h, heq, hcycle] at hword
    cases hword
  · have hword := hhead "group" tag
    rw [← h, heq, hcycle] at hword
    cases hword

/-- Loading fails with the cycle error just when the components reference each
other in a cycle.  Otherwise the components are built behind those they
reference, and every specification holds the fields and groups of the expansion
of its node, unless an expansion has a field or a group twice. -/
theorem DictionaryRegistry.load_expands (env : LoadEnv) (registry : DictionaryRegistry)
    (path : Bytes) (doc : XmlNode)
    (hnew : AssocList.find? path registry.dictionaries = none)
    (h : WellFormed env doc) :
    (registry.load env path (.ok doc) = .error .cycle ↔ ¬(doc.definitions env).Acyclic) ∧
      ((doc.definitions env).Acyclic →
        (∃ sorted, sortComponents env (doc.definitions env) doc.componentNodes = .ok sorted ∧
          (doc.definitions env).Sorted sorted) ∧
        ((∃ loaded, loadDocument env doc = .ok loaded ∧
            registry.load env path (.ok doc) = .ok (loaded.dictionary,
              ⟨AssocList.set path loaded.dictionary registry.dictionaries⟩) ∧
            (∀ node ∈ doc.specNodes, Clean (doc.definitions env) node) ∧
            Expanded env doc loaded) ∨
          ∃ e, registry.load env path (.ok doc) = .error e ∧ e.Repeats ∧
            ∃ node ∈ doc.specNodes, ¬Clean (doc.definitions env) node)) := by
  have hload := h.yields_loadDocument
  have hdeclares := XmlNode.declares_definitions env doc
  have hsort := yields_sortComponents env h.sound hdeclares
  rw [load_eq env hnew doc]
  constructor
  · constructor
    · intro herror
      cases hresult : loadDocument env doc with
      | ok loaded =>
          rw [hresult] at herror
          cases herror
      | error e =>
          rw [hresult] at herror
          cases herror
          rcases hload.of_error hresult with he | he
          · exact he.1
          · exact absurd rfl he.2.1.ne_cycle
    · intro hcyclic
      cases hresult : loadDocument env doc with
      | ok loaded => exact absurd (hload.of_ok hresult).1 hcyclic
      | error e =>
          rcases hload.of_error hresult with he | he
          · rw [he.2]
            rfl
          · exact absurd he.1 hcyclic
  · intro hacyclic
    constructor
    · cases hresult : sortComponents env (doc.definitions env) doc.componentNodes with
      | ok sorted => exact ⟨sorted, rfl, (hsort.of_ok hresult).2.2⟩
      | error e =>
          rcases hsort.of_error hresult with he | he
          · obtain ⟨c, hc, r, hr, hres⟩ := he
            exact absurd (h.resolves c (List.mem_append_left _ hc) r hr) hres
          · exact absurd hacyclic he.1
    · cases hresult : loadDocument env doc with
      | ok loaded => exact .inl ⟨loaded, rfl, rfl, (hload.of_ok hresult).2⟩
      | error e =>
          rcases hload.of_error hresult with he | he
          · exact absurd hacyclic he.1
          · exact .inr ⟨e, rfl, he.2⟩

/-! ## A small dictionary -/

/-- An environment whose hash tables keep the order of insertion. -/
def plainEnv : LoadEnv where
  asInt b := (fromCharsInt b).getD 0
  maps := .insertion
  sets := .insertion
  fields := .insertion
  groups := .insertion

/-- A node that has a name and children. -/
def namedNode (kind name : String) (children : List XmlNode) : XmlNode :=
  ⟨ascii kind, [(ascii "name", ascii name)], children⟩

def fieldNode (number name : String) : XmlNode :=
  ⟨ascii "field", [(ascii "number", ascii number), (ascii "name", ascii name),
    (ascii "type", ascii "STRING")], []⟩

/-- A document with two fields and a group between them in a component that a
message references, and with one field in its header. -/
def smallDoc (headerField : String) : XmlNode :=
  ⟨[], [], [⟨ascii "fix", [], [
    ⟨ascii "header", [], [namedNode "field" headerField []]⟩,
    ⟨ascii "trailer", [], [namedNode "field" "B" []]⟩,
    ⟨ascii "fields", [], [fieldNode "1" "A", fieldNode "2" "G", fieldNode "3" "B"]⟩,
    ⟨ascii "components", [], [namedNode "component" "C"
      [namedNode "field" "A" [], namedNode "group" "G" [namedNode "field" "A" []],
        namedNode "field" "B" []]]⟩,
    ⟨ascii "messages", [], [⟨ascii "message", [(ascii "msgtype", ascii "X")],
      [namedNode "component" "C" []]⟩]⟩]⟩]⟩

/-- A document whose first component references the other one inside of a group. -/
def nestedDoc : XmlNode :=
  ⟨[], [], [⟨ascii "fix", [], [
    ⟨ascii "header", [], [namedNode "field" "H" []]⟩,
    ⟨ascii "trailer", [], [namedNode "field" "B" []]⟩,
    ⟨ascii "fields", [], [fieldNode "1" "A", fieldNode "2" "G", fieldNode "3" "B",
      fieldNode "4" "H"]⟩,
    ⟨ascii "components", [], [
      namedNode "component" "D" [namedNode "field" "B" [],
        namedNode "group" "G" [namedNode "component" "C" []]],
      namedNode "component" "C" [namedNode "field" "A" []]]⟩,
    ⟨ascii "messages", [], [⟨ascii "message", [(ascii "msgtype", ascii "X")],
      [namedNode "component" "D" []]⟩]⟩]⟩]⟩

theorem wellFormed_nestedDoc : WellFormed plainEnv nestedDoc where
  hasHeader := rfl
  hasTrailer := rfl
  fields := ⟨_, rfl⟩
  components_ne := by decide
  components_nodup := by decide
  messages_ne := by decide
  messages_nodup := by decide
  resolves := by decide

theorem acyclic_nestedDoc : (nestedDoc.definitions plainEnv).Acyclic := by
  have hto : ∀ c ∈ nestedDoc.componentNodes, ∀ r ∈ c.references,
      r ∈ [.field (ascii "B") false, .group (ascii "G"), .component (ascii "C"),
        .field (ascii "A") false] := by decide
  have hfrom : ∀ c ∈ nestedDoc.componentNodes, c.asString (ascii "name") = ascii "C" →
      ∀ r ∈ c.references, r ∈ [.field (ascii "A") false] := by decide
  have hedge : ∀ {a b}, (nestedDoc.definitions plainEnv).Edge a b → a ≠ ascii "C" ∧
      b = ascii "C" := by
    intro a b h
    obtain ⟨c, hc, rfl, href⟩ :=
      ((XmlNode.declares_definitions _ _).edge_iff wellFormed_nestedDoc.sound).mp h
    constructor
    · intro hname
      simpa using hfrom c hc hname _ href
    · simpa using hto c hc _ href
  intro name h
  obtain ⟨_, hhead, -⟩ := Relation.TransGen.head'_iff.mp h
  obtain ⟨_, -, htail⟩ := Relation.TransGen.tail'_iff.mp h
  exact (hedge hhead).1 (hedge htail).2

/-- The referenced component is built first, though it is declared last. -/
theorem DictionaryRegistry.load_expands_test :
    DictionaryRegistry.load plainEnv ⟨[]⟩ (ascii "a.xml") (.ok nestedDoc) ≠ .error .cycle ∧
      (∃ sorted, sortComponents plainEnv (nestedDoc.definitions plainEnv)
          nestedDoc.componentNodes = .ok sorted ∧
        (nestedDoc.definitions plainEnv).Sorted sorted) ∧
      ∃ loaded, loadDocument plainEnv nestedDoc = .ok loaded ∧
        Expanded plainEnv nestedDoc loaded := by
  obtain ⟨hcycle, hloads⟩ := DictionaryRegistry.load_expands plainEnv ⟨[]⟩ (ascii "a.xml")
    nestedDoc rfl wellFormed_nestedDoc
  obtain ⟨hsorted, hresult⟩ := hloads acyclic_nestedDoc
  refine ⟨fun h => hcycle.mp h acyclic_nestedDoc, hsorted, ?_⟩
  rcases hresult with ⟨loaded, hloaded, -, -, hexpanded⟩ | ⟨e, herror, -⟩
  · exact ⟨loaded, hloaded, hexpanded⟩
  · have hok : (DictionaryRegistry.load plainEnv ⟨[]⟩ (ascii "a.xml") (.ok nestedDoc)).isOk =
        true := by decide +kernel
    rw [herror] at hok
    cases hok

end OpenFix
