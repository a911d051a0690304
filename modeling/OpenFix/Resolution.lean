import OpenFix.Expansion

/-!
# Names that are not defined

`validateGroup` runs over the components only.  A name that the header, the
trailer or a message references is looked up by `operator[]`, and so an undefined
field has the tag 0 and an undefined component is empty.  A document that is
loaded has all its names defined just when those of these sections are
(`DictionaryRegistry.load_resolves_iff`).
-/

namespace OpenFix

open Loop (Yields bind_eq_ok)
open AssocList (IterationOrder keys)

/-! ## The tags of a specification -/

/-- Every tag of a specification, and of the groups below it, is one of `P`. -/
inductive GroupSpec.OnlyTags (P : Int → Prop) : GroupSpec → Prop where
  | intro {spec : GroupSpec} (hfields : ∀ p ∈ spec.fields, P p.1)
      (hgroups : ∀ p ∈ spec.groups, P p.1)
      (hbelow : ∀ p ∈ spec.groups, GroupSpec.OnlyTags P p.2) : GroupSpec.OnlyTags P spec

namespace GroupSpec.OnlyTags

variable {P : Int → Prop} {ret : GroupSpec}

theorem fresh (P : Int → Prop) (ordered : Bool) :
    OnlyTags P { GroupSpec.fresh with ordered := ordered } := by
  constructor
  · intro p hp
    cases hp
  · intro p hp
    cases hp
  · intro p hp
    cases hp

theorem pushField (h : OnlyTags P ret) {entry : Int × Bool} (hentry : P entry.1) :
    OnlyTags P (ret.pushField entry) := by
  cases h with
  | intro hfields hgroups hbelow =>
      constructor
      · intro p hp
        rcases List.mem_append.mp hp with hp | hp
        · exact hfields p hp
        · exact List.mem_singleton.mp hp ▸ hentry
      · exact hgroups
      · exact hbelow

theorem pushGroup (h : OnlyTags P ret) {entry : Int × GroupSpec} (htag : P entry.1)
    (hentry : OnlyTags P entry.2) : OnlyTags P (ret.pushGroup entry) := by
  cases h with
  | intro hfields hgroups hbelow =>
      constructor
      · exact hfields
      · intro p hp
        rcases List.mem_append.mp hp with hp | hp
        · exact hgroups p hp
        · exact List.mem_singleton.mp hp ▸ htag
      · intro p hp
        rcases List.mem_append.mp hp with hp | hp
        · exact hbelow p hp
        · exact List.mem_singleton.mp hp ▸ hentry

theorem addField (h : OnlyTags P ret) {entry : Int × Bool} (hentry : P entry.1) :
    Yields (addField ret entry) (OnlyTags P) fun _ => True := by
  rw [addField_eq]
  split
  next => trivial
  next => exact h.pushField hentry

theorem addGroup (h : OnlyTags P ret) {entry : Int × GroupSpec} (htag : P entry.1)
    (hentry : OnlyTags P entry.2) : Yields (addGroup ret entry) (OnlyTags P) fun _ => True := by
  rw [addGroup_eq]
  split
  next => trivial
  next => exact h.pushGroup htag hentry

theorem mergeComponent (env : LoadEnv) (h : OnlyTags P ret) {component : GroupSpec}
    (hcomponent : OnlyTags P component) :
    Yields (mergeComponent env ret component) (OnlyTags P) fun _ => True := by
  have hfields : ∀ (entries : List (Int × Bool)) {ret : GroupSpec}, OnlyTags P ret →
      (∀ p ∈ entries, P p.1) →
      Yields (entries.foldlM OpenFix.addField ret) (OnlyTags P) fun _ => True := by
    intro entries
    induction entries with
    | nil => exact fun h _ => h
    | cons p rest ih =>
        intro ret h hentries
        obtain ⟨hp, hrest⟩ := List.forall_mem_cons.mp hentries
        exact (h.addField hp).bind fun ret' hret' => ih hret' hrest
  have hgroups : ∀ (entries : List (Int × GroupSpec)) {ret : GroupSpec}, OnlyTags P ret →
      (∀ p ∈ entries, P p.1 ∧ OnlyTags P p.2) →
      Yields (entries.foldlM OpenFix.addGroup ret) (OnlyTags P) fun _ => True := by
    intro entries
    induction entries with
    | nil => exact fun h _ => h
    | cons p rest ih =>
        intro ret h hentries
        obtain ⟨hp, hrest⟩ := List.forall_mem_cons.mp hentries
        exact (h.addGroup hp.1 hp.2).bind fun ret' hret' => ih hret' hrest
  cases hcomponent with
  | intro hfieldTags hgroupTags hbelow =>
      rw [mergeComponent_eq]
      apply (hfields _ h fun p hp => hfieldTags p (IterationOrder.mem_of_mem_entries hp)).bind
      intro ret' hret'
      apply hgroups _ hret'
      intro p hp
      have hp := IterationOrder.mem_of_mem_entries hp
      exact ⟨hgroupTags p hp, hbelow p hp⟩

end GroupSpec.OnlyTags

open GroupSpec (OnlyTags)

/-! ## What is built has the tags of the fields -/

mutual

theorem onlyTags_buildGroup (env : LoadEnv) (d : Definitions) {P : Int → Prop}
    (htags : ∀ name ∈ keys d.fieldMap, P (d.tag name))
    {componentMap : List (Bytes × GroupSpec)} :
    ∀ node : XmlNode, (∀ r ∈ node.references, d.Resolves r) →
      (∀ name, .component name ∈ node.references →
        OnlyTags P (componentSpec componentMap name)) →
      Yields (buildGroup env d componentMap node) (OnlyTags P) fun _ => True
  | ⟨name, attributes, children⟩, h, hmap => by
      rw [XmlNode.references] at h hmap
      rw [buildGroup_eq]
      exact onlyTags_buildChildren env d htags children h hmap (.fresh P _)

theorem onlyTags_buildChildren (env : LoadEnv) (d : Definitions) {P : Int → Prop}
    (htags : ∀ name ∈ keys d.fieldMap, P (d.tag name))
    {componentMap : List (Bytes × GroupSpec)} :
    ∀ children : List XmlNode, (∀ r ∈ referencesIn children, d.Resolves r) →
      (∀ name, .component name ∈ referencesIn children →
        OnlyTags P (componentSpec componentMap name)) →
      ∀ {ret : GroupSpec}, OnlyTags P ret →
        Yields (buildChildren env d componentMap children ret) (OnlyTags P) fun _ => True
  | [], _, _, ret, hret => by
      rw [buildChildren_nil]
      exact hret
  | child :: rest, h, hmap, ret, hret => by
      rw [referencesIn] at h hmap
      have hchild := @onlyTags_buildGroup env d P htags componentMap child
      have hrest := @onlyTags_buildChildren env d P htags componentMap rest
      rw [buildChildren_cons]
      cases hreference : child.reference with
      | component name =>
          simp only [hreference, List.mem_cons] at h hmap
          have hcomponent := hmap name (.inl rfl)
          exact (hret.mergeComponent env hcomponent).bind fun ret' hret' =>
            hrest (fun r hr => h r (.inr hr)) (fun name hname => hmap name (.inr hname)) hret'
      | group name =>
          simp only [hreference, List.mem_cons, List.mem_append] at h hmap
          by_cases hmem : (AssocList.find? (d.tag name) ret.groups).isSome = true
          · simp only [if_pos hmem]
            trivial
          · simp only [if_neg hmem]
            have hgroup := hchild (fun r hr => h r (.inr (.inl hr)))
              fun name hname => hmap name (.inr (.inl hname))
            apply hgroup.bind
            intro group hgroup
            have htag := htags name (h (.group name) (.inl rfl))
            exact hrest (fun r hr => h r (.inr (.inr hr)))
              (fun name hname => hmap name (.inr (.inr hname))) (hret.pushGroup htag hgroup)
      | field name required =>
          simp only [hreference, List.mem_cons] at h hmap
          have htag := htags name (h (.field name required) (.inl rfl))
          exact (hret.addField htag).bind fun ret' hret' =>
            hrest (fun r hr => h r (.inr hr)) (fun name hname => hmap name (.inr hname)) hret'
      | other =>
          simp only [hreference, List.mem_cons] at h hmap
          exact hrest (fun r hr => h r (.inr hr)) (fun name hname => hmap name (.inr hname)) hret

end

/-! ## Documents whose names are defined -/

/-- A tag that the `<fields>` section defines. -/
def XmlNode.DefinesTag (env : LoadEnv) (doc : XmlNode) (tag : Int) : Prop :=
  ∃ f ∈ doc.fieldNodes, f.number env = tag

theorem XmlNode.definesTag_tag {env : LoadEnv} {doc : XmlNode} {name : Bytes}
    (h : name ∈ keys (doc.definitions env).fieldMap) :
    doc.DefinesTag env ((doc.definitions env).tag name) := by
  obtain ⟨tag, htag⟩ := Option.isSome_iff_exists.mp (AssocList.find?_isSome_iff.mpr h)
  rcases mem_foldl_set env doc.fieldNodes [] (AssocList.mem_of_find? htag) with hmem | hmem
  · cases hmem
  · obtain ⟨f, hf, hnumber⟩ := hmem
    rw [Definitions.tag, htag]
    exact ⟨f, hf, hnumber⟩

/-- Every name that the document references is defined, and every tag of its
specifications is. -/
structure ResolvesAll (env : LoadEnv) (doc : XmlNode) (loaded : Loaded) : Prop where
  names : ∀ node ∈ doc.specNodes, ∀ r ∈ node.references, (doc.definitions env).Resolves r
  tags : ∀ spec ∈ loaded.specs, spec.OnlyTags (doc.DefinesTag env)

section

variable {env : LoadEnv} {doc : XmlNode} {loaded : Loaded}

/-- The names in the components are checked. -/
theorem LoadsAs.resolves (h : LoadsAs env doc loaded) :
    ∀ c ∈ doc.componentNodes, ∀ r ∈ c.references, (doc.definitions env).Resolves r := by
  obtain ⟨sorted, hsorted, -⟩ := h.components
  exact ((yields_sortComponents env h.sound (XmlNode.declares_definitions env doc)).of_ok
    hsorted).1

theorem LoadsAs.onlyTags (h : LoadsAs env doc loaded)
    (hnames : ∀ node ∈ doc.specNodes, ∀ r ∈ node.references, (doc.definitions env).Resolves r) :
    ∀ spec ∈ loaded.specs, spec.OnlyTags (doc.DefinesTag env) := by
  have hdeclares := XmlNode.declares_definitions env doc
  have htags : ∀ name ∈ keys (doc.definitions env).fieldMap,
      doc.DefinesTag env ((doc.definitions env).tag name) :=
    fun name hname => XmlNode.definesTag_tag hname
  obtain ⟨sorted, hsort, hbuild⟩ := h.components
  have hsorted := ((yields_sortComponents env h.sound hdeclares).of_ok hsort).2.2
  have hcomponents : ∀ name ∈ keys (doc.definitions env).components, ∀ componentMap,
      (∀ name', .component name' ∈ ((doc.definitions env).node name).references →
        OnlyTags (doc.DefinesTag env) (componentSpec componentMap name')) →
      Yields (buildGroup env (doc.definitions env) componentMap ((doc.definitions env).node name))
        (OnlyTags (doc.DefinesTag env)) fun _ => True := by
    intro name hname componentMap hmap
    rw [hdeclares.keys] at hname
    obtain ⟨c, hc, rfl⟩ := List.mem_map.mp hname
    rw [hdeclares.node h.sound hc] at hmap ⊢
    exact onlyTags_buildGroup env _ htags c (hnames c (List.mem_append_left _ hc)) hmap
  obtain ⟨hkeys, hmap⟩ := (yields_buildComponents env hsorted
    (fun _ _ => OnlyTags.fresh (doc.DefinesTag env) false) hcomponents).of_ok hbuild
  have hspec : ∀ node ∈ doc.specNodes, ∀ spec,
      buildGroup env (doc.definitions env) loaded.componentMap node = .ok spec →
        spec.OnlyTags (doc.DefinesTag env) := by
    intro node hnode spec hspec
    exact (onlyTags_buildGroup env _ htags node (hnames node hnode)
      fun name _ => hmap name).of_ok hspec
  intro spec hmem
  rcases List.mem_append.mp hmem with hmem | hmem
  · obtain ⟨p, hp, rfl⟩ := List.mem_map.mp hmem
    have hnodup : (keys loaded.componentMap).Nodup := hkeys ▸ h.sound.nodup
    exact componentSpec_of_mem hnodup hp ▸ hmap p.1
  · rcases List.mem_cons.mp hmem with rfl | hmem
    · exact hspec doc.header (by simp [XmlNode.specNodes]) _ h.header
    · rcases List.mem_cons.mp hmem with rfl | hmem
      · exact hspec doc.trailer (by simp [XmlNode.specNodes]) _ h.trailer
      · obtain ⟨p, hp, rfl⟩ := List.mem_map.mp hmem
        rcases (messages_of_eq_ok h.messages).2.1 p hp with hp | hp
        · cases hp
        · obtain ⟨m, hm, hbuild⟩ := hp
          exact hspec m (by simp [XmlNode.specNodes, hm]) _ hbuild

end

/-- When a document is loaded, all its names are defined just when those that its
header, its trailer and its messages reference are. -/
theorem DictionaryRegistry.load_resolves_iff {env : LoadEnv}
    {registry registry' : DictionaryRegistry} {path : Bytes} {doc : XmlNode} {dict : Dictionary}
    (hnew : AssocList.find? path registry.dictionaries = none)
    (hload : registry.load env path (.ok doc) = .ok (dict, registry')) :
    ∃ componentMap, loadDocument env doc = .ok ⟨componentMap, dict⟩ ∧
      (ResolvesAll env doc ⟨componentMap, dict⟩ ↔
        ∀ node ∈ doc.header :: doc.trailer :: doc.messageNodes, ∀ r ∈ node.references,
          (doc.definitions env).Resolves r) := by
  obtain ⟨componentMap, hdoc⟩ := load_eq_ok hnew hload
  have hsteps := loadsAs_of_eq_ok hdoc
  apply Exists.intro componentMap
  constructor
  · exact hdoc
  · constructor
    · intro hall node hnode
      exact hall.names node (List.mem_append_right _ hnode)
    · intro hsections
      have hnames : ∀ node ∈ doc.specNodes, ∀ r ∈ node.references,
          (doc.definitions env).Resolves r := by
        intro node hnode
        rcases List.mem_append.mp hnode with hnode | hnode
        · exact hsteps.resolves node hnode
        · exact hsections node hnode
      exact ⟨hnames, hsteps.onlyTags hnames⟩

/-- The small dictionary with defined names. -/
theorem DictionaryRegistry.load_resolves_iff_test :
    ∃ dict registry' componentMap,
      DictionaryRegistry.load plainEnv ⟨[]⟩ (ascii "a.xml") (.ok (smallDoc "A")) =
        .ok (dict, registry') ∧
      loadDocument plainEnv (smallDoc "A") = .ok ⟨componentMap, dict⟩ ∧
      ResolvesAll plainEnv (smallDoc "A") ⟨componentMap, dict⟩ := by
  have hload : ∃ dict registry', DictionaryRegistry.load plainEnv ⟨[]⟩ (ascii "a.xml")
      (.ok (smallDoc "A")) = .ok (dict, registry') := ⟨_, _, rfl⟩
  obtain ⟨dict, registry', hload⟩ := hload
  obtain ⟨componentMap, hdoc, hiff⟩ := DictionaryRegistry.load_resolves_iff rfl hload
  exact ⟨dict, registry', componentMap, hload, hdoc, hiff.mpr (by decide)⟩

/-- A header may reference a field that no section defines.  Its specification has
the tag 0. -/
example : (loadDocument plainEnv (smallDoc "Z")).map
    (fun loaded => loaded.dictionary.headerSpec.fieldOrder) = .ok [0] := rfl

/-- A dictionary is loaded although its header references an undefined field. -/
theorem DictionaryRegistry.not_load_resolves :
    ¬∀ (env : LoadEnv) (registry registry' : DictionaryRegistry) (path : Bytes) (doc : XmlNode)
      (dict : Dictionary) (componentMap : List (Bytes × GroupSpec)),
      AssocList.find? path registry.dictionaries = none →
      registry.load env path (.ok doc) = .ok (dict, registry') →
      loadDocument env doc = .ok ⟨componentMap, dict⟩ →
      ResolvesAll env doc ⟨componentMap, dict⟩ := by
  intro h
  have hload : ∃ dict registry', DictionaryRegistry.load plainEnv ⟨[]⟩ (ascii "a.xml")
      (.ok (smallDoc "Z")) = .ok (dict, registry') := ⟨_, _, rfl⟩
  obtain ⟨dict, registry', hload⟩ := hload
  obtain ⟨componentMap, hdoc⟩ := DictionaryRegistry.load_eq_ok rfl hload
  have hall := h plainEnv ⟨[]⟩ registry' (ascii "a.xml") (smallDoc "Z") dict componentMap rfl hload
    hdoc
  have hheader : (smallDoc "Z").header ∈ (smallDoc "Z").specNodes := by
    simp [XmlNode.specNodes]
  have hresolves := hall.names _ hheader (.field (ascii "Z") false) (by decide)
  revert hresolves
  decide

end OpenFix
