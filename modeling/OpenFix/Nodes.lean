import OpenFix.Parsing

/-!
# The maps of a message

A message is a tree of field maps, and a reference is a path to one of them.  A `Node`
is what a map holds itself: its fields, and how many instances it has of each group, but
not what is in these.  A change of one map changes its node, and no other.

A reference to an instance that is not there leads to an empty map, so that a statement
about all maps of a message may be made about all references.
-/

namespace OpenFix

/-- A field map without what is in its groups. -/
structure Node where
  fields : List (Int × View)
  spec : Option GroupSpec
  seen : List Int
  /-- The instances of each group. -/
  count : Int → Nat

namespace FieldMap

def node (m : FieldMap) : Node := ⟨m.fields, m.spec, m.seen, m.getGroupCount⟩

/-- The path leads to a map that is there. -/
def Valid : List (Int × Nat) → FieldMap → Prop
  | [], _ => True
  | (tag, i) :: path, m => i < m.getGroupCount tag ∧ Valid path (m.instanceAt tag i)

@[simp] theorem instanceAt_new (tag : Int) (i : Nat) : new.instanceAt tag i = new := rfl

@[simp] theorem getAt_new (path : List (Int × Nat)) : getAt path new = new := by
  induction path with
  | nil => rfl
  | cons p path ih => exact ih

/-- An instance that is not there is an empty map. -/
theorem instanceAt_of_le {m : FieldMap} {tag : Int} {i : Nat} (h : m.getGroupCount tag ≤ i) :
    m.instanceAt tag i = new := by
  rw [instanceAt, List.getElem?_eq_none h]
  rfl

theorem getAt_of_not_valid {path : List (Int × Nat)} {m : FieldMap} (h : ¬Valid path m) :
    getAt path m = new := by
  induction path generalizing m with
  | nil => exact absurd True.intro h
  | cons p path ih =>
      obtain ⟨tag, i⟩ := p
      rw [getAt]
      by_cases hi : i < m.getGroupCount tag
      · exact ih fun hvalid => h ⟨hi, hvalid⟩
      · rw [instanceAt_of_le (Nat.not_lt.mp hi), getAt_new]

theorem valid_append {path path' : List (Int × Nat)} {m : FieldMap} :
    Valid (path ++ path') m ↔ Valid path m ∧ Valid path' (getAt path m) := by
  induction path generalizing m with
  | nil => exact (true_and _).symm.to_iff
  | cons p path ih => rw [List.cons_append, Valid, Valid, ih, getAt, and_assoc]

/-! ## A change below -/

theorem getGroupCount_modifyAt (f : FieldMap → FieldMap) (tag' : Int) (i' : Nat)
    (path' : List (Int × Nat)) (m : FieldMap) :
    (modifyAt f ((tag', i') :: path') m).getGroupCount = m.getGroupCount := by
  funext tag
  rw [modifyAt, getGroupCount, getGroupCount]
  dsimp only
  by_cases htag : tag = tag'
  · subst htag
    rw [AssocList.find?_modify_self]
    cases AssocList.find? tag m.groups with
    | none => rfl
    | some ms => exact List.length_modify ..
  · rw [AssocList.find?_modify_ne htag]

theorem instanceAt_modifyAt_self {f : FieldMap → FieldMap} {tag : Int} {i : Nat}
    {path' : List (Int × Nat)} {m : FieldMap} (h : i < m.getGroupCount tag) :
    (modifyAt f ((tag, i) :: path') m).instanceAt tag i = modifyAt f path' (m.instanceAt tag i) := by
  rw [getGroupCount] at h
  rw [modifyAt, instanceAt, instanceAt]
  dsimp only
  rw [AssocList.find?_modify_self]
  cases hfind : AssocList.find? tag m.groups with
  | none =>
      rw [hfind] at h
      exact absurd h (Nat.not_lt_zero i)
  | some ms =>
      rw [hfind, Option.getD_some] at h
      rw [Option.map_some, Option.getD_some, Option.getD_some, List.getElem?_modify_eq,
        List.getElem?_eq_getElem h]
      rfl

theorem instanceAt_modifyAt_ne {f : FieldMap → FieldMap} {tag tag' : Int} {i i' : Nat}
    {path' : List (Int × Nat)} {m : FieldMap} (h : (tag, i) ≠ (tag', i')) :
    (modifyAt f ((tag', i') :: path') m).instanceAt tag i = m.instanceAt tag i := by
  rw [modifyAt, instanceAt, instanceAt]
  dsimp only
  by_cases htag : tag = tag'
  · subst htag
    have hi : i' ≠ i := fun heq => h (by rw [heq])
    rw [AssocList.find?_modify_self]
    cases AssocList.find? tag m.groups with
    | none => rfl
    | some ms =>
        rw [Option.map_some, Option.getD_some, Option.getD_some, List.getElem?_modify_ne _ _ hi]
  · rw [AssocList.find?_modify_ne htag]

theorem instanceAt_modifyAt_of_le {f : FieldMap → FieldMap} {tag : Int} {i : Nat}
    {path' : List (Int × Nat)} {m : FieldMap} (h : m.getGroupCount tag ≤ i) :
    (modifyAt f ((tag, i) :: path') m).instanceAt tag i = m.instanceAt tag i := by
  rw [instanceAt_of_le h, instanceAt_of_le (by rwa [getGroupCount_modifyAt])]

/-- A change that leaves the instances of a map what they are.  It may add empty ones. -/
def KeepsInstances (f : FieldMap → FieldMap) : Prop :=
  ∀ m tag i, (f m).instanceAt tag i = m.instanceAt tag i

theorem keepsInstances_of_groups {f : FieldMap → FieldMap} (h : ∀ m, (f m).groups = m.groups) :
    KeepsInstances f := by
  intro m tag i
  rw [instanceAt, instanceAt, h]

theorem getAt_modifyAt_self {path : List (Int × Nat)} {m : FieldMap} (h : Valid path m)
    (f : FieldMap → FieldMap) : getAt path (modifyAt f path m) = f (getAt path m) := by
  induction path generalizing m with
  | nil => rfl
  | cons p path ih =>
      obtain ⟨tag, i⟩ := p
      rw [getAt, instanceAt_modifyAt_self h.1, ih h.2]
      rfl

theorem getAt_modifyAt_of_not_valid {path : List (Int × Nat)} {m : FieldMap} (h : ¬Valid path m)
    (f : FieldMap → FieldMap) : getAt path (modifyAt f path m) = new := by
  induction path generalizing m with
  | nil => exact absurd True.intro h
  | cons p path ih =>
      obtain ⟨tag, i⟩ := p
      rw [getAt]
      by_cases hi : i < m.getGroupCount tag
      · rw [instanceAt_modifyAt_self hi]
        exact ih fun hvalid => h ⟨hi, hvalid⟩
      · rw [instanceAt_modifyAt_of_le (Nat.not_lt.mp hi), instanceAt_of_le (Nat.not_lt.mp hi),
          getAt_new]

/-- A change of a map does not change the others themselves. -/
theorem node_getAt_modifyAt_ne {f : FieldMap → FieldMap} (hf : KeepsInstances f)
    {path path' : List (Int × Nat)} (h : path ≠ path') (m : FieldMap) :
    (getAt path (modifyAt f path' m)).node = (getAt path m).node := by
  induction path' generalizing path m with
  | nil =>
      cases path with
      | nil => exact absurd rfl h
      | cons p path =>
          obtain ⟨tag, i⟩ := p
          rw [modifyAt, getAt, getAt, hf]
  | cons p' path' ih =>
      obtain ⟨tag', i'⟩ := p'
      cases path with
      | nil =>
          show Node.mk _ _ _ _ = Node.mk _ _ _ _
          rw [getAt, getAt, getGroupCount_modifyAt]
          rfl
      | cons p path =>
          obtain ⟨tag, i⟩ := p
          rw [getAt, getAt]
          by_cases hp : (tag, i) = (tag', i')
          · cases hp
            by_cases hi : i' < m.getGroupCount tag'
            · rw [instanceAt_modifyAt_self hi]
              exact ih (fun heq => h (by rw [heq])) _
            · rw [instanceAt_modifyAt_of_le (Nat.not_lt.mp hi)]
          · rw [instanceAt_modifyAt_ne hp]

/-- A change that does not take instances away keeps the paths valid. -/
theorem Valid.modifyAt {f : FieldMap → FieldMap} (hf : KeepsInstances f)
    (hcount : ∀ m tag, m.getGroupCount tag ≤ (f m).getGroupCount tag)
    {path path' : List (Int × Nat)} {m : FieldMap} (h : Valid path m) :
    Valid path (modifyAt f path' m) := by
  induction path' generalizing path m with
  | nil =>
      cases path with
      | nil => exact True.intro
      | cons p path =>
          obtain ⟨tag, i⟩ := p
          refine ⟨Nat.lt_of_lt_of_le h.1 (hcount m tag), ?_⟩
          rw [FieldMap.modifyAt, hf]
          exact h.2
  | cons p' path' ih =>
      obtain ⟨tag', i'⟩ := p'
      cases path with
      | nil => exact True.intro
      | cons p path =>
          obtain ⟨tag, i⟩ := p
          refine ⟨?_, ?_⟩
          · rw [getGroupCount_modifyAt]
            exact h.1
          · by_cases hp : (tag, i) = (tag', i')
            · cases hp
              rw [instanceAt_modifyAt_self h.1]
              exact ih h.2
            · rw [instanceAt_modifyAt_ne hp]
              exact h.2

/-! ## The changes that the parser makes -/

theorem getGroupCount_addGroup (m : FieldMap) (tag tag' : Int) :
    (m.addGroup tag).getGroupCount tag' =
      if tag' = tag then m.getGroupCount tag' + 1 else m.getGroupCount tag' := by
  rw [addGroup, getGroupCount, getGroupCount]
  dsimp only
  by_cases htag : tag' = tag
  · subst htag
    rw [AssocList.find?_modify_self, AssocList.find?_insert_self, if_pos rfl]
    cases AssocList.find? tag' m.groups with
    | none => rfl
    | some ms => exact List.length_append
  · rw [AssocList.find?_modify_ne htag, AssocList.find?_insert_ne htag, if_neg htag]

theorem keepsInstances_addGroup (tag : Int) : KeepsInstances fun m => m.addGroup tag := by
  intro m tag' i
  show (((AssocList.find? tag' (AssocList.modify tag (· ++ [new])
    (AssocList.insert tag [] m.groups))).getD [])[i]?).getD new = m.instanceAt tag' i
  rw [instanceAt]
  by_cases htag : tag' = tag
  · subst htag
    rw [AssocList.find?_modify_self, AssocList.find?_insert_self]
    cases AssocList.find? tag' m.groups with
    | none =>
        cases i with
        | zero => rfl
        | succ i => rfl
    | some ms =>
        show ((ms ++ [new])[i]?).getD new = ms[i]?.getD new
        by_cases hi : i < ms.length
        · rw [List.getElem?_append_left hi]
        · rw [List.getElem?_append_right (Nat.not_lt.mp hi), List.getElem?_eq_none (Nat.not_lt.mp hi)]
          cases i - ms.length with
          | zero => rfl
          | succ k => rfl
  · rw [AssocList.find?_modify_ne htag, AssocList.find?_insert_ne htag]

theorem groups_setFieldView (m : FieldMap) (tag : Int) (value : Bytes) (order : Bool) :
    (m.setFieldView tag value order).groups = m.groups := by
  rw [setFieldView, insertFieldView]
  split
  · split
    · rfl
    · rfl
  · rfl

theorem groups_setFieldViewOrDetectDup (m : FieldMap) (tag : Int) (value : Bytes) :
    (m.setFieldViewOrDetectDup tag value).2.groups = m.groups := by
  rw [setFieldViewOrDetectDup]
  split
  · split
    · rfl
    · rfl
  · split
    · rfl
    · rfl

/-! ## The fields behind a change -/

theorem fields_setFieldView (m : FieldMap) (tag : Int) (value : Bytes) :
    m.setFieldView tag value false = { m with fields := AssocList.set tag (.text value) m.fields } := by
  rw [setFieldView, insertFieldView]
  cases m.spec with
  | none => rfl
  | some spec => rfl

/-- A field that is not known as a duplicate is appended. -/
theorem fields_append {m : FieldMap} {tag : Int} {value : Bytes}
    (h : (m.setFieldViewOrDetectDup tag value).1 = false) :
    (m.setFieldViewOrDetectDup tag value).2.fields = m.fields ++ [(tag, .text value)] ∧
      (m.setFieldViewOrDetectDup tag value).2.owned = m.owned := by
  rw [setFieldViewOrDetectDup] at h ⊢
  split at h
  next hrange =>
    rw [if_pos hrange]
    split at h
    next => cases h
    next hseen =>
      rw [if_neg hseen]
      exact ⟨rfl, rfl⟩
  next hrange =>
    rw [if_neg hrange]
    split at h
    next => cases h
    next hfind =>
      rw [if_neg hfind]
      exact ⟨rfl, rfl⟩

/-- A field that is known as a duplicate changes nothing. -/
theorem eq_of_dup {m : FieldMap} {tag : Int} {value : Bytes}
    (h : (m.setFieldViewOrDetectDup tag value).1 = true) :
    (m.setFieldViewOrDetectDup tag value).2 = m := by
  rw [setFieldViewOrDetectDup] at h ⊢
  split at h
  next hrange =>
    rw [if_pos hrange]
    split at h
    next hseen => rw [if_pos hseen]
    next => cases h
  next hrange =>
    rw [if_neg hrange]
    split at h
    next hfind => rw [if_pos hfind]
    next => cases h

/-! ## Sorting -/

theorem find?_orderedInsert (k : Int) (p : Int × View) (l : List (Int × View)) :
    AssocList.find? k (l.orderedInsert (fun a b => a.1 ≤ b.1) p) = AssocList.find? k (p :: l) := by
  induction l with
  | nil => rfl
  | cons q l ih =>
      rw [List.orderedInsert]
      split
      next => rfl
      next hlt =>
        -- The tag of `q` is smaller, so at most one of the two is looked for.
        rw [AssocList.find?, ih, AssocList.find?, AssocList.find?, AssocList.find?]
        by_cases hq : q.1 = k
        · rw [if_pos hq, if_neg (fun hp => hlt (by omega)), if_pos hq]
        · rw [if_neg hq, if_neg hq]

/-- The sort is stable. -/
theorem find?_insertionSort (k : Int) (l : List (Int × View)) :
    AssocList.find? k (l.insertionSort fun a b => a.1 ≤ b.1) = AssocList.find? k l := by
  induction l with
  | nil => rfl
  | cons p l ih =>
      rw [List.insertionSort_cons, find?_orderedInsert, AssocList.find?, AssocList.find?, ih]

/-- A round of the loop over the order of the specification. -/
def sortStep (taken : List (Int × View) × List (Int × View)) (tag : Int) :
    List (Int × View) × List (Int × View) :=
  match AssocList.find? tag taken.2 with
  | some v => (AssocList.insert tag v taken.1, AssocList.erase tag taken.2)
  | none => taken

theorem find?_sortStep (k : Int) (taken : List (Int × View) × List (Int × View)) (tag : Int) :
    (AssocList.find? k (sortStep taken tag).1).or (AssocList.find? k (sortStep taken tag).2) =
      (AssocList.find? k taken.1).or (AssocList.find? k taken.2) := by
  rw [sortStep]
  cases hfind : AssocList.find? tag taken.2 with
  | none => rfl
  | some v =>
      dsimp only
      by_cases hk : k = tag
      · subst hk
        rw [AssocList.find?_insert_self, hfind]
        cases AssocList.find? k taken.1 with
        | none => rfl
        | some w => rfl
      · rw [AssocList.find?_insert_ne hk, AssocList.find?_erase_ne hk]

theorem nodup_keys_sortStep {taken : List (Int × View) × List (Int × View)}
    (h : (AssocList.keys taken.1).Nodup) (tag : Int) :
    (AssocList.keys (sortStep taken tag).1).Nodup := by
  rw [sortStep]
  cases AssocList.find? tag taken.2 with
  | none => exact h
  | some v => exact AssocList.nodup_keys_insert h

theorem nodup_keys_foldl_insert (l : List (Int × View)) {acc : List (Int × View)}
    (h : (AssocList.keys acc).Nodup) :
    (AssocList.keys (l.foldl (fun out e => AssocList.insert e.1 e.2 out) acc)).Nodup := by
  induction l generalizing acc with
  | nil => exact h
  | cons e l ih => exact ih (AssocList.nodup_keys_insert h)

/-- A sorted map has the first field of each tag. -/
theorem fields_sortFields_perm (m : FieldMap) :
    m.sortFields.fields.Perm (AssocList.firsts m.fields) := by
  obtain ⟨order, horder⟩ : ∃ order : List Int, m.sortFields.fields =
      ((order.foldl sortStep ([], m.fields)).2.insertionSort fun a b => a.1 ≤ b.1).foldl
        (fun newFields e => AssocList.insert e.1 e.2 newFields)
        (order.foldl sortStep ([], m.fields)).1 := ⟨_, rfl⟩
  rw [horder]
  have htaken : ∀ (order : List Int) (taken : List (Int × View) × List (Int × View)),
      (AssocList.keys taken.1).Nodup →
        (AssocList.keys (order.foldl sortStep taken).1).Nodup ∧
          ∀ k, (AssocList.find? k (order.foldl sortStep taken).1).or
            (AssocList.find? k (order.foldl sortStep taken).2) =
              (AssocList.find? k taken.1).or (AssocList.find? k taken.2) := by
    intro order
    induction order with
    | nil => exact fun taken h => ⟨h, fun _ => rfl⟩
    | cons tag order ih =>
        intro taken h
        obtain ⟨hnodup, hfind⟩ := ih (sortStep taken tag) (nodup_keys_sortStep h tag)
        exact ⟨hnodup, fun k => (hfind k).trans (find?_sortStep k taken tag)⟩
  obtain ⟨hnodup, hfind⟩ := htaken order ([], m.fields) List.nodup_nil
  refine AssocList.perm_of_find?_eq ?_ (AssocList.nodup_keys_firsts _) fun k => ?_
  · exact nodup_keys_foldl_insert _ hnodup
  · rw [AssocList.find?_firsts]
    refine (find?_foldl_insert (fun _ v => v) k _ _).trans ?_
    rw [Option.map_id', find?_insertionSort]
    exact hfind k

/-- A sorted map has the values that it had. -/
theorem find?_sortFields (m : FieldMap) (tag : Int) :
    AssocList.find? tag m.sortFields.fields = AssocList.find? tag m.fields := by
  have hperm := fields_sortFields_perm m
  have hfirsts := AssocList.nodup_keys_firsts m.fields
  have hsorted : (AssocList.keys m.sortFields.fields).Nodup := (hperm.map Prod.fst).nodup_iff.mpr hfirsts
  rw [← AssocList.find?_firsts tag m.fields]
  ext v
  rw [← AssocList.mem_iff_find?_eq hsorted, ← AssocList.mem_iff_find?_eq hfirsts]
  exact hperm.mem_iff

theorem find?_finishMap (settings : SessionSettings) (spec : Option GroupSpec) (m : FieldMap)
    (tag : Int) : AssocList.find? tag (ParseState.finishMap settings spec m).fields =
      AssocList.find? tag m.fields := by
  rw [ParseState.finishMap]
  split
  · exact find?_sortFields (m.setSpec spec) tag
  · rfl

theorem groups_finishMap (settings : SessionSettings) (spec : Option GroupSpec) (m : FieldMap) :
    (ParseState.finishMap settings spec m).groups = m.groups := by
  rw [ParseState.finishMap]
  split
  · rfl
  · rfl

end FieldMap

namespace Message

def node (msg : Message) (ref : GroupRef) : Node := (msg.get ref).node

/-- The reference leads to a map that is there. -/
def Valid (msg : Message) (ref : GroupRef) : Prop :=
  FieldMap.Valid ref.path (msg.sectionMap ref.sec)

theorem sectionMap_modifySection_self (msg : Message) (f : FieldMap → FieldMap)
    (sec : MessageSection) : (msg.modifySection f sec).sectionMap sec = f (msg.sectionMap sec) := by
  cases sec with
  | header => rfl
  | body => rfl
  | trailer => rfl

theorem sectionMap_modifySection_ne {sec sec' : MessageSection} (h : sec ≠ sec') (msg : Message)
    (f : FieldMap → FieldMap) :
    (msg.modifySection f sec').sectionMap sec = msg.sectionMap sec := by
  cases sec' with
  | header => cases sec with
    | header => exact absurd rfl h
    | body => rfl
    | trailer => rfl
  | body => cases sec with
    | header => rfl
    | body => exact absurd rfl h
    | trailer => rfl
  | trailer => cases sec with
    | header => rfl
    | body => rfl
    | trailer => exact absurd rfl h

variable {msg : Message} {ref ref' : GroupRef} {f : FieldMap → FieldMap}

theorem valid_section (sec : MessageSection) : msg.Valid ⟨sec, []⟩ := True.intro

theorem valid_child {tag : Int} {i : Nat} :
    msg.Valid (ref.child tag i) ↔ msg.Valid ref ∧ i < (msg.node ref).count tag := by
  rw [Valid, GroupRef.child, FieldMap.valid_append, FieldMap.Valid, FieldMap.Valid, and_true]
  rfl

theorem get_modify_self (h : msg.Valid ref) (f : FieldMap → FieldMap) :
    (msg.modify f ref).get ref = f (msg.get ref) := by
  rw [get, modify, sectionMap_modifySection_self, FieldMap.getAt_modifyAt_self h]
  rfl

theorem node_modify_self (h : msg.Valid ref) (f : FieldMap → FieldMap) :
    (msg.modify f ref).node ref = (f (msg.get ref)).node := by
  rw [node, get_modify_self h]

theorem node_modify_ne (hf : FieldMap.KeepsInstances f) (h : ref ≠ ref') (msg : Message) :
    (msg.modify f ref').node ref = msg.node ref := by
  obtain ⟨sec, path⟩ := ref
  obtain ⟨sec', path'⟩ := ref'
  rw [node, node, get, get, modify]
  by_cases hsec : sec = sec'
  · subst hsec
    rw [sectionMap_modifySection_self]
    exact FieldMap.node_getAt_modifyAt_ne hf (fun heq => h (congrArg (GroupRef.mk sec) heq)) _
  · rw [sectionMap_modifySection_ne hsec]

/-- A change of a map that is not there changes nothing. -/
theorem node_modify_of_not_valid (h : ¬msg.Valid ref) (f : FieldMap → FieldMap) :
    (msg.modify f ref).node ref = msg.node ref := by
  rw [node, node, get, get, modify, sectionMap_modifySection_self,
    FieldMap.getAt_modifyAt_of_not_valid h, FieldMap.getAt_of_not_valid h]

theorem Valid.modify (h : msg.Valid ref) (hf : FieldMap.KeepsInstances f)
    (hcount : ∀ m tag, m.getGroupCount tag ≤ (f m).getGroupCount tag) :
    (msg.modify f ref').Valid ref := by
  obtain ⟨sec, path⟩ := ref
  obtain ⟨sec', path'⟩ := ref'
  rw [Valid, Message.modify]
  by_cases hsec : sec = sec'
  · subst hsec
    rw [sectionMap_modifySection_self]
    exact FieldMap.Valid.modifyAt hf hcount h
  · rw [sectionMap_modifySection_ne hsec]
    exact h

/-- A change changes the node of its map, if that is there, and no other. -/
theorem node_modify_cases (hf : FieldMap.KeepsInstances f) (msg : Message) (ref ref' : GroupRef) :
    (ref = ref' ∧ msg.Valid ref ∧ (msg.modify f ref').node ref = (f (msg.get ref)).node) ∨
      (msg.modify f ref').node ref = msg.node ref := by
  by_cases href : ref = ref'
  · subst href
    by_cases hvalid : msg.Valid ref
    · exact .inl ⟨rfl, hvalid, node_modify_self hvalid f⟩
    · exact .inr (node_modify_of_not_valid hvalid f)
  · exact .inr (node_modify_ne hf href msg)

theorem node_of_not_valid (h : ¬msg.Valid ref) : msg.node ref = FieldMap.new.node := by
  rw [node, get, FieldMap.getAt_of_not_valid h]

/-- An instance that is not there is an empty map. -/
theorem node_child_of_le {tag : Int} {i : Nat} (h : (msg.get ref).getGroupCount tag ≤ i) :
    msg.node (ref.child tag i) = FieldMap.new.node :=
  node_of_not_valid fun hvalid => absurd (valid_child.mp hvalid).2 (Nat.not_lt.mpr h)

theorem child_inj {ref ref' : GroupRef} {tag tag' : Int} {i i' : Nat}
    (h : ref.child tag i = ref'.child tag' i') : ref = ref' ∧ tag = tag' ∧ i = i' := by
  obtain ⟨sec, path⟩ := ref
  obtain ⟨sec', path'⟩ := ref'
  have hsec := congrArg GroupRef.sec h
  have hpath := List.append_inj' (congrArg GroupRef.path h) rfl
  have hlast := List.cons.inj hpath.2
  refine ⟨?_, congrArg Prod.fst hlast.1, congrArg Prod.snd hlast.1⟩
  exact congrArg₂ GroupRef.mk hsec hpath.1

theorem child_ne (ref : GroupRef) (tag : Int) (i : Nat) : ref.child tag i ≠ ref := by
  intro h
  have hlength := congrArg (fun r : GroupRef => r.path.length) h
  simp [GroupRef.child] at hlength

theorem node_new (ref : GroupRef) : Message.new.node ref = FieldMap.new.node := by
  obtain ⟨sec, path⟩ := ref
  cases sec with
  | header => exact congrArg FieldMap.node (FieldMap.getAt_new path)
  | body => exact congrArg FieldMap.node (FieldMap.getAt_new path)
  | trailer => exact congrArg FieldMap.node (FieldMap.getAt_new path)

/-- A statement about one map, which a change keeps if it changes that map. -/
theorem keeps_node_modify (P : Node → Prop) (hf : FieldMap.KeepsInstances f) (ref' : GroupRef)
    (h : P (msg.node ref)) (hP : ref = ref' → P (msg.get ref).node → P (f (msg.get ref)).node) :
    P ((msg.modify f ref').node ref) := by
  rcases node_modify_cases hf msg ref ref' with ⟨href, -, hnode⟩ | hnode
  · rw [hnode]
    exact hP href h
  · rwa [hnode]

/-- A statement about all maps, of which a change keeps what it says of the map it changes. -/
theorem forall_node_modify {P : Node → Prop} (h : ∀ ref, P (msg.node ref))
    (hf : FieldMap.KeepsInstances f) (hP : ∀ m : FieldMap, P m.node → P (f m).node) (ref' ref) :
    P ((msg.modify f ref').node ref) := by
  by_cases href : ref = ref'
  · subst href
    by_cases hvalid : msg.Valid ref
    · rw [node_modify_self hvalid]
      exact hP _ (h ref)
    · rw [node_modify_of_not_valid hvalid]
      exact h ref
  · rw [node_modify_ne hf href]
    exact h ref

end Message

end OpenFix
