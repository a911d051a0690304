import OpenFix.Content
import OpenFix.Edits

/-!
# Reading contents

The parser reads the text of contents that conform and files them as they are, whatever
the settings.  The proof follows the contents: a plain field is taken by the entry of its
map once the groups above it have refused it, a group opens its first instance, and every
further instance starts with a tag that the entry of the group has seen.

While a map is read, the last instances of its last group are still open, and their maps
are finished only when the next field of the map below comes.  `Spine` relates the map as
it is to the map as it will be when they are.
-/

namespace OpenFix

open Loop

/-! ## Maps that are put in place -/

namespace FieldMap

/-- The map with other groups. -/
def setGroups (m : FieldMap) (groups : List (Int × List FieldMap)) : FieldMap :=
  { m with groups := groups }

theorem setGroups_groups (m : FieldMap) : m.setGroups m.groups = m := by
  cases m
  rfl

/-- The map with one more group. -/
def withInstances (m : FieldMap) (tag : Int) (ms : List FieldMap) : FieldMap :=
  m.setGroups (m.groups ++ [(tag, ms)])

/-- The map with one more field, which is not marked as seen. -/
def withField (m : FieldMap) (tag : Int) (count : Bytes) : FieldMap :=
  { m with fields := m.fields ++ [(tag, .text count)] }

@[simp] theorem groups_withInstances (m : FieldMap) (tag : Int) (ms : List FieldMap) :
    (m.withInstances tag ms).groups = m.groups ++ [(tag, ms)] := rfl

@[simp] theorem fields_withInstances (m : FieldMap) (tag : Int) (ms : List FieldMap) :
    (m.withInstances tag ms).fields = m.fields := rfl

theorem modifyAt_append (f : FieldMap → FieldMap) :
    ∀ (path path' : List (Int × Nat)) (m : FieldMap),
      modifyAt f (path ++ path') m = modifyAt (modifyAt f path') path m
  | [], _, _ => rfl
  | (tag, i) :: path, path', m => by
      have ih : modifyAt f (path ++ path') = modifyAt (modifyAt f path') path :=
        funext (modifyAt_append f path path')
      rw [List.cons_append, modifyAt, modifyAt, ih]

theorem Valid.put {path : List (Int × Nat)} {m : FieldMap} (h : Valid path m) (m' : FieldMap) :
    Valid path (FieldMap.modifyAt (fun _ => m') path m) := by
  induction path generalizing m with
  | nil => exact True.intro
  | cons p path ih =>
      obtain ⟨tag, i⟩ := p
      refine ⟨?_, ?_⟩
      · rw [getGroupCount_modifyAt]
        exact h.1
      · rw [instanceAt_modifyAt_self h.1]
        exact ih h.2

variable {m : FieldMap} {tag : Int}

theorem getGroupCount_withInstances (h : tag ∉ AssocList.keys m.groups) (ms : List FieldMap) :
    (m.withInstances tag ms).getGroupCount tag = ms.length := by
  rw [getGroupCount, groups_withInstances, AssocList.find?_append,
    AssocList.find?_eq_none_iff.mpr h, Option.none_or, AssocList.find?_cons_self]
  rfl

theorem modifyAt_withInstances (h : tag ∉ AssocList.keys m.groups) (ms : List FieldMap)
    (f : FieldMap → FieldMap) (i : Nat) :
    modifyAt f [(tag, i)] (m.withInstances tag ms) = m.withInstances tag (ms.modify i f) := by
  rw [modifyAt, groups_withInstances, AssocList.modify_append_of_not_mem _ _ h]
  rfl

theorem addGroup_withInstances (h : tag ∉ AssocList.keys m.groups) (ms : List FieldMap) :
    (m.withInstances tag ms).addGroup tag = m.withInstances tag (ms ++ [new]) := by
  have hfound : (AssocList.find? tag (m.withInstances tag ms).groups).isSome = true := by
    rw [groups_withInstances, AssocList.find?_isSome_iff, AssocList.keys, List.map_append]
    exact List.mem_append_right _ (List.mem_singleton_self tag)
  rw [addGroup, AssocList.insert, if_pos hfound, groups_withInstances,
    AssocList.modify_append_of_not_mem _ _ h]
  rfl

theorem addGroup_of_not_mem (h : tag ∉ AssocList.keys m.groups) :
    m.addGroup tag = m.withInstances tag [new] := by
  rw [addGroup, AssocList.insert_of_not_mem _ h, AssocList.modify_append_of_not_mem _ _ h]
  rfl

/-- A change of the fields of a map that does not look at its groups. -/
def ActsOnFields (f : FieldMap → FieldMap) : Prop :=
  ∀ m groups, f (m.setGroups groups) = (f m).setGroups groups

theorem ActsOnFields.groups_eq {f : FieldMap → FieldMap} (hf : ActsOnFields f) (m : FieldMap) :
    (f m).groups = m.groups := by
  have h := hf m m.groups
  rw [setGroups_groups] at h
  rw [h]
  rfl

theorem ActsOnFields.withInstances {f : FieldMap → FieldMap} (hf : ActsOnFields f) (m : FieldMap)
    (tag : Int) (ms : List FieldMap) : f (m.withInstances tag ms) = (f m).withInstances tag ms := by
  rw [FieldMap.withInstances, hf, FieldMap.withInstances, hf.groups_eq]

theorem actsOnFields_detectDup (tag : Int) (value : Bytes) :
    ActsOnFields fun m => (m.setFieldViewOrDetectDup tag value).2 := by
  intro m groups
  obtain ⟨fields, owned, capacity, _, spec, seen⟩ := m
  dsimp only [setFieldViewOrDetectDup, setGroups]
  split
  · split
    · rfl
    · rfl
  · split
    · rfl
    · rfl

theorem actsOnFields_finishMap (settings : SessionSettings) (spec : Option GroupSpec) :
    ActsOnFields (ParseState.finishMap settings spec) := by
  intro m groups
  rw [ParseState.finishMap, ParseState.finishMap]
  split
  · rfl
  · rfl

end FieldMap

namespace Message

/-- The message with another map at the reference. -/
def put (msg : Message) (ref : GroupRef) (m : FieldMap) : Message := msg.modify (fun _ => m) ref

variable {msg : Message} {ref : GroupRef}

theorem modify_modify (f g : FieldMap → FieldMap) (msg : Message) (ref : GroupRef) :
    (msg.modify f ref).modify g ref = msg.modify (fun m => g (f m)) ref := by
  obtain ⟨sec, path⟩ := ref
  cases sec with
  | header => simp only [modify, modifySection, FieldMap.modifyAt_modifyAt]
  | body => simp only [modify, modifySection, FieldMap.modifyAt_modifyAt]
  | trailer => simp only [modify, modifySection, FieldMap.modifyAt_modifyAt]

theorem put_modify (msg : Message) (ref : GroupRef) (m : FieldMap) (f : FieldMap → FieldMap) :
    (msg.put ref m).modify f ref = msg.put ref (f m) := modify_modify _ _ _ _

theorem get_put (h : msg.Valid ref) (m : FieldMap) : (msg.put ref m).get ref = m :=
  get_modify_self h _

theorem Valid.put (h : msg.Valid ref) (m : FieldMap) : (msg.put ref m).Valid ref := by
  rw [Valid, Message.put, Message.modify, sectionMap_modifySection_self]
  exact FieldMap.Valid.put h m

theorem modify_child (f : FieldMap → FieldMap) (msg : Message) (ref : GroupRef) (tag : Int)
    (i : Nat) :
    msg.modify f (ref.child tag i) = msg.modify (FieldMap.modifyAt f [(tag, i)]) ref := by
  rw [modify, modify, GroupRef.child]
  congr 1
  funext m
  exact FieldMap.modifyAt_append f ref.path [(tag, i)] m

variable {m : FieldMap} {tag : Int} (h : tag ∉ AssocList.keys m.groups)

include h

theorem modify_instance (msg : Message) (ref : GroupRef) (ms : List FieldMap)
    (f : FieldMap → FieldMap) (i : Nat) :
    (msg.put ref (m.withInstances tag ms)).modify f (ref.child tag i) =
      msg.put ref (m.withInstances tag (ms.modify i f)) := by
  rw [modify_child, put_modify, FieldMap.modifyAt_withInstances h]

omit h in
theorem modify_length (done rest : List FieldMap) (a : FieldMap) (f : FieldMap → FieldMap) :
    (done ++ a :: rest).modify done.length f = done ++ f a :: rest := by
  induction done with
  | nil => rfl
  | cons b done ih =>
      rw [List.cons_append, List.length_cons, List.modify_succ_cons, ih, List.cons_append]

/-- The last instance of the last group is replaced. -/
theorem put_last (msg : Message) (ref : GroupRef) (done : List FieldMap) (a b : FieldMap) :
    (msg.put ref (m.withInstances tag (done ++ [a]))).put (ref.child tag done.length) b =
      msg.put ref (m.withInstances tag (done ++ [b])) := by
  rw [put, modify_instance h, modify_length]

theorem valid_instance (hvalid : msg.Valid ref) {ms : List FieldMap} {i : Nat}
    (hi : i < ms.length) :
    (msg.put ref (m.withInstances tag ms)).Valid (ref.child tag i) := by
  refine valid_child.mpr ⟨hvalid.put _, ?_⟩
  rw [node, get_put hvalid]
  show i < (m.withInstances tag ms).getGroupCount tag
  rwa [FieldMap.getGroupCount_withInstances h]

end Message

/-! ## Groups that are still open -/

namespace ParseState

/-- An entry whose group has all its instances, and whose map `m` can be finished. -/
structure Complete (settings : SessionSettings) (e : ParserGroupInfo) (ref : GroupRef)
    (spec : GroupSpec) (m : FieldMap) : Prop where
  group : e.group = ref
  spec_eq : e.spec = some spec
  count : e.groupMaxCount ≤ e.groupCount
  nonempty : spec.empty = false
  required : settings.validateRequiredFields = true → ∀ field ∈ spec.fields, field.2 = true →
    m.has field.1 = true

/-- With the entries `opened` above it, a map is `raw`.  When they are finished, it is the
other one. -/
inductive Spine (settings : SessionSettings) : GroupRef → FieldMap → List ParserGroupInfo →
    List GroupSpec → FieldMap → Prop where
  | nil {ref : GroupRef} {m : FieldMap} : Spine settings ref m [] [] m
  | cons {ref : GroupRef} {m raw closed : FieldMap} {tag : Int} {done : List FieldMap}
      {opened : List ParserGroupInfo} {specs : List GroupSpec} {e : ParserGroupInfo}
      {spec : GroupSpec}
      (hopen : Spine settings (ref.child tag done.length) raw opened specs closed)
      (hfresh : tag ∉ AssocList.keys m.groups)
      (hentry : Complete settings e (ref.child tag done.length) spec raw) :
      Spine settings ref (m.withInstances tag (done ++ [raw])) (opened ++ [e]) (specs ++ [spec])
        (m.withInstances tag (done ++ [finishMap settings (some spec) closed]))

section

variable {settings : SessionSettings} {ref : GroupRef} {raw m : FieldMap}
  {opened : List ParserGroupInfo} {specs : List GroupSpec}

/-- The fields of a map may change while groups below it are open. -/
theorem Spine.acts (h : Spine settings ref raw opened specs m) {f : FieldMap → FieldMap}
    (hf : FieldMap.ActsOnFields f) : Spine settings ref (f raw) opened specs (f m) := by
  cases h with
  | nil => exact .nil
  | cons hopen hfresh hentry =>
      rw [hf.withInstances, hf.withInstances]
      exact .cons hopen (by rwa [hf.groups_eq]) hentry

/-- Open groups make no difference to the map itself. -/
theorem Spine.agree (h : Spine settings ref raw opened specs m) :
    raw.fields = m.fields ∧ raw.seen = m.seen ∧
      AssocList.keys raw.groups = AssocList.keys m.groups := by
  cases h with
  | nil => exact ⟨rfl, rfl, rfl⟩
  | cons _ _ _ =>
      refine ⟨rfl, rfl, ?_⟩
      rw [AssocList.keys, AssocList.keys, FieldMap.groups_withInstances,
        FieldMap.groups_withInstances, List.map_append, List.map_append]
      rfl

theorem has_congr {m m' : FieldMap} (h : m.fields = m'.fields) (tag : Int) :
    m.has tag = m'.has tag := by
  rw [FieldMap.has, FieldMap.has, h]

/-- A map with all fields that are required is finished. -/
theorem validateGroup_ok {st : ParseState} {base : Message} {spec : GroupSpec}
    (hmsg : st.msg = base.put ref m) (hvalid : base.Valid ref)
    (hrequired : settings.validateRequiredFields = true → ∀ field ∈ spec.fields,
      field.2 = true → m.has field.1 = true) :
    st.validateGroup settings ref (some spec) =
      .ok { st with msg := base.put ref (finishMap settings (some spec) m) } := by
  have hfinish : st.modify (finishMap settings (some spec)) ref =
      { st with msg := base.put ref (finishMap settings (some spec) m) } := by
    rw [modify, hmsg, Message.put_modify]
  have hsorted : (if settings.parsingReorderTags && spec.ordered then
      (st.modify (fun m => m.setSpec (some spec)) ref).modify FieldMap.sortFields ref
      else st.modify (fun m => m.setSpec (some spec)) ref) =
        { st with msg := base.put ref (finishMap settings (some spec) m) } := by
    rw [← hfinish, modify_modify]
    split
    next h =>
      congr 1
      funext m
      rw [finishMap, Option.any_some, if_pos h]
    next h =>
      congr 1
      funext m
      rw [finishMap, Option.any_some, if_neg h]
  have hhas : ∀ tag, (({ st with msg := base.put ref (finishMap settings (some spec) m) } :
      ParseState).get ref).has tag = m.has tag := by
    intro tag
    rw [get, Message.get_put hvalid, FieldMap.has, FieldMap.find?_finishMap]
    rfl
  rw [validateGroup, hsorted, if_neg]
  rw [Bool.and_eq_true, List.any_eq_true]
  rintro ⟨hvalidate, field, hfield, hmissing⟩
  rw [Bool.and_eq_true, hhas, Bool.not_eq_true'] at hmissing
  rw [hrequired hvalidate field hfield hmissing.1] at hmissing
  cases hmissing.2

/-- The open entries are finished from the top. -/
theorem Spine.popStack_eq (h : Spine settings ref raw opened specs m) :
    ∀ {base : Message} {st : ParseState} {keep : Nat} {rest : List ParserGroupInfo},
      base.Valid ref → st.msg = base.put ref raw → keep ≤ rest.length →
        popStack settings keep (opened ++ rest) st =
          popStack settings keep rest { st with msg := base.put ref m } := by
  induction h with
  | nil =>
      intro base st keep rest _ hmsg _
      rw [← hmsg, List.nil_append]
  | @cons ref m raw closed tag done opened specs e spec hopen hfresh hentry ih =>
      intro base st keep rest hvalid hmsg hkeep
      have hlast : ∀ m' : FieldMap, (base.put ref (m.withInstances tag (done ++ [raw]))).put
          (ref.child tag done.length) m' = base.put ref (m.withInstances tag (done ++ [m'])) :=
        fun m' => Message.put_last hfresh base ref done raw m'
      have hvalid' : (base.put ref (m.withInstances tag (done ++ [raw]))).Valid
          (ref.child tag done.length) := Message.valid_instance hfresh hvalid (by simp)
      rw [List.append_assoc, List.singleton_append, ih hvalid' (by rw [hlast, hmsg])
        (Nat.le_succ_of_le hkeep), popStack, if_pos (Nat.lt_succ_of_le hkeep), hentry.group,
        hentry.spec_eq]
      have hcount :
          (decide (e.groupTag > 0) && decide (e.groupCount < e.groupMaxCount)) = false := by
        rw [decide_eq_false (Nat.not_lt.mpr hentry.count), Bool.and_false]
      have hrequired : settings.validateRequiredFields = true → ∀ field ∈ spec.fields,
          field.2 = true → closed.has field.1 = true := by
        intro hvalidate field hfield hreq
        rw [← has_congr hopen.agree.1]
        exact hentry.required hvalidate field hfield hreq
      rw [hcount, validateGroup_ok rfl hvalid' hrequired, hlast]
      rfl

/-- Every open entry has a specification, which takes a field at least. -/
theorem Spine.exists_spec (h : Spine settings ref raw opened specs m) :
    ∀ e ∈ opened, ∃ spec ∈ specs, e.spec = some spec ∧ spec.empty = false := by
  induction h with
  | nil =>
      intro e he
      cases he
  | cons hopen hfresh hentry ih =>
      intro e he
      rcases List.mem_append.mp he with he | he
      · obtain ⟨spec, hspec, h⟩ := ih e he
        exact ⟨spec, List.mem_append_left _ hspec, h⟩
      · rw [List.mem_singleton.mp he]
        exact ⟨_, List.mem_append_right _ (List.mem_singleton_self _), hentry.spec_eq,
          hentry.nonempty⟩

end

/-! ## The entry of a map -/

/-- The entry `g` is in the stack, with the entries `opened` above it.  Its map is `raw`,
and `m` when these are finished. -/
structure Standing (settings : SessionSettings) (st : ParseState) (base : Message)
    (opened : List ParserGroupInfo) (specs : List GroupSpec) (g : ParserGroupInfo)
    (below : List ParserGroupInfo) (raw m : FieldMap) : Prop where
  stack : st.stack = opened ++ g :: below
  msg : st.msg = base.put g.group raw
  valid : base.Valid g.group
  spine : Spine settings g.group raw opened specs m

section

variable {settings : SessionSettings} {dict : Dictionary} {st : ParseState} {base : Message}
  {opened : List ParserGroupInfo} {specs : List GroupSpec} {g : ParserGroupInfo}
  {below : List ParserGroupInfo} {raw m : FieldMap} {f : WireField} {spec : GroupSpec}

theorem Standing.get_eq (h : Standing settings st base opened specs g below raw m) :
    st.get g.group = raw := by
  rw [get, h.msg, Message.get_put h.valid]

theorem trySetField_refused {e : ParserGroupInfo} (hspec : e.spec = some spec)
    (hrefused : refusedBy [spec] f.tag = true) (groupIdx : Nat) (parent : Option ParserGroupInfo) :
    st.trySetField settings dict e groupIdx parent f = .ok ⟨st, e, [], none⟩ := by
  rw [refusedBy, List.all_cons, List.all_nil, Bool.and_true, Bool.and_eq_true, Bool.not_eq_true',
    Option.isNone_iff_eq_none] at hrefused
  simp only [trySetField, hspec, hrefused.1, hrefused.2, if_neg Bool.false_ne_true]

theorem refusedBy_of_mem {tag : Int} (h : refusedBy specs tag = true) (hspec : spec ∈ specs) :
    refusedBy [spec] tag = true := by
  rw [refusedBy, List.all_eq_true] at h
  rw [refusedBy, List.all_cons, List.all_nil, Bool.and_true]
  exact h spec hspec

theorem turn_of_refused {stack : List ParserGroupInfo}
    (h : ∀ e ∈ stack, ∃ spec, e.spec = some spec ∧ refusedBy [spec] f.tag = true) :
    Turn settings dict f st (stack ++ g :: below) g below := by
  induction stack with
  | nil => exact .here
  | cons e stack ih =>
      obtain ⟨spec, hspec, hrefused⟩ := h e (List.mem_cons_self ..)
      exact .later (trySetField_refused hspec hrefused _ _)
        (ih fun e he => h e (List.mem_cons_of_mem _ he))

/-- A field that the open groups refuse comes to the entry below them. -/
theorem Standing.dispatchField_eq (h : Standing settings st base opened specs g below raw m)
    (hrefused : refusedBy specs f.tag = true) (hspec : g.spec = some spec)
    (hempty : spec.empty = false) {r : Tried} {idx : Nat}
    (htry : st.trySetField settings dict g below.length below.head? f = .ok r)
    (hidx : r.idx = some idx) :
    dispatchField settings dict f st = overwriteStack settings (idx + 1)
      { r.st with stack := r.pushed ++ opened ++ r.group :: below } := by
  have hturn : Turn settings dict f st st.stack g below := by
    rw [h.stack]
    refine turn_of_refused fun e he => ?_
    obtain ⟨spec, hmem, hspec, -⟩ := h.spine.exists_spec e he
    exact ⟨spec, hspec, refusedBy_of_mem hrefused hmem⟩
  have hasked : ∃ top spec, st.stack.head? = some top ∧ top.spec = some spec ∧
      spec.empty = false := by
    rw [h.stack]
    cases opened with
    | nil => exact ⟨g, spec, rfl, hspec, hempty⟩
    | cons e opened =>
        obtain ⟨spec, -, hspec, hempty⟩ := h.spine.exists_spec e (List.mem_cons_self ..)
        exact ⟨e, spec, rfl, hspec, hempty⟩
  obtain ⟨before, hstack, hdispatch⟩ := Tries.dispatchField_ok ⟨hasked, hturn⟩ htry hidx
  rw [h.stack] at hstack
  rw [hdispatch, List.append_cancel_right hstack]

theorem noteLength_ok (h : dict.hasLength f.tag f.val = true) (st : ParseState) :
    st.noteLength settings dict f =
      .ok { st with dataLength := (dict.lengthOf f.tag f.val).or st.dataLength } := by
  rw [Dictionary.hasLength, Bool.or_eq_true, decide_eq_true_eq, decide_eq_true_eq] at h
  rw [noteLength, Dictionary.lengthOf]
  split
  next htype =>
    rw [if_neg (Int.not_lt.mpr (h.resolve_left (not_not.mpr htype)))]
    rfl
  next => rfl

theorem detectDup_new {m : FieldMap} {tag : Int} (hseen : tag ∉ m.seen)
    (hfields : tag ∉ AssocList.keys m.fields) (value : Bytes) :
    (m.setFieldViewOrDetectDup tag value).1 = false := by
  rw [FieldMap.setFieldViewOrDetectDup]
  split
  · rfl
  · rw [if_neg (by rwa [AssocList.find?_isSome_iff])]

theorem nonempty_of_hasField {tag : Int} (h : spec.hasField tag = true) : spec.empty = false := by
  cases hf : spec.fields with
  | nil =>
      rw [GroupSpec.hasField, hf] at h
      cases h
  | cons p fields => rw [GroupSpec.empty, hf, List.isEmpty_cons, Bool.false_and]

theorem detectDup_congr {m m' : FieldMap} (hfields : m.fields = m'.fields)
    (hseen : m.seen = m'.seen) (tag : Int) (value : Bytes) :
    (m.setFieldViewOrDetectDup tag value).1 =
      (m'.setFieldViewOrDetectDup tag value).1 := by
  simp only [FieldMap.setFieldViewOrDetectDup, hfields, hseen]
  split
  · split <;> rfl
  · split <;> rfl

/-- An entry adds a field that is new to its map. -/
theorem trySetField_field (hmsg : st.msg = base.put g.group raw) (hvalid : base.Valid g.group)
    (hspec : g.spec = some spec) (hfield : spec.hasField f.tag = true)
    (hlength : dict.hasLength f.tag f.val = true)
    (hnew : (raw.setFieldViewOrDetectDup f.tag f.val).1 = false) (groupIdx : Nat)
    (parent : Option ParserGroupInfo) :
    st.trySetField settings dict g groupIdx parent f =
      .ok ⟨{ st.noteBodyLength f with
        msg := base.put g.group (raw.setFieldViewOrDetectDup f.tag f.val).2
        dataLength := (dict.lengthOf f.tag f.val).or st.dataLength }, g, [], some groupIdx⟩ := by
  have hmodify : st.modify (fun m => (m.setFieldViewOrDetectDup f.tag f.val).2) g.group =
      { st with msg := base.put g.group (raw.setFieldViewOrDetectDup f.tag f.val).2 } := by
    rw [modify, hmsg, Message.put_modify]
  have hget : st.get g.group = raw := by
    rw [get, hmsg, Message.get_put hvalid]
  rw [trySetField, hspec]
  dsimp only
  rw [if_pos hfield, hget, hnew, if_neg Bool.false_ne_true, hmodify, noteLength_ok hlength]
  unfold noteBodyLength
  split <;> rfl

/-- A plain field is added to the map, and the groups that were open are finished. -/
theorem Standing.field (h : Standing settings st base opened specs g below raw m)
    (hspec : g.spec = some spec) (htakes : spec.takes dict specs f.tag f.val = true)
    (hseen : f.tag ∉ m.seen) (hfields : f.tag ∉ AssocList.keys m.fields) :
    dispatchField settings dict f st = .ok { st.noteBodyLength f with
      msg := base.put g.group (m.setFieldViewOrDetectDup f.tag f.val).2
      stack := g :: below
      dataLength := (dict.lengthOf f.tag f.val).or st.dataLength } := by
  rw [GroupSpec.takes, Bool.and_eq_true, Bool.and_eq_true, Bool.and_eq_true] at htakes
  obtain ⟨⟨⟨hfield, hrefused⟩, -⟩, hlength⟩ := htakes
  obtain ⟨hagree, hagree', -⟩ := h.spine.agree
  have hempty : spec.empty = false := nonempty_of_hasField hfield
  have hnew : (raw.setFieldViewOrDetectDup f.tag f.val).1 = false :=
    detectDup_new (by rwa [hagree']) (by rwa [hagree]) f.val
  have htry := @trySetField_field settings dict _ _ _ raw f _ h.msg h.valid hspec hfield
    hlength hnew below.length below.head?
  have hspine := h.spine.acts (FieldMap.actsOnFields_detectDup f.tag f.val)
  rw [h.dispatchField_eq hrefused hspec hempty htry rfl]
  refine (hspine.popStack_eq h.valid rfl (Nat.le_refl (below.length + 1))).trans ?_
  rw [popStack, if_neg (Nat.lt_irrefl _)]

theorem noteBodyLength_of_ne (h : f.tag ≠ Field.bodyLength) (st : ParseState) :
    st.noteBodyLength f = st := by
  rw [noteBodyLength, if_neg h]

theorem lengthOf_of_ne (h : dict.getFieldType f.tag ≠ .length) :
    dict.lengthOf f.tag f.val = none := by
  rw [Dictionary.lengthOf, if_neg h]

theorem nonempty_of_findGroup {groupSpec : GroupSpec} {tag : Int}
    (h : spec.findGroup tag = some groupSpec) : spec.empty = false := by
  cases hf : spec.groups with
  | nil =>
      rw [GroupSpec.findGroup, hf] at h
      cases h
  | cons p groups => rw [GroupSpec.empty, hf, List.isEmpty_cons, Bool.and_false]

/-- An entry adds a count that is new to its map, and opens the first instance of the group. -/
theorem trySetField_group {groupSpec : GroupSpec} (hmsg : st.msg = base.put g.group m)
    (hvalid : base.Valid g.group) (hspec : g.spec = some spec)
    (hfield : spec.hasField f.tag = false) (hgroup : spec.findGroup f.tag = some groupSpec)
    (hfields : f.tag ∉ AssocList.keys m.fields) (hgroups : f.tag ∉ AssocList.keys m.groups)
    (htype : dict.getFieldType f.tag ≠ .length) (htag : f.tag ≠ Field.bodyLength)
    (hcount : 0 ≤ fastParseTag f.val) (hstack : st.stack.length < groupStackSlots)
    (groupIdx : Nat) (parent : Option ParserGroupInfo) :
    st.trySetField settings dict g groupIdx parent f =
      .ok ⟨{ st with
        msg := base.put g.group ((m.withField f.tag f.val).withInstances f.tag [FieldMap.new]) }, g,
        [openedInfo g groupSpec f], some (groupIdx + 1)⟩ := by
  have hget : st.get g.group = m := by
    rw [get, hmsg, Message.get_put hvalid]
  have hnone : m.getGroupCount f.tag = 0 := by
    rw [FieldMap.getGroupCount, AssocList.find?_eq_none_iff.mpr hgroups]
    rfl
  have hmap : (m.addGroup f.tag).setFieldView f.tag f.val false =
      (m.withField f.tag f.val).withInstances f.tag [FieldMap.new] := by
    rw [FieldMap.fields_setFieldView, FieldMap.addGroup_of_not_mem hgroups,
      FieldMap.fields_withInstances, AssocList.set_of_not_mem _ hfields]
    rfl
  have hmodify : (st.modify (fun m => m.addGroup f.tag) g.group).setField settings dict g.group f =
      .ok { st with
        msg := base.put g.group
          ((m.withField f.tag f.val).withInstances f.tag [FieldMap.new]) } := by
    have hlength : dict.hasLength f.tag f.val = true := by
      rw [Dictionary.hasLength, decide_eq_true htype, Bool.true_or]
    rw [setField, noteLength_ok hlength, lengthOf_of_ne htype, Option.none_or]
    show Except.ok _ = _
    rw [noteBodyLength_of_ne htag, ← hmap, modify, modify, hmsg, Message.put_modify,
      Message.put_modify]
  rw [trySetField, hspec]
  dsimp only
  rw [hfield, if_neg Bool.false_ne_true, hgroup]
  dsimp only
  rw [hget, hnone, if_neg (Nat.lt_irrefl 0), if_neg (Int.not_lt.mpr hcount),
    if_neg (Nat.not_le.mpr hstack), hmodify]
  rfl

/-- A count is added to the map, and the first instance of its group is opened. -/
theorem Standing.openGroup {groupSpec : GroupSpec} (h : Standing settings st base [] [] g below m m)
    (hspec : g.spec = some spec) (hfield : spec.hasField f.tag = false)
    (hgroup : spec.findGroup f.tag = some groupSpec) (hfields : f.tag ∉ AssocList.keys m.fields)
    (hgroups : f.tag ∉ AssocList.keys m.groups) (htype : dict.getFieldType f.tag ≠ .length)
    (htag : f.tag ≠ Field.bodyLength) (hcount : 0 ≤ fastParseTag f.val)
    (hroom : below.length + 1 < groupStackSlots) :
    dispatchField settings dict f st = .ok { st with
      msg := base.put g.group ((m.withField f.tag f.val).withInstances f.tag [FieldMap.new])
      stack := openedInfo g groupSpec f :: g :: below } := by
  have hstack : st.stack.length < groupStackSlots := by rwa [h.stack]
  have htry := @trySetField_group settings dict st base g m f spec groupSpec h.msg h.valid hspec
    hfield hgroup hfields hgroups htype htag hcount hstack below.length below.head?
  rw [h.dispatchField_eq rfl hspec (nonempty_of_findGroup hgroup) htry rfl, overwriteStack]
  show popStack _ _ (openedInfo g groupSpec f :: g :: below) _ = _
  rw [popStack, List.length_cons, if_neg (Nat.lt_irrefl _)]

theorem handleRepeatingTag_next {st' : ParseState} {p e : ParserGroupInfo}
    (hvalidate : st.validateGroup settings e.group e.spec = .ok st') (htag : 0 < e.groupTag)
    (hcount : e.groupCount ≠ e.groupMaxCount) {i : Nat}
    (hi : (st'.get p.group).getGroupCount e.groupTag = i) (groupIdx : Nat) :
    st.handleRepeatingTag settings dict e groupIdx (some p) f =
      .ok ⟨((st'.modify (fun m => m.addGroup e.groupTag) p.group).modify
          (fun m => (m.setFieldViewOrDetectDup f.tag f.val).2)
          (p.group.child e.groupTag i)).announce dict f,
        { e with
          group := p.group.child e.groupTag i
          groupCount := e.groupCount + 1 }, [], some groupIdx⟩ := by
  rw [handleRepeatingTag, if_pos htag, if_neg hcount, hvalidate, announce_eq, ← hi]
  rfl

theorem announced_eq (h : dict.hasLength f.tag f.val = true) :
    announced dict f = dict.lengthOf f.tag f.val := by
  rw [Dictionary.hasLength, Bool.or_eq_true, decide_eq_true_eq, decide_eq_true_eq] at h
  rw [announced, Dictionary.lengthOf]
  split
  next hboth => rw [if_pos hboth.1]
  next hboth => rw [if_neg fun htype => hboth ⟨htype, h.resolve_left (not_not.mpr htype)⟩]

/-- A field that the current instance of a group has already starts the next one. -/
theorem Standing.next {p e : ParserGroupInfo} {x : FieldMap} {done : List FieldMap}
    (h : Standing settings st (base.put p.group (x.withInstances e.groupTag (done ++ [.new])))
      opened specs e (p :: below) raw m)
    (hgroup : e.group = p.group.child e.groupTag done.length) (hspec : e.spec = some spec)
    (htag : 0 < e.groupTag) (hvalid : base.Valid p.group)
    (hfresh : e.groupTag ∉ AssocList.keys x.groups) (hcount : e.groupCount < e.groupMaxCount)
    (htakes : spec.takes dict specs f.tag f.val = true)
    (hdup : (m.setFieldViewOrDetectDup f.tag f.val).1 = true)
    (hrequired : settings.validateRequiredFields = true → ∀ field ∈ spec.fields, field.2 = true →
      m.has field.1 = true) :
    dispatchField settings dict f st = .ok { st with
      msg := base.put p.group (x.withInstances e.groupTag
        (done ++ [finishMap settings (some spec) m,
          (FieldMap.new.setFieldViewOrDetectDup f.tag f.val).2]))
      stack := { e with
        group := p.group.child e.groupTag (done.length + 1)
        groupCount := e.groupCount + 1 } :: p :: below
      dataLength := (dict.lengthOf f.tag f.val).or st.dataLength } := by
  rw [GroupSpec.takes, Bool.and_eq_true, Bool.and_eq_true, Bool.and_eq_true] at htakes
  obtain ⟨⟨⟨hfield, hrefused⟩, -⟩, hlength⟩ := htakes
  obtain ⟨hagree, hagree', -⟩ := h.spine.agree
  have hdup' : (raw.setFieldViewOrDetectDup f.tag f.val).1 = true := by
    rw [← hdup]
    exact detectDup_congr hagree hagree' f.tag f.val
  have hraw : settings.validateRequiredFields = true → ∀ field ∈ spec.fields,
      field.2 = true → raw.has field.1 = true := by
    intro hvalidate field hfield hreq
    rw [has_congr hagree]
    exact hrequired hvalidate field hfield hreq
  -- The map of the current instance is finished before the groups that are open in it.
  have hfinish : st.validateGroup settings e.group (some spec) = .ok { st with
      msg := base.put p.group (x.withInstances e.groupTag
        (done ++ [finishMap settings (some spec) raw])) } := by
    rw [validateGroup_ok h.msg h.valid hraw, hgroup, Message.put_last hfresh]
  generalize hfin : finishMap settings (some spec) raw = fin at hfinish
  generalize hfirst : (FieldMap.new.setFieldViewOrDetectDup f.tag f.val).2 = first
  have hadd : (x.withInstances e.groupTag (done ++ [fin])).addGroup e.groupTag =
      x.withInstances e.groupTag (done ++ [fin, FieldMap.new]) := by
    rw [FieldMap.addGroup_withInstances hfresh, List.append_assoc]
    rfl
  have hset : (base.put p.group (x.withInstances e.groupTag (done ++ [fin, FieldMap.new]))).modify
      (fun m => (m.setFieldViewOrDetectDup f.tag f.val).2)
      (p.group.child e.groupTag (done.length + 1)) =
        base.put p.group (x.withInstances e.groupTag (done ++ [fin, first])) := by
    have hlist := Message.modify_length (done ++ [fin]) [] FieldMap.new
      fun m => (m.setFieldViewOrDetectDup f.tag f.val).2
    rw [List.length_append, List.append_assoc, List.append_assoc, hfirst] at hlist
    rw [Message.modify_instance hfresh]
    exact congrArg (fun ms => base.put p.group (x.withInstances e.groupTag ms)) hlist
  have htry : st.trySetField settings dict e (p :: below).length (p :: below).head? f =
      .ok ⟨{ st with
        msg := base.put p.group (x.withInstances e.groupTag (done ++ [fin, first]))
        dataLength := (dict.lengthOf f.tag f.val).or st.dataLength },
        { e with
          group := p.group.child e.groupTag (done.length + 1)
          groupCount := e.groupCount + 1 }, [], some (p :: below).length⟩ := by
    have hcounted : (({ st with msg := base.put p.group (x.withInstances e.groupTag
        (done ++ [fin])) } : ParseState).get p.group).getGroupCount e.groupTag =
        done.length + 1 := by
      rw [get, Message.get_put hvalid, FieldMap.getGroupCount_withInstances hfresh,
        List.length_append]
      rfl
    have hrepeat : st.trySetField settings dict e (p :: below).length (p :: below).head? f =
        st.handleRepeatingTag settings dict e (p :: below).length (some p) f := by
      rw [trySetField, hspec]
      dsimp only
      rw [if_pos hfield, h.get_eq, hdup', if_pos rfl, List.head?_cons]
    have hmsg : ((base.put p.group (x.withInstances e.groupTag (done ++ [fin]))).modify
        (fun m => m.addGroup e.groupTag) p.group).modify
        (fun m => (m.setFieldViewOrDetectDup f.tag f.val).2)
        (p.group.child e.groupTag (done.length + 1)) =
          base.put p.group (x.withInstances e.groupTag (done ++ [fin, first])) := by
      rw [Message.put_modify, hadd, hset]
    rw [hrepeat, handleRepeatingTag_next (hspec ▸ hfinish) htag (Nat.ne_of_lt hcount) hcounted,
      announce, announced_eq hlength, ← hmsg]
    rfl
  have hempty : spec.empty = false := nonempty_of_hasField hfield
  have hspine := h.spine.acts (FieldMap.actsOnFields_finishMap settings (some spec))
  rw [hfin, hgroup] at hspine
  -- The groups that are open in it are finished last.
  have hput : ∀ b, (base.put p.group (x.withInstances e.groupTag (done ++ [fin, first]))).put
      (p.group.child e.groupTag done.length) b =
        base.put p.group (x.withInstances e.groupTag (done ++ [b, first])) := by
    intro b
    rw [Message.put, Message.modify_instance hfresh, Message.modify_length]
  have hvalid' : (base.put p.group (x.withInstances e.groupTag (done ++ [fin, first]))).Valid
      (p.group.child e.groupTag done.length) := Message.valid_instance hfresh hvalid (by simp)
  rw [h.dispatchField_eq hrefused hspec hempty htry rfl]
  refine (hspine.popStack_eq hvalid' (hput fin).symm (Nat.le_refl (below.length + 2))).trans ?_
  rw [popStack, if_neg (by simp), hput]

end

end ParseState

end OpenFix
