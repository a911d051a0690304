import OpenFix.Lib.Ledger
import OpenFix.Nodes

/-!
# The pairs of a message

The pairs of tags and values that a message holds, in its three maps and in all group
instances below them, are a multiset.  For each change that the parser makes to a map,
it is said here what it adds to the pairs and what it loses of them.

The parser reaches a map by a path.  A change of one map leaves the fields of all
others alone.
-/

namespace OpenFix

open Ledger

namespace FieldMap

/-- The pairs of a map without its groups. -/
def ownPairs (m : FieldMap) : Multiset (Int × Bytes) :=
  (m.fields : Multiset (Int × View)).map fun p => (p.1, m.read p.1 p.2)

mutual

def pairs : FieldMap → Multiset (Int × Bytes)
  | ⟨fields, owned, capacity, groups, spec, seen⟩ =>
      let m : FieldMap := ⟨fields, owned, capacity, groups, spec, seen⟩
      m.ownPairs + groupPairs groups

def groupPairs : List (Int × List FieldMap) → Multiset (Int × Bytes)
  | [] => 0
  | (_, ms) :: rest => instancePairs ms + groupPairs rest

def instancePairs : List FieldMap → Multiset (Int × Bytes)
  | [] => 0
  | m :: ms => m.pairs + instancePairs ms

end

theorem pairs_eq (m : FieldMap) : m.pairs = m.ownPairs + groupPairs m.groups := by
  cases m
  simp only [pairs]

@[simp] theorem pairs_new : new.pairs = 0 := by
  simp [pairs_eq, ownPairs, groupPairs, new]

end FieldMap

def Message.pairs (msg : Message) : Multiset (Int × Bytes) :=
  msg.header.pairs + msg.body.pairs + msg.trailer.pairs

/-! ## One map -/

namespace FieldMap

/-- What the fields of a map add and lose, its pairs add and lose. -/
theorem balanced_of_fields {m m' : FieldMap} {added lost : Multiset (Int × View)}
    (howned : m'.owned = m.owned) (hgroups : m'.groups = m.groups)
    (h : Balanced (m.fields : Multiset (Int × View)) added lost m'.fields) :
    Balanced m.pairs (added.map fun p => (p.1, m.read p.1 p.2))
      (lost.map fun p => (p.1, m.read p.1 p.2)) m'.pairs := by
  have hread : m'.ownPairs = (m'.fields : Multiset (Int × View)).map
      fun p => (p.1, m.read p.1 p.2) := by
    rw [ownPairs]
    congr 1
    funext p
    exact congrArg (Prod.mk p.1) (read_congr (by rw [howned]) p.2)
  rw [pairs_eq, pairs_eq, hgroups]
  apply Balanced.add_right
  show _ + _ = _ + _
  rw [hread, ownPairs, ← Multiset.map_add, ← Multiset.map_add, h]

/-- An assignment loses the value that the tag had. -/
theorem balanced_setFieldView (m : FieldMap) (tag : Int) (value : Bytes) :
    Balanced m.pairs {(tag, value)}
      (((m.field? tag).map fun v => (tag, v)).toList : List (Int × Bytes))
      (m.setFieldView tag value false).pairs := by
  rw [fields_setFieldView, field?]
  let m' : FieldMap := { m with fields := AssocList.set tag (.text value) m.fields }
  cases hfind : AssocList.find? tag m.fields with
  | none =>
      have hfields : Balanced (m.fields : Multiset (Int × View)) {(tag, .text value)} 0 m'.fields :=
        balanced_set_of_find?_none hfind (.text value)
      exact @balanced_of_fields m m' _ _ rfl rfl hfields
  | some w =>
      have hfields : Balanced (m.fields : Multiset (Int × View)) {(tag, .text value)} {(tag, w)}
          m'.fields := balanced_set hfind
      exact @balanced_of_fields m m' _ _ rfl rfl hfields

/-- A field that is appended loses nothing. -/
theorem balanced_append {m : FieldMap} {tag : Int} {value : Bytes}
    (h : (m.setFieldViewOrDetectDup tag value).1 = false) :
    (m.setFieldViewOrDetectDup tag value).2.fields = m.fields ++ [(tag, .text value)] ∧
      (m.setFieldViewOrDetectDup tag value).2.groups = m.groups ∧
      Balanced m.pairs {(tag, value)} 0 (m.setFieldViewOrDetectDup tag value).2.pairs := by
  obtain ⟨hfields, howned⟩ := fields_append h
  have hgroups := m.groups_setFieldViewOrDetectDup tag value
  have hbalanced : Balanced (m.fields : Multiset (Int × View)) {(tag, .text value)} 0
      (m.setFieldViewOrDetectDup tag value).2.fields := by
    rw [hfields]
    show _ + 0 = _
    rw [add_zero, ← Multiset.coe_add, Multiset.coe_singleton]
  exact ⟨hfields, hgroups, balanced_of_fields howned hgroups hbalanced⟩

/-! ## The maps below a map -/

/-- An empty instance has no pairs. -/
theorem instancePairs_append_new (ms : List FieldMap) :
    instancePairs (ms ++ [new]) = instancePairs ms := by
  induction ms with
  | nil =>
      show new.pairs + instancePairs [] = instancePairs []
      rw [pairs_new, zero_add]
  | cons m ms ih => rw [List.cons_append, instancePairs, instancePairs, ih]

theorem groupPairs_insert (tag : Int) (groups : List (Int × List FieldMap)) :
    groupPairs (AssocList.insert tag [] groups) = groupPairs groups := by
  have happend : groupPairs (groups ++ [(tag, [])]) = groupPairs groups := by
    induction groups with
    | nil => exact zero_add (groupPairs [])
    | cons p groups ih =>
        obtain ⟨tag', ms⟩ := p
        rw [List.cons_append, groupPairs, groupPairs, ih]
  rw [AssocList.insert]
  split
  · rfl
  · exact happend

theorem groupPairs_modify {F : List FieldMap → List FieldMap}
    (h : ∀ ms, instancePairs (F ms) = instancePairs ms) (tag : Int)
    (groups : List (Int × List FieldMap)) :
    groupPairs (AssocList.modify tag F groups) = groupPairs groups := by
  induction groups with
  | nil => rfl
  | cons p groups ih =>
      obtain ⟨tag', ms⟩ := p
      rw [AssocList.modify]
      split
      · rw [groupPairs, groupPairs, h]
      · rw [groupPairs, groupPairs, ih]

theorem pairs_addGroup (m : FieldMap) (tag : Int) : (m.addGroup tag).pairs = m.pairs := by
  rw [pairs_eq, pairs_eq]
  show m.ownPairs + groupPairs (AssocList.modify tag _ (AssocList.insert tag [] m.groups)) = _
  rw [groupPairs_modify instancePairs_append_new, groupPairs_insert]

variable {added lost : Multiset (Int × Bytes)} {f : FieldMap → FieldMap}

theorem balanced_instancePairs {ms : List FieldMap} {i : Nat} {m : FieldMap}
    (hm : ms[i]? = some m) (hf : Balanced m.pairs added lost (f m).pairs) :
    Balanced (instancePairs ms) added lost (instancePairs (ms.modify i f)) := by
  induction ms generalizing i with
  | nil => cases hm
  | cons m' ms ih =>
      cases i with
      | zero =>
          cases hm
          exact hf.add_right (instancePairs ms)
      | succ i => exact (ih hm).add_left m'.pairs

theorem balanced_groupPairs {tag : Int} {groups : List (Int × List FieldMap)} {ms : List FieldMap}
    {F : List FieldMap → List FieldMap} (hms : AssocList.find? tag groups = some ms)
    (hF : Balanced (instancePairs ms) added lost (instancePairs (F ms))) :
    Balanced (groupPairs groups) added lost (groupPairs (AssocList.modify tag F groups)) := by
  induction groups with
  | nil => cases hms
  | cons p groups ih =>
      obtain ⟨tag', ms'⟩ := p
      rw [AssocList.modify]
      by_cases htag : tag' = tag
      · subst htag
        rw [AssocList.find?_cons_self] at hms
        cases hms
        rw [if_pos rfl]
        exact hF.add_right (groupPairs groups)
      · rw [AssocList.find?_cons_ne htag] at hms
        rw [if_neg htag]
        exact (ih hms).add_left (instancePairs ms')

/-- What a map below loses, the map loses. -/
theorem balanced_modifyAt {path : List (Int × Nat)} {m : FieldMap} (h : Valid path m)
    (hf : Balanced (getAt path m).pairs added lost (f (getAt path m)).pairs) :
    Balanced m.pairs added lost (modifyAt f path m).pairs := by
  induction path generalizing m with
  | nil => exact hf
  | cons p path ih =>
      obtain ⟨tag, i⟩ := p
      obtain ⟨hi, hvalid⟩ := h
      rw [pairs_eq m, pairs_eq (modifyAt f ((tag, i) :: path) m)]
      refine Balanced.add_left ?_ m.ownPairs
      cases hfind : AssocList.find? tag m.groups with
      | none =>
          rw [getGroupCount, hfind] at hi
          exact absurd hi (Nat.not_lt_zero i)
      | some ms =>
          rw [getGroupCount, hfind, Option.getD_some] at hi
          have hinstance : ms[i]? = some (m.instanceAt tag i) := by
            rw [instanceAt, hfind, Option.getD_some, List.getElem?_eq_getElem hi]
            rfl
          exact balanced_groupPairs hfind (balanced_instancePairs hinstance (ih hvalid hf))

/-- A field that is removed has the tag. -/
theorem exists_balanced_removeField (m : FieldMap) (tag : Int) :
    ∃ lost, Balanced m.pairs 0 lost (m.removeField tag).pairs ∧
      lost.filter (fun q => q.1 ≠ tag) = 0 := by
  obtain ⟨lost, hlost, hkey⟩ := exists_balanced_erase tag m.fields
  have hpairs := @balanced_of_fields m (m.removeField tag) _ _ rfl rfl hlost
  refine ⟨_, hpairs, Multiset.filter_eq_nil.mpr fun q hq hne => hne ?_⟩
  obtain ⟨p, hp, rfl⟩ := Multiset.mem_map.mp hq
  exact hkey p hp

end FieldMap

/-! ## A message -/

namespace Message

variable {msg : Message} {ref : GroupRef} {added lost : Multiset (Int × Bytes)}
  {f : FieldMap → FieldMap}

/-- What a map of a message loses, the message loses. -/
theorem balanced_modify (h : msg.Valid ref)
    (hf : Balanced (msg.get ref).pairs added lost (f (msg.get ref)).pairs) :
    Balanced msg.pairs added lost (msg.modify f ref).pairs := by
  obtain ⟨sec, path⟩ := ref
  have hmap := FieldMap.balanced_modifyAt h hf
  cases sec with
  | header => exact (hmap.add_right msg.body.pairs).add_right msg.trailer.pairs
  | body => exact (hmap.add_left msg.header.pairs).add_right msg.trailer.pairs
  | trailer => exact hmap.add_left (msg.header.pairs + msg.body.pairs)

end Message

end OpenFix
