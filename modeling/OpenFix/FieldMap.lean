import Mathlib.Data.List.Sort
import OpenFix.Lib.AssocList
import OpenFix.Fields

/-!
# Field maps

A `FieldMap` is an insertion-ordered map from tags to *views* of bytes, with the
group instances of its repeating groups.  A view denotes either bytes that
outlive the map (`text`: the text of a parsed message, a constant of the
session) or the first `len` bytes of the string the map itself owns for the tag
(`owned`).

Owned strings are overwritten in place by `setField`.  `assignBuffer` is
`std::string::assign` on the buffer of such a string.  The bytes behind the
terminating zero stay what they were: a view that was taken earlier and is not
replaced shows the buffer cut to its own, old, length.  A value that outgrows the
capacity of the string gets a new buffer, and such a view then dangles.
`insertFieldView` replaces the stored view on every path but one, where the
ordered insertion finds the place of a tag that is already stored further on
(`keepsView`; `LinkedHashMap::insert` then does nothing).

The owned strings live in a vector with `capacity` reserved slots.  A new string
beyond them moves all the others, and the views of them dangle.  `storageFull`
says that this happens, `strands` that the stored view of the tag is left behind
by its own string.  The session code asks both before it sets a field of a map
that it did not build itself.

The two lookup tables of a `GroupSpec` are filled by `buildLookup` from the keys
of its maps, and `hasField` and `findGroup` are stated on the maps.
-/

namespace OpenFix

/-! ## Specifications -/

/-- The field types of a dictionary. -/
inductive FieldType where
  | unknown
  | int | length | numInGroup | seqNum | tagNum | dayOfMonth
  | float | qty | price | priceOffset | amt | percentage
  | char | boolean
  | string | multipleValueString | country | currency | exchange | monthYear
  | utcTimestamp | utcTimeOnly | utcDateOnly | localMktDate
  | data
deriving Repr, DecidableEq

/-- What a header, a trailer, a message or a group may hold. -/
structure GroupSpec where
  /-- The plain fields, with whether they are required. -/
  fields : List (Int × Bool)
  /-- The repeating groups, by the tag of their count. -/
  groups : List (Int × GroupSpec)
  /-- Insertions follow `fieldOrder`. -/
  ordered : Bool
  /-- The tags in the order of the dictionary text. -/
  fieldOrder : List Int

namespace GroupSpec

def empty (spec : GroupSpec) : Bool := spec.fields.isEmpty && spec.groups.isEmpty

def hasField (spec : GroupSpec) (tag : Int) : Bool := (AssocList.find? tag spec.fields).isSome

def findGroup (spec : GroupSpec) (tag : Int) : Option GroupSpec := AssocList.find? tag spec.groups

end GroupSpec

/-! ## Views and owned strings -/

/-- A view of the bytes of a field value. -/
inductive View where
  /-- Bytes outside of the map. -/
  | text (v : Bytes)
  /-- The first `len` bytes of the string owned for the tag. -/
  | owned (len : Nat)
deriving Repr, DecidableEq

/-- The characters for which a string has room in itself. -/
def localCapacity : Nat := 15

/-- The buffer of a fresh string: its bytes, the terminating zero and the room that
is left. -/
def newBuffer (v : Bytes) : Bytes := v ++ 0 :: List.replicate (localCapacity - v.length) 0

/-- `std::string::assign`: the new bytes and their terminating zero, over the
start of the old buffer or of one with at least twice its capacity. -/
def assignBuffer (buf v : Bytes) : Bytes :=
  if v.length < buf.length then v ++ 0 :: buf.drop (v.length + 1)
  else v ++ 0 :: List.replicate (2 * (buf.length - 1) - v.length) 0

/-- `OWNED_STORAGE_CAPACITY`. -/
def ownedStorageCapacity : Nat := 16

/-- A map of fields and of the groups below them. -/
structure FieldMap where
  /-- The fields, in order. -/
  fields : List (Int × View)
  /-- The buffers of the owned strings, by tag. -/
  owned : List (Int × Bytes)
  /-- The slots reserved for owned strings. -/
  capacity : Nat
  /-- The instances of the groups, by the tag of their count. -/
  groups : List (Int × List FieldMap)
  /-- The specification the map was given. -/
  spec : Option GroupSpec
  /-- The tags in `[0, 1024)` the parser has seen in this map. -/
  seen : List Int

namespace FieldMap

/-- A default-constructed map. -/
def new : FieldMap := ⟨[], [], 0, [], none, []⟩

/-- The bytes that the view of a tag denotes. -/
def read (m : FieldMap) (tag : Int) : View → Bytes
  | .text v => v
  | .owned len => ((AssocList.find? tag m.owned).getD []).take len

/-! ## Access -/

/-- The value of a field, if the map has it. -/
def field? (m : FieldMap) (tag : Int) : Option Bytes := (AssocList.find? tag m.fields).map (m.read tag)

def getField (m : FieldMap) (tag : Int) : Except Exn Bytes :=
  match m.field? tag with
  | some v => .ok v
  | none => .error (.fieldNotFound tag)

/-- `val` stays 0 when the field does not start with a number that fits. -/
def intOf (v : Bytes) : Int := (fromCharsInt v).getD 0

def getIntField (m : FieldMap) (tag : Int) : Except Exn Int :=
  match m.field? tag with
  | some v => .ok (intOf v)
  | none => .error (.fieldNotFound tag)

def tryGetBool (m : FieldMap) (tag : Int) : Bool := m.field? tag = some [89]

def has (m : FieldMap) (tag : Int) : Bool := (AssocList.find? tag m.fields).isSome

def removeField (m : FieldMap) (tag : Int) : FieldMap :=
  { m with fields := AssocList.erase tag m.fields }

def getGroupCount (m : FieldMap) (tag : Int) : Nat :=
  ((AssocList.find? tag m.groups).getD []).length

def setSpec (m : FieldMap) (spec : Option GroupSpec) : FieldMap := { m with spec := spec }

/-- Append an empty instance. -/
def addGroup (m : FieldMap) (tag : Int) : FieldMap :=
  { m with
    groups := AssocList.modify tag (· ++ [new]) (AssocList.insert tag [] m.groups) }

/-! ## Insertion -/

/-- The ordered insertion.  The first list is `m_fieldOrder` from `order_ptr`
on, the second is `m_fields` from `field_it` on. -/
def insertOrdered (tag : Int) (v : View) : List Int → List (Int × View) → List (Int × View)
  | _, [] => [(tag, v)]
  | order, (t, w) :: rest =>
      if tag = t then (t, v) :: rest
      else
        let order := order.dropWhile fun o => o ≠ t ∧ o ≠ tag
        if order.head? = some tag then
          -- `LinkedHashMap::insert` at a position does nothing when the key is there
          if (AssocList.find? tag rest).isSome then (t, w) :: rest else (tag, v) :: (t, w) :: rest
        else (t, w) :: insertOrdered tag v order rest

def insertFieldView (m : FieldMap) (tag : Int) (v : View) (order : Bool) : FieldMap :=
  match m.spec with
  | some spec =>
      if order && spec.ordered then
        { m with fields := insertOrdered tag v spec.fieldOrder m.fields }
      else { m with fields := AssocList.set tag v m.fields }
  | none => { m with fields := AssocList.set tag v m.fields }

/-- The ordered insertion ends at a place in front of the stored tag. -/
def stopsBefore (tag : Int) : List Int → List (Int × View) → Bool
  | _, [] => false
  | order, (t, _) :: rest =>
      if tag = t then false
      else
        let order := order.dropWhile fun o => o ≠ t ∧ o ≠ tag
        if order.head? = some tag then (AssocList.find? tag rest).isSome
        else stopsBefore tag order rest

/-- An insertion leaves the view that is stored for the tag. -/
def keepsView (m : FieldMap) (tag : Int) (order : Bool) : Bool :=
  match m.spec with
  | some spec => order && spec.ordered && stopsBefore tag spec.fieldOrder m.fields
  | none => false

def setFieldView (m : FieldMap) (tag : Int) (value : Bytes) (order : Bool) : FieldMap :=
  m.insertFieldView tag (.text value) order

/-- The slots for owned strings, once there is one. -/
def reserved (m : FieldMap) : Nat :=
  if m.owned = [] then max m.capacity ownedStorageCapacity else m.capacity

/-- `setField` of this tag would move the owned strings. -/
def storageFull (m : FieldMap) (tag : Int) : Bool :=
  (AssocList.find? tag m.owned).isNone && m.reserved ≤ m.owned.length

/-- The value is longer than the capacity of the string that is owned for the tag. -/
def outgrows (m : FieldMap) (tag : Int) (value : Bytes) : Bool :=
  match AssocList.find? tag m.owned with
  | some buf => buf.length ≤ value.length
  | none => false

/-- The value of the tag is a view of the string that is owned for it. -/
def viewsOwned (m : FieldMap) (tag : Int) : Bool :=
  match AssocList.find? tag m.fields with
  | some (.owned _) => true
  | _ => false

/-- `setField` would move the string of the tag and leave the stored view of it. -/
def strands (m : FieldMap) (tag : Int) (value : Bytes) (order : Bool) : Bool :=
  m.keepsView tag order && m.viewsOwned tag && m.outgrows tag value

def setField (m : FieldMap) (tag : Int) (value : Bytes) (order : Bool) : FieldMap :=
  let buf := match AssocList.find? tag m.owned with
    | some buf => assignBuffer buf value
    | none => newBuffer value
  { m with
    owned := AssocList.set tag buf m.owned
    capacity := m.reserved }.insertFieldView tag (.owned value.length) order

/-- `setField` of an `int`. -/
def setIntField (m : FieldMap) (tag : Int) (value : Int) (order : Bool) : FieldMap :=
  m.setField tag (toChars value) order

/-- Insert a field of a parsed text, unless its tag was seen.  The answer is
whether it was. -/
def setFieldViewOrDetectDup (m : FieldMap) (tag : Int) (value : Bytes) : Bool × FieldMap :=
  if 0 ≤ tag ∧ tag < 1024 then
    if tag ∈ m.seen then (true, m)
    else (false, { m with seen := tag :: m.seen, fields := m.fields ++ [(tag, .text value)] })
  else if (AssocList.find? tag m.fields).isSome then (true, m)
  else (false, { m with fields := m.fields ++ [(tag, .text value)] })

/-- Fields of the specification first, in its order, then the others by tag. -/
def sortFields (m : FieldMap) : FieldMap :=
  let order := match m.spec with
    | some spec => spec.fieldOrder
    | none => []
  let taken := order.foldl (fun (newFields, fields) tag =>
    match AssocList.find? tag fields with
    | some v => (AssocList.insert tag v newFields, AssocList.erase tag fields)
    | none => (newFields, fields)) (([] : List (Int × View)), m.fields)
  let entries := taken.2.insertionSort fun a b => a.1 ≤ b.1
  { m with fields := entries.foldl (fun newFields e => AssocList.insert e.1 e.2 newFields) taken.1 }

/-! ## Copying

The copy constructor and the copy assignment move every value into owned
storage.  The tags seen by the parser are not copied. -/

/-- The fields and buffers of a copy of `m`. -/
def copyFields (m : FieldMap) : List (Int × View) :=
  m.fields.foldl (fun fields (tag, v) =>
    AssocList.insert tag (.owned (m.read tag v).length) fields) []

def copyOwned (m : FieldMap) : List (Int × Bytes) :=
  m.fields.map fun (tag, v) => (tag, newBuffer (m.read tag v))

mutual

def copy : FieldMap → FieldMap
  | ⟨fields, owned, capacity, groups, spec, seen⟩ =>
      let m : FieldMap := ⟨fields, owned, capacity, groups, spec, seen⟩
      ⟨m.copyFields, m.copyOwned, max fields.length ownedStorageCapacity, copyGroups groups,
        spec, []⟩

def copyGroups : List (Int × List FieldMap) → List (Int × List FieldMap)
  | [] => []
  | (tag, ms) :: rest => (tag, copyInstances ms) :: copyGroups rest

def copyInstances : List FieldMap → List FieldMap
  | [] => []
  | m :: ms => m.copy :: copyInstances ms

end

theorem copy_eq (m : FieldMap) : m.copy = ⟨m.copyFields, m.copyOwned,
    max m.fields.length ownedStorageCapacity, copyGroups m.groups, m.spec, []⟩ := by
  cases m
  simp only [copy]

/-- Copying in order keeps the first view of each tag. -/
theorem find?_foldl_insert (f : Int → View → View) (tag : Int) :
    ∀ (l acc : List (Int × View)),
      AssocList.find? tag (l.foldl (fun out (t, v) => AssocList.insert t (f t v) out) acc) =
        (AssocList.find? tag acc).or ((AssocList.find? tag l).map (f tag))
  | [], acc => by simp
  | (t, v) :: l, acc => by
      have ih := find?_foldl_insert f tag l (AssocList.insert t (f t v) acc)
      rw [List.foldl_cons]
      refine ih.trans ?_
      by_cases hacc : t ∈ AssocList.keys acc
      · have hsome := AssocList.find?_isSome_iff.mpr hacc
        rw [AssocList.insert, if_pos hsome]
        by_cases ht : t = tag
        · subst ht
          obtain ⟨w, hw⟩ := Option.isSome_iff_exists.mp hsome
          simp [hw]
        · rw [AssocList.find?_cons_ne ht]
      · rw [AssocList.insert_of_not_mem _ hacc, AssocList.find?_append]
        by_cases ht : t = tag
        · subst ht
          simp [AssocList.find?_eq_none_iff.mpr hacc]
        · simp [AssocList.find?_cons_ne ht]

theorem find?_map_value {α β : Type} (f : Int → α → β) (tag : Int) :
    ∀ l : List (Int × α), AssocList.find? tag (l.map fun p => (p.1, f p.1 p.2)) =
      (AssocList.find? tag l).map (f tag)
  | [] => rfl
  | (t, v) :: l => by
      by_cases ht : t = tag
      · subst ht
        simp
      · rw [List.map_cons, AssocList.find?_cons_ne ht, AssocList.find?_cons_ne ht,
          find?_map_value f tag l]

/-- A copy has the values of what it is a copy of. -/
@[simp] theorem field?_copy (m : FieldMap) (tag : Int) : m.copy.field? tag = m.field? tag := by
  have hfields : AssocList.find? tag m.copyFields =
      (AssocList.find? tag m.fields).map fun v => .owned (m.read tag v).length :=
    (find?_foldl_insert (fun t v => .owned (m.read t v).length) tag m.fields []).trans (by simp)
  have howned : AssocList.find? tag m.copyOwned =
      (AssocList.find? tag m.fields).map fun v => newBuffer (m.read tag v) :=
    find?_map_value (fun t v => newBuffer (m.read t v)) tag m.fields
  rw [copy_eq]
  simp only [field?, hfields]
  cases hv : AssocList.find? tag m.fields with
  | none => rfl
  | some v =>
      rw [hv] at howned
      simp [read, howned, newBuffer]

@[simp] theorem getField_copy (m : FieldMap) (tag : Int) : m.copy.getField tag = m.getField tag := by
  simp [getField]

@[simp] theorem getIntField_copy (m : FieldMap) (tag : Int) :
    m.copy.getIntField tag = m.getIntField tag := by
  simp [getIntField]

@[simp] theorem tryGetBool_copy (m : FieldMap) (tag : Int) :
    m.copy.tryGetBool tag = m.tryGetBool tag := by
  simp [tryGetBool]

theorem has_eq (m : FieldMap) (tag : Int) : m.has tag = (m.field? tag).isSome := by
  simp [has, field?]

@[simp] theorem has_copy (m : FieldMap) (tag : Int) : m.copy.has tag = m.has tag := by
  simp [has_eq]

/-! ## Reading back what was set -/

/-- An ordered insertion does not touch the views of other tags. -/
theorem find?_insertOrdered_ne {tag tag₀ : Int} (h : tag₀ ≠ tag) (v : View) :
    ∀ (l : List (Int × View)) (order : List Int),
      AssocList.find? tag₀ (insertOrdered tag v order l) = AssocList.find? tag₀ l
  | [], _ => by simp [insertOrdered, AssocList.find?, Ne.symm h]
  | (t, w) :: rest, order => by
      simp only [insertOrdered]
      split
      next ht =>
        subst ht
        rw [AssocList.find?_cons_ne (Ne.symm h), AssocList.find?_cons_ne (Ne.symm h)]
      next ht =>
        split
        · split
          · rfl
          · rw [AssocList.find?_cons_ne (Ne.symm h)]
        · by_cases ht₀ : t = tag₀
          · subst ht₀
            rw [AssocList.find?_cons_self, AssocList.find?_cons_self]
          · rw [AssocList.find?_cons_ne ht₀, AssocList.find?_cons_ne ht₀,
              find?_insertOrdered_ne h v rest]

/-- An ordered insertion that ends in front of the stored tag changes nothing. -/
theorem insertOrdered_of_stopsBefore {tag : Int} (v : View) :
    ∀ {l : List (Int × View)} {order : List Int}, stopsBefore tag order l = true →
      insertOrdered tag v order l = l
  | [], _, h => by cases h
  | (t, w) :: rest, order, h => by
      simp only [stopsBefore] at h
      simp only [insertOrdered]
      split at h
      next => cases h
      next ht =>
        rw [if_neg ht]
        split at h
        next hplace => rw [if_pos hplace, if_pos h]
        next hplace => rw [if_neg hplace, insertOrdered_of_stopsBefore v h]

/-- Every other ordered insertion stores the view. -/
theorem find?_insertOrdered_of_not_stopsBefore {tag : Int} (v : View) :
    ∀ {l : List (Int × View)} {order : List Int}, stopsBefore tag order l = false →
      AssocList.find? tag (insertOrdered tag v order l) = some v
  | [], _, _ => AssocList.find?_cons_self ..
  | (t, w) :: rest, order, h => by
      simp only [stopsBefore] at h
      simp only [insertOrdered]
      split at h
      next ht =>
        subst ht
        rw [if_pos rfl]
        exact AssocList.find?_cons_self ..
      next ht =>
        rw [if_neg ht]
        split at h
        next hplace =>
          rw [if_pos hplace, if_neg (by simp [h])]
          exact AssocList.find?_cons_self ..
        next hplace =>
          rw [if_neg hplace, AssocList.find?_cons_ne fun he => ht he.symm]
          exact find?_insertOrdered_of_not_stopsBefore v h

/-- An ordered insertion that ends in front of the stored tag has found it. -/
theorem find?_isSome_of_stopsBefore {tag : Int} :
    ∀ {l : List (Int × View)} {order : List Int}, stopsBefore tag order l = true →
      (AssocList.find? tag l).isSome = true
  | [], _, h => by cases h
  | (t, w) :: rest, order, h => by
      simp only [stopsBefore] at h
      split at h
      next => cases h
      next ht =>
        rw [AssocList.find?_cons_ne fun he => ht he.symm]
        split at h
        next => exact h
        next => exact find?_isSome_of_stopsBefore h

theorem find?_insertFieldView_ne {tag tag₀ : Int} (h : tag₀ ≠ tag) (m : FieldMap) (v : View)
    (order : Bool) :
    AssocList.find? tag₀ (m.insertFieldView tag v order).fields = AssocList.find? tag₀ m.fields := by
  unfold insertFieldView
  split
  · split
    · exact find?_insertOrdered_ne h v _ _
    · exact AssocList.find?_set_ne h v _
  · exact AssocList.find?_set_ne h v _

section

variable {m : FieldMap} {tag : Int} {order : Bool}

/-- A view is kept in an ordered map only, and there is one. -/
theorem stored_of_keepsView (h : m.keepsView tag order = true) :
    order = true ∧ (AssocList.find? tag m.fields).isSome = true := by
  unfold keepsView at h
  split at h
  next spec hspec =>
    rw [Bool.and_eq_true, Bool.and_eq_true] at h
    exact ⟨h.1.1, find?_isSome_of_stopsBefore h.2⟩
  next => cases h

theorem find?_insertFieldView_of_keepsView (v : View) (h : m.keepsView tag order = true) :
    AssocList.find? tag (m.insertFieldView tag v order).fields = AssocList.find? tag m.fields := by
  unfold keepsView at h
  unfold insertFieldView
  split at h
  next spec hspec =>
    rw [Bool.and_eq_true] at h
    rw [hspec]
    show AssocList.find? tag (ite _ _ _ : FieldMap).fields = _
    rw [if_pos h.1]
    exact congrArg _ (insertOrdered_of_stopsBefore v h.2)
  next => cases h

theorem find?_insertFieldView_of_not_keepsView (v : View) (h : ¬m.keepsView tag order = true) :
    AssocList.find? tag (m.insertFieldView tag v order).fields = some v := by
  have hset := AssocList.find?_set_self tag v m.fields
  unfold keepsView at h
  unfold insertFieldView
  cases hspec : m.spec with
  | none => exact hset
  | some spec =>
      rw [hspec] at h
      dsimp only at h ⊢
      split
      next hordered =>
        rw [hordered, Bool.true_and] at h
        exact find?_insertOrdered_of_not_stopsBefore v (eq_false_of_ne_true h)
      next => exact hset

end

/-- After an insertion the tag has the new view, or has kept the one it had. -/
theorem find?_insertFieldView_self (m : FieldMap) (tag : Int) (v : View) (order : Bool) :
    AssocList.find? tag (m.insertFieldView tag v order).fields = some v ∨
      (order = true ∧ ∃ w, AssocList.find? tag m.fields = some w ∧
        AssocList.find? tag (m.insertFieldView tag v order).fields = some w) := by
  by_cases hkeeps : m.keepsView tag order = true
  · obtain ⟨horder, hstored⟩ := stored_of_keepsView hkeeps
    obtain ⟨w, hw⟩ := Option.isSome_iff_exists.mp hstored
    exact .inr ⟨horder, w, hw, (find?_insertFieldView_of_keepsView v hkeeps).trans hw⟩
  · exact .inl (find?_insertFieldView_of_not_keepsView v hkeeps)

@[simp] theorem owned_insertFieldView (m : FieldMap) (tag : Int) (v : View) (order : Bool) :
    (m.insertFieldView tag v order).owned = m.owned := by
  unfold insertFieldView
  split
  · split <;> rfl
  · rfl

@[simp] theorem capacity_insertFieldView (m : FieldMap) (tag : Int) (v : View) (order : Bool) :
    (m.insertFieldView tag v order).capacity = m.capacity := by
  unfold insertFieldView
  split
  · split <;> rfl
  · rfl

theorem read_congr {m m' : FieldMap} {tag : Int}
    (h : AssocList.find? tag m.owned = AssocList.find? tag m'.owned) (v : View) :
    m.read tag v = m'.read tag v := by
  cases v with
  | text v => rfl
  | owned len => simp only [read, h]

theorem field?_setFieldView_ne {tag tag₀ : Int} (h : tag₀ ≠ tag) (m : FieldMap) (value : Bytes)
    (order : Bool) : (m.setFieldView tag value order).field? tag₀ = m.field? tag₀ := by
  unfold field? setFieldView
  rw [find?_insertFieldView_ne h]
  cases AssocList.find? tag₀ m.fields with
  | none => rfl
  | some v => exact congrArg some (read_congr (by rw [owned_insertFieldView]) v)

theorem field?_setFieldView_self (m : FieldMap) (tag : Int) (value : Bytes) :
    (m.setFieldView tag value false).field? tag = some value := by
  unfold field? setFieldView
  rcases find?_insertFieldView_self m tag (.text value) false with h | ⟨h, _⟩
  · rw [h]
    rfl
  · cases h

theorem field?_setField_ne {tag tag₀ : Int} (h : tag₀ ≠ tag) (m : FieldMap) (value : Bytes)
    (order : Bool) : (m.setField tag value order).field? tag₀ = m.field? tag₀ := by
  unfold field? setField
  rw [find?_insertFieldView_ne h]
  cases AssocList.find? tag₀ m.fields with
  | none => rfl
  | some v =>
      refine congrArg some (read_congr ?_ v)
      rw [owned_insertFieldView]
      exact AssocList.find?_set_ne h _ _

/-- The string owned for a tag starts with the value that was set last. -/
theorem find?_owned_setField (m : FieldMap) (tag : Int) (value : Bytes) (order : Bool) :
    ∃ rest, AssocList.find? tag (m.setField tag value order).owned = some (value ++ 0 :: rest) := by
  unfold setField
  rw [owned_insertFieldView, AssocList.find?_set_self]
  split
  next buf _ =>
    unfold assignBuffer
    split
    · exact ⟨_, rfl⟩
    · exact ⟨_, rfl⟩
  next => exact ⟨_, rfl⟩

/-- `setField` reads back, when the insertion is unordered or any view it may leave
in its place has the length of the new value. -/
theorem field?_setField_self (m : FieldMap) (tag : Int) (value : Bytes) (order : Bool)
    (h : order = false ∨ ∀ v, AssocList.find? tag m.fields = some v → v = .owned value.length) :
    (m.setField tag value order).field? tag = some value := by
  have hview : AssocList.find? tag (m.setField tag value order).fields =
      some (.owned value.length) := by
    rcases find?_insertFieldView_self
      { m with
        owned := AssocList.set tag (match AssocList.find? tag m.owned with
          | some buf => assignBuffer buf value
          | none => newBuffer value) m.owned
        capacity := m.reserved } tag (.owned value.length) order with hv | ⟨hord, w, hw, hv⟩
    · exact hv
    · rcases h with h | h
      · rw [h] at hord
        cases hord
      · rw [h w hw] at hv
        exact hv
  obtain ⟨rest, hrest⟩ := find?_owned_setField m tag value order
  unfold field?
  rw [hview]
  simp [read, hrest]

/-- After an ordered `setField` the view that was there may stay, and shows more of
the buffer: the new value, a zero and what was behind it. -/
theorem field?_setField_longer (m : FieldMap) (tag : Int) (value : Bytes) (order : Bool)
    (h : ∀ v, AssocList.find? tag m.fields = some v → ∃ len, value.length ≤ len ∧ v = .owned len) :
    ∃ rest, (m.setField tag value order).field? tag = some (value ++ rest) ∧
      ∀ b, rest.head? = some b → b = 0 := by
  have hview : ∃ len, value.length ≤ len ∧
      AssocList.find? tag (m.setField tag value order).fields = some (.owned len) := by
    rcases find?_insertFieldView_self
      { m with
        owned := AssocList.set tag (match AssocList.find? tag m.owned with
          | some buf => assignBuffer buf value
          | none => newBuffer value) m.owned
        capacity := m.reserved } tag (.owned value.length) order with hv | ⟨-, w, hw, hv⟩
    · exact ⟨_, le_refl _, hv⟩
    · obtain ⟨len, hlen, rfl⟩ := h w hw
      exact ⟨len, hlen, hv⟩
  obtain ⟨len, hlen, hview⟩ := hview
  obtain ⟨rest, hrest⟩ := find?_owned_setField m tag value order
  refine ⟨(0 :: rest).take (len - value.length), ?_, fun b hb => ?_⟩
  · unfold field?
    rw [hview, Option.map_some, read, hrest, Option.getD_some, List.take_append,
      List.take_of_length_le hlen]
  · cases hn : len - value.length with
    | zero => simp [hn] at hb
    | succ n =>
        rw [hn, List.take_succ_cons, List.head?_cons] at hb
        exact (Option.some.inj hb).symm

theorem getField_eq {m : FieldMap} {tag : Int} {v : Bytes} :
    m.getField tag = .ok v ↔ m.field? tag = some v := by
  unfold getField
  cases m.field? tag <;> simp

theorem getIntField_eq {m : FieldMap} {tag : Int} {i : Int} :
    m.getIntField tag = .ok i ↔ ∃ v, m.field? tag = some v ∧ intOf v = i := by
  unfold getIntField
  cases m.field? tag <;> simp

/-- What is read is an `int`. -/
theorem getIntField_range {m : FieldMap} {tag : Int} {i : Int} (h : m.getIntField tag = .ok i) :
    -2147483648 ≤ i ∧ i < 2147483648 := by
  obtain ⟨v, -, rfl⟩ := getIntField_eq.mp h
  unfold intOf
  cases hv : fromCharsInt v with
  | none => decide
  | some i => exact fromCharsInt_range hv

theorem intOf_toChars {i : Int} (h₀ : -2147483648 ≤ i) (h₁ : i < 2147483648) :
    intOf (toChars i) = i := by
  rw [intOf, fromCharsInt_toChars h₀ h₁, Option.getD_some]

theorem intOf_toChars_append {i : Int} (h₀ : -2147483648 ≤ i) (h₁ : i < 2147483648)
    {rest : Bytes} (h : ∀ b, rest.head? = some b → b = 0) : intOf (toChars i ++ rest) = i := by
  have hdigit : ∀ b, rest.head? = some b → isDigit b = false := by
    intro b hb
    rw [h b hb]
    decide
  rw [intOf, fromCharsInt_toChars_append h₀ h₁ rest hdigit, Option.getD_some]

end FieldMap

end OpenFix
