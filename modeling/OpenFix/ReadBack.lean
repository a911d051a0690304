import OpenFix.FieldMap

/-!
# What `setField` leaves to be read

The ordered insertion goes through the stored fields and the field order together.
When it comes to the tag in the field order before it comes to it among the fields,
it inserts in front of a later field, and `LinkedHashMap::insert` does nothing if the
tag is stored behind that (`Hidden`).  The view stored there stays, over a string
that has changed.

A view dangles when the bytes it denotes have moved: a string beyond the reserved
slots moves all others, and a value that outgrows its string moves this one.  Nothing
is wrong with a map that holds such a view until the field is read; a later insertion
may replace the view before.  `Held` keeps the tags whose views dangle beside the map.
-/

namespace OpenFix

/-! ## Calls -/

/-- A call that changes the fields of a map. -/
inductive FieldCall where
  | setField (tag : Int) (value : Bytes) (order : Bool)
  | setFieldView (tag : Int) (value : Bytes) (order : Bool)
  | removeField (tag : Int)

namespace FieldMap

/-- The tags whose values are views of owned strings. -/
def viewedTags (m : FieldMap) : List Int := (AssocList.keys m.fields).filter fun t => m.viewsOwned t

/-- A map, with the tags whose views denote bytes that have moved. -/
structure Held where
  map : FieldMap
  dangling : List Int

namespace Held

/-- A dangling view has no value. -/
def getField (s : Held) (tag : Int) : Except Exn Bytes :=
  if tag ∈ s.dangling then .error (.undefined "view of a string that has moved")
  else s.map.getField tag

/-- The tag has a view of its string that can be read. -/
def Live (s : Held) (tag : Int) : Prop := tag ∉ s.dangling ∧ s.map.viewsOwned tag = true

section

-- The capacity to which the vector of the owned strings grows.
variable (grow : Nat → Nat)

/-- `setField`.  The views of all strings dangle when the vector moves; the view of the
tag is a new one, unless it is kept. -/
def setField (s : Held) (tag : Int) (value : Bytes) (order : Bool) : Held :=
  let m := s.map.setField tag value order
  let dangling := if s.map.storageFull tag then s.map.viewedTags else s.dangling
  { map := if s.map.storageFull tag then { m with capacity := grow s.map.owned.length } else m
    dangling :=
      if s.map.keepsView tag order then
        if s.map.strands tag value order then tag :: dangling else dangling
      else dangling.filter (· ≠ tag) }

def setFieldView (s : Held) (tag : Int) (value : Bytes) (order : Bool) : Held :=
  { map := s.map.setFieldView tag value order
    dangling :=
      if s.map.keepsView tag order then s.dangling else s.dangling.filter (· ≠ tag) }

def removeField (s : Held) (tag : Int) : Held :=
  ⟨s.map.removeField tag, s.dangling.filter (· ≠ tag)⟩

def call (s : Held) : FieldCall → Held
  | .setField tag value order => s.setField grow tag value order
  | .setFieldView tag value order => s.setFieldView tag value order
  | .removeField tag => s.removeField tag

/-- What some calls reach from an empty map with a specification. -/
inductive Called (spec : Option GroupSpec) : Held → Prop where
  | new : Called spec ⟨new.setSpec spec, []⟩
  | call {s : Held} (c : FieldCall) (h : Called spec s) : Called spec (s.call grow c)

/-- `setField` can be read back, and changes no other field. -/
def ReadsBack (s : Held) (tag : Int) (value : Bytes) (order : Bool) : Prop :=
  (s.setField grow tag value order).getField tag = .ok value ∧
    ∀ t, t ≠ tag → (s.setField grow tag value order).getField t = s.getField t

end

end Held

/-! ## Hidden tags -/

/-- The tag is stored, and the fields in front of it are not in the field order in front
of the tag, one after the other. -/
def Hidden (order keys : List Int) (tag : Int) : Prop :=
  tag ∈ keys ∧ tag ∈ order ∧
    ¬(keys.takeWhile (· ≠ tag)).Sublist (order.takeWhile (· ≠ tag))

/-- A list splits at the first member that has a property. -/
theorem dropWhile_cases (p : Int → Bool) (l : List Int) :
    (l.dropWhile p = [] ∧ ∀ a ∈ l, p a = true) ∨
      ∃ front a rest, l = front ++ a :: rest ∧ l.dropWhile p = a :: rest ∧ p a = false ∧
        ∀ a ∈ front, p a = true := by
  induction l with
  | nil => exact .inl ⟨rfl, fun _ h => by cases h⟩
  | cons b l ih =>
      cases hb : p b with
      | false => exact .inr ⟨[], b, l, rfl, by simp [hb], hb, fun _ h => by cases h⟩
      | true =>
          have hdrop : (b :: l).dropWhile p = l.dropWhile p := by simp [hb]
          rcases ih with ⟨hnil, hall⟩ | ⟨front, a, rest, rfl, hrest, ha, hfront⟩
          · refine .inl ⟨hdrop.trans hnil, fun a ha => ?_⟩
            rcases List.mem_cons.mp ha with rfl | ha
            · exact hb
            · exact hall a ha
          · refine .inr ⟨b :: front, a, rest, rfl, hdrop.trans hrest, ha, fun c hc => ?_⟩
            rcases List.mem_cons.mp hc with rfl | hc
            · exact hb
            · exact hfront c hc

theorem cons_sublist_append_iff {t : Int} {front keys rest : List Int} (h : t ∉ front) :
    (t :: keys).Sublist (front ++ rest) ↔ (t :: keys).Sublist rest := by
  induction front with
  | nil => rfl
  | cons o front ih =>
      have ih' := ih fun hm => h (List.mem_cons_of_mem _ hm)
      constructor
      · intro hsub
        rcases List.sublist_cons_iff.mp hsub with hsub | ⟨r, hr, -⟩
        · exact ih'.mp hsub
        · exact (h ((List.cons.inj hr).1 ▸ List.mem_cons_self ..)).elim
      · intro hsub
        exact (ih'.mpr hsub).cons o

theorem sublist_cons_iff_of_not_mem {t : Int} {keys rest : List Int} (h : t ∉ keys) :
    keys.Sublist (t :: rest) ↔ keys.Sublist rest := by
  constructor
  · intro hsub
    rcases List.sublist_cons_iff.mp hsub with hsub | ⟨r, rfl, -⟩
    · exact hsub
    · exact (h (List.mem_cons_self ..)).elim
  · intro hsub
    exact hsub.cons t

/-- Skipping what is neither the first field nor the tag leaves the tag as hidden as it is
among the other fields. -/
theorem hidden_cons_iff {front rest keys : List Int} {t tag : Int} (hne : t ≠ tag)
    (hfront : ∀ o ∈ front, o ≠ t ∧ o ≠ tag) (hkeys : t ∉ keys) :
    Hidden (front ++ t :: rest) (t :: keys) tag ↔ Hidden (t :: rest) keys tag := by
  have htakeKeys : (t :: keys).takeWhile (· ≠ tag) = t :: keys.takeWhile (· ≠ tag) := by simp [hne]
  have htakeRest : (t :: rest).takeWhile (· ≠ tag) = t :: rest.takeWhile (· ≠ tag) := by simp [hne]
  have htake : (front ++ t :: rest).takeWhile (· ≠ tag) =
      front ++ t :: rest.takeWhile (· ≠ tag) := by
    rw [List.takeWhile_append_of_pos fun o ho => by simpa using (hfront o ho).2, htakeRest]
  have hfree : t ∉ front := fun hm => (hfront t hm).1 rfl
  have hmem : t ∉ keys.takeWhile (· ≠ tag) := fun hm =>
    hkeys ((List.takeWhile_prefix _).subset hm)
  have hmemKeys : tag ∈ t :: keys ↔ tag ∈ keys := by simp [Ne.symm hne]
  have hmemOrder : tag ∈ front ++ t :: rest ↔ tag ∈ t :: rest := by
    rw [List.mem_append, or_iff_right fun hm => (hfront tag hm).2 rfl]
  unfold Hidden
  rw [hmemKeys, hmemOrder, htakeKeys, htake, htakeRest, cons_sublist_append_iff hfree,
    List.cons_sublist_cons, sublist_cons_iff_of_not_mem hmem]

/-- The field in front of which the insertion comes to the tag is not in front of it in
the field order. -/
theorem hidden_of_first {front rest keys : List Int} {t tag : Int} (hne : t ≠ tag)
    (hfront : ∀ o ∈ front, o ≠ t ∧ o ≠ tag) (hkeys : tag ∈ keys) :
    Hidden (front ++ tag :: rest) (t :: keys) tag := by
  have htakeKeys : (t :: keys).takeWhile (· ≠ tag) = t :: keys.takeWhile (· ≠ tag) := by simp [hne]
  have htake : (front ++ tag :: rest).takeWhile (· ≠ tag) = front := by
    rw [List.takeWhile_append_of_pos fun o ho => by simpa using (hfront o ho).2]
    simp
  refine ⟨List.mem_cons_of_mem _ hkeys, by simp, fun hsub => ?_⟩
  rw [htakeKeys, htake] at hsub
  exact (hfront t (hsub.subset (List.mem_cons_self ..))).1 rfl

/-- A tag is hidden behind fields that are not in this order. -/
theorem hidden_of_sublist {tag : Int} {order keys front : List Int} (hnodup : keys.Nodup)
    (hkeys : (front ++ [tag]).Sublist keys) (htag : tag ∈ order) (hfront : ¬front.Sublist order) :
    Hidden order keys tag := by
  refine ⟨hkeys.subset (List.mem_append_right _ (List.mem_cons_self ..)), htag, fun hsub => ?_⟩
  obtain ⟨before, behind, rfl, hbefore, hbehind⟩ := List.append_sublist_iff.mp hkeys
  have hfree : ∀ t ∈ before, decide (t ≠ tag) = true := fun t ht =>
    decide_eq_true fun heq => List.disjoint_of_nodup_append hnodup ht
      (heq ▸ hbehind.subset (List.mem_cons_self ..))
  rw [List.takeWhile_append_of_pos hfree] at hsub
  exact hfront ((hbefore.trans (List.sublist_append_left _ _)).trans
    (hsub.trans (List.takeWhile_sublist _)))

/-- An ordered insertion ends in front of the stored tag exactly where the tag is hidden. -/
theorem stopsBefore_iff (tag : Int) {l : List (Int × View)} (hnodup : (AssocList.keys l).Nodup)
    (order : List Int) :
    stopsBefore tag order l = true ↔ Hidden order (AssocList.keys l) tag := by
  induction l generalizing order with
  | nil => exact iff_of_false (fun h => by cases h) fun h => absurd h.1 List.not_mem_nil
  | cons p l ih =>
      obtain ⟨t, w⟩ := p
      have hcons : AssocList.keys ((t, w) :: l) = t :: AssocList.keys l := rfl
      rw [hcons, List.nodup_cons] at hnodup
      rw [hcons]
      obtain ⟨hfresh, hnodup⟩ := hnodup
      rw [stopsBefore]
      by_cases ht : tag = t
      · subst ht
        rw [if_pos rfl]
        exact iff_of_false (fun h => by cases h) fun h => h.2.2 (by simp)
      · rw [if_neg ht]
        have hne : t ≠ tag := fun h => ht h.symm
        dsimp only
        rcases dropWhile_cases (fun o => o ≠ t ∧ o ≠ tag) order with
          ⟨hnil, hall⟩ | ⟨front, o, rest, rfl, hdrop, ho, hfront⟩
        · -- Neither is in the field order.
          have hout : tag ∉ order := fun hm => by simpa using hall tag hm
          rw [hnil, if_neg (by simp), ih hnodup]
          exact iff_of_false (fun h => List.not_mem_nil h.2.1) fun h => hout h.2.1
        · have hfront' : ∀ a ∈ front, a ≠ t ∧ a ≠ tag := fun a ha => by simpa using hfront a ha
          rw [hdrop]
          by_cases hto : o = tag
          · subst hto
            rw [if_pos List.head?_cons, AssocList.find?_isSome_iff]
            constructor
            · exact hidden_of_first hne hfront'
            · exact fun h => (List.mem_cons.mp h.1).resolve_left hne.symm
          · obtain rfl : o = t := by
              by_contra hot
              simp [hot, hto] at ho
            rw [if_neg (by simpa using hto), hidden_cons_iff hne hfront' hfresh]
            exact ih hnodup _

/-! ## What the calls keep -/

/-- The keys after an ordered insertion are those before and the tag. -/
theorem keys_insertOrdered_perm (tag : Int) (v : View) (l : List (Int × View)) (order : List Int) :
    (AssocList.keys (insertOrdered tag v order l)).Perm
      (if tag ∈ AssocList.keys l then AssocList.keys l else tag :: AssocList.keys l) := by
  induction l generalizing order with
  | nil => exact List.Perm.refl _
  | cons p l ih =>
      obtain ⟨t, w⟩ := p
      have hcons : ∀ q : List (Int × View), AssocList.keys ((t, w) :: q) = t :: AssocList.keys q :=
        fun _ => rfl
      rw [insertOrdered, hcons]
      by_cases ht : tag = t
      · subst ht
        rw [if_pos rfl, if_pos (List.mem_cons_self ..)]
        exact List.Perm.refl _
      · have hmem : tag ∈ t :: AssocList.keys l ↔ tag ∈ AssocList.keys l := by simp [ht]
        rw [if_neg ht]
        dsimp only
        split
        · split
          next hstored =>
            rw [if_pos (hmem.mpr (AssocList.find?_isSome_iff.mp hstored)), hcons]
          next hstored =>
            rw [if_neg fun h => hstored (AssocList.find?_isSome_iff.mpr (hmem.mp h))]
            exact List.Perm.refl _
        · rw [hcons]
          refine ((ih _).cons t).trans ?_
          by_cases hm : tag ∈ AssocList.keys l
          · rw [if_pos hm, if_pos (hmem.mpr hm)]
          · rw [if_neg hm, if_neg fun h => hm (hmem.mp h)]
            exact List.Perm.swap ..

theorem nodup_keys_insertFieldView {m : FieldMap} (h : (AssocList.keys m.fields).Nodup) (tag : Int)
    (v : View) (order : Bool) : (AssocList.keys (m.insertFieldView tag v order).fields).Nodup := by
  have hset : (AssocList.keys (AssocList.set tag v m.fields)).Nodup := by
    rw [AssocList.keys_set]
    split
    next => exact h
    next hnew => exact h.append (List.nodup_singleton tag) (by simpa using hnew)
  have hord : ∀ order, (AssocList.keys (insertOrdered tag v order m.fields)).Nodup := by
    intro order
    rw [(keys_insertOrdered_perm tag v m.fields order).nodup_iff]
    split
    next => exact h
    next hnew => exact List.nodup_cons.mpr ⟨hnew, h⟩
  unfold insertFieldView
  split
  · split
    · exact hord _
    · exact hset
  · exact hset

theorem spec_insertFieldView (m : FieldMap) (tag : Int) (v : View) (order : Bool) :
    (m.insertFieldView tag v order).spec = m.spec := by
  unfold insertFieldView
  split
  · split
    · rfl
    · rfl
  · rfl

theorem keys_owned_setField (m : FieldMap) (tag : Int) (value : Bytes) (order : Bool) :
    AssocList.keys (m.setField tag value order).owned =
      if tag ∈ AssocList.keys m.owned then AssocList.keys m.owned
      else AssocList.keys m.owned ++ [tag] := by
  unfold setField
  rw [owned_insertFieldView, AssocList.keys_set]

theorem length_owned_setField (m : FieldMap) (tag : Int) (value : Bytes) (order : Bool) :
    (m.setField tag value order).owned.length =
      if tag ∈ AssocList.keys m.owned then m.owned.length else m.owned.length + 1 := by
  have hlen : ∀ l : List (Int × Bytes), l.length = (AssocList.keys l).length := fun l => by
    rw [AssocList.keys, List.length_map]
  rw [hlen, keys_owned_setField]
  split
  · exact (hlen m.owned).symm
  · rw [List.length_append, ← hlen]
    rfl

/-- The slots are reserved once. -/
theorem reserved_setField (m : FieldMap) (tag : Int) (value : Bytes) (order : Bool) :
    (m.setField tag value order).reserved = m.reserved := by
  have hne : (m.setField tag value order).owned ≠ [] := by
    obtain ⟨rest, hfind⟩ := m.find?_owned_setField tag value order
    intro hnil
    rw [hnil] at hfind
    cases hfind
  rw [reserved, if_neg hne]
  exact capacity_insertFieldView ..

theorem storageFull_eq_false_iff (m : FieldMap) (tag : Int) :
    m.storageFull tag = false ↔ tag ∈ AssocList.keys m.owned ∨ m.owned.length < m.reserved := by
  rw [storageFull, ← AssocList.find?_isSome_iff]
  cases AssocList.find? tag m.owned with
  | none => simp
  | some buf => simp

/-! ## Reading back -/

/-- The view shows this value once the string of its tag has it. -/
def Shows (value : Bytes) : View → Prop
  | .text v => v = value
  | .owned len => len = value.length

/-- An ordered insertion of the tag leaves the view that is stored. -/
def Keeps (m : FieldMap) (tag : Int) (order : Bool) : Prop :=
  order = true ∧ ∃ spec, m.spec = some spec ∧ spec.ordered = true ∧
    Hidden spec.fieldOrder (AssocList.keys m.fields) tag

/-- The executable check agrees. -/
theorem keepsView_iff {m : FieldMap} (h : (AssocList.keys m.fields).Nodup) (tag : Int)
    (order : Bool) : m.keepsView tag order = true ↔ m.Keeps tag order := by
  unfold keepsView Keeps
  cases m.spec with
  | none => simp
  | some spec => simp [stopsBefore_iff tag h, and_assoc]

/-- The view of a tag after an insertion. -/
theorem find?_insertFieldView (m : FieldMap) (h : (AssocList.keys m.fields).Nodup) (tag : Int)
    (v : View) (order : Bool) :
    (m.Keeps tag order → AssocList.find? tag (m.insertFieldView tag v order).fields =
        AssocList.find? tag m.fields) ∧
      (¬m.Keeps tag order →
        AssocList.find? tag (m.insertFieldView tag v order).fields = some v) := by
  rw [← keepsView_iff h]
  exact ⟨find?_insertFieldView_of_keepsView v, find?_insertFieldView_of_not_keepsView v⟩

theorem keys_insertOrdered_sublist (tag : Int) (v : View) :
    ∀ (order : List Int) (l : List (Int × View)),
      (AssocList.keys l).Sublist (AssocList.keys (insertOrdered tag v order l))
  | _, [] => List.nil_sublist _
  | order, (t, w) :: rest => by
      rw [insertOrdered]
      dsimp only
      split
      next => exact List.Sublist.refl _
      next =>
        split
        next =>
          split
          next => exact List.Sublist.refl _
          next => exact List.sublist_cons_self _ _
        next => exact (keys_insertOrdered_sublist tag v _ rest).cons_cons t

theorem keys_setField_sublist (m : FieldMap) (tag : Int) (value : Bytes) (order : Bool) :
    (AssocList.keys m.fields).Sublist (AssocList.keys (m.setField tag value order).fields) := by
  have hset : ∀ v : View,
      (AssocList.keys m.fields).Sublist (AssocList.keys (AssocList.set tag v m.fields)) := by
    intro v
    rw [AssocList.keys_set]
    split
    next => exact List.Sublist.refl _
    next => exact List.sublist_append_left _ _
  unfold setField insertFieldView
  dsimp only
  split
  · split
    · exact keys_insertOrdered_sublist tag _ _ m.fields
    · exact hset _
  · exact hset _

theorem find?_fields_setField_ne {m : FieldMap} {t tag₀ : Int} (h : tag₀ ≠ t) (value : Bytes)
    (order : Bool) : AssocList.find? tag₀ (m.setField t value order).fields =
      AssocList.find? tag₀ m.fields := by
  unfold setField
  rw [find?_insertFieldView_ne h]

theorem find?_owned_setField_ne {m : FieldMap} {t tag₀ : Int} (h : tag₀ ≠ t) (value : Bytes)
    (order : Bool) : AssocList.find? tag₀ (m.setField t value order).owned =
      AssocList.find? tag₀ m.owned := by
  unfold setField
  rw [owned_insertFieldView, AssocList.find?_set_ne h]

/-- Over a view that is kept a new value is shown as far as the old one went. -/
theorem field?_setField_kept {m : FieldMap} {tag : Int} {buf : Bytes} {len : Nat} {order : Bool}
    (hkeeps : m.keepsView tag order = true)
    (hview : AssocList.find? tag m.fields = some (.owned len))
    (hbuf : AssocList.find? tag m.owned = some buf) (value : Bytes) :
    (m.setField tag value order).field? tag = some ((assignBuffer buf value).take len) := by
  unfold field? setField
  rw [hbuf]
  dsimp only
  rw [find?_insertFieldView_of_keepsView (m := { m with owned := _, capacity := _ }) _ hkeeps,
    hview, Option.map_some, read, owned_insertFieldView, AssocList.find?_set_self]
  rfl

/-- The field that was set has the value if and only if its view does. -/
theorem field?_setField_iff {m : FieldMap} (h : (AssocList.keys m.fields).Nodup) (tag : Int)
    (value : Bytes) (order : Bool) :
    (m.setField tag value order).field? tag = some value ↔
      (m.Keeps tag order → ∀ v, AssocList.find? tag m.fields = some v → Shows value v) := by
  obtain ⟨rest, howned⟩ := m.find?_owned_setField tag value order
  have hview : (m.Keeps tag order →
      AssocList.find? tag (m.setField tag value order).fields = AssocList.find? tag m.fields) ∧
      (¬m.Keeps tag order →
        AssocList.find? tag (m.setField tag value order).fields = some (.owned value.length)) := by
    obtain ⟨stored, hset, hfields, hspec⟩ : ∃ stored : FieldMap,
        m.setField tag value order = stored.insertFieldView tag (.owned value.length) order ∧
          stored.fields = m.fields ∧ stored.spec = m.spec :=
      ⟨_, rfl, rfl, rfl⟩
    have hkeeps : stored.Keeps tag order ↔ m.Keeps tag order := by
      rw [Keeps, Keeps, hfields, hspec]
    rw [hset, ← hkeeps, ← hfields]
    exact find?_insertFieldView stored (hfields ▸ h) tag (.owned value.length) order
  have hshows : ∀ v, AssocList.find? tag (m.setField tag value order).fields = some v →
      ((m.setField tag value order).field? tag = some value ↔ Shows value v) := by
    intro v hv
    rw [field?, hv, Option.map_some, Option.some_inj]
    cases v with
    | text v => exact Iff.rfl
    | owned len =>
        rw [read, howned, Option.getD_some, Shows]
        constructor
        · intro heq
          have hlen := congrArg List.length heq
          rw [List.length_take, List.length_append, List.length_cons] at hlen
          omega
        · rintro rfl
          exact List.take_left
  by_cases hk : m.Keeps tag order
  · have hkept : AssocList.find? tag (m.setField tag value order).fields =
        AssocList.find? tag m.fields := hview.1 hk
    have hstored := hk
    obtain ⟨-, spec, -, -, hmem, -⟩ := hstored
    obtain ⟨v, hv⟩ := Option.isSome_iff_exists.mp (AssocList.find?_isSome_iff.mpr hmem)
    rw [hshows v (hkept.trans hv), hv]
    constructor
    · rintro hs - w hw
      cases hw
      exact hs
    · exact fun hs => hs hk v rfl
  · have hnew : AssocList.find? tag (m.setField tag value order).fields =
        some (.owned value.length) := hview.2 hk
    rw [hshows _ hnew]
    exact iff_of_true rfl fun hk' => (hk hk').elim

/-! ## What the calls keep of the views -/

namespace Held

variable {grow : Nat → Nat} {s : Held}

/-- Each tag is stored once, the views that dangle are of owned strings, and the others
of these are within the buffer of their string. -/
structure Sound (s : Held) : Prop where
  nodup : (AssocList.keys s.map.fields).Nodup
  viewed : ∀ tag ∈ s.dangling, s.map.viewsOwned tag = true
  within : ∀ tag len, AssocList.find? tag s.map.fields = some (.owned len) → tag ∉ s.dangling →
    ∃ buf, AssocList.find? tag s.map.owned = some buf ∧ len < buf.length

theorem viewsOwned_iff {m : FieldMap} {tag : Int} :
    m.viewsOwned tag = true ↔ ∃ len, AssocList.find? tag m.fields = some (.owned len) := by
  unfold viewsOwned
  split
  next len hv => simp [hv]
  next hv =>
    constructor
    · intro h
      cases h
    · rintro ⟨len, hlen⟩
      exact (hv len hlen).elim

theorem mem_viewedTags {m : FieldMap} {tag : Int} :
    tag ∈ m.viewedTags ↔ m.viewsOwned tag = true := by
  rw [viewedTags, List.mem_filter, and_iff_right_iff_imp]
  intro h
  obtain ⟨len, hlen⟩ := viewsOwned_iff.mp h
  exact AssocList.find?_isSome_iff.mp (by rw [hlen]; rfl)

theorem viewsOwned_congr {m m' : FieldMap} {tag : Int}
    (h : AssocList.find? tag m.fields = AssocList.find? tag m'.fields) :
    m.viewsOwned tag = m'.viewsOwned tag := by
  rw [viewsOwned, viewsOwned, h]

section

variable (tag : Int) (value : Bytes) (order : Bool)

@[simp] theorem fields_setField :
    (s.setField grow tag value order).map.fields = (s.map.setField tag value order).fields := by
  unfold setField
  dsimp only
  split
  · rfl
  · rfl

@[simp] theorem owned_setField :
    (s.setField grow tag value order).map.owned = (s.map.setField tag value order).owned := by
  unfold setField
  dsimp only
  split
  · rfl
  · rfl

theorem field?_setField (t : Int) :
    (s.setField grow tag value order).map.field? t = (s.map.setField tag value order).field? t := by
  unfold field?
  rw [fields_setField]
  cases AssocList.find? t (s.map.setField tag value order).fields with
  | none => rfl
  | some v => exact congrArg some (read_congr (by rw [owned_setField]) v)

/-- The views that dangle before the one of the tag is looked at. -/
theorem mem_dangling_ne {t : Int} (ht : t ≠ tag) :
    t ∈ (s.setField grow tag value order).dangling ↔
      t ∈ if s.map.storageFull tag then s.map.viewedTags else s.dangling := by
  unfold setField
  dsimp only
  split
  · split
    · rw [List.mem_cons, or_iff_right ht]
    · rfl
  · rw [List.mem_filter, and_iff_left (by simpa using ht)]

theorem mem_dangling_self :
    tag ∈ (s.setField grow tag value order).dangling ↔ s.map.keepsView tag order = true ∧
      (s.map.strands tag value order = true ∨
        tag ∈ if s.map.storageFull tag then s.map.viewedTags else s.dangling) := by
  unfold setField
  dsimp only
  split
  next hkeeps =>
    split
    next hstrands => simp [hkeeps, hstrands]
    next hstrands => simp [hkeeps, hstrands]
  next hkeeps => simp [hkeeps]

end

/-- The view of a tag after `setField`. -/
theorem find?_setField (h : (AssocList.keys s.map.fields).Nodup) (tag : Int) (value : Bytes)
    (order : Bool) :
    (s.map.Keeps tag order →
        AssocList.find? tag (s.map.setField tag value order).fields =
          AssocList.find? tag s.map.fields) ∧
      (¬s.map.Keeps tag order →
        AssocList.find? tag (s.map.setField tag value order).fields =
          some (.owned value.length)) :=
  find?_insertFieldView (m := { s.map with
    owned := _
    capacity := _ }) h tag (.owned value.length) order

theorem find?_setField_ne {t tag : Int} (ht : t ≠ tag) (value : Bytes) (order : Bool) :
    AssocList.find? t (s.map.setField tag value order).fields = AssocList.find? t s.map.fields ∧
      AssocList.find? t (s.map.setField tag value order).owned = AssocList.find? t s.map.owned := by
  unfold FieldMap.setField
  rw [owned_insertFieldView]
  exact ⟨find?_insertFieldView_ne ht .., AssocList.find?_set_ne ht _ _⟩

/-- A value that does not outgrow its string leaves the length of the buffer. -/
theorem find?_owned_setField_of_room {m : FieldMap} {tag : Int} {value buf : Bytes}
    (hbuf : AssocList.find? tag m.owned = some buf) (hroom : m.outgrows tag value = false)
    (order : Bool) : ∃ buf', AssocList.find? tag (m.setField tag value order).owned = some buf' ∧
      buf'.length = buf.length := by
  have hlt : value.length < buf.length := by
    unfold outgrows at hroom
    rw [hbuf] at hroom
    simpa using hroom
  refine ⟨assignBuffer buf value, ?_, ?_⟩
  · unfold FieldMap.setField
    rw [owned_insertFieldView, AssocList.find?_set_self, hbuf]
  · rw [assignBuffer, if_pos hlt, List.length_append, List.length_cons, List.length_drop]
    omega

theorem Sound.setField (h : s.Sound) (tag : Int) (value : Bytes) (order : Bool) :
    (s.setField grow tag value order).Sound where
  nodup := by
    rw [fields_setField]
    apply nodup_keys_insertFieldView
    exact h.nodup
  viewed := by
    have hbefore : ∀ t ∈ (if s.map.storageFull tag then s.map.viewedTags else s.dangling),
        s.map.viewsOwned t = true := by
      intro t ht
      split at ht
      · exact mem_viewedTags.mp ht
      · exact h.viewed t ht
    intro t ht
    by_cases htag : t = tag
    · subst htag
      obtain ⟨hkeeps, hmem⟩ := (mem_dangling_self ..).mp ht
      have hkept := (find?_setField h.nodup t value order).1 ((keepsView_iff h.nodup ..).mp hkeeps)
      rw [viewsOwned_congr ((congrArg _ (fields_setField ..)).trans hkept)]
      rcases hmem with hstrands | hmem
      · unfold strands at hstrands
        simp only [Bool.and_eq_true] at hstrands
        exact hstrands.1.2
      · exact hbefore t hmem
    · have hkept := (find?_setField_ne (s := s) htag value order).1
      rw [viewsOwned_congr ((congrArg _ (fields_setField ..)).trans hkept)]
      exact hbefore t ((mem_dangling_ne tag value order htag).mp ht)
  within := by
    intro t len hview hfree
    rw [fields_setField] at hview
    rw [owned_setField]
    by_cases htag : t = tag
    · subst htag
      by_cases hkeeps : s.map.Keeps t order
      · rw [(find?_setField h.nodup t value order).1 hkeeps] at hview
        have howned : s.map.viewsOwned t = true := viewsOwned_iff.mpr ⟨len, hview⟩
        rw [mem_dangling_self, (keepsView_iff h.nodup ..).mpr hkeeps] at hfree
        obtain ⟨hstrands, hlive⟩ := not_or.mp fun hor => hfree ⟨rfl, hor⟩
        have hbefore : t ∉ s.dangling := by
          split at hlive
          · exact fun _ => hlive (mem_viewedTags.mpr howned)
          · exact hlive
        obtain ⟨buf, hbuf, hlen⟩ := h.within t len hview hbefore
        have hroom : s.map.outgrows t value = false := by
          unfold strands at hstrands
          rw [(keepsView_iff h.nodup ..).mpr hkeeps, howned] at hstrands
          simpa using hstrands
        obtain ⟨buf', hbuf', heq⟩ := find?_owned_setField_of_room hbuf hroom order
        exact ⟨buf', hbuf', by omega⟩
      · rw [(find?_setField h.nodup t value order).2 hkeeps] at hview
        obtain ⟨rest, hbuf⟩ := find?_owned_setField s.map t value order
        cases hview
        refine ⟨_, hbuf, ?_⟩
        rw [List.length_append, List.length_cons]
        omega
    · obtain ⟨hfields, howned⟩ := find?_setField_ne (s := s) htag value order
      rw [hfields] at hview
      rw [howned]
      rw [mem_dangling_ne tag value order htag] at hfree
      refine h.within t len hview ?_
      split at hfree
      · exact (hfree (mem_viewedTags.mpr (viewsOwned_iff.mpr ⟨len, hview⟩))).elim
      · exact hfree

theorem Sound.setFieldView (h : s.Sound) (tag : Int) (value : Bytes) (order : Bool) :
    (s.setFieldView tag value order).Sound where
  nodup := nodup_keys_insertFieldView h.nodup _ _ _
  viewed := by
    intro t ht
    have hview : AssocList.find? t (s.map.setFieldView tag value order).fields =
        AssocList.find? t s.map.fields ∧ t ∈ s.dangling := by
      unfold Held.setFieldView at ht
      by_cases htag : t = tag
      · subst htag
        by_cases hkeeps : s.map.keepsView t order = true
        · rw [if_pos hkeeps] at ht
          exact ⟨(find?_insertFieldView _ h.nodup ..).1 ((keepsView_iff h.nodup ..).mp hkeeps), ht⟩
        · rw [if_neg hkeeps] at ht
          simp at ht
      · refine ⟨find?_insertFieldView_ne htag .., ?_⟩
        dsimp only at ht
        split at ht
        · exact ht
        · exact (List.mem_filter.mp ht).1
    show (s.map.setFieldView tag value order).viewsOwned t = true
    rw [viewsOwned_congr hview.1]
    exact h.viewed t hview.2
  within := by
    intro t len hview hfree
    change AssocList.find? t (s.map.setFieldView tag value order).fields = _ at hview
    have howned : (s.setFieldView tag value order).map.owned = s.map.owned :=
      owned_insertFieldView ..
    rw [howned]
    unfold Held.setFieldView at hfree
    by_cases htag : t = tag
    · subst htag
      by_cases hkeeps : s.map.Keeps t order
      · rw [FieldMap.setFieldView, (find?_insertFieldView _ h.nodup ..).1 hkeeps] at hview
        rw [if_pos ((keepsView_iff h.nodup ..).mpr hkeeps)] at hfree
        exact h.within t len hview hfree
      · rw [FieldMap.setFieldView, (find?_insertFieldView _ h.nodup ..).2 hkeeps] at hview
        cases hview
    · rw [FieldMap.setFieldView, find?_insertFieldView_ne htag] at hview
      refine h.within t len hview fun hmem => hfree ?_
      dsimp only
      split
      · exact hmem
      · exact List.mem_filter.mpr ⟨hmem, by simpa using htag⟩

theorem Sound.removeField (h : s.Sound) (tag : Int) : (s.removeField tag).Sound where
  nodup := by
    show (AssocList.keys (AssocList.erase _ _)).Nodup
    rw [AssocList.keys_erase]
    exact h.nodup.erase _
  viewed := by
    intro t ht
    obtain ⟨ht, hne⟩ := List.mem_filter.mp ht
    have hview : AssocList.find? t (s.map.removeField tag).fields =
        AssocList.find? t s.map.fields := AssocList.find?_erase_ne (by simpa using hne) _
    show (s.map.removeField tag).viewsOwned t = true
    rw [viewsOwned_congr hview]
    exact h.viewed t ht
  within := by
    intro t len hview hfree
    change AssocList.find? t (AssocList.erase tag s.map.fields) = _ at hview
    have hne : t ≠ tag := by
      rintro rfl
      have hmem : t ∈ AssocList.keys (AssocList.erase t s.map.fields) :=
        AssocList.find?_isSome_iff.mp (by rw [hview]; rfl)
      rw [AssocList.keys_erase] at hmem
      exact h.nodup.not_mem_erase hmem
    rw [AssocList.find?_erase_ne hne] at hview
    exact h.within t len hview fun hmem =>
      hfree (List.mem_filter.mpr ⟨hmem, by simpa using hne⟩)

theorem Called.sound {spec : Option GroupSpec} (h : Called grow spec s) : s.Sound := by
  induction h with
  | new => exact ⟨List.nodup_nil, (fun _ h => by cases h), (fun _ _ h => by cases h)⟩
  | call c _ ih =>
      cases c with
      | setField tag value order => exact ih.setField tag value order
      | setFieldView tag value order => exact ih.setFieldView tag value order
      | removeField tag => exact ih.removeField tag

/-! ## What is read back -/

theorem getField_eq_ok {t : Int} {v : Bytes} :
    s.getField t = .ok v ↔ t ∉ s.dangling ∧ s.map.field? t = some v := by
  unfold getField
  split
  next hmem => simp [hmem]
  next hmem => rw [FieldMap.getField_eq, and_iff_right hmem]

/-- The views that dangled or are of strings that move are those that dangled, if no view
that can be read is of a string that moves. -/
theorem Sound.mem_moved (h : s.Sound) {tag : Int}
    (hroom : ¬(s.map.storageFull tag = true ∧ ∃ t, s.Live t)) (t : Int) :
    (t ∈ if s.map.storageFull tag then s.map.viewedTags else s.dangling) ↔ t ∈ s.dangling := by
  split
  next hfull =>
    rw [mem_viewedTags]
    constructor
    · intro hviews
      by_contra hfree
      exact hroom ⟨hfull, t, hfree, hviews⟩
    · exact h.viewed t
  next => rfl

/-- A full storage has no string of the tag, and no view of one that can be read. -/
theorem Sound.ne_of_storageFull (h : s.Sound) {t tag : Int} (hfull : s.map.storageFull tag = true)
    (hlive : s.Live t) : t ≠ tag := by
  rintro rfl
  obtain ⟨len, hview⟩ := viewsOwned_iff.mp hlive.2
  obtain ⟨buf, hbuf, -⟩ := h.within t len hview hlive.1
  unfold storageFull at hfull
  rw [hbuf] at hfull
  cases hfull

/-- The other fields are unchanged if and only if no string moves under a view. -/
theorem Sound.others_iff (h : s.Sound) (tag : Int) (value : Bytes) (order : Bool) :
    (∀ t, t ≠ tag → (s.setField grow tag value order).getField t = s.getField t) ↔
      ¬(s.map.storageFull tag = true ∧ ∃ t, s.Live t) := by
  constructor
  · rintro hsame ⟨hfull, t, hlive⟩
    have hne := h.ne_of_storageFull hfull hlive
    obtain ⟨len, hview⟩ := viewsOwned_iff.mp hlive.2
    have hread : s.getField t = .ok (s.map.read t (.owned len)) :=
      getField_eq_ok.mpr ⟨hlive.1, by rw [field?, hview, Option.map_some]⟩
    refine (getField_eq_ok.mp ((hsame t hne).trans hread)).1 ?_
    rw [mem_dangling_ne tag value order hne, if_pos hfull]
    exact mem_viewedTags.mpr hlive.2
  · intro hroom t hne
    have hmem : t ∈ (s.setField grow tag value order).dangling ↔ t ∈ s.dangling :=
      (mem_dangling_ne tag value order hne).trans (h.mem_moved hroom t)
    have hfield : (s.setField grow tag value order).map.getField t = s.map.getField t := by
      unfold FieldMap.getField
      rw [field?_setField, field?_setField_ne hne]
    unfold getField
    simp only [hmem, hfield]

/-- A view that is kept and shows the value is of a string with room for it. -/
theorem Sound.not_strands (h : s.Sound) {tag : Int} {value : Bytes} (order : Bool)
    (hfree : tag ∉ s.dangling)
    (hshows : ∀ v, AssocList.find? tag s.map.fields = some v → Shows value v) :
    s.map.strands tag value order = false := by
  unfold strands
  cases hviews : s.map.viewsOwned tag with
  | false => simp
  | true =>
      obtain ⟨len, hview⟩ := viewsOwned_iff.mp hviews
      obtain ⟨buf, hbuf, hlen⟩ := h.within tag len hview hfree
      have hvalue : len = value.length := hshows _ hview
      have hroom : s.map.outgrows tag value = false := by
        unfold outgrows
        rw [hbuf]
        simpa using by omega
      rw [hroom, Bool.and_false]

/-- `setField` reads back, and changes no other field, if and only if it moves no strings
of which a view can be read, and the view of the tag is a new one or is kept, can be read and
shows the value. -/
theorem readsBack_iff {spec : Option GroupSpec} (hcalled : Called grow spec s) (tag : Int)
    (value : Bytes) (order : Bool) :
    s.ReadsBack grow tag value order ↔ ¬(s.map.storageFull tag = true ∧ ∃ t, s.Live t) ∧
      (s.map.Keeps tag order → tag ∉ s.dangling ∧
        ∀ v, AssocList.find? tag s.map.fields = some v → Shows value v) := by
  have h := hcalled.sound
  rw [ReadsBack, h.others_iff tag value order, and_comm, and_congr_right_iff]
  intro hroom
  rw [getField_eq_ok, field?_setField, field?_setField_iff h.nodup, mem_dangling_self,
    keepsView_iff h.nodup, h.mem_moved hroom]
  constructor
  · rintro ⟨hfree, hshows⟩ hkeeps
    exact ⟨fun hmem => hfree ⟨hkeeps, .inr hmem⟩, hshows hkeeps⟩
  · intro hkept
    refine ⟨?_, fun hkeeps => (hkept hkeeps).2⟩
    rintro ⟨hkeeps, hstrands | hmem⟩
    · obtain ⟨hfree, hshows⟩ := hkept hkeeps
      rw [h.not_strands order hfree hshows] at hstrands
      cases hstrands
    · exact (hkept hkeeps).1 hmem

/-- A stored sequence number is written over in place, behind a sender that was put in
without order. -/
theorem readsBack_iff_test :
    let spec : GroupSpec := ⟨[], [], true, [35, 34, 49]⟩
    let s := (Held.setField (2 * ·) (Held.setField (2 * ·) ⟨new.setSpec (some spec), []⟩ 49
      (ascii "A") false) 34 (ascii "12") false)
    s.ReadsBack (2 * ·) 34 (ascii "13") true ↔
      ¬(s.map.storageFull 34 = true ∧ ∃ t, s.Live t) ∧ (s.map.Keeps 34 true → 34 ∉ s.dangling ∧
        ∀ v, AssocList.find? 34 s.map.fields = some v → Shows (ascii "13") v) :=
  readsBack_iff (.call (.setField 34 (ascii "12") false)
    (.call (.setField 49 (ascii "A") false) .new)) 34 (ascii "13") true

/-- The header of the test `FieldOrder`, with the fields put in without order and a sender
in front of the sequence number, which then gets a shorter value. -/
theorem not_readsBack : ¬∀ (grow : Nat → Nat) (spec : Option GroupSpec) (s : Held),
    Called grow spec s → ∀ tag value order, s.ReadsBack grow tag value order := by
  intro h
  let spec : GroupSpec := ⟨[], [], true, [35, 34, 49]⟩
  have hcalled : Called (2 * ·) (some spec)
      (((⟨new.setSpec (some spec), []⟩ : Held).setField (2 * ·) 49 (ascii "A") false).setField
        (2 * ·) 34 (ascii "12") false) :=
    .call (.setField 34 (ascii "12") false) (.call (.setField 49 (ascii "A") false) .new)
  have hvalue := (getField_eq_ok.mp (h _ _ _ hcalled 34 (ascii "7") true).1).2
  revert hvalue
  decide

/-- A value that outgrows its string leaves the view that is kept behind. -/
example :
    let s := (((⟨new.setSpec (some ⟨[], [], true, [35, 34, 49]⟩), []⟩ : Held).setField (2 * ·) 49
      (ascii "A") false).setField (2 * ·) 34 (ascii "12") false).setField (2 * ·) 34
        (ascii "12345678901234567890") true
    s.getField 34 = .error (.undefined "view of a string that has moved") := by
  decide

end Held

end FieldMap

end OpenFix
