import OpenFix.Lib.Run
import OpenFix.Ordered

/-!
# Owned strings that stay where they are

The strings of a map lie in a vector.  It gets its slots with the first string, or when
the map is copied, and a string more than that moves the others away from under their
views.  `setField` counts on this not to happen, and `stable_iff` says when it does not:
as long as the tags that are set, together with those that were copied, have a slot each.
-/

namespace OpenFix

namespace FieldMap

/-- `operator=` from another map. -/
def assign (m other : FieldMap) : FieldMap :=
  { fields := other.copyFields
    owned := other.copyOwned
    capacity :=
      if m.capacity < other.fields.length then max other.fields.length ownedStorageCapacity
      else m.capacity
    groups := copyGroups other.groups
    spec := other.spec
    seen := m.seen }

/-- A map as it is constructed, with a specification or without, or as it is copied. -/
inductive Fresh : FieldMap → Prop where
  | new (spec : Option GroupSpec) : Fresh (new.setSpec spec)
  | copy (m : FieldMap) : Fresh m.copy
  | assign (m other : FieldMap) : Fresh (m.assign other)

/-- The arguments of `setField`. -/
structure SetCall where
  tag : Int
  value : Bytes
  order : Bool

/-- A map, with the value that was last assigned to each tag. -/
structure Assigned where
  map : FieldMap
  last : Int → Option Bytes

namespace Assigned

/-- Nothing was assigned since the map has its fields. -/
def start (m : FieldMap) : Assigned := ⟨m, m.field?⟩

/-- `setField`, as long as the strings do not move. -/
def setField (c : SetCall) (s : Assigned) : Assigned :=
  ⟨s.map.setField c.tag c.value c.order, Function.update s.last c.tag (some c.value)⟩

/-- The strings are in the slots that were reserved before the first view of one, and every
view shows what was last assigned to its tag. -/
structure Stable (start : FieldMap) (s : Assigned) : Prop where
  fits : s.map.owned.length ≤ start.reserved
  shows : ∀ tag v, AssocList.find? tag s.map.fields = some v →
    s.last tag = some (s.map.read tag v)

/-- There is a slot for the string of the tag. -/
def HasSlot (s : Assigned) (c : SetCall) : Prop := s.map.storageFull c.tag = false

/-- No other view of the tag stays. -/
def Replaces (s : Assigned) (c : SetCall) : Prop :=
  s.map.Keeps c.tag c.order → ∀ v, AssocList.find? c.tag s.map.fields = some v → Shows c.value v

/-- What calls keep that have a slot and replace the view. -/
structure Settled (start : FieldMap) (s : Assigned) : Prop where
  reserved : s.map.reserved = start.reserved
  fits : s.map.owned.length ≤ start.reserved
  nodup : (AssocList.keys s.map.fields).Nodup
  values : ∀ tag value, s.map.field? tag = some value → s.last tag = some value

end Assigned

/-! ## Fresh maps -/

theorem nodup_keys_copyFields (m : FieldMap) : (AssocList.keys m.copyFields).Nodup := by
  have hfold : ∀ (l acc : List (Int × View)), (AssocList.keys acc).Nodup →
      (AssocList.keys (l.foldl (fun fields p =>
        AssocList.insert p.1 (.owned (m.read p.1 p.2).length) fields) acc)).Nodup := by
    intro l
    induction l with
    | nil => exact fun _ h => h
    | cons p l ih => exact fun acc h => ih _ (AssocList.nodup_keys_insert h)
  exact hfold m.fields [] List.nodup_nil

theorem length_copyOwned (m : FieldMap) : m.copyOwned.length = m.fields.length := List.length_map _

theorem le_reserved (m : FieldMap) : m.capacity ≤ m.reserved := by
  unfold reserved
  split
  · exact le_max_left _ _
  · exact le_refl _

theorem Fresh.settled {m : FieldMap} (h : Fresh m) : (Assigned.start m).Settled m where
  reserved := rfl
  fits := by
    refine le_trans ?_ m.le_reserved
    cases h with
    | new spec => exact le_refl _
    | copy m =>
        show m.copy.owned.length ≤ m.copy.capacity
        rw [copy_eq]
        exact (length_copyOwned m).le.trans (le_max_left _ _)
    | assign m other =>
        show other.copyOwned.length ≤ (m.assign other).capacity
        rw [length_copyOwned, FieldMap.assign]
        dsimp only
        split
        next => exact le_max_left _ _
        next hle => omega
  nodup := by
    cases h with
    | new spec => exact List.nodup_nil
    | copy m =>
        show (AssocList.keys m.copy.fields).Nodup
        rw [copy_eq]
        exact nodup_keys_copyFields m
    | assign m other => exact nodup_keys_copyFields other
  values _ _ hvalue := hvalue

/-! ## One call -/

namespace Assigned

variable {start : FieldMap} {s : Assigned}

theorem Settled.stable (h : Settled start s) : Stable start s where
  fits := h.fits
  shows := fun tag v hv => h.values tag _ (by rw [field?, hv, Option.map_some])

/-- A call that has a slot and replaces the view. -/
theorem Settled.setField {c : SetCall} (hslot : s.HasSlot c) (hreplaces : s.Replaces c)
    (h : Settled start s) : Settled start (setField c s) where
  reserved := (reserved_setField ..).trans h.reserved
  fits := by
    show (s.map.setField c.tag c.value c.order).owned.length ≤ start.reserved
    rw [length_owned_setField]
    split
    next => exact h.fits
    next hnew =>
      have hlt : s.map.owned.length < s.map.reserved :=
        ((s.map.storageFull_eq_false_iff c.tag).mp hslot).resolve_left hnew
      rw [h.reserved] at hlt
      exact hlt
  nodup := by
    apply nodup_keys_insertFieldView
    exact h.nodup
  values := by
    intro tag value hvalue
    show Function.update s.last c.tag (some c.value) tag = some value
    by_cases htag : tag = c.tag
    · subst htag
      rw [Function.update_self, ← hvalue]
      exact ((field?_setField_iff h.nodup c.tag c.value c.order).mpr hreplaces).symm
    · rw [Function.update_of_ne htag]
      exact h.values tag value ((field?_setField_ne htag ..).symm.trans hvalue)

/-- A call without a slot moves the strings, and a view that stays shows something else. -/
theorem not_stable_setField {c : SetCall} (hnot : ¬(s.HasSlot c ∧ s.Replaces c))
    (h : Settled start s) : ¬Stable start (Assigned.setField c s) := by
  intro hstable
  have hslot : s.HasSlot c := by
    refine (s.map.storageFull_eq_false_iff c.tag).mpr ?_
    have hfits : (s.map.setField c.tag c.value c.order).owned.length ≤ start.reserved := hstable.fits
    rw [length_owned_setField] at hfits
    split at hfits
    next hmem => exact .inl hmem
    next => exact .inr (by rw [h.reserved]; exact hfits)
  refine hnot ⟨hslot, (field?_setField_iff h.nodup c.tag c.value c.order).mp ?_⟩
  have hview : ∃ v, AssocList.find? c.tag (s.map.setField c.tag c.value c.order).fields = some v := by
    rcases find?_insertFieldView_self _ c.tag (.owned c.value.length) c.order with hv | ⟨-, w, -, hv⟩
    · exact ⟨_, hv⟩
    · exact ⟨w, hv⟩
  obtain ⟨v, hv⟩ := hview
  have hlast : Function.update s.last c.tag (some c.value) c.tag =
      some ((s.map.setField c.tag c.value c.order).read c.tag v) := hstable.shows c.tag v hv
  rw [Function.update_self] at hlast
  rw [field?, hv, Option.map_some, hlast]

end Assigned

/-! ## All calls -/

/-- The tags that calls set and that have no string yet. -/
def newTags (m : FieldMap) (calls : List SetCall) : Finset Int :=
  (calls.map SetCall.tag).toFinset \ (AssocList.keys m.owned).toFinset

theorem length_add_card_newTags (m : FieldMap) (c : SetCall) (calls : List SetCall) :
    (m.setField c.tag c.value c.order).owned.length +
        (newTags (m.setField c.tag c.value c.order) calls).card =
      m.owned.length + (newTags m (c :: calls)).card := by
  have hkeys := m.keys_owned_setField c.tag c.value c.order
  rw [length_owned_setField, newTags, newTags, hkeys, List.map_cons, List.toFinset_cons]
  split
  next hmem => rw [Finset.insert_sdiff_of_mem _ (List.mem_toFinset.mpr hmem)]
  next hnew =>
    have hkeys' : (AssocList.keys m.owned ++ [c.tag]).toFinset =
        insert c.tag (AssocList.keys m.owned).toFinset := by
      rw [List.toFinset_append, Finset.union_comm, Finset.insert_eq]
      rfl
    have hsplit : insert c.tag (calls.map SetCall.tag).toFinset \ (AssocList.keys m.owned).toFinset =
        insert c.tag ((calls.map SetCall.tag).toFinset \
          insert c.tag (AssocList.keys m.owned).toFinset) := by
      ext t
      by_cases ht : t = c.tag
      · simp [ht, hnew]
      · simp [ht]
    rw [hkeys', hsplit, Finset.card_insert_of_notMem (by simp)]
    omega

/-- All calls have a slot exactly if the new tags and the strings that are there fit. -/
theorem hasSlot_along_iff {s : Assigned} (h : s.map.owned.length ≤ s.map.reserved)
    (calls : List SetCall) :
    Run.AllowedAlong Assigned.setField Assigned.HasSlot s calls ↔
      s.map.owned.length + (newTags s.map calls).card ≤ s.map.reserved := by
  induction calls generalizing s with
  | nil => simpa [newTags, Run.AllowedAlong] using h
  | cons c calls ih =>
      have hlength := length_add_card_newTags s.map c calls
      have hreserved := s.map.reserved_setField c.tag c.value c.order
      rw [← hlength, ← hreserved]
      have hfits : s.HasSlot c ↔ (Assigned.setField c s).map.owned.length ≤ s.map.reserved := by
        rw [Assigned.HasSlot, storageFull_eq_false_iff, Assigned.setField, length_owned_setField]
        split
        next hmem => exact iff_of_true (.inl hmem) h
        next hnew => exact or_iff_right hnew
      constructor
      · rintro ⟨hslot, hrest⟩
        exact (ih (hreserved ▸ hfits.mp hslot)).mp hrest
      · intro hle
        have hslot : (Assigned.setField c s).map.owned.length ≤ s.map.reserved :=
          le_trans (Nat.le_add_right _ _) (hreserved ▸ hle)
        exact ⟨hfits.mpr hslot, (ih (hreserved ▸ hslot)).mpr hle⟩

/-- The strings of a fresh map stay where they are, under views that show what was assigned
last, exactly if the tags that are set and those that were copied have a slot each, and no call
leaves an older view of its tag that shows something else. -/
theorem stable_iff {start : FieldMap} (hstart : Fresh start) (calls : List SetCall) :
    (∀ before, before <+: calls →
        (Run.runOf Assigned.setField (.start start) before).Stable start) ↔
      start.owned.length + (newTags start calls).card ≤ start.reserved ∧
        Run.AllowedAlong Assigned.setField Assigned.Replaces (.start start) calls := by
  have hslots := hasSlot_along_iff (s := .start start) hstart.settled.fits calls
  refine Iff.trans ?_ (Run.allowedAlong_and.trans (and_congr_left fun _ => hslots))
  refine Run.holds_along_iff (fun s c _ hcareful hs => ?_) (fun s hs => hs.stable)
    (fun s c _ hcareful hs => ?_) hstart.settled (Run.allowedAlong_of_forall (fun _ _ => trivial) _ _)
  · exact hs.setField hcareful.1 hcareful.2
  · exact Assigned.not_stable_setField hcareful hs

/-- The fields of a header in another order than its own, and a longer number in the end. -/
def headerCalls : List SetCall :=
  [⟨35, ascii "0", true⟩, ⟨56, ascii "B", true⟩, ⟨34, ascii "9", true⟩, ⟨49, ascii "A", true⟩,
    ⟨8, ascii "FIX.4.4", true⟩, ⟨34, ascii "10", true⟩]

/-- A map with the order of the header. -/
def headerMap : FieldMap := new.setSpec (some ⟨[], [], true, [8, 35, 34, 49, 56]⟩)

/-- They have five of the sixteen slots, and no view of a number stays behind a later field. -/
theorem stable_iff_test :
    headerMap.owned.length + (newTags headerMap headerCalls).card ≤ headerMap.reserved ∧
      ∀ before, before <+: headerCalls →
        (Run.runOf Assigned.setField (.start headerMap) before).Stable headerMap := by
  have hreplaces : ∀ {s : Assigned} {c : SetCall}, (AssocList.keys s.map.fields).Nodup →
      s.map.keepsView c.tag c.order = false → s.Replaces c := by
    intro s c hnodup hview hkeeps
    rw [(keepsView_iff hnodup c.tag c.order).mpr hkeeps] at hview
    cases hview
  have hslots : headerMap.owned.length + (newTags headerMap headerCalls).card ≤
      headerMap.reserved := by decide
  refine ⟨hslots, (stable_iff (.new _) headerCalls).mpr ⟨hslots, ?_⟩⟩
  exact ⟨hreplaces (by decide) (by decide), hreplaces (by decide) (by decide),
    hreplaces (by decide) (by decide), hreplaces (by decide) (by decide),
    hreplaces (by decide) (by decide), hreplaces (by decide) (by decide), trivial⟩

/-- The strings of seventeen tags do not stay where they are. -/
theorem not_stable : ¬∀ (start : FieldMap), Fresh start → ∀ (calls before : List SetCall),
    before <+: calls → (Run.runOf Assigned.setField (.start start) before).Stable start := by
  intro h
  have hfits := (h _ (.new none) ((List.range 17).map fun i => ⟨i, [65], true⟩) _
    List.prefix_rfl).fits
  exact absurd hfits (by decide)

end FieldMap

end OpenFix
