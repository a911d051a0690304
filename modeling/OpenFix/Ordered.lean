import Mathlib.Data.Finset.Card
import OpenFix.Nodes
import OpenFix.ReadBack

/-!
# The order of the fields

Ordered insertion keeps the tags of the field order in front, in that order, and the
others behind them (`Placed`).  Going through both together, it finds the place of a
tag whatever was inserted before, so the tags of the order come out the same for
every order of the calls.  `sortFields` takes the fields of the order one by one, and
comes to the same sequence.
-/

namespace OpenFix

namespace FieldMap

/-! ## One insertion -/

/-- A tag that is not in the field order is assigned as without one. -/
theorem insertOrdered_eq_set {tag : Int} (v : View) {order : List Int} (h : tag ∉ order)
    (l : List (Int × View)) : insertOrdered tag v order l = AssocList.set tag v l := by
  induction l generalizing order with
  | nil => rfl
  | cons p l ih =>
      obtain ⟨t, w⟩ := p
      rw [insertOrdered, AssocList.set]
      by_cases ht : tag = t
      · rw [if_pos ht, if_pos ht.symm]
      · have hrest : tag ∉ order.dropWhile (fun o => o ≠ t ∧ o ≠ tag) := fun hm =>
          h ((List.dropWhile_suffix _).subset hm)
        have hhead : (order.dropWhile (fun o => o ≠ t ∧ o ≠ tag)).head? ≠ some tag := fun hhead =>
          hrest (List.mem_of_mem_head? hhead)
        have hne : t ≠ tag := fun h => ht h.symm
        rw [if_neg ht, if_neg hne]
        show (if _ then _ else _) = _
        rw [if_neg hhead, ih hrest]

/-- A tag in front of which the order has no field that is stored is not stored, and those
of the order that are stored are behind it. -/
theorem sublist_behind_first {tag t : Int} {front rest known unknown keys : List Int}
    (hne : t ≠ tag) (hfront : ∀ o ∈ front, o ≠ t ∧ o ≠ tag) (hnodup : (front ++ tag :: rest).Nodup)
    (hknown : known.Sublist (front ++ tag :: rest)) (hunknown : tag ∉ unknown)
    (hkeys : t :: keys = known ++ unknown) : known.Sublist rest ∧ tag ∉ keys := by
  have hfree := (List.nodup_cons.mp (List.nodup_middle.mp hnodup)).1
  have hbehind : known.Sublist rest := by
    cases known with
    | nil => exact List.nil_sublist _
    | cons k known =>
        obtain rfl := (List.cons.inj hkeys).1
        have htail := (cons_sublist_append_iff fun hm => (hfront t hm).1 rfl).mp hknown
        rcases List.sublist_cons_iff.mp htail with htail | ⟨r, hr, -⟩
        · exact htail
        · exact (hne (List.cons.inj hr).1).elim
  refine ⟨hbehind, fun hstored => ?_⟩
  have hm : tag ∈ known ++ unknown := hkeys ▸ List.mem_cons_of_mem _ hstored
  rcases List.mem_append.mp hm with hm | hm
  · exact hfree (List.mem_append_right _ (hbehind.subset hm))
  · exact hunknown hm

/-- The keys after an ordered insertion are those before, and the tag. -/
theorem mem_keys_insertOrdered {tag t : Int} (v : View) {order : List Int} {l : List (Int × View)}
    (hmem : t ∈ AssocList.keys (insertOrdered tag v order l)) : t = tag ∨ t ∈ AssocList.keys l := by
  rw [(keys_insertOrdered_perm tag v l _).mem_iff] at hmem
  split at hmem
  next => exact .inr hmem
  next => exact List.mem_cons.mp hmem

/-- A tag of the field order gets its place among those that are there, which are a
sublist of the order with the other tags behind. -/
theorem keys_insertOrdered {tag : Int} (v : View) {order : List Int} (hmem : tag ∈ order)
    (hnodup : order.Nodup) {known unknown : List Int} (hknown : known.Sublist order)
    (hunknown : ∀ t ∈ unknown, t ∉ order) {l : List (Int × View)}
    (hkeys : AssocList.keys l = known ++ unknown) :
    ∃ known', known'.Sublist order ∧
      AssocList.keys (insertOrdered tag v order l) = known' ++ unknown := by
  induction l generalizing order known with
  | nil =>
      obtain ⟨rfl, rfl⟩ := List.append_eq_nil_iff.mp hkeys.symm
      exact ⟨[tag], List.singleton_sublist.mpr hmem, rfl⟩
  | cons p l ih =>
      obtain ⟨t, w⟩ := p
      have hcons : ∀ q : List (Int × View), AssocList.keys ((t, w) :: q) = t :: AssocList.keys q :=
        fun _ => rfl
      rw [hcons] at hkeys
      rw [insertOrdered]
      by_cases ht : tag = t
      · rw [if_pos ht]
        refine ⟨known, hknown, ?_⟩
        rw [← hkeys]
        rfl
      · have hne : t ≠ tag := fun h => ht h.symm
        rw [if_neg ht]
        dsimp only
        rcases dropWhile_cases (fun o => o ≠ t ∧ o ≠ tag) order with
          ⟨-, hall⟩ | ⟨front, o, rest, rfl, hdrop, ho, hfront⟩
        · exact absurd (hall tag hmem) (by simp)
        · have hfront' : ∀ a ∈ front, a ≠ t ∧ a ≠ tag := fun a ha => by simpa using hfront a ha
          rw [hdrop]
          by_cases hto : o = tag
          · -- The tag comes first in the order, and is not stored.
            subst hto
            obtain ⟨hbehind, hfresh⟩ := sublist_behind_first hne hfront' hnodup hknown
              (fun hm => hunknown o hm hmem) hkeys
            rw [if_pos List.head?_cons, if_neg fun h => hfresh (AssocList.find?_isSome_iff.mp h)]
            refine ⟨o :: known, ?_, ?_⟩
            · exact (hbehind.cons_cons o).trans (List.sublist_append_right _ _)
            · show o :: AssocList.keys ((t, w) :: l) = _
              rw [hcons, hkeys]
              rfl
          · -- The stored field comes first.
            obtain rfl : o = t := by
              by_contra hot
              simp [hot, hto] at ho
            have hfree : o ∉ rest := fun hm =>
              (List.nodup_cons.mp (List.nodup_middle.mp hnodup)).1 (List.mem_append_right _ hm)
            cases known with
            | nil =>
                rw [List.nil_append] at hkeys
                exact (hunknown o (hkeys ▸ List.mem_cons_self ..) (by simp)).elim
            | cons k known =>
                obtain ⟨rfl, hrest⟩ := List.cons.inj hkeys
                have htail : known.Sublist rest := List.cons_sublist_cons.mp
                  ((cons_sublist_append_iff fun hm => (hfront' o hm).1 rfl).mp hknown)
                have hmem' : tag ∈ o :: rest := by
                  rcases List.mem_append.mp hmem with hm | hm
                  · exact ((hfront' tag hm).2 rfl).elim
                  · exact hm
                have hnodup' : (o :: rest).Nodup := hnodup.sublist (List.sublist_append_right _ _)
                obtain ⟨known', hknown', hkeys'⟩ := ih hmem' hnodup' (htail.cons o)
                  (fun t ht hm => hunknown t ht (List.mem_append_right _ hm)) hrest
                have hout : o ∉ known' := by
                  intro hm
                  rcases mem_keys_insertOrdered v (hkeys' ▸ List.mem_append_left _ hm) with heq | hm
                  · exact hne heq
                  · rcases List.mem_append.mp (hrest ▸ hm) with hm | hm
                    · exact hfree (htail.subset hm)
                    · exact hunknown o hm (by simp)
                rw [if_neg (by simpa using hne)]
                refine ⟨o :: known', ?_, ?_⟩
                · exact (((sublist_cons_iff_of_not_mem hout).mp hknown').cons_cons o).trans
                    (List.sublist_append_right _ _)
                · rw [hcons, hkeys']
                  rfl

/-- A sublist of a list without repeats is what it has of that list. -/
theorem sublist_eq_filter {known order : List Int} (h : known.Sublist order) (hnodup : order.Nodup) :
    known = order.filter (· ∈ known) := by
  induction h with
  | slnil => rfl
  | cons o h ih =>
      obtain ⟨hfree, hnodup⟩ := List.nodup_cons.mp hnodup
      have hout : o ∉ _ := fun hm => hfree (h.subset hm)
      rw [List.filter_cons_of_neg (by simpa using hout)]
      exact ih hnodup
  | cons_cons o h ih =>
      obtain ⟨hfree, hnodup⟩ := List.nodup_cons.mp hnodup
      rw [List.filter_cons_of_pos (by simp)]
      congr 1
      refine (ih hnodup).trans (List.filter_congr fun t ht => ?_)
      have hne : t ≠ o := fun heq => hfree (heq ▸ ht)
      simp [hne]

/-- In front of a tag of a sublist there is nothing that is not in front of it in the list. -/
theorem takeWhile_sublist {known order : List Int} (h : known.Sublist order) (hnodup : order.Nodup)
    {tag : Int} (hmem : tag ∈ known) :
    (known.takeWhile (· ≠ tag)).Sublist (order.takeWhile (· ≠ tag)) := by
  induction h with
  | slnil => exact List.Sublist.slnil
  | cons o h ih =>
      obtain ⟨hfree, hnodup⟩ := List.nodup_cons.mp hnodup
      have hne : o ≠ tag := fun heq => hfree (heq ▸ h.subset hmem)
      rw [List.takeWhile_cons_of_pos (by simpa using hne)]
      exact (ih hnodup hmem).cons o
  | cons_cons o h ih =>
      obtain ⟨hfree, hnodup⟩ := List.nodup_cons.mp hnodup
      by_cases heq : o = tag
      · simp [heq]
      · rw [List.takeWhile_cons_of_pos (by simpa using heq),
          List.takeWhile_cons_of_pos (by simpa using heq)]
        refine (ih hnodup ?_).cons_cons o
        rcases List.mem_cons.mp hmem with hmem | hmem
        · exact (heq hmem.symm).elim
        · exact hmem

theorem takeWhile_append_of_mem {tag : Int} {known : List Int} (h : tag ∈ known)
    (unknown : List Int) :
    (known ++ unknown).takeWhile (· ≠ tag) = known.takeWhile (· ≠ tag) := by
  induction known with
  | nil => cases h
  | cons t known ih =>
      by_cases ht : t = tag
      · simp [ht]
      · rw [List.cons_append, List.takeWhile_cons_of_pos (by simpa using ht),
          List.takeWhile_cons_of_pos (by simpa using ht)]
        refine congrArg _ (ih ?_)
        rcases List.mem_cons.mp h with h | h
        · exact (ht h.symm).elim
        · exact h

theorem mem_insertOrdered {tag : Int} {v : View} {p : Int × View} {order : List Int}
    {l : List (Int × View)} (h : p ∈ insertOrdered tag v order l) : p = (tag, v) ∨ p ∈ l := by
  induction l generalizing order with
  | nil => exact .inl (List.mem_singleton.mp h)
  | cons q l ih =>
      obtain ⟨t, w⟩ := q
      rw [insertOrdered] at h
      split at h
      next heq =>
        rcases List.mem_cons.mp h with h | h
        · exact .inl (heq ▸ h)
        · exact .inr (List.mem_cons_of_mem _ h)
      next =>
        dsimp only at h
        split at h
        · split at h
          · exact .inr h
          · exact List.mem_cons.mp h
        · rcases List.mem_cons.mp h with h | h
          · exact .inr (h ▸ List.mem_cons_self ..)
          · exact (ih h).imp id (List.mem_cons_of_mem _)

/-! ## Ordered calls -/

/-- `setField` of a map that can be read.  The call has no behaviour when it leaves a view
that dangles. -/
def writeField (grow : Nat → Nat) (m : FieldMap) (tag : Int) (value : Bytes) (order : Bool) :
    Except Exn FieldMap :=
  let s := Held.setField grow ⟨m, []⟩ tag value order
  if s.dangling = [] then .ok s.map
  else .error (.undefined "owned storage moved under live views")

/-- Ordered calls of `setField`. -/
def setFields (grow : Nat → Nat) (m : FieldMap) : List (Int × Bytes) → Except Exn FieldMap
  | [] => .ok m
  | (tag, value) :: calls =>
      match writeField grow m tag value true with
      | .ok m' => setFields grow m' calls
      | .error e => .error e

/-- The value that the last call for a tag sets. -/
def lastValue (calls : List (Int × Bytes)) (tag : Int) : Option Bytes :=
  (calls.filterMap fun c => if c.1 = tag then some c.2 else none).getLast?

/-- The tags of some calls. -/
def tagsOf (calls : List (Int × Bytes)) : Finset Int := (calls.map Prod.fst).toFinset

/-- The map that some ordered calls leave. -/
structure Placed (spec : GroupSpec) (calls : List (Int × Bytes)) (m : FieldMap) : Prop where
  specified : m.spec = some spec
  /-- The tags of the field order are in front, and in order. -/
  keys : ∃ known unknown, AssocList.keys m.fields = known ++ unknown ∧
    known.Sublist spec.fieldOrder ∧ ∀ t ∈ unknown, t ∉ spec.fieldOrder
  nodup : (AssocList.keys m.fields).Nodup
  mem : ∀ t, t ∈ AssocList.keys m.fields ↔ t ∈ tagsOf calls
  values : ∀ t, m.field? t = lastValue calls t
  /-- Every tag has its own string, in the slots that were reserved. -/
  nodup_owned : (AssocList.keys m.owned).Nodup
  mem_owned : ∀ t, t ∈ AssocList.keys m.owned ↔ t ∈ tagsOf calls
  views : ∀ p ∈ m.fields, ∃ len, p.2 = .owned len
  reserved : m.reserved = ownedStorageCapacity
  room : m.owned.length ≤ ownedStorageCapacity

theorem placed_new (spec : GroupSpec) : Placed spec [] (new.setSpec (some spec)) where
  specified := rfl
  keys := ⟨[], [], rfl, List.nil_sublist _, fun _ h => by cases h⟩
  nodup := List.nodup_nil
  mem t := by simp [new, setSpec, AssocList.keys, tagsOf]
  values t := rfl
  nodup_owned := List.nodup_nil
  mem_owned t := by simp [new, setSpec, AssocList.keys, tagsOf]
  views p h := by cases h
  reserved := rfl
  room := Nat.zero_le _

namespace Placed

variable {spec : GroupSpec} {calls : List (Int × Bytes)} {m : FieldMap}

theorem card_tagsOf (h : Placed spec calls m) : (tagsOf calls).card = m.owned.length := by
  have heq : tagsOf calls = (AssocList.keys m.owned).toFinset := by
    ext t
    rw [List.mem_toFinset, h.mem_owned]
  rw [heq, List.toFinset_card_of_nodup h.nodup_owned, AssocList.keys, List.length_map]

theorem not_keeps (h : Placed spec calls m) (hnodup : spec.fieldOrder.Nodup) (tag : Int) :
    ¬m.Keeps tag true := by
  rintro ⟨-, spec', hspec, -, hstored, horder, hsub⟩
  rw [h.specified] at hspec
  cases hspec
  obtain ⟨known, unknown, hkeys, hknown, hunknown⟩ := h.keys
  rw [hkeys] at hstored hsub
  rcases List.mem_append.mp hstored with hmem | hmem
  · apply hsub
    rw [takeWhile_append_of_mem hmem]
    exact takeWhile_sublist hknown hnodup hmem
  · exact hunknown tag hmem horder

/-- The last value for a tag, when one more call is made. -/
theorem lastValue_append (calls : List (Int × Bytes)) (tag : Int) (value : Bytes) (t : Int) :
    lastValue (calls ++ [(tag, value)]) t = if tag = t then some value else lastValue calls t := by
  unfold lastValue
  rw [List.filterMap_append]
  by_cases ht : tag = t
  · simp [ht]
  · simp [ht]

theorem mem_tagsOf_append {tag t : Int} {value : Bytes} :
    t ∈ tagsOf (calls ++ [(tag, value)]) ↔ t = tag ∨ t ∈ tagsOf calls := by
  simp [tagsOf]

/-- What an ordered `setField` leaves. -/
theorem setField (h : Placed spec calls m) (hordered : spec.ordered = true)
    (hnodup : spec.fieldOrder.Nodup) {tag : Int}
    (hroom : tag ∈ tagsOf calls ∨ m.owned.length < ownedStorageCapacity) (value : Bytes) :
    Placed spec (calls ++ [(tag, value)]) (m.setField tag value true) := by
  have hfields : (m.setField tag value true).fields =
      insertOrdered tag (.owned value.length) spec.fieldOrder m.fields := by
    unfold FieldMap.setField insertFieldView
    rw [h.specified]
    dsimp only
    rw [hordered]
    rfl
  have hmemFields : ∀ t, t ∈ AssocList.keys (m.setField tag value true).fields ↔
      t = tag ∨ t ∈ AssocList.keys m.fields := by
    intro t
    rw [hfields, (keys_insertOrdered_perm ..).mem_iff]
    split
    next hstored =>
      constructor
      · exact .inr
      · rintro (rfl | ht)
        · exact hstored
        · exact ht
    next => exact List.mem_cons
  exact {
    specified := (spec_insertFieldView ..).trans h.specified
    keys := by
      obtain ⟨known, unknown, hkeys, hknown, hunknown⟩ := h.keys
      rw [hfields]
      by_cases hmem : tag ∈ spec.fieldOrder
      · obtain ⟨known', hknown', hkeys'⟩ := keys_insertOrdered (.owned value.length) hmem hnodup hknown
          hunknown hkeys
        exact ⟨known', unknown, hkeys', hknown', hunknown⟩
      · rw [insertOrdered_eq_set _ hmem, AssocList.keys_set, hkeys]
        split
        next => exact ⟨known, unknown, rfl, hknown, hunknown⟩
        next =>
          refine ⟨known, unknown ++ [tag], List.append_assoc .., hknown, fun t ht => ?_⟩
          rcases List.mem_append.mp ht with ht | ht
          · exact hunknown t ht
          · rw [List.mem_singleton.mp ht]
            exact hmem
    nodup := by
      rw [hfields, (keys_insertOrdered_perm ..).nodup_iff]
      split
      next => exact h.nodup
      next hnew => exact List.nodup_cons.mpr ⟨hnew, h.nodup⟩
    mem := fun t => by rw [hmemFields, h.mem, mem_tagsOf_append]
    values := fun t => by
      rw [lastValue_append]
      split
      next heq =>
        subst heq
        exact (field?_setField_iff h.nodup tag value true).mpr fun hk =>
          (h.not_keeps hnodup tag hk).elim
      next hne => rw [field?_setField_ne (Ne.symm hne), h.values]
    nodup_owned := by
      rw [keys_owned_setField]
      split
      next => exact h.nodup_owned
      next hnew => exact h.nodup_owned.append (List.nodup_singleton tag) (by simpa using hnew)
    mem_owned := fun t => by
      rw [keys_owned_setField, mem_tagsOf_append, ← h.mem_owned]
      split
      next hstored =>
        constructor
        · exact .inr
        · rintro (rfl | ht)
          · exact hstored
          · exact ht
      next => simp [or_comm]
    views := fun p hp => by
      rw [hfields] at hp
      rcases mem_insertOrdered hp with rfl | hp
      · exact ⟨_, rfl⟩
      · exact h.views p hp
    reserved := (reserved_setField ..).trans h.reserved
    room := by
      rw [length_owned_setField]
      split
      next => exact h.room
      next hnew =>
        rcases hroom with hmem | hlt
        · exact (hnew ((h.mem_owned tag).mpr hmem)).elim
        · omega }

/-- The call is made unless the strings would move. -/
theorem writeField_eq (h : Placed spec calls m) (hnodup : spec.fieldOrder.Nodup)
    (grow : Nat → Nat) (tag : Int) (value : Bytes) :
    writeField grow m tag value true =
      if tag ∈ tagsOf calls ∨ m.owned.length < ownedStorageCapacity then
        .ok (m.setField tag value true)
      else .error (.undefined "owned storage moved under live views") := by
  have hfull : m.storageFull tag = true ↔
      ¬(tag ∈ tagsOf calls ∨ m.owned.length < ownedStorageCapacity) := by
    rw [← h.mem_owned, ← h.reserved, ← storageFull_eq_false_iff, Bool.not_eq_false]
  have hkeeps : ¬m.keepsView tag true = true := fun hk =>
    h.not_keeps hnodup tag ((keepsView_iff h.nodup tag true).mp hk)
  unfold writeField Held.setField
  dsimp only
  rw [if_neg hkeeps]
  by_cases hroom : tag ∈ tagsOf calls ∨ m.owned.length < ownedStorageCapacity
  · rw [if_pos hroom, if_neg fun hf => hfull.mp hf hroom, if_neg fun hf => hfull.mp hf hroom]
    rfl
  · rw [if_neg hroom, if_pos (hfull.mpr hroom), if_neg]
    -- A string in every slot belongs to a field.
    obtain ⟨q, hq⟩ : ∃ q, q ∈ m.owned := by
      apply List.exists_mem_of_ne_nil
      intro hnil
      apply hroom
      rw [hnil]
      exact .inr (by decide)
    have htags : q.1 ∈ tagsOf calls := (h.mem_owned q.1).mp (List.mem_map_of_mem hq)
    have hne : q.1 ≠ tag := fun heq => hroom (.inl (heq ▸ htags))
    obtain ⟨p, hp, hkey⟩ := List.mem_map.mp ((h.mem q.1).mpr htags)
    obtain ⟨len, hlen⟩ := h.views p hp
    have hview : AssocList.find? q.1 m.fields = some (.owned len) := by
      rw [← hkey, ← hlen]
      exact AssocList.find?_of_mem h.nodup hp
    have hviewed : q.1 ∈ m.viewedTags :=
      Held.mem_viewedTags.mpr (Held.viewsOwned_iff.mpr ⟨len, hview⟩)
    exact List.ne_nil_of_mem (List.mem_filter.mpr ⟨hviewed, by simpa using hne⟩)

/-- Ordered calls go through if and only if there are no more tags than slots. -/
theorem setFields (h : Placed spec calls m) (hordered : spec.ordered = true)
    (hnodup : spec.fieldOrder.Nodup) (grow : Nat → Nat) (more : List (Int × Bytes)) :
    ((tagsOf (calls ++ more)).card ≤ ownedStorageCapacity →
        ∃ m', m.setFields grow more = .ok m' ∧ Placed spec (calls ++ more) m') ∧
      (ownedStorageCapacity < (tagsOf (calls ++ more)).card →
        ∃ e, m.setFields grow more = .error e) := by
  induction more generalizing calls m with
  | nil =>
      rw [List.append_nil, h.card_tagsOf]
      exact ⟨fun _ => ⟨m, rfl, h⟩, fun hlt => absurd h.room (by omega)⟩
  | cons c more ih =>
      obtain ⟨tag, value⟩ := c
      have hassoc : calls ++ (tag, value) :: more = (calls ++ [(tag, value)]) ++ more := by simp
      have hwrite := h.writeField_eq hnodup grow tag value
      rw [FieldMap.setFields, hwrite, hassoc]
      by_cases hroom : tag ∈ tagsOf calls ∨ m.owned.length < ownedStorageCapacity
      · rw [if_pos hroom]
        exact ih (h.setField hordered hnodup hroom value)
      · rw [if_neg hroom]
        refine ⟨fun hle => ?_, fun _ => ⟨_, rfl⟩⟩
        -- The tags so far and this one are too many already.
        have hsub : insert tag (tagsOf calls) ⊆ tagsOf (calls ++ [(tag, value)] ++ more) := by
          intro t ht
          rcases Finset.mem_insert.mp ht with rfl | ht
          · simp [tagsOf]
          · simp only [tagsOf, List.mem_toFinset] at ht ⊢
            simp [ht]
        have hcard := Finset.card_le_card hsub
        obtain ⟨hnew, hfull⟩ := not_or.mp hroom
        rw [Finset.card_insert_of_notMem hnew, h.card_tagsOf] at hcard
        omega

end Placed

/-! ## Sorting -/

theorem erase_eq_filter {tag : Int} {l : List (Int × View)} (h : (AssocList.keys l).Nodup) :
    AssocList.erase tag l = l.filter fun p => p.1 ≠ tag := by
  induction l with
  | nil => rfl
  | cons p l ih =>
      obtain ⟨t, w⟩ := p
      obtain ⟨hfree, hnodup⟩ := List.nodup_cons.mp h
      rw [AssocList.erase]
      split
      next heq =>
        subst heq
        rw [List.filter_cons_of_neg (by simp)]
        refine (List.filter_eq_self.mpr fun q hq => ?_).symm
        simp only [ne_eq, decide_not, Bool.not_eq_true', decide_eq_false_iff_not]
        intro heq
        have hmem : q.1 ∈ AssocList.keys l := List.mem_map_of_mem hq
        exact hfree (heq ▸ hmem)
      next hne => rw [List.filter_cons_of_pos (by simpa using hne), ih hnodup]

/-- The fields of a list of tags, where a map has them. -/
def pick (order : List Int) (fields : List (Int × View)) : List (Int × View) :=
  order.filterMap fun t => (AssocList.find? t fields).map fun v => (t, v)

/-- The fields of no tag of a list. -/
def others (order : List Int) (fields : List (Int × View)) : List (Int × View) :=
  fields.filter fun p => p.1 ∉ order

theorem pick_congr {order : List Int} {l l' : List (Int × View)}
    (h : ∀ t ∈ order, AssocList.find? t l = AssocList.find? t l') : pick order l = pick order l' :=
  List.filterMap_congr fun t ht => by rw [h t ht]

/-- The loop over the order takes the fields of the order one by one. -/
theorem foldl_sortStep {order : List Int} (horder : order.Nodup) {acc fields : List (Int × View)}
    (hfields : (AssocList.keys fields).Nodup) (hacc : ∀ t ∈ order, t ∉ AssocList.keys acc) :
    order.foldl sortStep (acc, fields) = (acc ++ pick order fields, others order fields) := by
  induction order generalizing acc fields with
  | nil => simp [pick, others]
  | cons tag order ih =>
      obtain ⟨hfree, horder⟩ := List.nodup_cons.mp horder
      have hrest : ∀ t ∈ order, t ∉ AssocList.keys acc := fun t ht =>
        hacc t (List.mem_cons_of_mem _ ht)
      rw [List.foldl_cons, sortStep]
      dsimp only
      cases hfind : AssocList.find? tag fields with
      | none =>
          have hpick : pick (tag :: order) fields = pick order fields := by
            unfold pick
            rw [List.filterMap_cons_none (by rw [hfind]; rfl)]
          have hothers : others (tag :: order) fields = others order fields := by
            refine List.filter_congr fun p hp => ?_
            have hne : p.1 ≠ tag := fun heq =>
              AssocList.find?_eq_none_iff.mp hfind (heq ▸ List.mem_map_of_mem hp)
            simp [hne]
          rw [hpick, hothers]
          exact ih horder hfields hrest
      | some v =>
          have hkeys : (AssocList.keys (AssocList.erase tag fields)).Nodup := by
            rw [AssocList.keys_erase]
            exact hfields.erase _
          have hinsert : AssocList.insert tag v acc = acc ++ [(tag, v)] :=
            AssocList.insert_of_not_mem v (hacc tag (List.mem_cons_self ..))
          have hfresh : ∀ t ∈ order, t ∉ AssocList.keys (acc ++ [(tag, v)]) := by
            intro t ht hm
            rw [AssocList.keys, List.map_append, List.mem_append] at hm
            rcases hm with hm | hm
            · exact hrest t ht hm
            · have heq : t = tag := List.mem_singleton.mp hm
              exact hfree (heq ▸ ht)
          have hpick : pick (tag :: order) fields =
              (tag, v) :: pick order (AssocList.erase tag fields) := by
            have hsame : pick order (AssocList.erase tag fields) = pick order fields :=
              pick_congr fun t ht => AssocList.find?_erase_ne (ne_of_mem_of_not_mem ht hfree) fields
            rw [hsame]
            unfold pick
            rw [List.filterMap_cons_some (by rw [hfind]; rfl)]
          have hothers : others order (AssocList.erase tag fields) = others (tag :: order) fields := by
            unfold others
            rw [erase_eq_filter hfields, List.filter_filter]
            refine List.filter_congr fun p _ => ?_
            simp [Bool.and_comm]
          dsimp only
          rw [hinsert, ih horder hkeys hfresh, hpick, hothers, List.append_assoc,
            List.singleton_append]

theorem foldl_insert_fresh {l acc : List (Int × View)} (h : (AssocList.keys (acc ++ l)).Nodup) :
    l.foldl (fun newFields e => AssocList.insert e.1 e.2 newFields) acc = acc ++ l := by
  induction l generalizing acc with
  | nil => simp
  | cons e l ih =>
      have hsplit : acc ++ e :: l = acc ++ [e] ++ l := by simp
      have hfresh : e.1 ∉ AssocList.keys acc := by
        intro hm
        rw [AssocList.keys, List.map_append] at h
        exact (List.nodup_append.mp h).2.2 _ hm _ (List.mem_cons_self ..) rfl
      rw [List.foldl_cons, AssocList.insert_of_not_mem _ hfresh, ih (by rw [← hsplit]; exact h), hsplit]

theorem keys_pick (order : List Int) (fields : List (Int × View)) :
    AssocList.keys (pick order fields) = order.filter (· ∈ AssocList.keys fields) := by
  induction order with
  | nil => rfl
  | cons t order ih =>
      unfold pick at *
      cases hfind : AssocList.find? t fields with
      | none =>
          rw [List.filterMap_cons_none (by rw [hfind]; rfl), ih,
            List.filter_cons_of_neg (by simpa using AssocList.find?_eq_none_iff.mp hfind)]
      | some v =>
          have hm : t ∈ AssocList.keys fields :=
            AssocList.find?_isSome_iff.mp (by rw [hfind]; rfl)
          rw [List.filterMap_cons_some (by rw [hfind]; rfl), List.filter_cons_of_pos (by simpa using hm),
            ← ih]
          rfl

/-- Fields by their tags. -/
def byTag (l : List (Int × View)) : List (Int × View) := l.insertionSort fun a b => a.1 ≤ b.1

/-- A sorted map has the fields of the order first. -/
theorem fields_sortFields {m : FieldMap} {spec : GroupSpec} (hspec : m.spec = some spec)
    (horder : spec.fieldOrder.Nodup) (hnodup : (AssocList.keys m.fields).Nodup) :
    m.sortFields.fields =
      pick spec.fieldOrder m.fields ++ byTag (others spec.fieldOrder m.fields) := by
  have hempty : ∀ t ∈ spec.fieldOrder, t ∉ AssocList.keys ([] : List (Int × View)) :=
    fun _ _ h => by cases h
  have hfold := foldl_sortStep horder hnodup hempty
  have hdef : m.sortFields.fields =
      ((spec.fieldOrder.foldl sortStep ([], m.fields)).2.insertionSort fun a b => a.1 ≤ b.1).foldl
        (fun newFields e => AssocList.insert e.1 e.2 newFields)
        (spec.fieldOrder.foldl sortStep ([], m.fields)).1 := by
    rw [sortFields, hspec]
    rfl
  have hsort : (byTag (others spec.fieldOrder m.fields)).Perm (others spec.fieldOrder m.fields) :=
    List.perm_insertionSort _ _
  have hpick := keys_pick spec.fieldOrder m.fields
  have hkeys : (AssocList.keys
      (pick spec.fieldOrder m.fields ++ byTag (others spec.fieldOrder m.fields))).Nodup := by
    rw [AssocList.keys] at hpick
    rw [AssocList.keys, List.map_append, List.nodup_append, hpick, (hsort.map Prod.fst).nodup_iff]
    refine ⟨horder.filter _, hnodup.sublist (List.filter_sublist.map Prod.fst), ?_⟩
    intro a ha b hb heq
    obtain ⟨q, hq, rfl⟩ := List.mem_map.mp hb
    have hout := (List.mem_filter.mp (hsort.mem_iff.mp hq)).2
    exact (by simpa using hout : q.1 ∉ spec.fieldOrder) (heq ▸ (List.mem_filter.mp ha).1)
  rw [hdef, hfold, List.nil_append]
  exact foldl_insert_fresh hkeys

instance : Std.Total fun a b : Int × View => a.1 ≤ b.1 := ⟨fun a b => le_total a.1 b.1⟩

instance : IsTrans (Int × View) fun a b => a.1 ≤ b.1 := ⟨fun _ _ _ => le_trans⟩

theorem byTag_byTag (l : List (Int × View)) : byTag (byTag l) = byTag l :=
  List.Pairwise.insertionSort_eq (List.pairwise_insertionSort _ l)

/-- What `sortFields` makes of a map with distinct tags: the tags of the order in its
sequence, every field with its value, and nothing new the second time. -/
structure Sorts (order : List Int) (m : FieldMap) : Prop where
  keys : (AssocList.keys m.sortFields.fields).filter (· ∈ order) =
    order.filter (· ∈ AssocList.keys m.fields)
  perm : m.sortFields.fields.Perm m.fields
  values : ∀ tag, m.sortFields.getField tag = m.getField tag
  again : m.sortFields.sortFields = m.sortFields

theorem sorts {m : FieldMap} {spec : GroupSpec} (hspec : m.spec = some spec)
    (horder : spec.fieldOrder.Nodup) (hnodup : (AssocList.keys m.fields).Nodup) :
    Sorts spec.fieldOrder m := by
  have hfields := fields_sortFields hspec horder hnodup
  have hout : ∀ p ∈ byTag (others spec.fieldOrder m.fields), p.1 ∉ spec.fieldOrder := by
    intro p hp
    have hmem := (List.perm_insertionSort _ _).mem_iff.mp hp
    simpa using (List.mem_filter.mp hmem).2
  have hperm : m.sortFields.fields.Perm m.fields :=
    (AssocList.firsts_eq_self_iff.mpr hnodup) ▸ fields_sortFields_perm m
  refine ⟨?_, hperm, fun tag => ?_, ?_⟩
  · rw [hfields, AssocList.keys, List.map_append, List.filter_append]
    have hpick := keys_pick spec.fieldOrder m.fields
    rw [AssocList.keys] at hpick
    have hnone : ((byTag (others spec.fieldOrder m.fields)).map Prod.fst).filter
        (· ∈ spec.fieldOrder) = [] := by
      rw [List.filter_eq_nil_iff]
      intro t ht
      obtain ⟨p, hp, rfl⟩ := List.mem_map.mp ht
      simpa using hout p hp
    rw [hnone, List.append_nil, hpick, List.filter_eq_self.mpr]
    intro t ht
    simpa using (List.mem_filter.mp ht).1
  · unfold getField field?
    rw [find?_sortFields]
    rfl
  · have hnodup' : (AssocList.keys m.sortFields.fields).Nodup :=
      (hperm.map Prod.fst).nodup_iff.mpr hnodup
    have hagain := fields_sortFields (m := m.sortFields) hspec horder hnodup'
    have hpick : pick spec.fieldOrder m.sortFields.fields = pick spec.fieldOrder m.fields :=
      pick_congr fun t _ => find?_sortFields m t
    have hothers : others spec.fieldOrder m.sortFields.fields =
        byTag (others spec.fieldOrder m.fields) := by
      unfold others
      rw [hfields, List.filter_append]
      have hnone : (pick spec.fieldOrder m.fields).filter (fun p => p.1 ∉ spec.fieldOrder) = [] := by
        rw [List.filter_eq_nil_iff]
        intro p hp
        have hmem : p.1 ∈ AssocList.keys (pick spec.fieldOrder m.fields) := List.mem_map_of_mem hp
        rw [keys_pick] at hmem
        simpa using (List.mem_filter.mp hmem).1
      rw [hnone, List.nil_append, List.filter_eq_self.mpr]
      · rfl
      · intro p hp
        simpa using hout p hp
    rw [hpick, hothers, byTag_byTag, ← hfields] at hagain
    show { m.sortFields with fields := m.sortFields.sortFields.fields } = m.sortFields
    rw [hagain]
    rfl

/-! ## Any order of the calls -/

/-- Ordered calls put the tags of the field order in front, in its sequence, and each tag
once with its last value, and so does every other order of these calls. -/
def Orders (grow : Nat → Nat) (spec : GroupSpec) (calls : List (Int × Bytes)) : Prop :=
  ∃ m, (new.setSpec (some spec)).setFields grow calls = .ok m ∧
    (∃ unknown, AssocList.keys m.fields =
        spec.fieldOrder.filter (· ∈ tagsOf calls) ++ unknown ∧ ∀ t ∈ unknown, t ∉ spec.fieldOrder) ∧
    (AssocList.keys m.fields).Nodup ∧ (∀ tag, m.field? tag = lastValue calls tag) ∧
    ∀ calls', calls'.Perm calls → ∃ m', (new.setSpec (some spec)).setFields grow calls' = .ok m' ∧
      (AssocList.keys m'.fields).filter (· ∈ spec.fieldOrder) =
        (AssocList.keys m.fields).filter (· ∈ spec.fieldOrder)

theorem Placed.keys_eq {spec : GroupSpec} {calls : List (Int × Bytes)} {m : FieldMap}
    (h : Placed spec calls m) (hnodup : spec.fieldOrder.Nodup) :
    ∃ unknown, AssocList.keys m.fields = spec.fieldOrder.filter (· ∈ tagsOf calls) ++ unknown ∧
      ∀ t ∈ unknown, t ∉ spec.fieldOrder := by
  obtain ⟨known, unknown, hkeys, hknown, hunknown⟩ := h.keys
  refine ⟨unknown, ?_, hunknown⟩
  rw [hkeys, sublist_eq_filter hknown hnodup]
  congr 1
  refine List.filter_congr fun t ht => ?_
  have hmem := h.mem t
  rw [hkeys, List.mem_append, or_iff_left fun hu => hunknown t hu ht] at hmem
  simpa using hmem

/-- Ordered insertion does not depend on the order of the calls and agrees with sorting if
and only if there are no more tags than slots for owned strings. -/
theorem orders_iff (grow : Nat → Nat) {spec : GroupSpec} (hordered : spec.ordered = true)
    (hnodup : spec.fieldOrder.Nodup) (calls : List (Int × Bytes)) :
    (Orders grow spec calls ∧ ∀ m : FieldMap, m.spec = some spec → (AssocList.keys m.fields).Nodup →
        Sorts spec.fieldOrder m) ↔ (tagsOf calls).card ≤ ownedStorageCapacity := by
  have hfilter : ∀ {calls : List (Int × Bytes)} {m : FieldMap}, Placed spec calls m →
      (AssocList.keys m.fields).filter (· ∈ spec.fieldOrder) =
        spec.fieldOrder.filter (· ∈ tagsOf calls) := by
    intro calls m h
    obtain ⟨unknown, hkeys, hunknown⟩ := h.keys_eq hnodup
    have hnone : unknown.filter (· ∈ spec.fieldOrder) = [] := by
      rw [List.filter_eq_nil_iff]
      intro t ht
      simpa using hunknown t ht
    rw [hkeys, List.filter_append, hnone, List.append_nil, List.filter_eq_self.mpr]
    intro t ht
    simpa using (List.mem_filter.mp ht).1
  constructor
  · rintro ⟨⟨m, hrun, -⟩, -⟩
    by_contra hmany
    obtain ⟨e, herr⟩ := ((placed_new spec).setFields hordered hnodup grow calls).2 (by simpa using hmany)
    rw [hrun] at herr
    cases herr
  · intro hfew
    obtain ⟨m, hrun, hm⟩ := ((placed_new spec).setFields hordered hnodup grow calls).1 hfew
    refine ⟨⟨m, hrun, hm.keys_eq hnodup, hm.nodup, hm.values, fun calls' hperm => ?_⟩,
      fun m hspec hkeys => sorts hspec hnodup hkeys⟩
    have htags : tagsOf calls' = tagsOf calls := List.toFinset_eq_of_perm _ _ (hperm.map Prod.fst)
    obtain ⟨m', hrun', hm'⟩ :=
      ((placed_new spec).setFields hordered hnodup grow calls').1 (by rw [List.nil_append, htags]; exact hfew)
    exact ⟨m', hrun', by rw [hfilter hm', hfilter hm, List.nil_append, List.nil_append, htags]⟩

/-- Type and sequence number of a header. -/
theorem orders_iff_test : (Orders (2 * ·) ⟨[], [], true, [35, 34]⟩ [(34, [49]), (35, [65])] ∧
    ∀ m : FieldMap, m.spec = some ⟨[], [], true, [35, 34]⟩ → (AssocList.keys m.fields).Nodup →
      Sorts [35, 34] m) ↔ (tagsOf [(34, [49]), (35, [65])]).card ≤ ownedStorageCapacity :=
  @orders_iff (2 * ·) ⟨[], [], true, [35, 34]⟩ rfl (by decide) [(34, [49]), (35, [65])]

/-- Seventeen tags. -/
theorem not_orders : ¬∀ (grow : Nat → Nat) (spec : GroupSpec), spec.ordered = true →
    spec.fieldOrder.Nodup → ∀ calls, Orders grow spec calls ∧ ∀ m : FieldMap, m.spec = some spec →
      (AssocList.keys m.fields).Nodup → Sorts spec.fieldOrder m := by
  intro h
  let calls : List (Int × Bytes) := (List.range 17).map fun i => ((i : Int) + 1, [65])
  obtain ⟨⟨m, hrun, -⟩, -⟩ := h (2 * ·) ⟨[], [], true, []⟩ rfl List.nodup_nil calls
  have hmany : ownedStorageCapacity < (tagsOf ([] ++ calls)).card := by decide
  obtain ⟨e, herr⟩ :=
    ((placed_new ⟨[], [], true, []⟩).setFields rfl List.nodup_nil (2 * ·) calls).2 hmany
  rw [hrun] at herr
  cases herr

end FieldMap

end OpenFix
