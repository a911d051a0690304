import Mathlib.Logic.Function.Basic
import OpenFix.Lib.AssocList

/-!
# Tables in front of maps

A map may have a table in front of it, with a slot for some of the keys.  A slot
belongs to one key at most.  The table either marks the keys of the map, or holds its
values a second time, and a lookup that finds a slot does not ask the map.
-/

universe u v w

namespace Table

open AssocList

variable {κ : Type u} {ι : Type v} {α : Type w} [DecidableEq κ] [DecidableEq ι]

/-- Every slot belongs to one key at most. -/
def Exclusive (slot? : κ → Option ι) : Prop :=
  ∀ k k' i, slot? k = some i → slot? k' = some i → k = k'

variable {slot? : κ → Option ι}

/-! ## Marks -/

/-- Mark a key, if it has a slot. -/
def mark (slot? : κ → Option ι) (table : ι → Bool) (k : κ) : ι → Bool :=
  match slot? k with
  | some i => Function.update table i true
  | none => table

/-- The table that marks some keys. -/
def marks (slot? : κ → Option ι) (ks : List κ) : ι → Bool := ks.foldl (mark slot?) fun _ => false

omit [DecidableEq κ] in
theorem mark_eq_true_iff {table : ι → Bool} {k : κ} {i : ι} :
    mark slot? table k i = true ↔ slot? k = some i ∨ table i = true := by
  unfold mark
  cases hk : slot? k with
  | none => simp
  | some j =>
      by_cases hij : i = j
      · simp [hij]
      · simp [Function.update_of_ne hij, Ne.symm hij]

omit [DecidableEq κ] in
theorem foldl_mark_eq_true_iff {ks : List κ} {table : ι → Bool} {i : ι} :
    ks.foldl (mark slot?) table i = true ↔ (∃ k ∈ ks, slot? k = some i) ∨ table i = true := by
  induction ks generalizing table with
  | nil => simp
  | cons k ks ih =>
      rw [List.foldl_cons, ih, mark_eq_true_iff, List.exists_mem_cons_iff]
      exact or_left_comm.trans (or_assoc.symm)

omit [DecidableEq κ] in
/-- The slot of a key is marked exactly if the key is one of them. -/
theorem marks_eq_true_iff (hslot : Exclusive slot?) {ks : List κ} {k : κ} {i : ι}
    (hk : slot? k = some i) : marks slot? ks i = true ↔ k ∈ ks := by
  rw [marks, foldl_mark_eq_true_iff]
  constructor
  · rintro (⟨k', hmem, hk'⟩ | hfalse)
    · exact hslot k' k i hk' hk ▸ hmem
    · cases hfalse
  · exact fun hmem => .inl ⟨k, hmem, hk⟩

/-! ## Values -/

/-- Put a value into the slot of a key, if it has one. -/
def put (slot? : κ → Option ι) (table : ι → Option α) (k : κ) (v : α) : ι → Option α :=
  match slot? k with
  | some i => Function.update table i (some v)
  | none => table

/-- The slots hold what the map has under their keys. -/
def Shadows (slot? : κ → Option ι) (table : ι → Option α) (map : List (κ × α)) : Prop :=
  ∀ k i, slot? k = some i → table i = find? k map

omit [DecidableEq ι] in
theorem shadows_nil (slot? : κ → Option ι) : Shadows slot? (fun _ => none) ([] : List (κ × α)) :=
  fun _ _ _ => rfl

theorem Shadows.put (hslot : Exclusive slot?) {table : ι → Option α} {map : List (κ × α)}
    (h : Shadows slot? table map) (k : κ) (v : α) :
    Shadows slot? (put slot? table k v) (set k v map) := by
  intro k' i hk'
  unfold Table.put
  by_cases heq : k' = k
  · subst heq
    rw [hk', find?_set_self]
    exact Function.update_self ..
  · rw [find?_set_ne heq, ← h k' i hk']
    cases hk : slot? k with
    | none => rfl
    | some j =>
        have hne : i ≠ j := by
          rintro rfl
          exact heq (hslot k' k i hk' hk)
        exact Function.update_of_ne hne ..

end Table
