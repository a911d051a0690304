/-!
# Tilings

A list of half-open intervals tiles the way from one point to another when each
starts where the one before it ended.
-/

universe u

/-- The intervals lead from the first point to the last without a gap or an overlap. -/
inductive Tiles {α : Type u} : α → List (α × α) → α → Prop where
  | nil (a : α) : Tiles a [] a
  | cons {a b c : α} {l : List (α × α)} (h : Tiles b l c) : Tiles a ((a, b) :: l) c

namespace Tiles

variable {α : Type u} {a b c : α} {l l' : List (α × α)}

theorem append (h : Tiles a l b) (h' : Tiles b l' c) : Tiles a (l ++ l') c := by
  induction h with
  | nil => exact h'
  | cons _ ih => exact .cons (ih h')

/-- A tiling that goes on after a tiling starts where that one ends. -/
theorem of_append {d : α} (h : Tiles a l b) (h' : Tiles a (l ++ l') d) : Tiles b l' d := by
  induction h with
  | nil => exact h'
  | cons _ ih =>
      cases h' with
      | cons h' => exact ih h'

theorem unique (h : Tiles a l b) (h' : Tiles a l c) : b = c := by
  induction h with
  | nil => cases h'; rfl
  | cons _ ih =>
      cases h' with
      | cons h' => exact ih h'

/-- The first interval starts at the first point. -/
theorem head {x y : α} (h : Tiles a ((x, y) :: l) b) : x = a ∧ Tiles y l b := by
  cases h with
  | cons h => exact ⟨rfl, h⟩

end Tiles
