import Mathlib.Data.List.Basic

/-!
# Two lists joined by a separator

The parts may hold the separator themselves.  Two pairs are then joined to one list
exactly if one of them takes a later separator of it than the other.
-/

universe u

namespace Joined

variable {α : Type u} {sep : α} {p q : List α × List α}

/-- The first part, the separator, and the second part. -/
def join (sep : α) (p : List α × List α) : List α := p.1 ++ sep :: p.2

/-- The first part goes on over a separator, with what the second part begins with. -/
def Shifted (sep : α) (p q : List α × List α) : Prop :=
  ∃ mid, q.1 = p.1 ++ sep :: mid ∧ p.2 = mid ++ sep :: q.2

theorem Shifted.mem (h : Shifted sep p q) : sep ∈ p.2 ∧ sep ∈ q.1 := by
  obtain ⟨mid, hq, hp⟩ := h
  rw [hp, hq]
  exact ⟨List.mem_append_right _ List.mem_cons_self, List.mem_append_right _ List.mem_cons_self⟩

theorem Shifted.join_eq (h : Shifted sep p q) : join sep p = join sep q := by
  obtain ⟨mid, hq, hp⟩ := h
  simp [join, hq, hp]

theorem join_eq_iff : join sep p = join sep q ↔ p = q ∨ Shifted sep p q ∨ Shifted sep q p := by
  -- The shorter first part ends at a separator of the longer, or they are the same.
  have hlonger : ∀ {p q : List α × List α} {rest : List α}, q.1 = p.1 ++ rest →
      sep :: p.2 = rest ++ sep :: q.2 → p = q ∨ Shifted sep p q := by
    intro p q rest hfirst hsecond
    cases rest with
    | nil =>
        rw [List.append_nil] at hfirst
        rw [List.nil_append, List.cons.injEq] at hsecond
        exact .inl (Prod.ext hfirst.symm hsecond.2)
    | cons x mid =>
        rw [List.cons_append, List.cons.injEq] at hsecond
        obtain ⟨rfl, hsecond⟩ := hsecond
        exact .inr ⟨mid, hfirst, hsecond⟩
  constructor
  · intro h
    rcases List.append_eq_append_iff.mp h with ⟨rest, hfirst, hsecond⟩ | ⟨rest, hfirst, hsecond⟩
    · exact (hlonger hfirst hsecond).imp id .inl
    · exact (hlonger hfirst hsecond).imp Eq.symm .inr
  · rintro (rfl | h | h)
    · rfl
    · exact h.join_eq
    · exact h.join_eq.symm

end Joined
