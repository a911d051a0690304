import Mathlib.Data.List.Infix

/-!
# Searching a list for a pattern

`find` is the index of the first occurrence of a pattern.  An occurrence that is
found stays the first one when the list grows, and one that lies in the shorter
list was found there before.
-/

universe u

namespace Search

variable {α : Type u} [DecidableEq α]

/-- The index of the first occurrence of a pattern. -/
def find (pat : List α) : List α → Option Nat
  | [] => if pat = [] then some 0 else none
  | a :: l => if pat <+: a :: l then some 0 else (find pat l).map (· + 1)

variable {pat : List α}

theorem find_eq_zero_iff : ∀ {l : List α}, find pat l = some 0 ↔ pat <+: l
  | [] => by simp [find]
  | a :: l => by
      simp only [find]
      split
      next h => exact ⟨fun _ => h, fun _ => rfl⟩
      next h => exact ⟨fun hf => by simp at hf, fun hp => (h hp).elim⟩

/-- Where the first occurrence is. -/
theorem find_eq_some_iff : ∀ {l : List α} {i : Nat},
    find pat l = some i ↔ pat <+: l.drop i ∧ i ≤ l.length ∧ ∀ j < i, ¬pat <+: l.drop j
  | l, 0 => by
      rw [find_eq_zero_iff, List.drop_zero]
      exact ⟨fun h => ⟨h, Nat.zero_le _, fun j hj => absurd hj (Nat.not_lt_zero j)⟩, fun h => h.1⟩
  | [], i + 1 => by
      have hne : find pat [] ≠ some (i + 1) := by
        unfold find
        split
        · simp
        · simp
      exact ⟨fun h => (hne h).elim, fun h => absurd h.2.1 (Nat.not_succ_le_zero i)⟩
  | a :: l, i + 1 => by
      have ih := find_eq_some_iff (l := l) (i := i)
      simp only [find, List.drop_succ_cons, List.length_cons]
      split
      next h =>
        exact ⟨fun hf => by simp at hf, fun hf => (hf.2.2 0 (Nat.succ_pos i) h).elim⟩
      next h =>
        simp only [Option.map_eq_some_iff, Nat.add_right_cancel_iff, exists_eq_right, ih]
        constructor
        · intro ⟨hp, hle, hfirst⟩
          refine ⟨hp, Nat.succ_le_succ hle, fun j hj => ?_⟩
          cases j with
          | zero => exact h
          | succ j => exact hfirst j (Nat.lt_of_succ_lt_succ hj)
        · intro ⟨hp, hle, hfirst⟩
          exact ⟨hp, Nat.le_of_succ_le_succ hle, fun j hj => hfirst (j + 1) (Nat.succ_lt_succ hj)⟩

variable {l : List α} {i : Nat}

theorem isPrefix_of_find (h : find pat l = some i) : pat <+: l.drop i := (find_eq_some_iff.mp h).1

/-- The occurrence lies in the list. -/
theorem add_length_le (h : find pat l = some i) : i + pat.length ≤ l.length := by
  obtain ⟨hp, hle, -⟩ := find_eq_some_iff.mp h
  have := hp.length_le
  rw [List.length_drop] at this
  omega

/-- The list goes on after the occurrence. -/
theorem find_append (h : find pat l = some i) (c : List α) : find pat (l ++ c) = some i := by
  have hlen := add_length_le h
  obtain ⟨hp, hle, hfirst⟩ := find_eq_some_iff.mp h
  refine find_eq_some_iff.mpr ⟨?_, by rw [List.length_append]; omega, fun j hj hpj => hfirst j hj ?_⟩
  · rw [List.drop_append_of_le_length hle]
    exact List.prefix_append_of_prefix hp
  · rw [List.drop_append_of_le_length (by omega)] at hpj
    exact List.prefix_of_prefix_length_le hpj (List.prefix_append _ _) (by rw [List.length_drop]; omega)

/-- An occurrence that ends before the list goes on. -/
theorem find_of_append {c : List α} (h : find pat (l ++ c) = some i)
    (hlen : i + pat.length ≤ l.length) : find pat l = some i := by
  obtain ⟨hp, -, hfirst⟩ := find_eq_some_iff.mp h
  refine find_eq_some_iff.mpr ⟨?_, by omega, fun j hj hpj => hfirst j hj ?_⟩
  · rw [List.drop_append_of_le_length (by omega)] at hp
    exact List.prefix_of_prefix_length_le hp (List.prefix_append _ _) (by rw [List.length_drop]; omega)
  · rw [List.drop_append_of_le_length (by omega)]
    exact List.prefix_append_of_prefix hpj

/-- What occurs somewhere is found there or before. -/
theorem exists_find (hp : pat <+: l.drop i) (hle : i ≤ l.length) :
    ∃ j ≤ i, find pat l = some j := by
  induction i using Nat.strongRecOn with
  | ind i ih =>
      by_cases hfirst : ∀ j < i, ¬pat <+: l.drop j
      · exact ⟨i, Nat.le_refl i, find_eq_some_iff.mpr ⟨hp, hle, hfirst⟩⟩
      · obtain ⟨j, hj, hpj⟩ : ∃ j < i, pat <+: l.drop j := by
          by_contra hnone
          exact hfirst fun j hj hpj => hnone ⟨j, hj, hpj⟩
        obtain ⟨k, hk, hfind⟩ := ih j hj hpj (by omega)
        exact ⟨k, by omega, hfind⟩

/-- Nothing before the occurrence matters. -/
theorem find_drop (h : find pat l = some i) : find pat (l.drop i) = some 0 :=
  find_eq_zero_iff.mpr (isPrefix_of_find h)

/-- A pattern whose first value does not occur in front of its first occurrence. -/
theorem find_of_head {a : α} {pat b c : List α} (h : a ∉ b) :
    find (a :: pat) (b ++ (a :: pat ++ c)) = some b.length := by
  induction b with
  | nil => exact find_eq_zero_iff.mpr ⟨c, rfl⟩
  | cons x b ih =>
      have hne : ¬(a :: pat) <+: x :: (b ++ (a :: pat ++ c)) := by
        intro hp
        exact h ((List.cons_prefix_cons.mp hp).1 ▸ List.mem_cons_self ..)
      rw [List.cons_append, find, if_neg hne, ih fun hmem => h (List.mem_cons_of_mem _ hmem)]
      rfl

/-- A pattern that starts with a value it has nowhere else is found where nothing in front of
it contains the pattern. -/
theorem find_eq_some_iff_split {a : α} (ha : a ∉ pat) :
    find (a :: pat) l = some i ↔
      ∃ b c, l = b ++ (a :: pat ++ c) ∧ b.length = i ∧ ¬(a :: pat) <:+: b := by
  rw [find_eq_some_iff]
  constructor
  · rintro ⟨⟨c, hc⟩, hle, hfirst⟩
    refine ⟨l.take i, c, ?_, List.length_take_of_le hle, fun hinfix => ?_⟩
    · rw [hc, List.take_append_drop]
    · obtain ⟨u, v, huv⟩ := hinfix
      have hlen : u.length + (a :: pat).length + v.length = i := by
        rw [← List.length_take_of_le hle, ← huv]
        simp only [List.length_append]
      rw [List.length_cons] at hlen
      refine hfirst u.length (by omega) ⟨v ++ l.drop i, ?_⟩
      have hl : l = u ++ (a :: pat ++ (v ++ l.drop i)) := by
        rw [← List.append_assoc, ← List.append_assoc, huv, List.take_append_drop]
      conv_rhs => rw [hl, List.drop_left]
  · rintro ⟨b, c, rfl, rfl, hinfix⟩
    refine ⟨?_, by simp, fun j hj hpj => ?_⟩
    · rw [List.drop_left]
      exact List.prefix_append _ _
    · obtain ⟨d, hd⟩ := hpj
      rcases Nat.lt_or_ge b.length (j + (a :: pat).length) with hlt | hge
      · -- The pattern would have its first value once more, where the other one begins.
        have hget : (a :: pat ++ d)[b.length - j]? = some a := by
          rw [hd, List.getElem?_drop, Nat.add_sub_cancel' hj.le]
          simp
        rw [List.length_cons] at hlt
        obtain ⟨k, hk⟩ : ∃ k, b.length - j = k + 1 := ⟨b.length - j - 1, by omega⟩
        rw [hk, List.cons_append, List.getElem?_cons_succ,
          List.getElem?_append_left (by omega)] at hget
        exact ha (List.mem_of_getElem? hget)
      · refine hinfix ⟨b.take j, b.drop (j + (a :: pat).length), ?_⟩
        have hpat : (b.drop j).take (a :: pat).length = a :: pat := by
          have htake := congrArg (List.take (a :: pat).length) hd
          rw [List.take_left, List.drop_append_of_le_length hj.le,
            List.take_append_of_le_length (by rw [List.length_drop]; omega)] at htake
          exact htake.symm
        rw [← List.drop_drop, List.append_assoc]
        nth_rewrite 1 [← hpat]
        rw [List.take_append_drop, List.take_append_drop]

end Search
