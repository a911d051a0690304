import Mathlib.Algebra.Order.Group.Multiset
import Mathlib.Data.List.Sort
import OpenFix.Lib.AssocList

/-!
# What is kept of what came in

Things are added to a store, and a step may lose some that were kept before.
`Balanced kept added lost kept'` is the balance of a step.  Over a run the store
never keeps more than came in, and it keeps everything of a kind if and only if no
step loses anything of that kind.

The second part has the balance of the operations of an association list: an
assignment loses the value that it replaces, and keeping the first pair of each key
loses the others.
-/

universe u v

namespace Ledger

section

variable {α : Type u}

/-- A step from `kept` to `kept'` adds `added` and loses `lost`. -/
def Balanced (kept added lost kept' : Multiset α) : Prop := kept' + lost = kept + added

variable {kept added lost kept' added' lost' kept'' all : Multiset α}

theorem Balanced.refl (kept : Multiset α) : Balanced kept 0 0 kept := rfl

theorem Balanced.trans (h : Balanced kept added lost kept')
    (h' : Balanced kept' added' lost' kept'') :
    Balanced kept (added + added') (lost + lost') kept'' := by
  show kept'' + (lost + lost') = kept + (added + added')
  calc kept'' + (lost + lost') = kept'' + lost' + lost := by
        rw [add_comm lost, add_assoc]
    _ = kept' + added' + lost := by rw [h']
    _ = kept' + lost + added' := by rw [add_right_comm]
    _ = kept + (added + added') := by rw [h, add_assoc]

/-- The same step next to something that it leaves alone. -/
theorem Balanced.add_left (h : Balanced kept added lost kept') (rest : Multiset α) :
    Balanced (rest + kept) added lost (rest + kept') := by
  show rest + kept' + lost = rest + kept + added
  rw [add_assoc, h, add_assoc]

theorem Balanced.add_right (h : Balanced kept added lost kept') (rest : Multiset α) :
    Balanced (kept + rest) added lost (kept' + rest) := by
  rw [add_comm kept, add_comm kept']
  exact h.add_left rest

theorem Balanced.le (h : Balanced kept added lost kept') (hle : kept ≤ all) :
    kept' ≤ all + added := by
  calc kept' ≤ kept' + lost := Multiset.le_add_right kept' lost
    _ = kept + added := h
    _ ≤ all + added := add_le_add_left hle added

/-- After the step all that came in is kept, if and only if that was so before and the step
loses nothing. -/
theorem Balanced.filter_eq_iff (h : Balanced kept added lost kept') (hle : kept ≤ all)
    (p : α → Prop) [DecidablePred p] :
    kept'.filter p = (all + added).filter p ↔
      kept.filter p = all.filter p ∧ lost.filter p = 0 := by
  have hfilter : kept'.filter p + lost.filter p = kept.filter p + added.filter p := by
    rw [← Multiset.filter_add, h, Multiset.filter_add]
  rw [Multiset.filter_add]
  constructor
  · intro heq
    rw [heq, add_right_comm] at hfilter
    have hsum : all.filter p + lost.filter p = kept.filter p := add_right_cancel hfilter
    have hkept : kept.filter p ≤ all.filter p := Multiset.filter_le_filter p hle
    have hall : all.filter p ≤ kept.filter p := by
      rw [← hsum]
      exact Multiset.le_add_right _ _
    have hsame := le_antisymm hkept hall
    rw [hsame] at hsum
    exact ⟨hsame, add_eq_left.mp hsum⟩
  · intro ⟨heq, hlost⟩
    rwa [hlost, add_zero, heq] at hfilter

end

section

open AssocList

variable {κ : Type u} {α : Type v} [DecidableEq κ]

/-- An assignment to a key that is there loses the value it had. -/
theorem balanced_set {k : κ} {v w : α} : ∀ {l : List (κ × α)}, find? k l = some w →
    Balanced (l : Multiset (κ × α)) {(k, v)} {(k, w)} (AssocList.set k v l : List (κ × α))
  | (k', v') :: rest, h => by
      by_cases hk : k' = k
      · subst hk
        rw [find?_cons_self] at h
        cases h
        rw [AssocList.set, if_pos rfl]
        show _ + _ = _ + _
        rw [add_comm, add_comm _ {(k', v)}, Multiset.singleton_add, Multiset.singleton_add,
          ← Multiset.cons_coe, ← Multiset.cons_coe]
        exact Multiset.cons_swap _ _ _
      · rw [find?_cons_ne hk] at h
        rw [AssocList.set, if_neg hk]
        have ih : Balanced _ _ _ _ := balanced_set (v := v) h
        rw [← Multiset.cons_coe, ← Multiset.cons_coe, ← Multiset.singleton_add,
          ← Multiset.singleton_add]
        exact ih.add_left {(k', v')}

/-- An assignment to a new key loses nothing. -/
theorem balanced_set_of_find?_none {k : κ} {l : List (κ × α)} (h : find? k l = none) (v : α) :
    Balanced (l : Multiset (κ × α)) {(k, v)} 0 (AssocList.set k v l : List (κ × α)) := by
  rw [set_of_not_mem v (find?_eq_none_iff.mp h)]
  show _ + 0 = _
  rw [add_zero, ← Multiset.coe_add, Multiset.coe_singleton]

/-- What is erased has the key. -/
theorem exists_balanced_erase (k : κ) (l : List (κ × α)) :
    ∃ lost, Balanced (l : Multiset (κ × α)) 0 lost (AssocList.erase k l : List (κ × α)) ∧
      ∀ q ∈ lost, q.1 = k := by
  induction l with
  | nil => exact ⟨0, Balanced.refl _, fun q hq => absurd hq (Multiset.notMem_zero q)⟩
  | cons p l ih =>
      obtain ⟨k', v⟩ := p
      rw [AssocList.erase]
      by_cases hk : k' = k
      · rw [if_pos hk]
        refine ⟨{(k', v)}, ?_, fun q hq => ?_⟩
        · show _ + _ = _ + _
          rw [add_comm, Multiset.singleton_add, add_zero, Multiset.cons_coe]
        · rw [Multiset.mem_singleton.mp hq]
          exact hk
      · rw [if_neg hk, ← Multiset.cons_coe, ← Multiset.cons_coe, ← Multiset.singleton_add,
          ← Multiset.singleton_add]
        obtain ⟨lost, hlost, hkey⟩ := ih
        exact ⟨lost, hlost.add_left _, hkey⟩

/-- Keeping the first pair of each key loses nothing of some keys, if and only if none of them
occurs twice. -/
theorem exists_balanced_firsts (l : List (κ × α)) (p : κ → Bool) :
    ∃ lost, Balanced (l : Multiset (κ × α)) 0 lost (firsts l) ∧
      (lost.filter (fun q => p q.1 = true) = 0 ↔ (keys (l.filter fun q => p q.1)).Nodup) := by
  have hle : (firsts l : Multiset (κ × α)) ≤ l := (firsts_sublist l).subperm
  obtain ⟨lost, hlost⟩ := Multiset.le_iff_exists_add.mp hle
  refine ⟨lost, by rw [Balanced, add_zero, hlost], ?_⟩
  rw [← firsts_eq_self_iff, ← firsts_filter]
  have hfilter : ((l.filter fun q => p q.1 : List (κ × α)) : Multiset (κ × α)) =
      ((firsts l).filter fun q => p q.1 : List (κ × α)) + lost.filter fun q => p q.1 = true := by
    have h := congrArg (Multiset.filter fun q => p q.1 = true) hlost
    rw [Multiset.filter_add, Multiset.filter_coe, Multiset.filter_coe] at h
    simpa only [Bool.decide_eq_true] using h
  constructor
  · intro hzero
    rw [hzero, add_zero] at hfilter
    have hsublist := (firsts_sublist l).filter fun q => p q.1
    exact hsublist.eq_of_length (Multiset.coe_eq_coe.mp hfilter).length_eq.symm
  · intro heq
    rw [heq] at hfilter
    exact left_eq_add.mp hfilter

end

end Ledger
