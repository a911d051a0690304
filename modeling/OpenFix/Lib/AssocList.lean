import Mathlib.Data.List.Nodup

/-!
# Association lists in insertion order

A map kept as a list of pairs in the order in which its keys were first added.
Assigning to a key that is there replaces the value in place and keeps the
position; a new key goes to the end.  A list with a key twice is possible, and
every operation then acts on its first occurrence.
-/

universe u v w

namespace AssocList

variable {κ : Type u} {α : Type v} [DecidableEq κ]

/-- The value of the first pair with key `k`. -/
def find? (k : κ) : List (κ × α) → Option α
  | [] => none
  | (k', v) :: rest => if k' = k then some v else find? k rest

/-- Assign to `k`: in place when it is there, at the end otherwise. -/
def set (k : κ) (v : α) : List (κ × α) → List (κ × α)
  | [] => [(k, v)]
  | (k', v') :: rest => if k' = k then (k', v) :: rest else (k', v') :: set k v rest

/-- Add `k` at the end, unless it is there. -/
def insert (k : κ) (v : α) (l : List (κ × α)) : List (κ × α) :=
  if (find? k l).isSome then l else l ++ [(k, v)]

/-- Drop the first pair with key `k`. -/
def erase (k : κ) : List (κ × α) → List (κ × α)
  | [] => []
  | (k', v) :: rest => if k' = k then rest else (k', v) :: erase k rest

/-- Change the value of `k`, if it is there. -/
def modify (k : κ) (f : α → α) : List (κ × α) → List (κ × α)
  | [] => []
  | (k', v) :: rest => if k' = k then (k', f v) :: rest else (k', v) :: modify k f rest

/-- The keys, in order. -/
def keys (l : List (κ × α)) : List κ := l.map Prod.fst

/-! ## `find?` -/

@[simp] theorem find?_nil (k : κ) : find? k ([] : List (κ × α)) = none := rfl

@[simp] theorem find?_cons_self (k : κ) (v : α) (l : List (κ × α)) :
    find? k ((k, v) :: l) = some v := by
  simp [find?]

theorem find?_cons_ne {k k' : κ} (h : k' ≠ k) (v : α) (l : List (κ × α)) :
    find? k ((k', v) :: l) = find? k l := by
  simp [find?, h]

theorem find?_isSome_iff {k : κ} : ∀ {l : List (κ × α)}, (find? k l).isSome = true ↔ k ∈ keys l
  | [] => by simp [keys]
  | (k', v) :: rest => by
      by_cases h : k' = k
      · simp [find?, keys, h]
      · have ih := find?_isSome_iff (k := k) (l := rest)
        simp only [keys] at ih
        simp [find?, keys, h, ih, Ne.symm h]

theorem find?_eq_none_iff {k : κ} {l : List (κ × α)} : find? k l = none ↔ k ∉ keys l := by
  rw [← find?_isSome_iff]
  cases find? k l <;> simp

theorem find?_append (k : κ) (l l' : List (κ × α)) :
    find? k (l ++ l') = (find? k l).or (find? k l') := by
  induction l with
  | nil => simp
  | cons p l ih =>
      by_cases h : p.1 = k
      · simp [find?, h]
      · simp [find?, h, ih]

theorem mem_of_find? {k : κ} {v : α} : ∀ {l : List (κ × α)}, find? k l = some v → (k, v) ∈ l
  | (k', v') :: rest, h => by
      by_cases hk : k' = k
      · simp only [find?, if_pos hk, Option.some.injEq] at h
        exact hk ▸ h ▸ List.mem_cons_self ..
      · simp only [find?, if_neg hk] at h
        exact List.mem_cons_of_mem _ (mem_of_find? h)

/-- Without repeated keys, every pair is found. -/
theorem find?_of_mem {k : κ} {v : α} :
    ∀ {l : List (κ × α)}, (keys l).Nodup → (k, v) ∈ l → find? k l = some v
  | (k', v') :: rest, hd, h => by
      simp only [keys, List.map_cons, List.nodup_cons] at hd
      rcases List.mem_cons.mp h with h | h
      · cases h
        exact find?_cons_self k v rest
      · have hne : k' ≠ k := fun he => hd.1 (he ▸ List.mem_map_of_mem (f := Prod.fst) h)
        rw [find?_cons_ne hne]
        exact find?_of_mem hd.2 h

/-! ## Assignment -/

theorem find?_set_self (k : κ) (v : α) : ∀ l : List (κ × α), find? k (set k v l) = some v
  | [] => by simp [set]
  | (k', v') :: rest => by
      by_cases h : k' = k
      · simp [set, h]
      · simp [set, find?, h, find?_set_self k v rest]

theorem find?_set_ne {k k₀ : κ} (h : k₀ ≠ k) (v : α) :
    ∀ l : List (κ × α), find? k₀ (set k v l) = find? k₀ l
  | [] => by simp [set, find?, Ne.symm h]
  | (k', v') :: rest => by
      by_cases hk : k' = k
      · subst hk
        simp [set, find?, Ne.symm h]
      · by_cases h' : k' = k₀
        · subst h'
          simp [set, find?, hk]
        · simp [set, find?, hk, h', find?_set_ne h v rest]

theorem length_set_le (k : κ) (v : α) : ∀ l : List (κ × α), (set k v l).length ≤ l.length + 1
  | [] => Nat.le_refl _
  | (k', v') :: rest => by
      rw [set]
      split
      · simp
      · simpa using length_set_le k v rest

theorem set_of_not_mem {k : κ} (v : α) :
    ∀ {l : List (κ × α)}, k ∉ keys l → set k v l = l ++ [(k, v)]
  | [], _ => rfl
  | (k', v') :: rest, h => by
      have hne : k' ≠ k := fun he => h (by simp [keys, he])
      have hrest : k ∉ keys rest := fun hm => h (List.mem_cons_of_mem _ hm)
      simp only [set, if_neg hne, set_of_not_mem v hrest, List.cons_append]

theorem keys_set_of_mem {k : κ} (v : α) :
    ∀ {l : List (κ × α)}, k ∈ keys l → keys (set k v l) = keys l
  | (k', v') :: rest, h => by
      by_cases hk : k' = k
      · simp [set, keys, hk]
      · have hrest : k ∈ keys rest := by
          rcases List.mem_cons.mp h with he | h
          · exact absurd he.symm hk
          · exact h
        have ih := keys_set_of_mem v hrest
        simp only [keys] at ih
        simp [set, keys, hk, ih]

theorem insert_of_not_mem {k : κ} (v : α) {l : List (κ × α)} (h : k ∉ keys l) :
    insert k v l = l ++ [(k, v)] := by
  simp [insert, find?_eq_none_iff.mpr h]

theorem find?_insert_self (k : κ) (v : α) (l : List (κ × α)) :
    find? k (insert k v l) = some ((find? k l).getD v) := by
  unfold insert
  cases h : find? k l with
  | none => simp [find?_append, h]
  | some v' => simp [h]

theorem find?_insert_ne {k k₀ : κ} (h : k₀ ≠ k) (v : α) (l : List (κ × α)) :
    find? k₀ (insert k v l) = find? k₀ l := by
  unfold insert
  split
  · rfl
  · rw [find?_append, find?_cons_ne h.symm, find?_nil, Option.or_none]

theorem mem_set {k : κ} {v : α} {p : κ × α} :
    ∀ {l : List (κ × α)}, p ∈ set k v l → p = (k, v) ∨ p ∈ l
  | [], h => .inl (List.mem_singleton.mp h)
  | (k', v') :: rest, h => by
      rw [set] at h
      split at h
      next heq =>
        rcases List.mem_cons.mp h with h | h
        · exact .inl (heq ▸ h)
        · exact .inr (List.mem_cons_of_mem _ h)
      next =>
        rcases List.mem_cons.mp h with h | h
        · exact .inr (h ▸ List.mem_cons_self)
        · exact (mem_set h).imp id (List.mem_cons_of_mem _)

/-! ## Removal -/

theorem mem_of_mem_erase {k : κ} {p : κ × α} :
    ∀ {l : List (κ × α)}, p ∈ erase k l → p ∈ l
  | (k', v') :: rest, h => by
      rw [erase] at h
      split at h
      next => exact List.mem_cons_of_mem _ h
      next =>
        rcases List.mem_cons.mp h with h | h
        · exact h ▸ List.mem_cons_self
        · exact List.mem_cons_of_mem _ (mem_of_mem_erase h)

theorem find?_erase_ne {k k₀ : κ} (h : k₀ ≠ k) :
    ∀ l : List (κ × α), find? k₀ (erase k l) = find? k₀ l
  | [] => rfl
  | (k', v) :: rest => by
      by_cases hk : k' = k
      · subst hk
        simp [erase, find?, Ne.symm h]
      · by_cases h' : k' = k₀
        · subst h'
          simp [erase, find?, hk]
        · simp [erase, find?, hk, h', find?_erase_ne h rest]

/-! ## Changing one value -/

theorem find?_modify_self (k : κ) (f : α → α) :
    ∀ l : List (κ × α), find? k (modify k f l) = (find? k l).map f
  | [] => rfl
  | (k', v) :: rest => by
      by_cases h : k' = k
      · simp [modify, find?, h]
      · simp [modify, find?, h, find?_modify_self k f rest]

theorem find?_modify_ne {k k₀ : κ} (h : k₀ ≠ k) (f : α → α) :
    ∀ l : List (κ × α), find? k₀ (modify k f l) = find? k₀ l
  | [] => rfl
  | (k', v) :: rest => by
      by_cases hk : k' = k
      · subst hk
        simp [modify, find?, Ne.symm h]
      · by_cases h' : k' = k₀
        · subst h'
          simp [modify, find?, hk]
        · simp [modify, find?, hk, h', find?_modify_ne h f rest]

theorem modify_modify (k : κ) (f g : α → α) :
    ∀ l : List (κ × α), modify k g (modify k f l) = modify k (g ∘ f) l
  | [] => rfl
  | (k', v) :: rest => by
      by_cases h : k' = k
      · simp [modify, h]
      · simp [modify, h, modify_modify k f g rest]

/-- A key that is only at the end. -/
theorem modify_append_of_not_mem {k : κ} (f : α → α) (v : α) :
    ∀ {l : List (κ × α)}, k ∉ keys l → modify k f (l ++ [(k, v)]) = l ++ [(k, f v)]
  | [], _ => by simp [modify]
  | (k', v') :: rest, h => by
      obtain ⟨hne, hrest⟩ := not_or.mp (List.mem_cons.not.mp h)
      rw [List.cons_append, modify, if_neg (Ne.symm hne), modify_append_of_not_mem f v hrest]
      rfl

/-! ## How often a key occurs -/

/-- An assignment adds a key that is not there, and no other. -/
theorem keys_set (k : κ) (v : α) (l : List (κ × α)) :
    keys (set k v l) = if k ∈ keys l then keys l else keys l ++ [k] := by
  by_cases h : k ∈ keys l
  · rw [if_pos h, keys_set_of_mem v h]
  · rw [if_neg h, set_of_not_mem v h, keys, List.map_append]
    rfl

theorem count_keys_le_set (k : κ) (v : α) (l : List (κ × α)) (k' : κ) :
    (keys l).count k' ≤ (keys (set k v l)).count k' := by
  rw [keys_set]
  split
  · exact Nat.le_refl _
  · rw [List.count_append]
    exact Nat.le_add_right _ _

theorem count_keys_set_le (k : κ) (v : α) (l : List (κ × α)) (k' : κ) :
    (keys (set k v l)).count k' ≤ max ((keys l).count k') 1 := by
  rw [keys_set]
  split
  next => exact Nat.le_max_left _ _
  next h =>
    rw [List.count_append]
    by_cases hk : k' = k
    · subst hk
      rw [List.count_eq_zero.mpr h, List.count_singleton_self]
      exact Nat.le_max_right _ _
    · rw [List.count_singleton, if_neg (by simpa using Ne.symm hk)]
      exact Nat.le_max_left _ _

theorem keys_erase (k : κ) (l : List (κ × α)) : keys (erase k l) = (keys l).erase k := by
  induction l with
  | nil => rfl
  | cons p l ih =>
      obtain ⟨k', v⟩ := p
      show keys (erase k ((k', v) :: l)) = (k' :: keys l).erase k
      rw [erase, List.erase_cons]
      by_cases h : k' = k
      · rw [if_pos h, if_pos (by simpa using h)]
      · rw [if_neg h, if_neg (by simpa using h), ← ih]
        rfl

/-! ## Keys that occur once -/

theorem mem_iff_find?_eq {k : κ} {v : α} {l : List (κ × α)} (h : (keys l).Nodup) :
    (k, v) ∈ l ↔ find? k l = some v := ⟨find?_of_mem h, mem_of_find?⟩

/-- Without repeated keys, a map is what is found in it. -/
theorem perm_of_find?_eq {l l' : List (κ × α)} (h : (keys l).Nodup) (h' : (keys l').Nodup)
    (hfind : ∀ k, find? k l = find? k l') : l.Perm l' := by
  apply (List.perm_ext_iff_of_nodup (List.Nodup.of_map Prod.fst h)
    (List.Nodup.of_map Prod.fst h')).mpr
  intro ⟨k, v⟩
  rw [mem_iff_find?_eq h, mem_iff_find?_eq h', hfind]

theorem nodup_keys_insert {k : κ} {v : α} {l : List (κ × α)} (h : (keys l).Nodup) :
    (keys (insert k v l)).Nodup := by
  by_cases hk : k ∈ keys l
  · rw [insert, if_pos (find?_isSome_iff.mpr hk)]
    exact h
  · rw [insert_of_not_mem v hk, keys, List.map_append, List.map_singleton]
    exact h.append (List.nodup_singleton k) fun k' hk' hmem => by
      rw [List.mem_singleton.mp hmem] at hk'
      exact hk hk'

theorem nodup_keys_set {k : κ} {v : α} {l : List (κ × α)} (h : (keys l).Nodup) :
    (keys (set k v l)).Nodup := by
  rw [keys_set]
  split
  next => exact h
  next hk => exact (List.nodup_append_comm).mp (List.nodup_cons.mpr ⟨hk, h⟩)

omit [DecidableEq κ] in
theorem keys_filter_sublist (p : κ × α → Bool) (l : List (κ × α)) :
    (keys (l.filter p)).Sublist (keys l) := List.filter_sublist.map Prod.fst

/-- Some keys occur once at most, if and only if the pairs of these keys have no key twice. -/
theorem nodup_keys_filter_iff (p : κ → Bool) (l : List (κ × α)) :
    (keys (l.filter fun q => p q.1)).Nodup ↔ ∀ k, p k = true → (keys l).count k ≤ 1 := by
  have hkeys : keys (l.filter fun q => p q.1) = (keys l).filter p := List.filter_map.symm
  rw [hkeys, List.nodup_iff_count_le_one]
  constructor
  · intro h k hk
    have hcount := h k
    rwa [List.count_filter hk] at hcount
  · intro h k
    by_cases hk : p k = true
    · rw [List.count_filter hk]
      exact h k hk
    · rw [List.count_eq_zero_of_not_mem fun hmem => hk (List.mem_filter.mp hmem).2]
      exact Nat.zero_le 1

/-- The value of a key that is there once. -/
theorem find?_of_mem_filter {p : κ → Bool} {l : List (κ × α)} (h : ((keys l).filter p).Nodup)
    {q : κ × α} (hq : q ∈ l) (hp : p q.1 = true) : find? q.1 l = some q.2 := by
  induction l with
  | nil => cases hq
  | cons q' l ih =>
      have hkeys : keys (q' :: l) = q'.1 :: keys l := rfl
      rw [hkeys, List.filter_cons] at h
      rcases List.mem_cons.mp hq with rfl | hq
      · exact find?_cons_self ..
      · have hne : q'.1 ≠ q.1 := by
          intro heq
          rw [heq, if_pos hp, List.nodup_cons] at h
          exact h.1 (List.mem_filter.mpr ⟨List.mem_map_of_mem hq, hp⟩)
        have htail : ((keys l).filter p).Nodup := by
          split at h
          · exact (List.nodup_cons.mp h).2
          · exact h
        exact (find?_cons_ne hne _ _).trans (ih htail hq)

theorem find?_filter_ne {k k₀ : κ} (h : k₀ ≠ k) (l : List (κ × α)) :
    find? k₀ (l.filter fun q => q.1 ≠ k) = find? k₀ l := by
  induction l with
  | nil => rfl
  | cons p l ih =>
      obtain ⟨k', v⟩ := p
      by_cases hk : k' = k
      · rw [List.filter_cons_of_neg (by simp [hk]), ih, hk, find?_cons_ne h.symm]
      · rw [List.filter_cons_of_pos (by simp [hk]), find?, find?, ih]

/-- The first pair of each key. -/
def firsts : List (κ × α) → List (κ × α)
  | [] => []
  | p :: l => p :: (firsts l).filter fun q => q.1 ≠ p.1

theorem find?_firsts (k : κ) (l : List (κ × α)) : find? k (firsts l) = find? k l := by
  induction l with
  | nil => rfl
  | cons p l ih =>
      obtain ⟨k', v⟩ := p
      by_cases hk : k' = k
      · simp [firsts, find?, hk]
      · rw [firsts, find?_cons_ne hk, find?_cons_ne hk, find?_filter_ne (Ne.symm hk), ih]

theorem nodup_keys_firsts (l : List (κ × α)) : (keys (firsts l)).Nodup := by
  induction l with
  | nil => exact List.nodup_nil
  | cons p l ih =>
      rw [firsts, keys, List.map_cons, List.nodup_cons]
      constructor
      · intro hmem
        obtain ⟨q, hq, heq⟩ := List.mem_map.mp hmem
        have hne := (List.mem_filter.mp hq).2
        simp [heq] at hne
      · exact ih.sublist (keys_filter_sublist _ _)

theorem firsts_sublist (l : List (κ × α)) : (firsts l).Sublist l := by
  induction l with
  | nil => exact List.Sublist.slnil
  | cons p l ih => exact (List.filter_sublist.trans ih).cons_cons p

theorem firsts_filter (p : κ → Bool) (l : List (κ × α)) :
    (firsts l).filter (fun q => p q.1) = firsts (l.filter fun q => p q.1) := by
  induction l with
  | nil => rfl
  | cons q l ih =>
      have hcomm : ((firsts l).filter fun q' => q'.1 ≠ q.1).filter (fun q' => p q'.1) =
          ((firsts l).filter fun q' => p q'.1).filter fun q' => q'.1 ≠ q.1 :=
        List.filter_comm ..
      by_cases hq : p q.1 = true
      · simp only [firsts, List.filter_cons, hq, if_true]
        rw [← ih, hcomm]
      · simp only [firsts, List.filter_cons, hq, Bool.false_eq_true, if_false]
        rw [← ih, hcomm]
        apply List.filter_eq_self.mpr
        intro q' hq'
        have hp := (List.mem_filter.mp hq').2
        simp only [ne_eq, decide_not, Bool.not_eq_true', decide_eq_false_iff_not]
        intro heq
        rw [heq] at hp
        exact hq hp

theorem firsts_eq_self_iff {l : List (κ × α)} : firsts l = l ↔ (keys l).Nodup := by
  constructor
  · intro h
    rw [← h]
    exact nodup_keys_firsts l
  · intro h
    induction l with
    | nil => rfl
    | cons p l ih =>
        rw [keys, List.map_cons, List.nodup_cons] at h
        rw [firsts, ih h.2]
        congr 1
        apply List.filter_eq_self.mpr
        intro q hq
        simp only [ne_eq, decide_not, Bool.not_eq_true', decide_eq_false_iff_not]
        intro heq
        exact h.1 (heq ▸ List.mem_map_of_mem hq)

/-! ## Values that are mapped -/

section MapValues

variable {β : Type w} (f : α → β)

def mapValues (l : List (κ × α)) : List (κ × β) := l.map fun p => (p.1, f p.2)

omit [DecidableEq κ] in
@[simp] theorem keys_mapValues (l : List (κ × α)) : keys (mapValues f l) = keys l := by
  rw [keys, mapValues, List.map_map]
  rfl

theorem find?_mapValues (k : κ) (l : List (κ × α)) :
    find? k (mapValues f l) = (find? k l).map f := by
  induction l with
  | nil => rfl
  | cons p l ih =>
      obtain ⟨k', v⟩ := p
      by_cases h : k' = k
      · subst h
        rw [mapValues, List.map_cons, find?_cons_self, find?_cons_self]
        rfl
      · rw [mapValues, List.map_cons, find?_cons_ne h, find?_cons_ne h]
        exact ih

theorem set_mapValues (k : κ) (v : α) (l : List (κ × α)) :
    set k (f v) (mapValues f l) = mapValues f (set k v l) := by
  induction l with
  | nil => rfl
  | cons p l ih =>
      obtain ⟨k', v'⟩ := p
      simp only [mapValues, List.map_cons, set] at ih ⊢
      by_cases h : k' = k
      · rw [if_pos h, if_pos h]
        rfl
      · rw [if_neg h, if_neg h, ih]
        rfl

end MapValues

/-! ## Iteration in another order

A hash map has the same operations, but runs over its entries in an order of its
own. -/

/-- An order in which a hash table may run over the keys that were put into it. -/
structure IterationOrder (κ : Type u) where
  run : List κ → List κ
  perm : ∀ l, (run l).Perm l

namespace IterationOrder

/-- The order in which the keys were added. -/
def insertion : IterationOrder κ := ⟨id, fun l => List.Perm.refl l⟩

omit [DecidableEq κ] in
theorem mem_run (order : IterationOrder κ) {k : κ} {l : List κ} : k ∈ order.run l ↔ k ∈ l :=
  (order.perm l).mem_iff

/-- The entries of a map. -/
def entries (order : IterationOrder κ) (l : List (κ × α)) : List (κ × α) :=
  (order.run (keys l)).filterMap fun k => (find? k l).map (k, ·)

/-- The entries of a map are those that were put into it. -/
theorem mem_of_mem_entries {order : IterationOrder κ} {l : List (κ × α)} {p : κ × α}
    (h : p ∈ order.entries l) : p ∈ l := by
  obtain ⟨k, -, hk⟩ := List.mem_filterMap.mp h
  obtain ⟨v, hv, rfl⟩ := Option.map_eq_some_iff.mp hk
  exact mem_of_find? hv

/-- What is found of the keys of a part of a map. -/
theorem filterMap_find? {l : List (κ × α)} (h : (keys l).Nodup) :
    (keys l).filterMap (fun k => (find? k l).map (k, ·)) = l := by
  have hpart : ∀ l', l' ⊆ l → (keys l').filterMap (fun k => (find? k l).map (k, ·)) = l' := by
    intro l' hsub
    induction l' with
    | nil => rfl
    | cons p l' ih =>
        have hp : find? p.1 l = some p.2 := find?_of_mem h (hsub List.mem_cons_self)
        have hrest := ih fun q hq => hsub (List.mem_cons_of_mem _ hq)
        simp only [keys, List.map_cons, List.filterMap_cons, hp, Option.map_some] at hrest ⊢
        rw [hrest]
  exact hpart l fun _ hp => hp

theorem entries_perm (order : IterationOrder κ) {l : List (κ × α)} (h : (keys l).Nodup) :
    (order.entries l).Perm l := by
  have hperm := (order.perm (keys l)).filterMap fun k => (find? k l).map (k, ·)
  rwa [filterMap_find? h] at hperm

theorem keys_entries (order : IterationOrder κ) (l : List (κ × α)) :
    keys (order.entries l) = order.run (keys l) := by
  have hpart : ∀ ks : List κ, (∀ k ∈ ks, k ∈ keys l) →
      keys (ks.filterMap fun k => (find? k l).map (k, ·)) = ks := by
    intro ks hks
    induction ks with
    | nil => rfl
    | cons k ks ih =>
        have hmem := find?_isSome_iff.mpr (hks k List.mem_cons_self)
        obtain ⟨v, hv⟩ := Option.isSome_iff_exists.mp hmem
        have hrest := ih fun k' hk' => hks k' (List.mem_cons_of_mem _ hk')
        simp only [keys] at hrest
        simp only [keys, List.filterMap_cons, hv, Option.map_some, List.map_cons, hrest]
  exact hpart _ fun k hk => order.mem_run.mp hk

theorem entries_mapValues (order : IterationOrder κ) {β : Type w} (f : α → β)
    (l : List (κ × α)) : order.entries (mapValues f l) = mapValues f (order.entries l) := by
  have hmap : mapValues f (order.entries l) = (order.entries l).map fun p => (p.1, f p.2) := rfl
  rw [hmap, entries, entries, keys_mapValues, List.map_filterMap]
  congr 1
  funext k
  rw [find?_mapValues]
  cases find? k l with
  | none => rfl
  | some v => rfl

end IterationOrder

end AssocList
