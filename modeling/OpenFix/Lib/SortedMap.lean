import Mathlib.Data.List.Pairwise
import Mathlib.Order.Lattice

/-!
# Finite maps in key order

A finite map over a linear order, kept as its list of entries in strictly
increasing key order.  The order is a field of the structure, so a map whose
first entry is not its least one cannot be built.  This is what an ordered
container with `operator[]`, `find`, `begin` and `erase(begin())` offers, and
it is all that is offered here.

`insert` replaces the value of a key that is there.  `eraseMin` drops the first
entry.  The lemmas say what each of them does to the keys and to `find?`.
-/

universe u v

/-- A finite map, by its entries in strictly increasing key order. -/
structure SortedMap (κ : Type u) (α : Type v) [LinearOrder κ] where
  /-- The entries. -/
  entries : List (κ × α)
  /-- The keys increase strictly. -/
  sorted : entries.Pairwise fun p q => p.1 < q.1

namespace SortedMap

variable {κ : Type u} {α : Type v} [LinearOrder κ]

/-- The map without entries. -/
def empty : SortedMap κ α := ⟨[], List.Pairwise.nil⟩

/-- The keys, in increasing order. -/
def keys (m : SortedMap κ α) : List κ := m.entries.map Prod.fst

/-- The value of the first entry with key `k`. -/
def findEntry (k : κ) : List (κ × α) → Option α
  | [] => none
  | (k', v) :: rest => if k' = k then some v else findEntry k rest

/-- The value of a key. -/
def find? (m : SortedMap κ α) (k : κ) : Option α := findEntry k m.entries

/-- The first entry, which has the least key. -/
def min? (m : SortedMap κ α) : Option (κ × α) := m.entries.head?

/-- Insert an entry in order, replacing the value of a key that is there. -/
def insertEntry (k : κ) (v : α) : List (κ × α) → List (κ × α)
  | [] => [(k, v)]
  | (k', v') :: rest =>
      if k < k' then (k, v) :: (k', v') :: rest
      else if k = k' then (k, v) :: rest
      else (k', v') :: insertEntry k v rest

/-! ## Insertion keeps the order -/

/-- An entry after an insertion is the inserted one or an old one. -/
theorem mem_insertEntry {k : κ} {v : α} {p : κ × α} :
    ∀ {l : List (κ × α)}, p ∈ insertEntry k v l → p = (k, v) ∨ p ∈ l
  | [], h => by simpa [insertEntry] using h
  | (k', v') :: rest, h => by
      simp only [insertEntry] at h
      split at h
      · simpa using h
      · split at h
        · rcases List.mem_cons.mp h with h | h
          · exact Or.inl h
          · exact Or.inr (List.mem_cons_of_mem _ h)
        · rcases List.mem_cons.mp h with h | h
          · exact Or.inr (h ▸ List.mem_cons_self ..)
          · rcases mem_insertEntry h with h' | h'
            · exact Or.inl h'
            · exact Or.inr (List.mem_cons_of_mem _ h')

theorem insertEntry_sorted (k : κ) (v : α) :
    ∀ {l : List (κ × α)}, l.Pairwise (fun p q => p.1 < q.1) →
      (insertEntry k v l).Pairwise fun p q => p.1 < q.1
  | [], _ => by simp [insertEntry]
  | (k', v') :: rest, h => by
      obtain ⟨hhead, htail⟩ := List.pairwise_cons.mp h
      simp only [insertEntry]
      split
      next hlt =>
        refine List.pairwise_cons.mpr ⟨fun p hp => ?_, h⟩
        rcases List.mem_cons.mp hp with hp | hp
        · subst hp
          exact hlt
        · exact lt_trans hlt (hhead p hp)
      next hnlt =>
        split
        next heq =>
          subst heq
          exact List.pairwise_cons.mpr ⟨hhead, htail⟩
        next hne =>
          refine List.pairwise_cons.mpr ⟨fun p hp => ?_, insertEntry_sorted k v htail⟩
          rcases mem_insertEntry hp with hp | hp
          · subst hp
            exact lt_of_le_of_ne (not_lt.mp hnlt) (Ne.symm hne)
          · exact hhead p hp

/-- `m[k] = v`. -/
def insert (m : SortedMap κ α) (k : κ) (v : α) : SortedMap κ α :=
  ⟨insertEntry k v m.entries, insertEntry_sorted k v m.sorted⟩

/-- Drop the first entry. -/
def eraseMin (m : SortedMap κ α) : SortedMap κ α := ⟨m.entries.tail, m.sorted.tail⟩

/-- Keep the entries whose key satisfies `p`. -/
def filterKeys (m : SortedMap κ α) (p : κ → Bool) : SortedMap κ α :=
  ⟨m.entries.filter fun e => p e.1, m.sorted.filter _⟩

@[simp] theorem entries_empty : (empty : SortedMap κ α).entries = [] := rfl

@[simp] theorem keys_empty : (empty : SortedMap κ α).keys = [] := rfl

@[simp] theorem min?_empty : (empty : SortedMap κ α).min? = none := rfl

@[ext] theorem ext {m m' : SortedMap κ α} (h : m.entries = m'.entries) : m = m' := by
  cases m
  cases m'
  simpa using h

instance [DecidableEq α] : DecidableEq (SortedMap κ α) := fun m m' =>
  decidable_of_iff (m.entries = m'.entries) ⟨ext, congrArg entries⟩

/-! ## Entries, keys and `find?` -/

theorem findEntry_of_mem {k : κ} {v : α} :
    ∀ {l : List (κ × α)}, l.Pairwise (fun p q => p.1 < q.1) → (k, v) ∈ l → findEntry k l = some v
  | (k', v') :: rest, h, hmem => by
      obtain ⟨hhead, htail⟩ := List.pairwise_cons.mp h
      rcases List.mem_cons.mp hmem with heq | hmem
      · cases heq
        simp [findEntry]
      · have hne : k' ≠ k := ne_of_lt (hhead _ hmem)
        simp only [findEntry, if_neg hne]
        exact findEntry_of_mem htail hmem

theorem mem_of_findEntry {k : κ} {v : α} :
    ∀ {l : List (κ × α)}, findEntry k l = some v → (k, v) ∈ l
  | (k', v') :: rest, h => by
      simp only [findEntry] at h
      split at h
      next heq =>
        cases h
        subst heq
        exact List.mem_cons_self ..
      next => exact List.mem_cons_of_mem _ (mem_of_findEntry h)

theorem find?_eq_some_iff {m : SortedMap κ α} {k : κ} {v : α} :
    m.find? k = some v ↔ (k, v) ∈ m.entries :=
  ⟨mem_of_findEntry, findEntry_of_mem m.sorted⟩

theorem mem_keys_iff {m : SortedMap κ α} {k : κ} : k ∈ m.keys ↔ ∃ v, (k, v) ∈ m.entries := by
  simp [keys]

theorem keys_sorted (m : SortedMap κ α) : m.keys.Pairwise (· < ·) :=
  List.pairwise_map.mpr m.sorted

/-! ## The first entry -/

/-- The entries are the first one and the rest, which all have larger keys. -/
theorem entries_of_min? {m : SortedMap κ α} {p : κ × α} (h : m.min? = some p) :
    m.entries = p :: m.eraseMin.entries := by
  obtain ⟨l, hl⟩ := m
  cases l with
  | nil => cases h
  | cons q l =>
      cases h
      rfl

theorem min?_eq_none_iff {m : SortedMap κ α} : m.min? = none ↔ m = empty := by
  obtain ⟨l, hl⟩ := m
  cases l with
  | nil => exact ⟨fun _ => rfl, fun _ => rfl⟩
  | cons q l => simp [min?, empty]

theorem keys_of_min? {m : SortedMap κ α} {p : κ × α} (h : m.min? = some p) :
    m.keys = p.1 :: m.eraseMin.keys := by
  simp only [keys, entries_of_min? h, List.map_cons]

/-- Every other key is larger than the first one. -/
theorem min?_lt_of_mem_eraseMin {m : SortedMap κ α} {p : κ × α} (h : m.min? = some p) {k : κ}
    (hk : k ∈ m.eraseMin.keys) : p.1 < k := by
  have hs := m.keys_sorted
  rw [keys_of_min? h] at hs
  exact (List.pairwise_cons.mp hs).1 k hk

theorem mem_keys_of_mem_eraseMin {m : SortedMap κ α} {k : κ} (hk : k ∈ m.eraseMin.keys) :
    k ∈ m.keys := by
  simp only [keys, eraseMin, List.map_tail] at hk
  exact List.mem_of_mem_tail hk

theorem length_eraseMin {m : SortedMap κ α} {p : κ × α} (h : m.min? = some p) :
    m.entries.length = m.eraseMin.entries.length + 1 := by
  rw [entries_of_min? h, List.length_cons]

/-! ## What an insertion changes -/

theorem findEntry_insertEntry_self (k : κ) (v : α) :
    ∀ l : List (κ × α), findEntry k (insertEntry k v l) = some v
  | [] => by simp [insertEntry, findEntry]
  | (k', v') :: rest => by
      simp only [insertEntry]
      split
      · simp [findEntry]
      · split
        · simp [findEntry]
        next hne =>
          simp only [findEntry, if_neg (Ne.symm hne)]
          exact findEntry_insertEntry_self k v rest

theorem findEntry_insertEntry_ne {k k₀ : κ} (hne : k₀ ≠ k) (v : α) :
    ∀ l : List (κ × α), findEntry k₀ (insertEntry k v l) = findEntry k₀ l
  | [] => by simp [insertEntry, findEntry, Ne.symm hne]
  | (k', v') :: rest => by
      simp only [insertEntry]
      split
      · simp [findEntry, Ne.symm hne]
      · split
        next heq => simp [findEntry, ← heq, Ne.symm hne]
        next => simp only [findEntry, findEntry_insertEntry_ne hne v rest]

@[simp] theorem find?_insert_self (m : SortedMap κ α) (k : κ) (v : α) :
    (m.insert k v).find? k = some v := findEntry_insertEntry_self k v m.entries

theorem find?_insert_ne (m : SortedMap κ α) {k k₀ : κ} (hne : k₀ ≠ k) (v : α) :
    (m.insert k v).find? k₀ = m.find? k₀ := findEntry_insertEntry_ne hne v m.entries

theorem mem_keys_iff_find? {m : SortedMap κ α} {k : κ} : k ∈ m.keys ↔ ∃ v, m.find? k = some v := by
  simp only [mem_keys_iff, find?_eq_some_iff]

theorem mem_keys_insert {m : SortedMap κ α} {k k₀ : κ} {v : α} :
    k₀ ∈ (m.insert k v).keys ↔ k₀ = k ∨ k₀ ∈ m.keys := by
  by_cases h : k₀ = k
  · subst h
    simp [mem_keys_iff_find?]
  · simp only [mem_keys_iff_find?, find?_insert_ne m h, h, false_or]

theorem mem_entries_insert {m : SortedMap κ α} {k : κ} {v : α} {p : κ × α}
    (h : p ∈ (m.insert k v).entries) : p = (k, v) ∨ p ∈ m.entries := mem_insertEntry h

/-- Two maps with the same values are equal. -/
theorem ext_find? {m m' : SortedMap κ α} (h : ∀ k, m.find? k = m'.find? k) : m = m' := by
  have hnodup : ∀ m : SortedMap κ α, m.entries.Nodup := fun m =>
    m.sorted.imp fun {p q} (hlt : p.1 < q.1) (heq : p = q) => ne_of_lt hlt (congrArg Prod.fst heq)
  have hperm : m.entries.Perm m'.entries := by
    refine (List.perm_ext_iff_of_nodup (hnodup m) (hnodup m')).mpr fun ⟨k, v⟩ => ?_
    rw [← find?_eq_some_iff, ← find?_eq_some_iff, h k]
  exact ext (hperm.eq_of_pairwise
    (fun p q _ _ hpq hqp => (lt_asymm hpq hqp).elim) m.sorted m'.sorted)

/-! ## Filtering by key -/

theorem mem_entries_filterKeys {m : SortedMap κ α} {p : κ → Bool} {e : κ × α} :
    e ∈ (m.filterKeys p).entries ↔ e ∈ m.entries ∧ p e.1 = true := by
  simp [filterKeys]

theorem find?_filterKeys (m : SortedMap κ α) (p : κ → Bool) (k : κ) :
    (m.filterKeys p).find? k = if p k then m.find? k else none := by
  by_cases hk : p k = true
  · rw [if_pos hk]
    cases h : m.find? k with
    | none =>
        cases h' : (m.filterKeys p).find? k with
        | none => rfl
        | some v =>
            have hmem := (mem_entries_filterKeys.mp (find?_eq_some_iff.mp h')).1
            rw [find?_eq_some_iff.mpr hmem] at h
            cases h
    | some v =>
        exact find?_eq_some_iff.mpr (mem_entries_filterKeys.mpr ⟨find?_eq_some_iff.mp h, hk⟩)
  · rw [if_neg hk]
    cases h' : (m.filterKeys p).find? k with
    | none => rfl
    | some v => exact (hk (mem_entries_filterKeys.mp (find?_eq_some_iff.mp h')).2).elim

end SortedMap
