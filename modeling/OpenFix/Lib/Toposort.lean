import Mathlib.Logic.Relation
import Mathlib.Order.WellFoundedSet
import OpenFix.Lib.AssocList

/-!
# Sorting a graph topologically

The nodes without parents go to a list of nodes to work off.  A node that is
taken from it is sorted, and its edges are removed: the degree of each of its
children, the number of its unsorted parents, goes down, and a child whose
degree has become zero joins the list.

Whether the graph has a cycle is read off from the number of nodes sorted
(`length_toposort_eq_iff`).  Without a cycle every node is sorted, and behind
its parents (`idxOf_lt_of_edge`).  The graph, the children of a node and the
degrees are hash tables, and each may be run over in any order.
-/

universe u

namespace Toposort

open AssocList (IterationOrder)

variable {κ : Type u} [DecidableEq κ]

/-! ## Graphs -/

/-- A graph: its nodes, and for each the nodes its edges lead to. -/
abbrev Graph (κ : Type u) := List (κ × List κ)

namespace Graph

def nodes (g : Graph κ) : List κ := AssocList.keys g

def children (g : Graph κ) (k : κ) : List κ := (AssocList.find? k g).getD []

/-- An edge from a parent to a child. -/
def Edge (g : Graph κ) (a b : κ) : Prop := b ∈ g.children a

def Acyclic (g : Graph κ) : Prop := ∀ k, ¬Relation.TransGen g.Edge k k

/-- Nodes and children are sets, and edges stay inside of the graph. -/
structure Sound (g : Graph κ) : Prop where
  nodup : g.nodes.Nodup
  nodup_children : ∀ k, (g.children k).Nodup
  closed : ∀ a b, g.Edge a b → b ∈ g.nodes

variable {g : Graph κ} {a b : κ}

theorem Edge.mem_nodes (h : g.Edge a b) : a ∈ g.nodes := by
  apply AssocList.find?_isSome_iff.mp
  unfold Edge children at h
  cases hfind : AssocList.find? a g with
  | none => simp [hfind] at h
  | some cs => rfl

instance (g : Graph κ) (a b : κ) : Decidable (g.Edge a b) :=
  inferInstanceAs (Decidable (b ∈ g.children a))

/-- The parents of `k` that are not in `done`. -/
def waiting (g : Graph κ) (done : List κ) (k : κ) : Finset κ :=
  g.nodes.toFinset.filter fun a => g.Edge a k ∧ a ∉ done

theorem mem_waiting {done : List κ} {k : κ} : a ∈ g.waiting done k ↔ g.Edge a k ∧ a ∉ done := by
  simp only [waiting, Finset.mem_filter, List.mem_toFinset]
  constructor
  · intro h
    exact h.2
  · intro h
    exact ⟨h.1.mem_nodes, h⟩

theorem card_waiting_eq_zero (g : Graph κ) (done : List κ) (k : κ) :
    (g.waiting done k).card = 0 ↔ ∀ a, g.Edge a k → a ∈ done := by
  rw [Finset.card_eq_zero, Finset.eq_empty_iff_forall_notMem]
  simp only [mem_waiting, not_and, not_not]

/-- A parent that is done is waited for no more. -/
theorem card_waiting_append (g : Graph κ) {done : List κ} {node : κ} (hnew : node ∉ done) (k : κ) :
    (g.waiting done k).card =
      (g.waiting (done ++ [node]) k).card + if g.Edge node k then 1 else 0 := by
  have herase : g.waiting (done ++ [node]) k = (g.waiting done k).erase node := by
    ext a
    simp only [mem_waiting, Finset.mem_erase, List.mem_append, List.mem_singleton, not_or]
    constructor
    · intro h
      exact ⟨h.2.2, h.1, h.2.1⟩
    · intro h
      exact ⟨h.2.1, h.2.2, h.1⟩
  rw [herase]
  by_cases he : g.Edge node k
  · have hmem : node ∈ g.waiting done k := mem_waiting.mpr ⟨he, hnew⟩
    rw [if_pos he, Finset.card_erase_add_one hmem]
  · have hmem : node ∉ g.waiting done k := fun h => he (mem_waiting.mp h).1
    rw [if_neg he, Finset.erase_eq_of_notMem hmem, Nat.add_zero]

end Graph

/-! ## Degrees -/

/-- The degree on record for a node. -/
def degree (degrees : List (κ × Int)) (k : κ) : Int := (AssocList.find? k degrees).getD 0

def increment (degrees : List (κ × Int)) (child : κ) : List (κ × Int) :=
  AssocList.set child (degree degrees child + 1) degrees

/-- A degree for each node, the number of edges that lead to it. -/
def indegrees (maps sets : IterationOrder κ) (g : Graph κ) : List (κ × Int) :=
  (maps.run g.nodes).foldl
    (fun degrees node =>
      (sets.run (g.children node)).foldl increment (AssocList.insert node 0 degrees)) []

/-- The state of the loop. -/
structure State (κ : Type u) where
  degrees : List (κ × Int)
  /-- The nodes to work off, the next one first. -/
  working : List κ
  sorted : List κ

def start (maps sets : IterationOrder κ) (g : Graph κ) : State κ where
  degrees := indegrees maps sets g
  working := (maps.run (AssocList.keys (indegrees maps sets g))).filter fun k =>
    degree (indegrees maps sets g) k = 0
  sorted := []

/-- Remove an edge to `child`. -/
def release (s : State κ) (child : κ) : State κ :=
  let degrees := AssocList.set child (degree s.degrees child - 1) s.degrees
  { s with
    degrees := degrees
    working := if degree degrees child = 0 then s.working ++ [child] else s.working }

/-- Sort the next node, if there is one. -/
def step (sets : IterationOrder κ) (g : Graph κ) (s : State κ) : State κ :=
  match s.working with
  | [] => s
  | node :: rest =>
      (sets.run (g.children node)).foldl release
        { s with working := rest, sorted := s.sorted ++ [node] }

/-- The loop, for a number of steps.  `working_run` says when it is done. -/
def run (sets : IterationOrder κ) (g : Graph κ) : Nat → State κ → State κ
  | 0, s => s
  | n + 1, s => run sets g n (step sets g s)

/-- The nodes in the order in which they are sorted.  A step sorts a node, so
there are no more steps than nodes. -/
def toposort (maps sets : IterationOrder κ) (g : Graph κ) : List κ :=
  (run sets g g.length (start maps sets g)).sorted

/-! ## What the degrees count -/

theorem degree_set (degrees : List (κ × Int)) (child : κ) (d : Int) (k : κ) :
    degree (AssocList.set child d degrees) k = if k = child then d else degree degrees k := by
  unfold degree
  by_cases h : k = child
  · rw [if_pos h, h, AssocList.find?_set_self]
    rfl
  · rw [if_neg h, AssocList.find?_set_ne h]

theorem degree_insert_zero (degrees : List (κ × Int)) (node k : κ) :
    degree (AssocList.insert node 0 degrees) k = degree degrees k := by
  unfold degree
  by_cases h : k = node
  · rw [h, AssocList.find?_insert_self]
    rfl
  · rw [AssocList.find?_insert_ne h]

theorem degree_foldl_increment {cs : List κ} (h : cs.Nodup) (degrees : List (κ × Int)) (k : κ) :
    degree (cs.foldl increment degrees) k = degree degrees k + if k ∈ cs then 1 else 0 := by
  induction cs generalizing degrees with
  | nil => simp
  | cons c cs ih =>
      have h := List.nodup_cons.mp h
      rw [List.foldl_cons, ih h.2, increment, degree_set]
      by_cases hk : k = c
      · subst hk
        simp [h.1]
      · simp [hk]

theorem mem_keys_foldl_increment (cs : List κ) (degrees : List (κ × Int)) (k : κ) :
    k ∈ AssocList.keys (cs.foldl increment degrees) ↔ k ∈ AssocList.keys degrees ∨ k ∈ cs := by
  induction cs generalizing degrees with
  | nil => simp
  | cons c cs ih =>
      rw [List.foldl_cons, ih, increment, AssocList.keys_set]
      split
      next hc =>
        simp only [List.mem_cons]
        constructor
        · exact Or.imp id .inr
        · intro h
          rcases h with h | rfl | h
          · exact .inl h
          · exact .inl hc
          · exact .inr h
      next => simp [or_assoc]

theorem nodup_keys_indegrees (maps sets : IterationOrder κ) (g : Graph κ) :
    (AssocList.keys (indegrees maps sets g)).Nodup := by
  have hcs : ∀ (cs : List κ) (degrees : List (κ × Int)), (AssocList.keys degrees).Nodup →
      (AssocList.keys (cs.foldl increment degrees)).Nodup := by
    intro cs
    induction cs with
    | nil => exact fun _ h => h
    | cons c cs ih => exact fun degrees h => ih _ (AssocList.nodup_keys_set h)
  have hfold : ∀ (l : List κ) (degrees : List (κ × Int)), (AssocList.keys degrees).Nodup →
      (AssocList.keys (l.foldl (fun degrees node => (sets.run (g.children node)).foldl increment
        (AssocList.insert node 0 degrees)) degrees)).Nodup := by
    intro l
    induction l with
    | nil => exact fun _ h => h
    | cons node l ih => exact fun degrees h => ih _ (hcs _ _ (AssocList.nodup_keys_insert h))
  exact hfold _ _ List.nodup_nil

theorem mem_keys_insert (node : κ) (degrees : List (κ × Int)) (k : κ) :
    k ∈ AssocList.keys (AssocList.insert node 0 degrees) ↔
      k ∈ AssocList.keys degrees ∨ k = node := by
  rw [← AssocList.find?_isSome_iff, ← AssocList.find?_isSome_iff]
  by_cases h : k = node
  · simp [h, AssocList.find?_insert_self]
  · simp [h, AssocList.find?_insert_ne h]

section

variable {g : Graph κ} (maps sets : IterationOrder κ)

theorem degree_indegrees (hg : g.Sound) (k : κ) :
    degree (indegrees maps sets g) k = (g.waiting [] k).card := by
  have hfold : ∀ (l : List κ) (degrees : List (κ × Int)),
      degree (l.foldl (fun degrees node => (sets.run (g.children node)).foldl increment
        (AssocList.insert node 0 degrees)) degrees) k =
        degree degrees k + (l.filter fun a => g.Edge a k).length := by
    intro l
    induction l with
    | nil => simp
    | cons node l ih =>
        intro degrees
        have hnodup := (sets.perm (g.children node)).nodup_iff.mpr (hg.nodup_children node)
        have he : k ∈ sets.run (g.children node) ↔ g.Edge node k := sets.mem_run
        rw [List.foldl_cons, ih, degree_foldl_increment hnodup, degree_insert_zero]
        by_cases hk : g.Edge node k
        · simp only [he, hk, if_true, List.filter_cons, decide_true, List.length_cons]
          omega
        · simp [he, hk]
  have hperm := (maps.perm g.nodes).filter fun a => g.Edge a k
  have hnodup := hg.nodup.filter fun a => g.Edge a k
  have hwaiting : g.waiting [] k = (g.nodes.filter fun a => g.Edge a k).toFinset := by
    ext a
    simp [Graph.waiting]
  rw [indegrees, hfold, hperm.length_eq, hwaiting, List.toFinset_card_of_nodup hnodup]
  exact Int.zero_add _

theorem mem_keys_indegrees (hg : g.Sound) (k : κ) :
    k ∈ AssocList.keys (indegrees maps sets g) ↔ k ∈ g.nodes := by
  have hfold : ∀ (l : List κ) (degrees : List (κ × Int)),
      k ∈ AssocList.keys (l.foldl (fun degrees node => (sets.run (g.children node)).foldl increment
        (AssocList.insert node 0 degrees)) degrees) ↔
        k ∈ AssocList.keys degrees ∨ k ∈ l ∨ ∃ node ∈ l, g.Edge node k := by
    intro l
    induction l with
    | nil => simp
    | cons node l ih =>
        intro degrees
        have he : k ∈ g.children node ↔ g.Edge node k := Iff.rfl
        rw [List.foldl_cons, ih, mem_keys_foldl_increment, mem_keys_insert, sets.mem_run, he]
        simp only [List.mem_cons, exists_eq_or_imp]
        grind
  rw [indegrees, hfold]
  constructor
  · intro h
    rcases h with h | h | h
    · cases h
    · exact maps.mem_run.mp h
    · obtain ⟨node, _, he⟩ := h
      exact hg.closed node k he
  · intro h
    exact .inr (.inl (maps.mem_run.mpr h))

end

/-! ## The loop -/

theorem sorted_foldl_release (cs : List κ) (s : State κ) :
    (cs.foldl release s).sorted = s.sorted := by
  induction cs generalizing s with
  | nil => rfl
  | cons c cs ih =>
      rw [List.foldl_cons, ih]
      rfl

theorem degree_foldl_release {cs : List κ} (h : cs.Nodup) (s : State κ) (k : κ) :
    degree (cs.foldl release s).degrees k = degree s.degrees k - if k ∈ cs then 1 else 0 := by
  induction cs generalizing s with
  | nil => simp
  | cons c cs ih =>
      have h := List.nodup_cons.mp h
      rw [List.foldl_cons, ih h.2, release, degree_set]
      by_cases hk : k = c
      · subst hk
        simp [h.1]
      · simp [hk]

/-- The children that join the list are those whose only unsorted parent it was. -/
theorem working_foldl_release {cs : List κ} (h : cs.Nodup) (s : State κ) :
    (cs.foldl release s).working = s.working ++ cs.filter fun k => degree s.degrees k = 1 := by
  induction cs generalizing s with
  | nil => simp
  | cons c cs ih =>
      have h := List.nodup_cons.mp h
      have hrest : (cs.filter fun k => degree (release s c).degrees k = 1) =
          cs.filter fun k => degree s.degrees k = 1 := by
        apply List.filter_congr
        intro k hk
        have hne : k ≠ c := fun he => h.1 (he ▸ hk)
        rw [release, degree_set, if_neg hne]
      rw [List.foldl_cons, ih h.2, hrest, List.filter_cons, release, degree_set, if_pos rfl]
      by_cases hc : degree s.degrees c = 1
      · simp [hc]
      · have hc' : degree s.degrees c - 1 ≠ 0 := by omega
        simp [hc, hc']

/-- What holds between two steps. -/
structure Invariant (g : Graph κ) (s : State κ) : Prop where
  nodup : (s.sorted ++ s.working).Nodup
  count : ∀ k, degree s.degrees k = (g.waiting s.sorted k).card
  /-- The nodes that wait for no parent have been found. -/
  free : ∀ k, k ∈ s.sorted ++ s.working ↔ k ∈ g.nodes ∧ ∀ a, g.Edge a k → a ∈ s.sorted
  behind : ∀ a k, k ∈ s.sorted → g.Edge a k → s.sorted.idxOf a < s.sorted.idxOf k

theorem Invariant.start (maps sets : IterationOrder κ) {g : Graph κ} (hg : g.Sound) :
    Invariant g (start maps sets g) where
  nodup := by
    have hkeys := nodup_keys_indegrees maps sets g
    exact ((maps.perm _).nodup_iff.mpr hkeys).filter _
  count := degree_indegrees maps sets hg
  free k := by
    have hzero := Graph.card_waiting_eq_zero g [] k
    simp only [Toposort.start, List.nil_append, List.mem_filter, maps.mem_run,
      mem_keys_indegrees maps sets hg, decide_eq_true_eq, degree_indegrees maps sets hg,
      Int.natCast_eq_zero, hzero]
  behind a k h := by cases h

theorem Invariant.step (sets : IterationOrder κ) {g : Graph κ} (hg : g.Sound) {s : State κ}
    (h : Invariant g s) : Invariant g (step sets g s) := by
  unfold Toposort.step
  cases hworking : s.working with
  | nil => exact h
  | cons node rest =>
      have hnodup := h.nodup
      rw [hworking] at hnodup
      have hnew : node ∉ s.sorted := fun hmem =>
        List.disjoint_of_nodup_append hnodup hmem List.mem_cons_self
      have hnode := (h.free node).mp (by simp [hworking])
      have hcs := (sets.perm (g.children node)).nodup_iff.mpr (hg.nodup_children node)
      have he : ∀ k, k ∈ sets.run (g.children node) ↔ g.Edge node k := fun k => sets.mem_run
      have hcard := fun k => Graph.card_waiting_append g hnew k
      -- A child found now was waiting, so it was not found before.
      have hfound : ∀ k, degree s.degrees k = 1 → k ∉ s.sorted ++ node :: rest := by
        intro k hk hmem
        rw [← hworking] at hmem
        have hzero := (Graph.card_waiting_eq_zero g _ k).mpr ((h.free k).mp hmem).2
        have hdegree := h.count k
        omega
      constructor
      · rw [sorted_foldl_release, working_foldl_release hcs]
        show ((s.sorted ++ [node]) ++ (rest ++ _)).Nodup
        have hassoc : ∀ l,
            (s.sorted ++ [node]) ++ (rest ++ l) = (s.sorted ++ node :: rest) ++ l := by
          simp
        rw [hassoc]
        apply hnodup.append (hcs.filter _)
        intro k hk hmem
        exact hfound k (by simpa using (List.mem_filter.mp hmem).2) hk
      · intro k
        rw [sorted_foldl_release, degree_foldl_release hcs, h.count k, hcard k]
        by_cases hk : g.Edge node k
        · simp [he, hk]
        · simp [he, hk]
      · intro k
        rw [sorted_foldl_release, working_foldl_release hcs]
        have hold := h.free k
        have hzero := Graph.card_waiting_eq_zero g s.sorted k
        have hzero' := Graph.card_waiting_eq_zero g (s.sorted ++ [node]) k
        have hcount := h.count k
        have hcard := hcard k
        rw [hworking, ← hzero] at hold
        show k ∈ (s.sorted ++ [node]) ++ (rest ++ _) ↔ _
        rw [← hzero']
        have hmem : k ∈ (s.sorted ++ [node]) ++ (rest ++ (sets.run (g.children node)).filter
            fun k => degree s.degrees k = 1) ↔
            k ∈ s.sorted ++ node :: rest ∨ g.Edge node k ∧ degree s.degrees k = 1 := by
          simp only [List.mem_append, List.mem_cons, List.mem_filter, he, decide_eq_true_eq,
            List.not_mem_nil, or_false]
          grind
        rw [hmem, hold]
        by_cases hk : g.Edge node k
        · rw [if_pos hk] at hcard
          have hnodes := hg.closed node k hk
          constructor
          · intro h
            rcases h with h | h <;> exact ⟨hnodes, by omega⟩
          · intro h
            exact .inr ⟨hk, by omega⟩
        · rw [if_neg hk, Nat.add_zero] at hcard
          simp [hk, hcard]
      · intro a k hk hedge
        rw [sorted_foldl_release] at hk ⊢
        show (s.sorted ++ [node]).idxOf a < (s.sorted ++ [node]).idxOf k
        rcases List.mem_append.mp hk with hk | hk
        · have ha := ((h.free k).mp (List.mem_append_left _ hk)).2 a hedge
          rw [List.idxOf_append_of_mem ha, List.idxOf_append_of_mem hk]
          exact h.behind a k hk hedge
        · have ha := hnode.2 a (List.mem_singleton.mp hk ▸ hedge)
          rw [List.mem_singleton.mp hk, List.idxOf_append_of_mem ha,
            List.idxOf_append_of_notMem hnew]
          exact Nat.lt_add_right _ (List.idxOf_lt_length_of_mem ha)

theorem Invariant.run (sets : IterationOrder κ) {g : Graph κ} (hg : g.Sound) {s : State κ}
    (h : Invariant g s) (n : Nat) : Invariant g (run sets g n s) := by
  induction n generalizing s with
  | zero => exact h
  | succ n ih => exact ih (h.step sets hg)

/-- A step sorts a node while there is one to work off. -/
theorem length_sorted_step (sets : IterationOrder κ) (g : Graph κ) {s : State κ}
    (h : s.working ≠ []) : (step sets g s).sorted.length = s.sorted.length + 1 := by
  unfold step
  cases hworking : s.working with
  | nil => exact absurd hworking h
  | cons node rest =>
      show ((sets.run (g.children node)).foldl release _).sorted.length = _
      rw [sorted_foldl_release, List.length_append]
      rfl

theorem Invariant.length_le {g : Graph κ} {s : State κ} (h : Invariant g s) :
    (s.sorted ++ s.working).length ≤ g.length := by
  have hsub : s.sorted ++ s.working ⊆ g.nodes := fun k hk => ((h.free k).mp hk).1
  have hle := (h.nodup.subperm hsub).length_le
  rwa [Graph.nodes, AssocList.keys, List.length_map] at hle

theorem run_of_working_eq_nil (sets : IterationOrder κ) (g : Graph κ) {s : State κ}
    (h : s.working = []) (n : Nat) : run sets g n s = s := by
  induction n with
  | zero => rfl
  | succ n ih =>
      have hstep : step sets g s = s := by rw [step, h]
      rw [run, hstep, ih]

/-- After as many steps as there are nodes nothing is left to work off. -/
theorem working_run (sets : IterationOrder κ) {g : Graph κ} (hg : g.Sound) {s : State κ}
    (h : Invariant g s) {n : Nat} (hn : g.length ≤ n + s.sorted.length) :
    (run sets g n s).working = [] := by
  induction n generalizing s with
  | zero =>
      have hle := h.length_le
      rw [List.length_append] at hle
      exact List.length_eq_zero_iff.mp (by rw [run]; omega)
  | succ n ih =>
      rw [run]
      by_cases hworking : s.working = []
      · have hstep : step sets g s = s := by rw [step, hworking]
        rw [hstep, run_of_working_eq_nil sets g hworking, hworking]
      · apply ih (h.step sets hg)
        rw [length_sorted_step sets g hworking]
        omega

/-! ## The result -/

section

variable {g : Graph κ} (maps sets : IterationOrder κ) (hg : g.Sound)
include hg

theorem invariant_toposort :
    Invariant g (run sets g g.length (start maps sets g)) ∧
      (run sets g g.length (start maps sets g)).working = [] := by
  have hstart := Invariant.start maps sets hg
  exact ⟨hstart.run sets hg _, working_run sets hg hstart (Nat.le_add_right _ _)⟩

theorem nodup_toposort : (toposort maps sets g).Nodup := by
  obtain ⟨h, hdone⟩ := invariant_toposort maps sets hg
  have hnodup := h.nodup
  rwa [hdone, List.append_nil] at hnodup

/-- A node is sorted when its parents are. -/
theorem mem_toposort_iff {k : κ} :
    k ∈ toposort maps sets g ↔ k ∈ g.nodes ∧ ∀ a, g.Edge a k → a ∈ toposort maps sets g := by
  obtain ⟨h, hdone⟩ := invariant_toposort maps sets hg
  have hfree := h.free k
  rwa [hdone, List.append_nil] at hfree

theorem idxOf_lt_of_edge {a k : κ} (hk : k ∈ toposort maps sets g) (he : g.Edge a k) :
    (toposort maps sets g).idxOf a < (toposort maps sets g).idxOf k :=
  (invariant_toposort maps sets hg).1.behind a k hk he

theorem mem_toposort_of_acyclic (hacyclic : g.Acyclic) {k : κ} (hk : k ∈ g.nodes) :
    k ∈ toposort maps sets g := by
  have horder : IsStrictOrder κ (Relation.TransGen g.Edge) :=
    { irrefl := hacyclic, trans := fun _ _ _ => Relation.TransGen.trans }
  have hwf : {k | k ∈ g.nodes}.WellFoundedOn (Relation.TransGen g.Edge) :=
    (List.finite_toSet g.nodes).wellFoundedOn
  apply hwf.induction hk
  intro k hk ih
  apply (mem_toposort_iff maps sets hg).mpr
  constructor
  · exact hk
  · intro a he
    exact ih a he.mem_nodes (.single he)

theorem acyclic_of_mem_toposort (h : ∀ k ∈ g.nodes, k ∈ toposort maps sets g) : g.Acyclic := by
  have hlt : ∀ a k, Relation.TransGen g.Edge a k →
      (toposort maps sets g).idxOf a < (toposort maps sets g).idxOf k := by
    intro a k hpath
    have hedge : ∀ b c, g.Edge b c →
        (toposort maps sets g).idxOf b < (toposort maps sets g).idxOf c :=
      fun b c he => idxOf_lt_of_edge maps sets hg (h c (hg.closed b c he)) he
    induction hpath with
    | single he => exact hedge _ _ he
    | tail _ he ih => exact ih.trans (hedge _ _ he)
  intro k hpath
  exact Nat.lt_irrefl _ (hlt k k hpath)

/-- The graph has no cycle just when every node is sorted. -/
theorem length_toposort_eq_iff : (toposort maps sets g).length = g.length ↔ g.Acyclic := by
  have hsub : toposort maps sets g ⊆ g.nodes := fun k hk =>
    ((mem_toposort_iff maps sets hg).mp hk).1
  have hsubperm := (nodup_toposort maps sets hg).subperm hsub
  have hlength : g.nodes.length = g.length := List.length_map ..
  constructor
  · intro h
    have hperm := hsubperm.perm_of_length_le (by omega)
    exact acyclic_of_mem_toposort maps sets hg fun k hk => hperm.mem_iff.mpr hk
  · intro h
    have hsub' : g.nodes ⊆ toposort maps sets g := fun k hk =>
      mem_toposort_of_acyclic maps sets hg h hk
    have hle := (hg.nodup.subperm hsub').length_le
    have hle' := hsubperm.length_le
    omega

end

end Toposort
