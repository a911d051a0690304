import Mathlib.Logic.Basic

/-!
# Loops whose rounds may fail

A round of a loop takes a state.  It goes on from another state, ends the loop with
a result, or fails.  `Reaches` holds of the states that rounds are started in, and
`Ends` of how the loop comes out.  A loop that comes out with a result or a failure
has it from the round of a state that it reaches, so that what the loop can do is
known from what one round can do.

`Yields` says of a single computation with which values and which errors it may come
out.
-/

namespace Loop

variable {ε α β σ τ : Type}

/-! ## Computations that may fail -/

/-- The computation comes out with a value in `Q` or with an error in `E`. -/
def Yields (x : Except ε α) (Q : α → Prop) (E : ε → Prop) : Prop :=
  match x with
  | .ok a => Q a
  | .error e => E e

section Yields

variable {Q : α → Prop} {E : ε → Prop}

@[simp] theorem yields_ok (a : α) : Yields (.ok a : Except ε α) Q E ↔ Q a := Iff.rfl

@[simp] theorem yields_error (e : ε) : Yields (.error e : Except ε α) Q E ↔ E e := Iff.rfl

theorem Yields.bind {x : Except ε α} {f : α → Except ε β} {P : β → Prop} (h : Yields x Q E)
    (hf : ∀ a, Q a → Yields (f a) P E) : Yields (x >>= f) P E := by
  cases x with
  | ok a => exact hf a h
  | error e => exact h

theorem Yields.mono {Q' : α → Prop} {E' : ε → Prop} {x : Except ε α} (h : Yields x Q E)
    (hQ : ∀ a, Q a → Q' a) (hE : ∀ e, E e → E' e) : Yields x Q' E' := by
  cases x with
  | ok a => exact hQ a h
  | error e => exact hE e h

theorem Yields.and {Q' : α → Prop} {E' : ε → Prop} {x : Except ε α} (h : Yields x Q E)
    (h' : Yields x Q' E') : Yields x (fun a => Q a ∧ Q' a) fun e => E e ∧ E' e := by
  cases x with
  | ok a => exact ⟨h, h'⟩
  | error e => exact ⟨h, h'⟩

theorem yields_self (x : Except ε α) : Yields x (fun a => x = .ok a) fun e => x = .error e := by
  cases x with
  | ok a => rfl
  | error e => rfl

theorem Yields.of_ok {x : Except ε α} (h : Yields x Q E) {a : α} (hx : x = .ok a) : Q a := by
  rwa [hx] at h

theorem Yields.of_error {x : Except ε α} (h : Yields x Q E) {e : ε} (hx : x = .error e) : E e := by
  rwa [hx] at h

theorem bind_eq_ok {x : Except ε α} {f : α → Except ε β} {b : β} :
    x >>= f = .ok b ↔ ∃ a, x = .ok a ∧ f a = .ok b := by
  cases x with
  | ok a =>
      constructor
      · intro h
        exact ⟨a, rfl, h⟩
      · intro ⟨a', ha, h⟩
        cases ha
        exact h
  | error e =>
      constructor
      · intro h
        cases h
      · intro ⟨_, ha, _⟩
        cases ha

theorem bind_eq_error {x : Except ε α} {f : α → Except ε β} {e : ε} :
    x >>= f = .error e ↔ x = .error e ∨ ∃ a, x = .ok a ∧ f a = .error e := by
  cases x with
  | ok a =>
      constructor
      · intro h
        exact .inr ⟨a, rfl, h⟩
      · intro h
        rcases h with h | ⟨a', ha, h⟩
        · cases h
        · cases ha
          exact h
  | error e' =>
      constructor
      · intro h
        cases h
        exact .inl rfl
      · intro h
        rcases h with h | ⟨_, ha, _⟩
        · cases h
          rfl
        · cases ha

end Yields

/-! ## Computations that do the same

`Simulates R x y` says that `x` and `y` come out with related values, or with the same error. -/

def Simulates (R : α → β → Prop) : Except ε α → Except ε β → Prop
  | .ok a, .ok b => R a b
  | .error e, .error e' => e = e'
  | .ok _, .error _ | .error _, .ok _ => False

section Simulates

variable {α' β' : Type} {R : α → β → Prop} {S : α' → β' → Prop}

theorem Simulates.refl (x : Except ε α) : Simulates Eq x x := by
  cases x with
  | ok a => rfl
  | error e => rfl

theorem Simulates.bind {x : Except ε α} {y : Except ε β} {f : α → Except ε α'}
    {g : β → Except ε β'} (h : Simulates R x y) (hf : ∀ a b, R a b → Simulates S (f a) (g b)) :
    Simulates S (x >>= f) (y >>= g) := by
  cases x with
  | ok a => cases y with
    | ok b => exact hf a b h
    | error e => exact h.elim
  | error e => cases y with
    | ok b => exact h.elim
    | error e' => exact h

/-- The first computation may do something more to its value. -/
theorem Simulates.then_left {x : Except ε α} {y : Except ε β} {f : α → α'} {T : α' → β → Prop}
    (h : Simulates R x y) (hf : ∀ a b, R a b → T (f a) b) :
    Simulates T (x >>= fun a => .ok (f a)) y := by
  cases x with
  | ok a => cases y with
    | ok b => exact hf a b h
    | error e => exact h.elim
  | error e => cases y with
    | ok b => exact h.elim
    | error e' => exact h

theorem Simulates.ite {c c' : Prop} [Decidable c] [Decidable c'] {x x' : Except ε α}
    {y y' : Except ε β} (hc : c ↔ c') (h : c → Simulates R x y) (h' : ¬c → Simulates R x' y') :
    Simulates R (if c then x else x') (if c' then y else y') := by
  by_cases hif : c
  · rw [if_pos hif, if_pos (hc.mp hif)]
    exact h hif
  · rw [if_neg hif, if_neg fun hif' => hif (hc.mpr hif')]
    exact h' hif

/-- Loops over elements that correspond. -/
theorem Simulates.foldlM {φ : σ → τ} {f : α → σ → Except ε α} {g : β → τ → Except ε β}
    {l : List σ} (hstep : ∀ a b, ∀ x ∈ l, R a b → Simulates R (f a x) (g b (φ x))) {a : α} {b : β}
    (h : R a b) : Simulates R (l.foldlM f a) ((l.map φ).foldlM g b) := by
  induction l generalizing a b with
  | nil => exact h
  | cons x l ih =>
      rw [List.map_cons, List.foldlM_cons, List.foldlM_cons]
      apply (hstep a b x List.mem_cons_self h).bind
      intro a' b' h'
      exact ih (fun a b y hy => hstep a b y (List.mem_cons_of_mem x hy)) h'

/-- Loops over the same elements. -/
theorem Simulates.foldlM_same {f : α → σ → Except ε α} {g : β → σ → Except ε β}
    (hstep : ∀ a b x, R a b → Simulates R (f a x) (g b x)) (l : List σ) {a : α} {b : β}
    (h : R a b) : Simulates R (l.foldlM f a) (l.foldlM g b) := by
  have hloop : Simulates R (l.foldlM f a) ((l.map id).foldlM g b) :=
    Simulates.foldlM (fun a b x _ => hstep a b x) h
  rwa [List.map_id] at hloop

theorem Simulates.exists_of_ok {x : Except ε α} {y : Except ε β} (h : Simulates R x y) {a : α}
    (hx : x = .ok a) : ∃ b, y = .ok b ∧ R a b := by
  subst hx
  cases y with
  | ok b => exact ⟨b, rfl, h⟩
  | error e => exact h.elim

end Simulates

/-! ## Computations that succeed more often

`Extends x y` says that `y` comes out with the values that `x` comes out with, and may have
one where `x` fails. -/

def Extends (x y : Except ε α) : Prop := ∀ a, x = .ok a → y = .ok a

section Extends

theorem Extends.refl (x : Except ε α) : Extends x x := fun _ h => h

theorem Extends.of_error (e : ε) (y : Except ε α) : Extends (.error e) y := by
  intro a h
  cases h

theorem Extends.bind {x y : Except ε α} {f g : α → Except ε β} (h : Extends x y)
    (hf : ∀ a, Extends (f a) (g a)) : Extends (x >>= f) (y >>= g) := by
  intro b hb
  obtain ⟨a, hx, ha⟩ := bind_eq_ok.mp hb
  exact bind_eq_ok.mpr ⟨a, h a hx, hf a b ha⟩

theorem Extends.ite {c : Prop} [Decidable c] {x x' y y' : Except ε α} (h : c → Extends x y)
    (h' : ¬c → Extends x' y') : Extends (if c then x else x') (if c then y else y') := by
  by_cases hc : c
  · rw [if_pos hc, if_pos hc]
    exact h hc
  · rw [if_neg hc, if_neg hc]
    exact h' hc

end Extends

/-! ## Loops -/

variable {round : σ → Except ε (σ ⊕ τ)}

/-- The states that rounds are started in. -/
inductive Reaches (round : σ → Except ε (σ ⊕ τ)) (s : σ) : σ → Prop where
  | refl : Reaches round s s
  | tail {t u : σ} (h : Reaches round s t) (ht : round t = .ok (.inl u)) : Reaches round s u

/-- How the loop comes out. -/
inductive Ends (round : σ → Except ε (σ ⊕ τ)) : σ → Except ε τ → Prop where
  | stop {s : σ} {r : Except ε τ} (h : round s = r.map .inr) : Ends round s r
  | next {s s' : σ} {r : Except ε τ} (h : round s = .ok (.inl s')) (hr : Ends round s' r) :
      Ends round s r

theorem map_inr_ne_next (r : Except ε τ) (s : σ) : r.map .inr ≠ (.ok (.inl s) : Except ε (σ ⊕ τ)) := by
  intro h
  cases r with
  | ok t => cases h
  | error e => cases h

theorem map_inr_injective {r r' : Except ε τ}
    (h : r.map .inr = (r'.map .inr : Except ε (σ ⊕ τ))) : r = r' := by
  cases r with
  | ok t =>
      cases r' with
      | ok t' =>
          cases h
          rfl
      | error e' => cases h
  | error e =>
      cases r' with
      | ok t' => cases h
      | error e' =>
          cases h
          rfl

/-- What holds at first and is kept by every round that goes on holds in every state reached. -/
theorem Reaches.invariant {P : σ → Prop} {s t : σ} (h : Reaches round s t) (hs : P s)
    (hround : ∀ t u, round t = .ok (.inl u) → P t → P u) : P t := by
  induction h with
  | refl => exact hs
  | tail _ ht ih => exact hround _ _ ht ih

theorem Reaches.head {s s' t : σ} (hs : round s = .ok (.inl s')) (h : Reaches round s' t) :
    Reaches round s t := by
  induction h with
  | refl => exact .tail .refl hs
  | tail _ ht ih => exact .tail ih ht

theorem Reaches.trans {s t u : σ} (h : Reaches round s t) (h' : Reaches round t u) :
    Reaches round s u := by
  induction h' with
  | refl => exact h
  | tail _ ht ih => exact .tail ih ht

theorem Reaches.cases_head {s t : σ} (h : Reaches round s t) :
    t = s ∨ ∃ s', round s = .ok (.inl s') ∧ Reaches round s' t := by
  induction h with
  | refl => exact .inl rfl
  | tail _ ht ih =>
      rcases ih with heq | ⟨s', hs, h'⟩
      · rw [heq] at ht
        exact .inr ⟨_, ht, .refl⟩
      · exact .inr ⟨s', hs, .tail h' ht⟩

/-- A state whose round does the same reaches what the other state reaches. -/
theorem Reaches.of_round_eq {s s' t : σ} (heq : round s = round s') (h : Reaches round s' t)
    (hne : t ≠ s') : Reaches round s t := by
  obtain ⟨u, hs', hu⟩ := h.cases_head.resolve_left hne
  exact hu.head (heq.trans hs')

/-- The last state is reached from every state that is reached. -/
theorem Reaches.to_last {s t u : σ} (h : Reaches round s t) (hu : Reaches round s u)
    (hlast : ∀ v, round u ≠ .ok (.inl v)) : Reaches round t u := by
  induction h with
  | refl => exact hu
  | tail _ ht ih =>
      rcases ih.cases_head with heq | ⟨s', hs, h'⟩
      · rw [← heq] at ht
        exact absurd ht (hlast _)
      · rw [ht] at hs
        cases hs
        exact h'

/-- The loop ends within `n` rounds, and the states that they are started in pass the test. -/
def always (round : σ → Except ε (σ ⊕ τ)) (test : σ → Bool) : Nat → σ → Bool
  | 0, _ => false
  | n + 1, s => test s && match round s with
      | .ok (.inl s') => always round test n s'
      | _ => true

theorem Reaches.of_always {test : σ → Bool} {t : σ} : ∀ {n : Nat} {s : σ},
    always round test n s = true → Reaches round s t → test t = true := by
  intro n
  induction n with
  | zero =>
      intro s h _
      cases h
  | succ n ih =>
      intro s h hreaches
      rw [always, Bool.and_eq_true] at h
      rcases hreaches.cases_head with heq | ⟨s', hs, hreaches'⟩
      · rw [heq]
        exact h.1
      · rw [hs] at h
        exact ih h.2 hreaches'

/-- What comes out of the loop comes out of the last round that is reached. -/
theorem Ends.eq_iff {s : σ} {r : Except ε τ} (h : Ends round s r) (r' : Except ε τ) :
    r = r' ↔ ∃ u, Reaches round s u ∧ round u = r'.map .inr := by
  induction h with
  | @stop s r hs =>
      constructor
      · intro hr
        exact ⟨s, .refl, hr ▸ hs⟩
      · intro ⟨u, hu, hround⟩
        rcases hu.cases_head with heq | ⟨s', hs', -⟩
        · rw [heq, hs] at hround
          exact map_inr_injective hround
        · rw [hs] at hs'
          exact absurd hs' (map_inr_ne_next r s')
  | next hs _ ih =>
      rw [ih]
      constructor
      · intro ⟨u, hu, hround⟩
        exact ⟨u, hu.head hs, hround⟩
      · intro ⟨u, hu, hround⟩
        rcases hu.cases_head with heq | ⟨s', hs', h'⟩
        · rw [heq, hs] at hround
          exact absurd hround.symm (map_inr_ne_next r' _)
        · rw [hs] at hs'
          cases hs'
          exact ⟨u, h', hround⟩

end Loop
