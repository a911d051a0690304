import Mathlib.Order.Defs.Unbundled

/-!
# Rules for computations that may raise and keep their state

A computation in `EStateM ε σ` runs from a state and ends in a state, with a
value or with an exception.  What was written before the exception was raised
stays written, as it does in a language whose exceptions do not roll back.

Two judgments are used.  `Ends x s Q E` is the weakest precondition: from `s`
the run ends in a value and a state with `Q`, or in an exception and a state
with `E`.  `Keeps R x` says that the state before and the state after are in the
relation `R`, however the run ends.  For a preorder `R` it has one rule for each
way of building a computation, so that a fact such as "this counter never goes
down" is proved from the same fact about the parts.
-/

universe u

namespace Effect

variable {ε σ α β : Type u}

/-! ## Weakest preconditions -/

/-- From `s` the computation ends in `Q`, or raises and ends in `E`. -/
def Ends (x : EStateM ε σ α) (s : σ) (Q : α → σ → Prop) (E : ε → σ → Prop) : Prop :=
  match x.run s with
  | .ok a s' => Q a s'
  | .error e s' => E e s'

section Ends

variable {s : σ} {Q : α → σ → Prop} {E : ε → σ → Prop}

@[simp] theorem ends_pure (a : α) : Ends (pure a : EStateM ε σ α) s Q E ↔ Q a s := Iff.rfl

@[simp] theorem ends_throw (e : ε) : Ends (throw e : EStateM ε σ α) s Q E ↔ E e s := Iff.rfl

@[simp] theorem ends_get {Q : σ → σ → Prop} :
    Ends (get : EStateM ε σ σ) s Q E ↔ Q s s := Iff.rfl

@[simp] theorem ends_modify {Q : PUnit → σ → Prop} (f : σ → σ) :
    Ends (modify f : EStateM ε σ PUnit) s Q E ↔ Q ⟨⟩ (f s) := Iff.rfl

@[simp] theorem ends_bind {Q : β → σ → Prop} (x : EStateM ε σ α) (f : α → EStateM ε σ β) :
    Ends (x >>= f) s Q E ↔ Ends x s (fun a s' => Ends (f a) s' Q E) E := by
  simp only [Ends, EStateM.run_bind]
  cases x.run s <;> rfl

/-- A handler runs on the state the exception left. -/
theorem run_tryCatch (x : EStateM ε σ α) (f : ε → EStateM ε σ α) (s : σ) :
    (MonadExcept.tryCatch x f : EStateM ε σ α).run s = match x.run s with
      | .ok a s' => .ok a s'
      | .error e s' => (f e).run s' := by
  change EStateM.tryCatch x f s = match x s with
    | .ok a s' => .ok a s'
    | .error e s' => f e s'
  delta EStateM.tryCatch
  cases x s with
  | ok a s' => rfl
  | error e s' => rfl

theorem Ends.mono {x : EStateM ε σ α} {Q' : α → σ → Prop} {E' : ε → σ → Prop}
    (h : Ends x s Q E) (hQ : ∀ a s', Q a s' → Q' a s') (hE : ∀ e s', E e s' → E' e s') :
    Ends x s Q' E' := by
  unfold Ends at h ⊢
  cases hx : x.run s with
  | ok a s' =>
      rw [hx] at h
      exact hQ a s' h
  | error e s' =>
      rw [hx] at h
      exact hE e s' h

theorem Ends.trivial (x : EStateM ε σ α) (s : σ) : Ends x s (fun _ _ => True) fun _ _ => True := by
  unfold Ends
  cases x.run s with
  | ok a s' => exact True.intro
  | error e s' => exact True.intro

/-- Run the first part, then what follows from where it ended. -/
theorem Ends.bind {x : EStateM ε σ α} {f : α → EStateM ε σ β} {P : α → σ → Prop}
    {Q : β → σ → Prop} (h : Ends x s P E) (hf : ∀ a t, P a t → Ends (f a) t Q E) :
    Ends (x >>= f) s Q E :=
  (ends_bind x f).mpr (h.mono hf fun _ _ he => he)

/-- What a result says of its run. -/
theorem Ends.ran {x : EStateM ε σ α} (h : Ends x s Q E) :
    Ends x s (fun a t => x.run s = .ok a t ∧ Q a t) E := by
  unfold Ends at h ⊢
  cases hx : x.run s with
  | ok a s' =>
      rw [hx] at h
      exact ⟨rfl, h⟩
  | error e s' =>
      rw [hx] at h
      exact h

theorem Ends.tryCatch {x : EStateM ε σ α} {f : ε → EStateM ε σ α} {F : ε → σ → Prop}
    (h : Ends x s Q F) (hf : ∀ e t, F e t → Ends (f e) t Q E) :
    Ends (MonadExcept.tryCatch x f) s Q E := by
  unfold Ends at h ⊢
  rw [run_tryCatch]
  cases hx : x.run s with
  | ok a s' => rwa [hx] at h
  | error e s' =>
      rw [hx] at h
      exact hf e s' h

theorem Ends.and {x : EStateM ε σ α} {Q' : α → σ → Prop} {E' : ε → σ → Prop}
    (h : Ends x s Q E) (h' : Ends x s Q' E') :
    Ends x s (fun a t => Q a t ∧ Q' a t) (fun e t => E e t ∧ E' e t) := by
  unfold Ends at h h' ⊢
  cases hx : x.run s with
  | ok a s' =>
      rw [hx] at h h'
      exact ⟨h, h'⟩
  | error e s' =>
      rw [hx] at h h'
      exact ⟨h, h'⟩

end Ends

/-! ## The state a run ends in -/

/-- The state of a result, of a value or of an exception. -/
def stateOf : EStateM.Result ε σ α → σ
  | .ok _ s => s
  | .error _ s => s

/-- The exception, if there is one. -/
def raised? : EStateM.Result ε σ α → Option ε
  | .ok _ _ => none
  | .error e _ => some e

theorem raised?_eq_some_iff {r : EStateM.Result ε σ α} {e : ε} :
    raised? r = some e ↔ ∃ s, r = .error e s := by
  cases r with
  | ok a s => simp [raised?]
  | error e' s => simp [raised?]

/-- The state the computation ends in from `s`. -/
def after (x : EStateM ε σ α) (s : σ) : σ := stateOf (x.run s)

theorem after_eq_of_ends {x : EStateM ε σ α} {s : σ} {P : σ → Prop}
    (h : Ends x s (fun _ => P) (fun _ => P)) : P (after x s) := by
  unfold Ends at h
  unfold after
  cases hx : x.run s with
  | ok a s' =>
      rw [hx] at h
      exact h
  | error e s' =>
      rw [hx] at h
      exact h

theorem ends_of_after {x : EStateM ε σ α} {s : σ} {P : σ → Prop} (h : P (after x s)) :
    Ends x s (fun _ => P) (fun _ => P) := by
  unfold Ends
  unfold after at h
  cases hx : x.run s with
  | ok a s' =>
      rw [hx] at h
      exact h
  | error e s' =>
      rw [hx] at h
      exact h

theorem after_bind_ok {x : EStateM ε σ α} {f : α → EStateM ε σ β} {s s' : σ} {a : α}
    (h : x.run s = .ok a s') : after (x >>= f) s = after (f a) s' := by
  unfold after
  rw [EStateM.run_bind, h]

theorem after_bind_error {x : EStateM ε σ α} {f : α → EStateM ε σ β} {s s' : σ} {e : ε}
    (h : x.run s = .error e s') : after (x >>= f) s = s' := by
  unfold after
  rw [EStateM.run_bind, h]
  rfl

/-! ## What a run keeps -/

/-- Every run ends in a state that `R` relates to the one it started in. -/
def Keeps (R : σ → σ → Prop) (x : EStateM ε σ α) : Prop := ∀ s, R s (after x s)

section Keeps

variable {R : σ → σ → Prop}

theorem Keeps.mono {R' : σ → σ → Prop} {x : EStateM ε σ α} (h : Keeps R x)
    (hR : ∀ s t, R s t → R' s t) : Keeps R' x := fun s => hR _ _ (h s)

theorem Keeps.ends {x : EStateM ε σ α} (h : Keeps R x) (s : σ) :
    Ends x s (fun _ => R s) (fun _ => R s) := ends_of_after (h s)

/-- A run that keeps `R` also keeps it next to whatever else is known of its end. -/
theorem Ends.keeps {x : EStateM ε σ α} {s : σ} {Q : α → σ → Prop} {E : ε → σ → Prop}
    (h : Ends x s Q E) (hk : Keeps R x) :
    Ends x s (fun a t => Q a t ∧ R s t) (fun e t => E e t ∧ R s t) := h.and (hk.ends s)

theorem keeps_modify {f : σ → σ} (h : ∀ s, R s (f s)) :
    Keeps R (modify f : EStateM ε σ PUnit) := h

section Refl

variable [Std.Refl R]

theorem keeps_pure (a : α) : Keeps R (pure a : EStateM ε σ α) := fun s => Std.Refl.refl s

theorem keeps_throw (e : ε) : Keeps R (throw e : EStateM ε σ α) := fun s => Std.Refl.refl s

theorem keeps_get : Keeps R (get : EStateM ε σ σ) := fun s => Std.Refl.refl s

end Refl

theorem keeps_ite {p : Prop} [Decidable p] {x y : EStateM ε σ α} (hx : p → Keeps R x)
    (hy : ¬p → Keeps R y) : Keeps R (if p then x else y) := by
  split
  next h => exact hx h
  next h => exact hy h

theorem keeps_bind [IsTrans σ R] {x : EStateM ε σ α} {f : α → EStateM ε σ β} (hx : Keeps R x)
    (hf : ∀ a, Keeps R (f a)) : Keeps R (x >>= f) := by
  intro s
  have hs := hx s
  cases h : x.run s with
  | ok a s' =>
      rw [after, h] at hs
      rw [after_bind_ok h]
      exact IsTrans.trans s s' _ hs (hf a s')
  | error e s' =>
      rw [after, h] at hs
      rwa [after_bind_error h]

/-- A handler that keeps `R` may be run on the state the exception left. -/
theorem keeps_tryCatch [IsTrans σ R] {x : EStateM ε σ α} {f : ε → EStateM ε σ α} (hx : Keeps R x)
    (hf : ∀ e, Keeps R (f e)) : Keeps R (MonadExcept.tryCatch x f) := by
  intro s
  exact after_eq_of_ends ((hx.ends s).tryCatch fun e t ht =>
    ((hf e).ends t).mono (fun _ u hu => IsTrans.trans s t u ht hu)
      fun _ u hu => IsTrans.trans s t u ht hu)

end Keeps

/-! ## Runs that do not raise -/

/-- From every state the computation ends in a value. -/
def Succeeds (x : EStateM ε σ α) : Prop := ∀ s, Ends x s (fun _ _ => True) fun _ _ => False

theorem Ends.succeeds {x : EStateM ε σ α} {Q : σ → α → σ → Prop}
    (h : ∀ s, Ends x s (Q s) fun _ _ => False) : Succeeds x := fun s =>
  (h s).mono (fun _ _ _ => True.intro) fun _ _ hf => hf

/-- What is known of the end of a run is known of its value. -/
theorem Succeeds.ends {x : EStateM ε σ α} (hx : Succeeds x) {s : σ} {Q : α → σ → Prop}
    {E : ε → σ → Prop} (h : Ends x s Q E) : Ends x s Q fun _ _ => False :=
  (h.and (hx s)).mono (fun _ _ hq => hq.1) fun _ _ hf => hf.2

theorem succeeds_pure (a : α) : Succeeds (pure a : EStateM ε σ α) := fun _ => True.intro

theorem succeeds_get : Succeeds (get : EStateM ε σ σ) := fun _ => True.intro

theorem succeeds_modify (f : σ → σ) : Succeeds (modify f : EStateM ε σ PUnit) := fun _ => True.intro

theorem succeeds_ite {p : Prop} [Decidable p] {x y : EStateM ε σ α} (hx : p → Succeeds x)
    (hy : ¬p → Succeeds y) : Succeeds (if p then x else y) := by
  split
  next h => exact hx h
  next h => exact hy h

theorem succeeds_bind {x : EStateM ε σ α} {f : α → EStateM ε σ β} (hx : Succeeds x)
    (hf : ∀ a, Succeeds (f a)) : Succeeds (x >>= f) := fun s =>
  Ends.bind (hx s) fun a t _ => hf a t

/-! ## What a run may raise -/

/-- Whatever the computation raises satisfies `E`. -/
def Raises (E : ε → Prop) (x : EStateM ε σ α) : Prop :=
  ∀ s, Ends x s (fun _ _ => True) fun e _ => E e

section Raises

variable {E : ε → Prop}

theorem Succeeds.raises {x : EStateM ε σ α} (hx : Succeeds x) : Raises E x := fun s =>
  (hx s).mono (fun _ _ h => h) fun _ _ hf => hf.elim

theorem raises_throw {e : ε} (h : E e) : Raises E (throw e : EStateM ε σ α) := fun _ => h

theorem raises_ite {p : Prop} [Decidable p] {x y : EStateM ε σ α} (hx : p → Raises E x)
    (hy : ¬p → Raises E y) : Raises E (if p then x else y) := by
  split
  next h => exact hx h
  next h => exact hy h

theorem raises_bind {x : EStateM ε σ α} {f : α → EStateM ε σ β} (hx : Raises E x)
    (hf : ∀ a, Raises E (f a)) : Raises E (x >>= f) := fun s =>
  Ends.bind (hx s) fun a t _ => hf a t

end Raises

end Effect
