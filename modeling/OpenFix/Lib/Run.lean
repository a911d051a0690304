import Mathlib.Data.List.Basic

/-!
# Runs of a machine that reads inputs

A machine is a state and what each input makes of it.  `Reached` holds of the
states of those runs in which every input was allowed in the state where it
came, and an invariant is proved by looking at one allowed input.
-/

universe u v

namespace Run

variable {σ : Type u} {ι : Type v}

/-- The states that allowed inputs lead to. -/
inductive Reached (init : σ) (next : ι → σ → σ) (allowed : σ → ι → Prop) : σ → Prop where
  | init : Reached init next allowed init
  | step {s : σ} {i : ι} (h : Reached init next allowed s) (hi : allowed s i) :
      Reached init next allowed (next i s)

variable {init : σ} {next : ι → σ → σ} {allowed : σ → ι → Prop}

/-- What holds at first and is kept by every allowed input holds in every state reached. -/
theorem Reached.invariant {P : σ → Prop} (hinit : P init)
    (hstep : ∀ s i, allowed s i → P s → P (next i s)) {s : σ}
    (h : Reached init next allowed s) : P s := by
  induction h with
  | init => exact hinit
  | step _ hi ih => exact hstep _ _ hi ih

/-- The state after a list of inputs. -/
def runOf (next : ι → σ → σ) (s : σ) (inputs : List ι) : σ := inputs.foldl (fun s i => next i s) s

/-- A run without conditions reaches where it ends. -/
theorem Reached.runOf (hall : ∀ s i, allowed s i) {s : σ} (h : Reached init next allowed s) :
    ∀ inputs : List ι, Reached init next allowed (runOf next s inputs)
  | [] => h
  | i :: inputs => Reached.runOf hall (h.step (hall s i)) inputs

/-- Every input of a list is allowed in the state where it comes. -/
def AllowedAlong (next : ι → σ → σ) (allowed : σ → ι → Prop) : σ → List ι → Prop
  | _, [] => True
  | s, i :: inputs => allowed s i ∧ AllowedAlong next allowed (next i s) inputs

instance decidableAllowedAlong [h : ∀ s i, Decidable (allowed s i)] :
    (s : σ) → (inputs : List ι) → Decidable (AllowedAlong next allowed s inputs)
  | _, [] => .isTrue True.intro
  | s, i :: inputs =>
      @instDecidableAnd _ _ (h s i) (decidableAllowedAlong (next i s) inputs)

/-- A run of allowed inputs reaches where it ends. -/
theorem Reached.along {s : σ} (h : Reached init next allowed s) {inputs : List ι}
    (hall : AllowedAlong next allowed s inputs) :
    Reached init next allowed (Run.runOf next s inputs) := by
  induction inputs generalizing s with
  | nil => exact h
  | cons i inputs ih => exact ih (h.step hall.1) hall.2

theorem allowedAlong_and {allowed' : σ → ι → Prop} {s : σ} {inputs : List ι} :
    AllowedAlong next (fun s i => allowed s i ∧ allowed' s i) s inputs ↔
      AllowedAlong next allowed s inputs ∧ AllowedAlong next allowed' s inputs := by
  induction inputs generalizing s with
  | nil => exact ⟨fun _ => ⟨trivial, trivial⟩, fun _ => trivial⟩
  | cons i inputs ih =>
      rw [AllowedAlong, ih, AllowedAlong, AllowedAlong]
      exact and_and_and_comm

/-- A run without conditions is allowed. -/
theorem allowedAlong_of_forall (hall : ∀ s i, allowed s i) :
    ∀ (s : σ) (inputs : List ι), AllowedAlong next allowed s inputs
  | _, [] => trivial
  | s, i :: inputs => ⟨hall s i, allowedAlong_of_forall hall (next i s) inputs⟩

theorem allowedAlong_append {s : σ} {inputs inputs' : List ι} :
    AllowedAlong next allowed s (inputs ++ inputs') ↔
      AllowedAlong next allowed s inputs ∧ AllowedAlong next allowed (runOf next s inputs) inputs' := by
  induction inputs generalizing s with
  | nil => exact (true_and _).symm.to_iff
  | cons i inputs ih =>
      rw [List.cons_append, AllowedAlong, AllowedAlong, ih, and_assoc]
      rfl

/-- What holds at first and is kept by every allowed input holds where the inputs lead to. -/
theorem AllowedAlong.invariant {P : σ → Prop} (hstep : ∀ s i, allowed s i → P s → P (next i s))
    {s : σ} (hs : P s) {inputs : List ι} (h : AllowedAlong next allowed s inputs) :
    P (runOf next s inputs) := by
  induction inputs generalizing s with
  | nil => exact hs
  | cons i inputs ih => exact ih (hstep s i h.1 hs) h.2

/-- A property holds in every state of a run exactly if every input is careful, where an
invariant of the careful inputs implies the property and a careless input destroys it. -/
theorem holds_along_iff {possible careful : σ → ι → Prop} {Inv P : σ → Prop}
    (hkeep : ∀ s i, possible s i → careful s i → Inv s → Inv (next i s))
    (hholds : ∀ s, Inv s → P s)
    (hbreak : ∀ s i, possible s i → ¬careful s i → Inv s → ¬P (next i s)) {s : σ} (hs : Inv s)
    {inputs : List ι} (h : AllowedAlong next possible s inputs) :
    (∀ before, before <+: inputs → P (Run.runOf next s before)) ↔
      AllowedAlong next careful s inputs := by
  induction inputs generalizing s with
  | nil =>
      refine iff_of_true (fun before hbefore => ?_) trivial
      rw [List.prefix_nil.mp hbefore]
      exact hholds s hs
  | cons i inputs ih =>
      constructor
      · intro hall
        have hcareful : careful s i := by
          by_contra hnot
          exact hbreak s i h.1 hnot hs (hall [i] ((List.prefix_cons_inj i).mpr List.nil_prefix))
        refine ⟨hcareful, (ih (hkeep s i h.1 hcareful hs) h.2).mp fun before hbefore => ?_⟩
        exact hall (i :: before) ((List.prefix_cons_inj i).mpr hbefore)
      · rintro ⟨hcareful, hrest⟩ before hbefore
        cases before with
        | nil => exact hholds s hs
        | cons j before =>
            obtain ⟨rfl, htail⟩ := List.cons_prefix_cons.mp hbefore
            exact (ih (hkeep s j h.1 hcareful hs) h.2).mpr hrest before htail

/-! ## Logs -/

/-- Where a marked element stands in a list that is an appendix of another. -/
theorem split_append {α : Type u} {l l' pre post : List α} {x : α}
    (h : l ++ l' = pre ++ x :: post) :
    (∃ post', l = pre ++ x :: post' ∧ post = post' ++ l') ∨
      ∃ pre', pre = l ++ pre' ∧ l' = pre' ++ x :: post := by
  rcases List.append_eq_append_iff.mp h with ⟨m, hpre, hl'⟩ | ⟨m, hl, hx⟩
  · exact .inr ⟨m, hpre, hl'⟩
  · cases m with
    | nil => exact .inr ⟨[], by simp_all, by simp_all⟩
    | cons y m =>
        simp only [List.cons_append, List.cons.injEq] at hx
        obtain ⟨rfl, rfl⟩ := hx
        exact .inl ⟨m, hl, rfl⟩

end Run
