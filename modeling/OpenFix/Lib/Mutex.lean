import OpenFix.Lib.Effect

/-!
# Mutexes that one thread takes

A thread works on a state and holds locks.  To acquire a lock that it holds
already is an error of its own, unless the lock is reentrant: the thread would
wait for itself.  It raises that lock and goes no further, so that nothing it
holds is released.

`Settles x t a u B` says how a computation goes from `t`: the thread waits for
itself if and only if `B`, and otherwise it ends in `u` with the value `a`.
-/

namespace Mutex

open Effect

variable {L σ α β : Type}

/-- A thread with the locks that it holds, the last one first. -/
structure Thread (L σ : Type) where
  held : List L
  state : σ

/-- The thread with one more lock. -/
def Thread.push (l : L) (t : Thread L σ) : Thread L σ := { t with held := l :: t.held }

/-- The thread in another state. -/
def Thread.set (s : σ) (t : Thread L σ) : Thread L σ := { t with state := s }

@[simp] theorem Thread.push_held (l : L) (t : Thread L σ) : (t.push l).held = l :: t.held := rfl

@[simp] theorem Thread.push_state (l : L) (t : Thread L σ) : (t.push l).state = t.state := rfl

@[simp] theorem Thread.set_held (s : σ) (t : Thread L σ) : (t.set s).held = t.held := rfl

@[simp] theorem Thread.set_state (s : σ) (t : Thread L σ) : (t.set s).state = s := rfl

@[simp] theorem Thread.set_set (s s' : σ) (t : Thread L σ) : (t.set s).set s' = t.set s' := rfl

@[simp] theorem Thread.set_self (t : Thread L σ) : t.set t.state = t := rfl

@[simp] theorem Thread.push_set (l : L) (s : σ) (t : Thread L σ) :
    (t.push l).set s = (t.set s).push l := rfl

/-- What a thread computes.  It raises the lock at which it waits for itself. -/
abbrev LockM (L σ : Type) := EStateM L (Thread L σ)

/-- Look at the state. -/
def read : LockM L σ σ := do
  let t ← get
  pure t.state

/-- Change the state. -/
def update (f : σ → σ) : LockM L σ PUnit := modify fun t => t.set (f t.state)

/-- Take the lock. -/
def acquire [DecidableEq L] (reentrant : L → Bool) (l : L) : LockM L σ PUnit := do
  let t ← get
  if l ∈ t.held ∧ reentrant l = false then throw l
  modify (Thread.push l)

/-- Give the lock back. -/
def release [DecidableEq L] (l : L) : LockM L σ PUnit :=
  modify fun t => { t with held := t.held.erase l }

/-- Hold the lock while something is computed. -/
def withLock [DecidableEq L] (reentrant : L → Bool) (l : L) (x : LockM L σ α) : LockM L σ α := do
  acquire reentrant l
  let a ← x
  release l
  pure a

/-- The thread waits for itself. -/
def Stuck (x : LockM L σ α) (t : Thread L σ) : Prop := ∃ l u, x.run t = .error l u

/-- From `t` the thread waits for itself if and only if `B`, and otherwise it ends in `u`
with the value `a`. -/
def Settles (x : LockM L σ α) (t : Thread L σ) (a : α) (u : Thread L σ) (B : Prop) : Prop :=
  Ends x t (fun a' u' => a' = a ∧ u' = u ∧ ¬B) fun _ _ => B

section

variable {x : LockM L σ α} {t u : Thread L σ} {a : α} {B : Prop}

theorem Settles.stuck_iff (h : Settles x t a u B) : Stuck x t ↔ B := by
  unfold Settles Ends at h
  unfold Stuck
  cases hx : x.run t with
  | ok a' u' =>
      rw [hx] at h
      obtain ⟨-, -, hB⟩ := h
      constructor
      · intro ⟨l, v, hv⟩
        cases hv
      · intro hb
        exact absurd hb hB
  | error l u' =>
      rw [hx] at h
      exact ⟨fun _ => h, fun _ => ⟨l, u', rfl⟩⟩

theorem Settles.congr (h : Settles x t a u B) {B' : Prop} (hB : B ↔ B') : Settles x t a u B' := by
  rwa [← hB]

theorem settles_pure (a : α) (t : Thread L σ) : Settles (pure a) t a t False := ⟨rfl, rfl, id⟩

theorem settles_read (t : Thread L σ) : Settles read t t.state t False := ⟨rfl, rfl, id⟩

theorem settles_update (f : σ → σ) (t : Thread L σ) :
    Settles (update f) t ⟨⟩ (t.set (f t.state)) False := ⟨rfl, rfl, id⟩

/-- One after the other. -/
theorem Settles.bind (h : Settles x t a u B) {f : α → LockM L σ β} {b : β} {v : Thread L σ}
    {C : Prop} (hf : ¬B → Settles (f a) u b v C) : Settles (x >>= f) t b v (B ∨ C) := by
  unfold Settles at h ⊢
  rw [ends_bind]
  refine h.mono ?_ fun _ _ hb => .inl hb
  intro a' u' ⟨ha, hu, hB⟩
  subst ha hu
  refine Ends.mono (hf hB) ?_ fun _ _ hc => .inr hc
  intro b' v' ⟨hb, hv, hC⟩
  exact ⟨hb, hv, fun h => h.elim hB hC⟩

/-- One after the other, where the first does not wait. -/
theorem Settles.then (h : Settles x t a u False) {f : α → LockM L σ β} {b : β} {v : Thread L σ}
    {C : Prop} (hf : Settles (f a) u b v C) : Settles (x >>= f) t b v C :=
  (h.bind fun _ => hf).congr (Iff.of_eq (false_or C))

variable [DecidableEq L] {reentrant : L → Bool} {l : L}

/-- A lock that is free, or that may be taken again. -/
theorem Settles.withLock (hx : Settles x (t.push l) a (u.push l) B)
    (hfree : l ∈ t.held → reentrant l = true) : Settles (withLock reentrant l x) t a u B := by
  have hacquire : Settles (acquire reentrant l) t ⟨⟩ (t.push l) False := by
    unfold Settles acquire
    rw [ends_bind, ends_get]
    split
    next h =>
      rw [hfree h.1] at h
      cases h.2
    next => exact ⟨rfl, rfl, id⟩
  have hrelease : Settles (release l) (u.push l) ⟨⟩ u False := by
    refine ⟨rfl, ?_, id⟩
    show { u with held := (l :: u.held).erase l } = u
    rw [List.erase_cons_head]
  refine hacquire.then ((hx.bind fun _ => hrelease.then (settles_pure a u)).congr ?_)
  exact Iff.of_eq (or_false B)

/-- A lock that the thread holds. -/
theorem settles_withLock_of_mem (h : l ∈ t.held) (hl : reentrant l = false) (x : LockM L σ α)
    (a : α) (u : Thread L σ) : Settles (Mutex.withLock reentrant l x) t a u True := by
  unfold Settles Mutex.withLock acquire
  rw [ends_bind, ends_bind, ends_get, if_pos ⟨h, hl⟩]
  exact True.intro

/-- A lock that may not be taken again. -/
theorem Settles.withLock_or (hl : reentrant l = false)
    (hx : l ∉ t.held → Settles x (t.push l) a (u.push l) B) :
    Settles (Mutex.withLock reentrant l x) t a u (l ∈ t.held ∨ B) := by
  by_cases h : l ∈ t.held
  · exact (settles_withLock_of_mem h hl x a u).congr ⟨fun _ => .inl h, fun _ => True.intro⟩
  · exact ((hx h).withLock fun hmem => absurd hmem h).congr
      ⟨.inr, fun hB => hB.resolve_left h⟩

end

end Mutex
