import Mathlib.Data.List.Basic

/-!
# Framing a stream

A framer looks at the start of a buffer and either waits for more or consumes
something and gives what it found.  It never takes back what it decided: once it
consumes, it would have consumed the same of any longer buffer.  That is a field
of the structure, and it is all that is needed for the result not to depend on
how the stream was cut into pieces (`run_append`, `feed_eq_run`).
-/

universe u v

/-- A framer of a stream of `α` into values of `β`. -/
structure Framer (α : Type u) (β : Type v) where
  /-- How much of the buffer is consumed and what it gives, or `none` to wait. -/
  next : List α → Option (Nat × List β)
  pos : ∀ {b n out}, next b = some (n, out) → 0 < n
  le : ∀ {b n out}, next b = some (n, out) → n ≤ b.length
  /-- A decision does not depend on what comes after. -/
  stable : ∀ {b r} (c : List α), next b = some r → next (b ++ c) = some r

namespace Framer

variable {α : Type u} {β : Type v} (F : Framer α β)

/-- Consume as long as there is something to consume, `fuel` times at most. -/
def runFuel : Nat → List α → List β × List α
  | 0, b => ([], b)
  | fuel + 1, b =>
      match F.next b with
      | none => ([], b)
      | some (n, out) => (out ++ (runFuel fuel (b.drop n)).1, (runFuel fuel (b.drop n)).2)

/-- What a buffer gives, and what is left of it. -/
def run (b : List α) : List β × List α := F.runFuel b.length b

/-- Feed pieces to a buffer, one after the other. -/
def feed (b : List α) : List (List α) → List β × List α
  | [] => ([], b)
  | c :: cs => ((F.run (b ++ c)).1 ++ (feed (F.run (b ++ c)).2 cs).1, (feed (F.run (b ++ c)).2 cs).2)

variable {F}

theorem next_nil : F.next [] = none := by
  cases h : F.next [] with
  | none => rfl
  | some r =>
      have hpos := F.pos h
      have hle := F.le h
      exact absurd hle (by rw [List.length_nil]; omega)

/-- The length of the buffer is fuel enough. -/
theorem runFuel_eq : ∀ {fuel : Nat} {b : List α}, b.length ≤ fuel → F.runFuel fuel b = F.run b := by
  have hrun : ∀ {fuel fuel' : Nat} {b : List α}, b.length ≤ fuel → b.length ≤ fuel' →
      F.runFuel fuel b = F.runFuel fuel' b := by
    intro fuel
    induction fuel with
    | zero =>
        intro fuel' b h h'
        obtain rfl := List.eq_nil_of_length_eq_zero (Nat.le_zero.mp h)
        cases fuel' with
        | zero => rfl
        | succ fuel' => simp [runFuel, next_nil]
    | succ fuel ih =>
        intro fuel' b h h'
        cases fuel' with
        | zero =>
            obtain rfl := List.eq_nil_of_length_eq_zero (Nat.le_zero.mp h')
            simp [runFuel, next_nil]
        | succ fuel' =>
            cases hnext : F.next b with
            | none => simp [runFuel, hnext]
            | some r =>
                have hpos := F.pos hnext
                have hdrop : F.runFuel fuel (b.drop r.1) = F.runFuel fuel' (b.drop r.1) :=
                  ih (by rw [List.length_drop]; omega) (by rw [List.length_drop]; omega)
                simp only [runFuel, hnext, hdrop]
  intro fuel b h
  exact hrun h (Nat.le_refl _)

theorem run_of_none {b : List α} (h : F.next b = none) : F.run b = ([], b) := by
  rw [← runFuel_eq (Nat.le_succ _)]
  simp [runFuel, h]

theorem run_of_some {b : List α} {n : Nat} {out : List β} (h : F.next b = some (n, out)) :
    F.run b = (out ++ (F.run (b.drop n)).1, (F.run (b.drop n)).2) := by
  have hpos := F.pos h
  have hfuel : F.runFuel b.length (b.drop n) = F.run (b.drop n) := runFuel_eq (by simp)
  rw [← runFuel_eq (Nat.le_succ _)]
  simp only [runFuel, h, hfuel]

/-- Induction along a run. -/
theorem run_induction {P : List α → Prop} (wait : ∀ b, F.next b = none → P b)
    (consume : ∀ b n out, F.next b = some (n, out) → P (b.drop n) → P b) (b : List α) : P b := by
  induction hlen : b.length using Nat.strongRecOn generalizing b with
  | ind len ih =>
      cases h : F.next b with
      | none => exact wait b h
      | some r =>
          have hpos := F.pos h
          have hle := F.le h
          exact consume b r.1 r.2 h (ih _ (by rw [List.length_drop]; omega) _ rfl)

/-- What is left waits for more. -/
theorem next_run (b : List α) : F.next (F.run b).2 = none := by
  induction b using F.run_induction with
  | wait b h => rw [run_of_none h, h]
  | consume b n out h ih => rw [run_of_some h, ih]

/-- A buffer can be run before the rest of it is there. -/
theorem run_append (b c : List α) :
    F.run (b ++ c) = ((F.run b).1 ++ (F.run ((F.run b).2 ++ c)).1, (F.run ((F.run b).2 ++ c)).2) := by
  induction b using F.run_induction with
  | wait b h => rw [run_of_none h, List.nil_append]
  | consume b n out h ih =>
      rw [run_of_some (F.stable c h), run_of_some h, List.drop_append_of_le_length (F.le h), ih,
        List.append_assoc]

/-- Pieces are fed one after the other. -/
theorem feed_append (b : List α) (cs cs' : List (List α)) :
    F.feed b (cs ++ cs') =
      ((F.feed b cs).1 ++ (F.feed (F.feed b cs).2 cs').1, (F.feed (F.feed b cs).2 cs').2) := by
  induction cs generalizing b with
  | nil => rfl
  | cons c cs ih => simp only [List.cons_append, feed, ih, List.append_assoc]

/-- Pieces give what their concatenation gives. -/
theorem feed_eq_run {b : List α} (hb : F.next b = none) (cs : List (List α)) :
    F.feed b cs = F.run (b ++ cs.flatten) := by
  induction cs generalizing b with
  | nil => rw [List.flatten_nil, List.append_nil, run_of_none hb, feed]
  | cons c cs ih =>
      rw [feed, ih (next_run _), List.flatten_cons, ← List.append_assoc, run_append (b ++ c)]

theorem feed_cons_eq_run (b c : List α) (cs : List (List α)) :
    F.feed b (c :: cs) = F.run (b ++ (c :: cs).flatten) := by
  rw [feed, feed_eq_run (next_run _), List.flatten_cons, ← List.append_assoc, run_append (b ++ c)]

/-- A part of a word waits for the rest of it. -/
theorem next_eq_none_of_isPrefix {w p : List α} {out : List β} (h : F.next w = some (w.length, out))
    (hp : p <+: w) (hlt : p.length < w.length) : F.next p = none := by
  cases hnext : F.next p with
  | none => rfl
  | some r =>
      obtain ⟨c, rfl⟩ := hp
      have hstable := F.stable c hnext
      rw [h] at hstable
      have hle : r.1 ≤ p.length := F.le hnext
      rw [← congrArg Prod.fst (Option.some.inj hstable)] at hle
      exact absurd hle (Nat.not_le.mpr hlt)

/-- What is found in a part of some words are the words that are there as a whole. -/
theorem run_of_isPrefix {out : List α → List β} : ∀ {words : List (List α)},
    (∀ w ∈ words, F.next w = some (w.length, out w)) → ∀ {p : List α}, p <+: words.flatten →
    ∃ done rest q, words = done ++ rest ∧ F.run p = (done.flatMap out, q) ∧
      p = done.flatten ++ q ∧ ∀ w ∈ rest.head?, q.length < w.length
  | [], _, p, hp => by
      rw [List.flatten_nil, List.prefix_nil] at hp
      subst hp
      exact ⟨[], [], [], rfl, run_of_none next_nil, rfl, fun w hw => by cases hw⟩
  | w :: words, h, p, hp => by
      have hword := h w (List.mem_cons_self ..)
      rw [List.flatten_cons] at hp
      rcases Nat.lt_or_ge p.length w.length with hlt | hge
      · have hpart : p <+: w := List.prefix_of_prefix_length_le hp (List.prefix_append _ _)
          (Nat.le_of_lt hlt)
        refine ⟨[], w :: words, p, rfl, run_of_none (next_eq_none_of_isPrefix hword hpart hlt), rfl, ?_⟩
        intro w' hw'
        rwa [← Option.some.inj hw']
      · have hwhole : w <+: p := List.prefix_of_prefix_length_le (List.prefix_append _ _) hp hge
        obtain ⟨p', rfl⟩ := hwhole
        obtain ⟨done, rest, q, hwords, hrun, hp', hrest⟩ :=
          run_of_isPrefix (fun w' hw' => h w' (List.mem_cons_of_mem _ hw'))
            ((List.prefix_append_right_inj w).mp hp)
        refine ⟨w :: done, rest, q, by rw [hwords, List.cons_append], ?_, ?_, hrest⟩
        · rw [run_of_some (F.stable p' hword), List.drop_left, hrun]
          rfl
        · rw [hp', List.flatten_cons, List.append_assoc]

end Framer
