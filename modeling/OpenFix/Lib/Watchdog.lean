import Mathlib.Algebra.Order.Group.Defs
import Mathlib.Algebra.Order.Group.Unbundled.Basic
import Mathlib.Data.List.Pairwise

/-!
# A watch over a silent peer

A party that hears nothing gives its peer up in two steps.  After a silence it
asks for an answer, and when the answer stays away as long it is over.  A party
that said farewell waits for the reply only.

`Watch.tick` is one look at the clock.  When the times at which it is looked at
never go back, `Watch.Expires` says which of them lead to the end.
-/

universe u

namespace Watchdog

/-- What a party waits for, and since when. -/
inductive Watch (τ : Type u) where
  /-- For nothing that the watch ends. -/
  | idle
  /-- For a message. -/
  | message (since : τ)
  /-- For the answer to a question. -/
  | answer (since : τ)
  /-- For the reply to a farewell. -/
  | farewell (since : τ)
  | expired
deriving DecidableEq

/-- How long a party waits. -/
structure Limits (τ : Type u) where
  silence : τ
  farewell : τ

namespace Watch

variable {τ : Type u} [AddCommGroup τ] [LinearOrder τ]

/-- A look at the clock. -/
def tick (limits : Limits τ) (time : τ) : Watch τ → Watch τ
  | .idle => .idle
  | .message since => if limits.silence ≤ time - since then .answer time else .message since
  | .answer since => if limits.silence ≤ time - since then .expired else .answer since
  | .farewell since => if limits.farewell ≤ time - since then .expired else .farewell since
  | .expired => .expired

/-- A look after each of the times. -/
def ticks (limits : Limits τ) (w : Watch τ) (times : List τ) : Watch τ :=
  times.foldl (fun w time => w.tick limits time) w

/-- The times lead to the end. -/
def Expires (limits : Limits τ) (times : List τ) : Watch τ → Prop
  | .idle => False
  | .message since => ∃ a b, [a, b].Sublist times ∧ limits.silence ≤ a - since ∧
      limits.silence ≤ b - a
  | .answer since => ∃ b ∈ times, limits.silence ≤ b - since
  | .farewell since => ∃ b ∈ times, limits.farewell ≤ b - since
  | .expired => True

variable {limits : Limits τ}

theorem ticks_idle (times : List τ) : (idle : Watch τ).ticks limits times = .idle := by
  induction times with
  | nil => rfl
  | cons time times ih => exact ih

theorem ticks_expired (times : List τ) : (expired : Watch τ).ticks limits times = .expired := by
  induction times with
  | nil => rfl
  | cons time times ih => exact ih

theorem ticks_append (w : Watch τ) (times times' : List τ) :
    w.ticks limits (times ++ times') = (w.ticks limits times).ticks limits times' :=
  List.foldl_append

theorem ticks_answer_eq_expired_iff {since : τ} {times : List τ} :
    (answer since).ticks limits times = .expired ↔ (answer since).Expires limits times := by
  induction times with
  | nil => simp [ticks, Expires]
  | cons time times ih =>
      change ((answer since).tick limits time).ticks limits times = .expired ↔ _
      by_cases hdue : limits.silence ≤ time - since
      · rw [tick, if_pos hdue]
        exact iff_of_true (ticks_expired times) ⟨time, List.mem_cons_self .., hdue⟩
      · rw [tick, if_neg hdue, ih]
        simp [Expires, hdue]

theorem ticks_farewell_eq_expired_iff {since : τ} {times : List τ} :
    (farewell since).ticks limits times = .expired ↔ (farewell since).Expires limits times := by
  induction times with
  | nil => simp [ticks, Expires]
  | cons time times ih =>
      change ((farewell since).tick limits time).ticks limits times = .expired ↔ _
      by_cases hdue : limits.farewell ≤ time - since
      · rw [tick, if_pos hdue]
        exact iff_of_true (ticks_expired times) ⟨time, List.mem_cons_self .., hdue⟩
      · rw [tick, if_neg hdue, ih]
        simp [Expires, hdue]

variable [IsOrderedAddMonoid τ]

/-- The first time that asks is the one that counts: a later one asks for an answer no sooner. -/
theorem ticks_message_eq_expired_iff {since : τ} {times : List τ} (hsorted : times.Pairwise (· ≤ ·)) :
    (message since).ticks limits times = .expired ↔ (message since).Expires limits times := by
  induction times with
  | nil => simp [ticks, Expires]
  | cons time times ih =>
      rw [List.pairwise_cons] at hsorted
      obtain ⟨hfirst, hsorted⟩ := hsorted
      change ((message since).tick limits time).ticks limits times = .expired ↔ _
      by_cases hdue : limits.silence ≤ time - since
      · rw [tick, if_pos hdue, ticks_answer_eq_expired_iff]
        constructor
        · rintro ⟨b, hb, hanswer⟩
          exact ⟨time, b, (List.singleton_sublist.mpr hb).cons_cons time, hdue, hanswer⟩
        · rintro ⟨a, b, hsub, hasked, hanswer⟩
          have hb : b ∈ times := by
            cases hsub with
            | cons _ h => exact h.subset (List.mem_cons_of_mem a (List.mem_singleton_self b))
            | cons_cons _ h => exact List.singleton_sublist.mp h
          have ha : time ≤ a := by
            cases hsub with
            | cons _ h => exact hfirst a (h.subset (List.mem_cons_self ..))
            | cons_cons _ h => exact le_refl _
          exact ⟨b, hb, hanswer.trans (sub_le_sub_left ha b)⟩
      · rw [tick, if_neg hdue, ih hsorted]
        constructor
        · rintro ⟨a, b, hsub, hasked, hanswer⟩
          exact ⟨a, b, hsub.cons time, hasked, hanswer⟩
        · rintro ⟨a, b, hsub, hasked, hanswer⟩
          cases hsub with
          | cons _ h => exact ⟨a, b, h, hasked, hanswer⟩
          | cons_cons _ h => exact absurd hasked hdue

/-- The watch is over after times that never go back exactly if they lead to the end. -/
theorem ticks_eq_expired_iff (w : Watch τ) {times : List τ} (hsorted : times.Pairwise (· ≤ ·)) :
    w.ticks limits times = .expired ↔ w.Expires limits times := by
  cases w with
  | idle =>
      rw [ticks_idle]
      exact iff_of_false (fun h => by cases h) id
  | message since => exact ticks_message_eq_expired_iff hsorted
  | answer since => exact ticks_answer_eq_expired_iff
  | farewell since => exact ticks_farewell_eq_expired_iff
  | expired => exact iff_of_true (ticks_expired times) trivial

end Watch

end Watchdog
