import Mathlib.Order.Monotone.Basic

/-!
# The proleptic Gregorian calendar

The calendar with the leap years of today, carried on before they were introduced.
A day has a number, counted from the first of January 1970: `Date.number` adds up
the years, the months and the days before it, and it goes up by one from a date to
the next (`Date.number_next`).
-/

namespace Calendar

structure Date where
  year : Int
  month : Nat
  day : Nat
deriving Repr, DecidableEq

def IsLeap (year : Int) : Prop := year % 4 = 0 ∧ (year % 100 ≠ 0 ∨ year % 400 = 0)

instance (year : Int) : Decidable (IsLeap year) := inferInstanceAs (Decidable (_ ∧ _))

def yearLength (year : Int) : Nat := if IsLeap year then 366 else 365

def monthLength (year : Int) (month : Nat) : Nat :=
  if month = 2 then (if IsLeap year then 29 else 28)
  else if month = 4 ∨ month = 6 ∨ month = 9 ∨ month = 11 then 30
  else 31

namespace Date

structure Valid (d : Date) : Prop where
  month_pos : 1 ≤ d.month
  month_le : d.month ≤ 12
  day_pos : 1 ≤ d.day
  day_le : d.day ≤ monthLength d.year d.month

def next (d : Date) : Date :=
  if d.day < monthLength d.year d.month then ⟨d.year, d.month, d.day + 1⟩
  else if d.month < 12 then ⟨d.year, d.month + 1, 1⟩
  else ⟨d.year + 1, 1, 1⟩

end Date

/-- The days from the first of January 1970 to that of a year. -/
def daysBeforeYear (year : Int) : Int :=
  365 * (year - 1970) + ((year - 1) / 4 - (year - 1) / 100 + (year - 1) / 400 - 477)

/-- The days of a year before a month. -/
def daysBeforeMonth (year : Int) : Nat → Nat
  | 0 => 0
  | 1 => 0
  | month + 2 => daysBeforeMonth year (month + 1) + monthLength year (month + 1)

/-- The days from the first of January 1970 to a date. -/
def Date.number (d : Date) : Int :=
  daysBeforeYear d.year + daysBeforeMonth d.year d.month + d.day - 1

/-! ## From day to day -/

theorem monthLength_bounds (year : Int) (month : Nat) :
    1 ≤ monthLength year month ∧ monthLength year month ≤ 31 := by
  unfold monthLength
  split
  · split
    · decide
    · decide
  · split
    · decide
    · decide

theorem daysBeforeYear_succ (year : Int) :
    daysBeforeYear (year + 1) = daysBeforeYear year + yearLength year := by
  unfold daysBeforeYear yearLength
  by_cases h : IsLeap year
  · rw [if_pos h]
    unfold IsLeap at h
    omega
  · rw [if_neg h]
    unfold IsLeap at h
    omega

theorem daysBeforeMonth_succ {month : Nat} (h : 1 ≤ month) (year : Int) :
    daysBeforeMonth year (month + 1) = daysBeforeMonth year month + monthLength year month := by
  cases month with
  | zero => omega
  | succ month => rfl

theorem daysBeforeMonth_mono (year : Int) : Monotone (daysBeforeMonth year) := by
  apply monotone_nat_of_le_succ
  intro month
  cases month with
  | zero => exact le_refl _
  | succ month => exact Nat.le_add_right _ _

theorem daysBeforeMonth_thirteen (year : Int) : daysBeforeMonth year 13 = yearLength year := by
  by_cases h : IsLeap year
  · simp [daysBeforeMonth, monthLength, yearLength, h]
  · simp [daysBeforeMonth, monthLength, yearLength, h]

namespace Date

theorem number_epoch : number ⟨1970, 1, 1⟩ = 0 := rfl

theorem Valid.next {d : Date} (h : d.Valid) : d.next.Valid := by
  unfold Date.next
  split
  next hday => exact ⟨h.month_pos, h.month_le, Nat.succ_pos _, hday⟩
  next =>
    split
    next hmonth => exact ⟨Nat.succ_pos _, hmonth, le_refl _, (monthLength_bounds _ _).1⟩
    next => exact ⟨le_refl 1, (Nat.succ_pos 11 : 1 ≤ 12), le_refl 1, (monthLength_bounds _ _).1⟩

theorem number_next {d : Date} (h : d.Valid) : d.next.number = d.number + 1 := by
  have hday := h.day_le
  unfold Date.next
  split
  next =>
    simp only [number]
    omega
  next hlast =>
    have hmonth := daysBeforeMonth_succ h.month_pos d.year
    split
    next =>
      simp only [number]
      omega
    next hdecember =>
      have htwelve : d.month = 12 := by
        have := h.month_le
        omega
      have hyear := daysBeforeYear_succ d.year
      have hwhole := daysBeforeMonth_thirteen d.year
      have hfirst : daysBeforeMonth (d.year + 1) 1 = 0 := rfl
      rw [htwelve] at hmonth hday hlast
      rw [hwhole] at hmonth
      simp only [number, htwelve, hyear, hfirst]
      omega

/-- A date lies within its year. -/
theorem Valid.number_bounds {d : Date} (h : d.Valid) :
    daysBeforeYear d.year ≤ d.number ∧ d.number < daysBeforeYear (d.year + 1) := by
  have hday := h.day_le
  have hpos := h.day_pos
  have hmonth := daysBeforeMonth_succ h.month_pos d.year
  have hrest := daysBeforeMonth_mono d.year (Nat.succ_le_succ h.month_le)
  have hwhole := daysBeforeMonth_thirteen d.year
  have hyear := daysBeforeYear_succ d.year
  rw [Nat.succ_eq_add_one, hmonth, Nat.succ_eq_add_one, hwhole] at hrest
  rw [number]
  omega

theorem daysBeforeYear_mono {a b : Int} (hab : a ≤ b) :
    daysBeforeYear a ≤ daysBeforeYear b := by
  unfold daysBeforeYear
  omega

/-- A number belongs to one date. -/
theorem Valid.eq_of_number {d d' : Date} (h : d.Valid) (h' : d'.Valid)
    (hnumber : d.number = d'.number) : d = d' := by
  obtain ⟨hlow, hhigh⟩ := h.number_bounds
  obtain ⟨hlow', hhigh'⟩ := h'.number_bounds
  have hyear : d.year = d'.year := by
    rcases lt_trichotomy d.year d'.year with hlt | heq | hlt
    · have := daysBeforeYear_mono (show d.year + 1 ≤ d'.year by omega)
      omega
    · exact heq
    · have := daysBeforeYear_mono (show d'.year + 1 ≤ d.year by omega)
      omega
  obtain ⟨year, month, day⟩ := d
  obtain ⟨year', month', day'⟩ := d'
  obtain rfl : year = year' := hyear
  have hday := h.day_le
  have hday' := h'.day_le
  have hpos := h.day_pos
  have hpos' := h'.day_pos
  have hsucc := daysBeforeMonth_succ h.month_pos year
  have hsucc' := daysBeforeMonth_succ h'.month_pos year
  simp only [number] at hnumber hday hday' hpos hpos' hsucc hsucc'
  have hmonth : month = month' := by
    rcases lt_trichotomy month month' with hlt | heq | hlt
    · have := daysBeforeMonth_mono year (show month + 1 ≤ month' by omega)
      omega
    · exact heq
    · have := daysBeforeMonth_mono year (show month' + 1 ≤ month by omega)
      omega
  subst hmonth
  congr 1
  omega

end Date

end Calendar
