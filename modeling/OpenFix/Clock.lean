import Mathlib.Data.List.Induction
import Mathlib.Data.List.TakeWhile
import Mathlib.Tactic.Ring
import OpenFix.Lib.Calendar
import OpenFix.Timestamp

/-!
# Timestamps and the calendar

The two conversions of dates are the proleptic Gregorian calendar.  Both count the
years from the first of March, in eras of 400 years.
-/

namespace OpenFix

open Calendar

/-! ## From days to dates -/

/-- The year of the era and the day of that year, both counted from March. -/
def yearOfEra (doe : Int) : Int × Int :=
  let yoe := (doe - doe / 1460 + doe / 36524 - doe / 146096) / 365
  (yoe, doe - (365 * yoe + yoe / 4 - yoe / 100))

/-- The day of the era is within its year, and the last day of a long year is there only
before the March of a leap year. -/
theorem yearOfEra_spec {doe : Int} (h₀ : 0 ≤ doe) (h₁ : doe < 146097) :
    0 ≤ (yearOfEra doe).1 ∧ (yearOfEra doe).1 < 400 ∧ 0 ≤ (yearOfEra doe).2 ∧
      (yearOfEra doe).2 ≤ 365 ∧ ((yearOfEra doe).2 = 365 → IsLeap ((yearOfEra doe).1 + 1)) := by
  by_cases hlast : doe = 146096
  · subst hlast
    decide
  -- The century, the four years in it and the day of these.
  obtain ⟨c, q, t, hc, hq, ht, hshort, hdoe⟩ : ∃ c q t : Int, (0 ≤ c ∧ c ≤ 3) ∧ (0 ≤ q ∧ q ≤ 24) ∧
      (0 ≤ t ∧ t ≤ 1460) ∧ (q = 24 → t ≤ 1459) ∧ doe = 36524 * c + 1461 * q + t :=
    ⟨doe / 36524, doe % 36524 / 1461, doe % 36524 % 1461, by omega, by omega, by omega, by omega,
      by omega⟩
  have hyoe : (yearOfEra doe).1 = 100 * c + 4 * q + (t - t / 1460) / 365 := by
    have hcentury : doe / 36524 = c := by omega
    have hera : doe / 146096 = 0 := by omega
    have hdays : doe / 1460 = 25 * c + q + (24 * c + q + t) / 1460 := by omega
    have hcarry : (24 * c + q + t) / 1460 = 0 ∨ (24 * c + q + t) / 1460 = 1 := by omega
    show (doe - doe / 1460 + doe / 36524 - doe / 146096) / 365 = _
    rcases hcarry with hcarry | hcarry
    · omega
    · omega
  have hyear : 0 ≤ (t - t / 1460) / 365 ∧ (t - t / 1460) / 365 ≤ 3 := by omega
  have hdoy : (yearOfEra doe).2 = t - 365 * ((t - t / 1460) / 365) := by
    show doe - (365 * (yearOfEra doe).1 + (yearOfEra doe).1 / 4 - (yearOfEra doe).1 / 100) = _
    have hfour : (yearOfEra doe).1 / 4 = 25 * c + q := by omega
    have hhundred : (yearOfEra doe).1 / 100 = c := by omega
    omega
  refine ⟨by omega, by omega, by omega, by omega, fun hfull => ?_⟩
  have hend : t = 1460 := by omega
  unfold IsLeap
  omega

/-- The number of a date of a year counted from March. -/
def marchNumber (y doy : Int) : Int := 365 * y + y / 4 - y / 100 + y / 400 + doy - 719468

/-- From March on, the months of a year fall into a pattern of 153 days in five months. -/
theorem daysBeforeMonth_march {month : Nat} (h₀ : 3 ≤ month) (h₁ : month ≤ 12) (year : Int) :
    daysBeforeMonth year month = (153 * month - 457) / 5 + monthLength year 2 + 31 := by
  interval_cases month <;> simp [daysBeforeMonth, monthLength] <;> omega

theorem marchNumber_first (year : Int) :
    marchNumber year 0 = daysBeforeYear year + monthLength year 2 + 31 := by
  unfold marchNumber daysBeforeYear monthLength
  rw [if_pos rfl]
  by_cases h : IsLeap year
  · rw [if_pos h]
    unfold IsLeap at h
    omega
  · rw [if_neg h]
    unfold IsLeap at h
    omega

theorem marchNumber_january (year : Int) : marchNumber (year - 1) 306 = daysBeforeYear year := by
  unfold marchNumber daysBeforeYear
  omega

theorem marchNumber_add (y doy n : Int) : marchNumber y (doy + n) = marchNumber y doy + n := by
  unfold marchNumber
  omega

/-- The number of a date, by its day in the year that begins with March. -/
theorem number_eq {d : Date} (h : d.Valid) :
    d.number = if d.month ≤ 2 then marchNumber (d.year - 1) (306 + (31 * (d.month - 1) + d.day - 1))
      else marchNumber d.year (0 + (((153 * d.month - 457) / 5 : Nat) + d.day - 1)) := by
  rw [Date.number, marchNumber_add, marchNumber_add, marchNumber_first, marchNumber_january]
  split
  next hmonth =>
    obtain hone | htwo : d.month = 1 ∨ d.month = 2 := by
      have := h.month_pos
      omega
    · have hnone : daysBeforeMonth d.year 1 = 0 := rfl
      rw [hone, hnone]
      omega
    · have hone : daysBeforeMonth d.year 2 = 31 := rfl
      rw [htwo, hone]
      omega
  next hmonth =>
    rw [daysBeforeMonth_march (by omega) h.month_le]
    omega

/-- Month and day of a day of the year that begins with March. -/
def marchDate (y doy : Int) : Int × Int × Int :=
  let mp := (5 * doy + 2) / 153
  let month := if mp < 10 then mp + 3 else mp - 9
  (y + (if month ≤ 2 then 1 else 0), month, doy - (153 * mp + 2) / 5 + 1)

theorem marchDate_spec {y doy : Int} (h₀ : 0 ≤ doy) (h₁ : doy ≤ 365)
    (hleap : doy = 365 → IsLeap (y + 1)) :
    ∃ d : Date, d.Valid ∧ d.number = marchNumber y doy ∧
      marchDate y doy = (d.year, (d.month : Int), (d.day : Int)) := by
  have hmp : 0 ≤ (5 * doy + 2) / 153 ∧ (5 * doy + 2) / 153 ≤ 11 := by omega
  unfold marchDate
  generalize hdef : (5 * doy + 2) / 153 = mp at hmp
  obtain ⟨hmp₀, hmp₁⟩ := hmp
  by_cases hlate : mp < 10
  · obtain ⟨month, hmonth⟩ : ∃ month : Nat, mp + 3 = month := ⟨(mp + 3).toNat, by omega⟩
    obtain ⟨day, hday⟩ : ∃ day : Nat, doy - (153 * mp + 2) / 5 + 1 = day :=
      ⟨(doy - (153 * mp + 2) / 5 + 1).toNat, by omega⟩
    have hvalid : Date.Valid ⟨y, month, day⟩ := by
      refine ⟨show 1 ≤ month by omega, show month ≤ 12 by omega, show 1 ≤ day by omega, ?_⟩
      show day ≤ monthLength y month
      unfold monthLength
      rw [if_neg (by omega)]
      split
      · omega
      · omega
    refine ⟨⟨y, month, day⟩, hvalid, ?_, ?_⟩
    · rw [number_eq hvalid, if_neg (show ¬month ≤ 2 by omega)]
      congr 1
      show 0 + (((153 * month - 457) / 5 : Nat) + (day : Int) - 1) = doy
      omega
    · dsimp only
      rw [if_pos hlate, if_neg (show ¬mp + 3 ≤ 2 by omega), hmonth, hday, add_zero]
  · obtain ⟨month, hmonth⟩ : ∃ month : Nat, mp - 9 = month := ⟨(mp - 9).toNat, by omega⟩
    obtain ⟨day, hday⟩ : ∃ day : Nat, doy - (153 * mp + 2) / 5 + 1 = day :=
      ⟨(doy - (153 * mp + 2) / 5 + 1).toNat, by omega⟩
    have hvalid : Date.Valid ⟨y + 1, month, day⟩ := by
      refine ⟨show 1 ≤ month by omega, show month ≤ 12 by omega, show 1 ≤ day by omega, ?_⟩
      show day ≤ monthLength (y + 1) month
      unfold monthLength
      split
      next =>
        split
        · omega
        next hno =>
          have hshort : doy ≠ 365 := fun h => hno (hleap h)
          omega
      next =>
        rw [if_neg (by omega)]
        omega
    refine ⟨⟨y + 1, month, day⟩, hvalid, ?_, ?_⟩
    · rw [number_eq hvalid, if_pos (show month ≤ 2 by omega)]
      show marchNumber (y + 1 - 1) _ = _
      rw [add_sub_cancel_right]
      congr 1
      show 306 + (31 * ((month : Int) - 1) + (day : Int) - 1) = doy
      omega
    · dsimp only
      rw [if_neg hlate, if_pos (show mp - 9 ≤ 2 by omega), hmonth, hday]

/-- The date of a day number is that of the calendar. -/
theorem civilFromDays_spec (days : Int) :
    ∃ d : Date, d.Valid ∧ d.number = days ∧
      civilFromDays days = (d.year, (d.month : Int), (d.day : Int)) := by
  generalize hera : (days + 719468) / 146097 = era
  generalize hdoe : days + 719468 - era * 146097 = doe
  have hcivil : civilFromDays days =
      marchDate ((yearOfEra doe).1 + era * 400) (yearOfEra doe).2 := by
    subst hdoe
    subst hera
    rfl
  have hdoe₀ : 0 ≤ doe := by omega
  have hdoe₁ : doe < 146097 := by omega
  obtain ⟨hy₀, hy₁, hd₀, hd₁, hleap⟩ := yearOfEra_spec hdoe₀ hdoe₁
  have hsplit : doe = 365 * (yearOfEra doe).1 + (yearOfEra doe).1 / 4 - (yearOfEra doe).1 / 100 +
      (yearOfEra doe).2 := by
    simp only [yearOfEra]
    omega
  have hleap' : (yearOfEra doe).2 = 365 → IsLeap ((yearOfEra doe).1 + era * 400 + 1) := by
    intro hfull
    have h := hleap hfull
    unfold IsLeap at h ⊢
    omega
  obtain ⟨d, hvalid, hnumber, hdate⟩ := marchDate_spec hd₀ hd₁ hleap'
  have hfour : ((yearOfEra doe).1 + era * 400) / 4 = (yearOfEra doe).1 / 4 + era * 100 := by omega
  have hhundred : ((yearOfEra doe).1 + era * 400) / 100 = (yearOfEra doe).1 / 100 + era * 4 := by
    omega
  have heras : ((yearOfEra doe).1 + era * 400) / 400 = era := by omega
  refine ⟨d, hvalid, ?_, hcivil.trans hdate⟩
  rw [hnumber, marchNumber, hfour, hhundred, heras]
  omega

/-! ## From dates to days -/

/-- The truncating division of the source finds the era. -/
theorem era_eq (y : Int) : (if 0 ≤ y then y else y - 399).tdiv 400 = y / 400 := by
  split
  next h => exact Int.tdiv_eq_ediv_of_nonneg h
  next h =>
    have hneg : y - 399 = -(399 - y) := by omega
    rw [hneg, Int.neg_tdiv, Int.tdiv_eq_ediv_of_nonneg (by omega)]
    omega

/-- The days of a year of an era, and those before it. -/
theorem marchNumber_era (y doy : Int) :
    y / 400 * 146097 + ((y - y / 400 * 400) * 365 + (y - y / 400 * 400) / 4 -
      (y - y / 400 * 400) / 100 + doy) - 719468 = marchNumber y doy := by
  have hfour : (y - y / 400 * 400) / 4 = y / 4 - y / 400 * 100 := by omega
  have hhundred : (y - y / 400 * 400) / 100 = y / 100 - y / 400 * 4 := by omega
  rw [hfour, hhundred, marchNumber]
  omega

/-- The day number of a date is that of the calendar. -/
theorem daysFromCivil_eq {d : Date} (h : d.Valid) :
    daysFromCivil d.year d.month d.day = d.number := by
  have hmonth₀ := h.month_pos
  have hmonth₁ := h.month_le
  have hrest : ∀ y : Int, 0 ≤ y - y / 400 * 400 := by
    intro y
    omega
  rw [number_eq h]
  unfold daysFromCivil
  dsimp only
  rw [era_eq, Int.tdiv_eq_ediv_of_nonneg (hrest _), Int.tdiv_eq_ediv_of_nonneg (hrest _),
    marchNumber_era]
  split
  next hearly =>
    rw [if_neg (by omega), if_pos (by omega), Int.tdiv_eq_ediv_of_nonneg (by omega)]
    congr 1
    omega
  next hlate =>
    rw [if_pos (by omega), if_neg (by omega), Int.tdiv_eq_ediv_of_nonneg (by omega), sub_zero]
    congr 1
    omega

/-! ## Numerals of a fixed width -/

/-- `from_chars` of digits. -/
theorem fromCharsInt_digits {ds : Bytes} (hne : ds ≠ []) (hds : ∀ b ∈ ds, isDigit b = true) :
    fromCharsInt ds = if digitsVal ds < 2147483648 then some (digitsVal ds : Int) else none := by
  have hhead : ds.head? ≠ some 45 := by
    intro h
    have := hds 45 (List.mem_of_mem_head? h)
    exact absurd this (by decide)
  have htake : ds.takeWhile isDigit = ds := List.takeWhile_eq_self_iff.mpr hds
  simp only [fromCharsInt, if_neg hhead, htake, if_neg hne]
  by_cases hfits : digitsVal ds < 2147483648
  · rw [if_pos hfits, if_pos ⟨by omega, by omega⟩]
  · rw [if_neg hfits, if_neg (by omega)]

theorem digitsVal_append (a b : Bytes) :
    digitsVal (a ++ b) = digitsVal a * 10 ^ b.length + digitsVal b := by
  induction b using List.reverseRecOn with
  | nil => simp [digitsVal]
  | append_singleton b d ih =>
      have hlast : ∀ ds : Bytes, digitsVal (ds ++ [d]) = digitsVal ds * 10 + (d.toNat - 48) := by
        intro ds
        simp [digitsVal]
      rw [← List.append_assoc, hlast, ih, hlast, List.length_append, List.length_singleton, pow_succ]
      ring

theorem digitsVal_lt {ds : Bytes} (hds : ∀ b ∈ ds, isDigit b = true) :
    digitsVal ds < 10 ^ ds.length := by
  induction ds with
  | nil => exact Nat.one_pos
  | cons d ds ih =>
      have hrest := ih fun b hb => hds b (List.mem_cons_of_mem _ hb)
      have hd := hds d (List.mem_cons_self ..)
      have hdigit : d.toNat - 48 ≤ 9 := by
        simp only [isDigit, Bool.and_eq_true, decide_eq_true_eq] at hd
        have : d.toNat ≤ 57 := hd.2
        omega
      have hsingle : digitsVal [d] = d.toNat - 48 := by simp [digitsVal]
      rw [← List.singleton_append, digitsVal_append, hsingle, List.length_append,
        List.length_singleton, Nat.add_comm 1, pow_succ]
      have := Nat.mul_le_mul_right (10 ^ ds.length) hdigit
      omega

/-- The last digit of a padded numeral. -/
theorem padDigits_succ {width : Nat} (h : 1 ≤ width) (n : Nat) :
    padDigits (width + 1) n = padDigits width ((n / 10 : Nat) : Int) ++ [digitByte (n % 10)] := by
  have hchars : ∀ n : Nat, toChars n = natDigits n := fun n => toChars_of_nonneg (by omega)
  simp only [padDigits, hchars]
  rw [natDigits_eq n]
  split
  next hlt =>
    have hzero : natDigits (n / 10) = [48] := by
      have : n / 10 = 0 := by omega
      rw [this]
      rfl
    rw [hzero]
    simp only [List.nil_append, List.length_singleton, Nat.add_sub_cancel]
    have hsplit : List.replicate width (48 : UInt8) = List.replicate (width - 1) 48 ++ [48] := by
      rw [← List.replicate_succ', Nat.sub_add_cancel h]
    rw [hsplit]
  next hge =>
    rw [List.length_append, List.length_singleton, Nat.add_sub_add_right, List.append_assoc]

theorem padDigits_one {n : Nat} (h : n < 10) : padDigits 1 n = [digitByte n] := by
  interval_cases n <;> rfl

theorem padDigits_two {n : Nat} (h : n < 100) :
    padDigits 2 n = [digitByte (n / 10), digitByte (n % 10)] := by
  rw [padDigits_succ (le_refl _), padDigits_one (by omega)]
  rfl

theorem padDigits_four {n : Nat} (h : n < 10000) :
    padDigits 4 n = [digitByte (n / 1000), digitByte (n / 100 % 10), digitByte (n / 10 % 10),
      digitByte (n % 10)] := by
  have h₁ : n / 10 / 10 = n / 100 := Nat.div_div_eq_div_mul ..
  have h₂ : n / 100 / 10 = n / 1000 := Nat.div_div_eq_div_mul ..
  rw [padDigits_succ (by decide), padDigits_succ (by decide), padDigits_two (by omega), h₁, h₂]
  rfl

theorem fromCharsInt_two {n : Nat} (h : n < 100) :
    fromCharsInt [digitByte (n / 10), digitByte (n % 10)] = some (n : Int) := by
  rw [fromCharsInt_digits (by simp)]
  · have hval : digitsVal [digitByte (n / 10), digitByte (n % 10)] = n := by
      simp only [digitsVal, List.foldl_cons, List.foldl_nil,
        toNat_digitByte (show n / 10 < 10 by omega), toNat_digitByte (show n % 10 < 10 by omega)]
      omega
    rw [hval, if_pos (by omega)]
  · simp only [List.mem_cons, List.not_mem_nil, or_false]
    rintro b (rfl | rfl)
    · exact isDigit_digitByte (by omega)
    · exact isDigit_digitByte (by omega)

theorem fromCharsInt_four {n : Nat} (h : n < 10000) :
    fromCharsInt [digitByte (n / 1000), digitByte (n / 100 % 10), digitByte (n / 10 % 10),
      digitByte (n % 10)] = some (n : Int) := by
  rw [fromCharsInt_digits (by simp)]
  · have hval : digitsVal [digitByte (n / 1000), digitByte (n / 100 % 10), digitByte (n / 10 % 10),
        digitByte (n % 10)] = n := by
      simp only [digitsVal, List.foldl_cons, List.foldl_nil,
        toNat_digitByte (show n / 1000 < 10 by omega), toNat_digitByte (show n / 100 % 10 < 10 by omega),
        toNat_digitByte (show n / 10 % 10 < 10 by omega), toNat_digitByte (show n % 10 < 10 by omega)]
      omega
    rw [hval, if_pos (by omega)]
  · simp only [List.mem_cons, List.not_mem_nil, or_false]
    rintro b (rfl | rfl | rfl | rfl)
    · exact isDigit_digitByte (by omega)
    · exact isDigit_digitByte (by omega)
    · exact isDigit_digitByte (by omega)
    · exact isDigit_digitByte (by omega)

/-! ## Reading a timestamp -/

/-- The fields of a broken-down time that a timestamp has. -/
structure Tm where
  date : Date
  hour : Nat
  minute : Nat
  second : Nat

namespace Tm

/-- A time with a year of four digits.  The second may be a leap second. -/
structure Valid (t : Tm) : Prop where
  date : t.date.Valid
  year_nonneg : 0 ≤ t.date.year
  year_lt : t.date.year < 10000
  hour_lt : t.hour < 24
  minute_lt : t.minute < 60
  second_le : t.second ≤ 60

/-- The seconds from the epoch to this time. -/
def epochSecond (t : Tm) : Int :=
  t.date.number * 86400 + t.hour * 3600 + t.minute * 60 + t.second

/-- `YYYYMMDD-HH:MM:SS`. -/
def text (t : Tm) : Bytes :=
  padDigits 4 t.date.year ++ padDigits 2 t.date.month ++ padDigits 2 t.date.day ++ ascii "-" ++
    padDigits 2 t.hour ++ ascii ":" ++ padDigits 2 t.minute ++ ascii ":" ++ padDigits 2 t.second

/-- The 17 bytes of the text. -/
theorem Valid.text_eq {t : Tm} (h : t.Valid) :
    ∃ year : Nat, t.date.year = year ∧ year < 10000 ∧ t.text =
      [digitByte (year / 1000), digitByte (year / 100 % 10), digitByte (year / 10 % 10),
        digitByte (year % 10), digitByte (t.date.month / 10), digitByte (t.date.month % 10),
        digitByte (t.date.day / 10), digitByte (t.date.day % 10), 45, digitByte (t.hour / 10),
        digitByte (t.hour % 10), 58, digitByte (t.minute / 10), digitByte (t.minute % 10), 58,
        digitByte (t.second / 10), digitByte (t.second % 10)] := by
  have hyear₀ := h.year_nonneg
  have hyear₁ := h.year_lt
  have hmonth := h.date.month_le
  have hday : t.date.day ≤ 31 := h.date.day_le.trans (monthLength_bounds _ _).2
  have hhour := h.hour_lt
  have hminute := h.minute_lt
  have hsecond := h.second_le
  obtain ⟨year, hyear⟩ : ∃ year : Nat, t.date.year = year := ⟨t.date.year.toNat, by omega⟩
  refine ⟨year, hyear, by omega, ?_⟩
  rw [text, hyear, padDigits_four (by omega), padDigits_two (by omega), padDigits_two (by omega),
    padDigits_two (by omega), padDigits_two (by omega), padDigits_two (by omega)]
  rfl

theorem Valid.length_text {t : Tm} (h : t.Valid) : t.text.length = 17 := by
  obtain ⟨year, -, -, htext⟩ := h.text_eq
  rw [htext]
  rfl

/-- The parser reads the time that was written, and then the fraction. -/
theorem Valid.parse_text {t : Tm} (h : t.Valid) (rest : Bytes) :
    parseUTCTimestamp (t.text ++ rest) = 1000 * t.epochSecond +
      (if 1 < rest.length ∧ rest.head? = some 46 then parseFraction rest.tail else 0) := by
  obtain ⟨year, hyear, hlt, htext⟩ := h.text_eq
  have hdate := daysFromCivil_eq h.date
  have hday : t.date.day ≤ 31 := h.date.day_le.trans (monthLength_bounds _ _).2
  have hmonth := h.date.month_le
  have hhour := h.hour_lt
  have hminute := h.minute_lt
  have hsecond := h.second_le
  have hread : ∀ (pos len : Nat) {ds : Bytes} {n : Int},
      ((t.text ++ rest).drop pos).take len = ds → fromCharsInt ds = some n →
        parseN (t.text ++ rest) pos len = n := by
    intro pos len ds n hds hn
    rw [parseN, hds, hn]
    rfl
  have h₀ := hread 0 4 (by rw [htext]; rfl) (fromCharsInt_four hlt)
  have h₁ := hread 4 2 (by rw [htext]; rfl)
    (fromCharsInt_two (show t.date.month < 100 by omega))
  have h₂ := hread 6 2 (by rw [htext]; rfl)
    (fromCharsInt_two (show t.date.day < 100 by omega))
  have h₃ := hread 9 2 (by rw [htext]; rfl)
    (fromCharsInt_two (show t.hour < 100 by omega))
  have h₄ := hread 12 2 (by rw [htext]; rfl)
    (fromCharsInt_two (show t.minute < 100 by omega))
  have h₅ := hread 15 2 (by rw [htext]; rfl)
    (fromCharsInt_two (show t.second < 100 by omega))
  have hlen : (t.text ++ rest).length = 17 + rest.length := by
    rw [List.length_append, h.length_text]
  have hdot : (t.text ++ rest)[17]? = rest.head? := by
    rw [List.getElem?_append_right (by rw [h.length_text]), h.length_text, List.head?_eq_getElem?]
  have hfrac : (t.text ++ rest).drop 18 = rest.tail := by
    rw [show 18 = 17 + 1 from rfl, ← List.drop_drop, List.drop_left' h.length_text, List.drop_one]
  rw [parseUTCTimestamp, if_neg (by rw [hlen]; omega)]
  dsimp only
  rw [h₀, h₁, h₂, h₃, h₄, h₅, hlen, hdot, hfrac, ← hyear, hdate]
  have hsum : t.date.number * 86400000 + (t.hour : Int) * 3600000 + (t.minute : Int) * 60000 +
      (t.second : Int) * 1000 = 1000 * t.epochSecond := by
    rw [epochSecond]
    omega
  rw [hsum]
  by_cases hdotted : 1 < rest.length ∧ rest.head? = some 46
  · rw [if_pos ⟨by omega, hdotted.2⟩, if_pos hdotted]
  · rw [if_neg fun hboth => hdotted ⟨by omega, hboth.2⟩, if_neg hdotted, add_zero]

end Tm

/-! ## Fractions of a second -/

theorem foldl_tdiv (k n : Nat) :
    (List.replicate k 10).foldl Int.tdiv (n : Int) = ((n / 10 ^ k : Nat) : Int) := by
  induction k generalizing n with
  | zero => simp
  | succ k ih =>
      have hstep : (n : Int).tdiv 10 = ((n / 10 : Nat) : Int) := rfl
      rw [List.replicate_succ, List.foldl_cons, hstep, ih, Nat.div_div_eq_div_mul, pow_succ,
        Nat.mul_comm]

/-- The first three digits of a fraction, with zeros for those that are not there. -/
def firstThree (ds : Bytes) : Nat := digitsVal ((ds ++ [48, 48, 48]).take 3)

/-- The digits behind the third come off by dividing, those before it that are not there
are made up for by multiplying. -/
theorem parseFraction_eq {ds : Bytes} (hne : ds ≠ []) (hds : ∀ b ∈ ds, isDigit b = true) :
    parseFraction ds = if digitsVal ds < 2147483648 then (firstThree ds : Int) else 0 := by
  have hval : (fromCharsInt ds).getD 0 =
      ((if digitsVal ds < 2147483648 then digitsVal ds else 0 : Nat) : Int) := by
    rw [fromCharsInt_digits hne hds]
    split
    · rfl
    · rfl
  have hzeros : ∀ k, digitsVal (List.replicate k 48) = 0 := by
    intro k
    induction k with
    | zero => rfl
    | succ k ih => simpa [List.replicate_succ, digitsVal] using ih
  unfold parseFraction
  rw [hval]
  dsimp only
  split
  next hshort =>
    have hthree : firstThree ds = digitsVal ds * 10 ^ (3 - ds.length) := by
      have htake : (ds ++ [48, 48, 48]).take 3 = ds ++ List.replicate (3 - ds.length) 48 := by
        have hrep : ([48, 48, 48] : Bytes) = List.replicate 3 48 := rfl
        rw [List.take_append, List.take_of_length_le hshort, hrep, List.take_replicate]
        congr 2
        omega
      rw [firstThree, htake, digitsVal_append, hzeros, List.length_replicate, Nat.add_zero]
    have hlt := digitsVal_lt hds
    have hpow : (10 : Nat) ^ ds.length ≤ 10 ^ 3 := Nat.pow_le_pow_right (by decide) hshort
    have hfits : digitsVal ds < 2147483648 := by omega
    rw [if_pos hfits, if_pos hfits, hthree]
    push_cast
    rfl
  next hlong =>
    have hthree : firstThree ds = digitsVal ds / 10 ^ (ds.length - 3) := by
      have hrest : digitsVal (ds.drop 3) < 10 ^ (ds.length - 3) := by
        have hdrop : ∀ b ∈ ds.drop 3, isDigit b = true := fun b hb =>
          hds b (List.mem_of_mem_drop hb)
        have hlt := digitsVal_lt hdrop
        rwa [List.length_drop] at hlt
      have hsplit : digitsVal ds = digitsVal (ds.take 3) * 10 ^ (ds.length - 3) +
          digitsVal (ds.drop 3) := by
        have := digitsVal_append (ds.take 3) (ds.drop 3)
        rwa [List.take_append_drop, List.length_drop] at this
      rw [firstThree, List.take_append_of_le_length (by omega), hsplit, Nat.add_comm,
        Nat.add_mul_div_right _ _ (by positivity), Nat.div_eq_of_lt hrest, Nat.zero_add]
    rw [foldl_tdiv]
    split
    · rw [hthree]
    · rw [Nat.zero_div]
      rfl

/-- A timestamp with a fraction of any number of digits, or without one. -/
structure UTCTimestamp where
  tm : Tm
  valid : tm.Valid
  fraction : Bytes
  digits : ∀ b ∈ fraction, isDigit b = true

namespace UTCTimestamp

/-- `YYYYMMDD-HH:MM:SS` or `YYYYMMDD-HH:MM:SS.fraction`. -/
def text (t : UTCTimestamp) : Bytes :=
  t.tm.text ++ (if t.fraction = [] then [] else 46 :: t.fraction)

/-- The epoch second and the first three digits of the fraction. -/
def millis (t : UTCTimestamp) : Int := 1000 * t.tm.epochSecond + firstThree t.fraction

theorem parse_text (t : UTCTimestamp) : parseUTCTimestamp t.text = 1000 * t.tm.epochSecond +
    (if digitsVal t.fraction < 2147483648 then (firstThree t.fraction : Int) else 0) := by
  rw [text, t.valid.parse_text]
  by_cases hne : t.fraction = []
  · rw [if_pos hne, hne]
    rfl
  · have hlen : 0 < t.fraction.length := List.length_pos_iff.mpr hne
    rw [if_neg hne, if_pos ⟨by simpa using hlen, rfl⟩, List.tail_cons, parseFraction_eq hne t.digits]

/-- The fraction is cut to milliseconds if and only if its digits fit an `int`, or its
first three digits are zeros. -/
theorem parse_text_eq_iff (t : UTCTimestamp) :
    parseUTCTimestamp t.text = t.millis ↔
      digitsVal t.fraction < 2147483648 ∨ firstThree t.fraction = 0 := by
  rw [parse_text, millis]
  split
  next h => exact iff_of_true rfl (.inl h)
  next h =>
    constructor
    · intro heq
      exact .inr (by omega)
    · rintro (hfits | hzero)
      · exact (h hfits).elim
      · omega

/-- Twelve digits do not fit. -/
theorem not_parse_text_eq : ¬∀ t : UTCTimestamp, parseUTCTimestamp t.text = t.millis := by
  intro h
  have hparse := h ⟨⟨⟨2024, 2, 29⟩, 12, 34, 56⟩, ⟨⟨by decide, by decide, by decide, by decide⟩,
    by decide, by decide, by decide, by decide, by decide⟩, ascii "123456789012",
    by decide +kernel⟩
  exact absurd hparse (by decide +kernel)

end UTCTimestamp

/-! ## Writing with the cached second -/

/-- The text of the last second written, which the thread keeps: `cached_s2` and the 18
bytes of `cached_prefix2`. -/
structure TimestampCache where
  second : Int
  buf : Bytes

/-- A `char` with this value. -/
def charOf (x : Int) : UInt8 := UInt8.ofNat (x % 256).toNat

/-- The fields of a time in UTC, counted in seconds from the epoch. -/
def IsUTC (second : Int) (t : Tm) : Prop :=
  t.date.Valid ∧ t.hour < 24 ∧ t.minute < 60 ∧ t.second < 60 ∧ t.epochSecond = second

/-- `gmtime_r` is the calendar up to the year 9999, and `strftime` with the format
`%Y%m%d-%H:%M:%S` writes a year of four digits and the zero behind the text.  Of the
buffer that is too short nothing is known. -/
structure ImplementCalendar (gmtime : Int → Tm) (strftime : Tm → Bytes → Bytes) : Prop where
  utc : ∀ second, 0 ≤ second → second < 253402300800 → IsUTC second (gmtime second)
  text : ∀ (t : Tm) (buf : Bytes), t.Valid → 1000 ≤ t.date.year → strftime t buf = t.text ++ [0]

namespace TimestampCache

variable (gmtime : Int → Tm) (strftime : Tm → Bytes → Bytes)

/-- The `thread_local`s before the first call. -/
def new : TimestampCache := ⟨0, List.replicate 18 0⟩

def refresh (c : TimestampCache) (epochS : Int) : TimestampCache :=
  if epochS ≠ c.second then ⟨epochS, strftime (gmtime epochS) c.buf⟩ else c

/-- The bytes that `writeUTCTimestamp` writes, and the cache after it. -/
def writeUTCTimestamp (c : TimestampCache) (epochMs : Int) : Bytes × TimestampCache :=
  let epochS := epochMs.tdiv 1000
  let ms := epochMs.tmod 1000
  let c := c.refresh gmtime strftime epochS
  (c.buf.take 17 ++ [46, charOf (48 + ms.tdiv 100), charOf (48 + (ms.tdiv 10).tmod 10),
    charOf (48 + ms.tmod 10)], c)

/-- The cache after some calls. -/
def run (c : TimestampCache) (history : List Int) : TimestampCache :=
  history.foldl (fun c epochMs => (c.writeUTCTimestamp gmtime strftime epochMs).2) c

/-- What is cached for a second of the years up to 9999 is its text, but for the epoch,
which the first call takes for cached. -/
def Fresh (c : TimestampCache) : Prop :=
  0 < c.second → c.second < 253402300800 → c.buf.take 17 = (gmtime c.second).text

variable {gmtime strftime}

theorem fresh_new : new.Fresh gmtime := fun hpos => absurd hpos (by decide)

end TimestampCache

/-- The year of a time in the range has four digits. -/
theorem IsUTC.valid {second : Int} {t : Tm} (h : IsUTC second t) (h₀ : 0 ≤ second)
    (h₁ : second < 253402300800) : t.Valid ∧ 1000 ≤ t.date.year := by
  obtain ⟨hdate, hhour, hminute, hsecond, hepoch⟩ := h
  obtain ⟨hlow, hhigh⟩ := hdate.number_bounds
  unfold Tm.epochSecond at hepoch
  have hnumber : 0 ≤ t.date.number ∧ t.date.number < 2932897 := by omega
  have hyear₀ : 1970 ≤ t.date.year := by
    by_contra hlt
    have := Date.daysBeforeYear_mono (show t.date.year + 1 ≤ 1970 by omega)
    have hzero : daysBeforeYear 1970 = 0 := rfl
    omega
  have hyear₁ : t.date.year < 10000 := by
    by_contra hge
    have := Date.daysBeforeYear_mono (show 10000 ≤ t.date.year by omega)
    have hend : daysBeforeYear 10000 = 2932897 := rfl
    omega
  exact ⟨⟨hdate, by omega, hyear₁, hhour, hminute, by omega⟩, by omega⟩

namespace TimestampCache

variable {gmtime : Int → Tm} {strftime : Tm → Bytes → Bytes}

theorem Fresh.refresh (hlibc : ImplementCalendar gmtime strftime) {c : TimestampCache}
    (h : c.Fresh gmtime) (epochS : Int) : (c.refresh gmtime strftime epochS).Fresh gmtime := by
  unfold TimestampCache.refresh
  split
  next =>
    intro h₀ h₁
    obtain ⟨hvalid, hyear⟩ := (hlibc.utc epochS (le_of_lt h₀) h₁).valid (le_of_lt h₀) h₁
    show (strftime (gmtime epochS) c.buf).take 17 = _
    rw [hlibc.text _ _ hvalid hyear, List.take_left' hvalid.length_text]
  next => exact h

theorem fresh_run (hlibc : ImplementCalendar gmtime strftime) {c : TimestampCache}
    (h : c.Fresh gmtime) (history : List Int) :
    (c.run gmtime strftime history).Fresh gmtime := by
  induction history generalizing c with
  | nil => exact h
  | cons epochMs history ih => exact ih (h.refresh hlibc _)

theorem second_refresh (c : TimestampCache) (epochS : Int) :
    (c.refresh gmtime strftime epochS).second = epochS := by
  unfold refresh
  split
  next => rfl
  next h => exact (not_not.mp h).symm

theorem charOf_digit {n : Nat} (h : n < 10) : charOf (48 + (n : Int)) = digitByte n := by
  interval_cases n <;> rfl

/-- What is written behind the epoch second, whatever was written before. -/
theorem Fresh.writeUTCTimestamp (hlibc : ImplementCalendar gmtime strftime) {c : TimestampCache}
    (h : c.Fresh gmtime) {epochMs : Int} (h₀ : 1000 ≤ epochMs) (h₁ : epochMs < 253402300800000) :
    ∃ ms : Nat, epochMs = 1000 * (epochMs / 1000) + ms ∧ ms < 1000 ∧
      (c.writeUTCTimestamp gmtime strftime epochMs).1 = (gmtime (epochMs / 1000)).text ++
        [46, digitByte (ms / 100), digitByte (ms / 10 % 10), digitByte (ms % 10)] := by
  have hdiv : epochMs.tdiv 1000 = epochMs / 1000 := Int.tdiv_eq_ediv_of_nonneg (by omega)
  have hmod : epochMs.tmod 1000 = epochMs % 1000 := Int.tmod_eq_emod_of_nonneg (by omega)
  obtain ⟨ms, hms⟩ : ∃ ms : Nat, epochMs % 1000 = ms := ⟨(epochMs % 1000).toNat, by omega⟩
  have hfresh := h.refresh hlibc (epochMs / 1000)
  have hsecond : (c.refresh gmtime strftime (epochMs / 1000)).second = epochMs / 1000 :=
    c.second_refresh _
  unfold Fresh at hfresh
  rw [hsecond] at hfresh
  have htext := hfresh (by omega) (by omega)
  have hchar₀ : charOf (48 + (ms : Int).tdiv 100) = digitByte (ms / 100) :=
    charOf_digit (n := ms / 100) (by omega)
  have hchar₁ : charOf (48 + ((ms : Int).tdiv 10).tmod 10) = digitByte (ms / 10 % 10) :=
    charOf_digit (n := ms / 10 % 10) (by omega)
  have hchar₂ : charOf (48 + (ms : Int).tmod 10) = digitByte (ms % 10) :=
    charOf_digit (n := ms % 10) (by omega)
  refine ⟨ms, by omega, by omega, ?_⟩
  show (c.refresh gmtime strftime (epochMs.tdiv 1000)).buf.take 17 ++ _ = _
  rw [hdiv, htext, hmod, hms, hchar₀, hchar₁, hchar₂]

/-- The three digits behind the dot are read back. -/
theorem parseFraction_millis {ms : Nat} (h : ms < 1000) :
    parseFraction [digitByte (ms / 100), digitByte (ms / 10 % 10), digitByte (ms % 10)] = ms := by
  have hds : ∀ b ∈ [digitByte (ms / 100), digitByte (ms / 10 % 10), digitByte (ms % 10)],
      isDigit b = true := by
    simp only [List.mem_cons, List.not_mem_nil, or_false]
    rintro b (rfl | rfl | rfl)
    · exact isDigit_digitByte (by omega)
    · exact isDigit_digitByte (by omega)
    · exact isDigit_digitByte (by omega)
  have hval : digitsVal [digitByte (ms / 100), digitByte (ms / 10 % 10), digitByte (ms % 10)] = ms := by
    simp only [digitsVal, List.foldl_cons, List.foldl_nil,
      toNat_digitByte (show ms / 100 < 10 by omega), toNat_digitByte (show ms / 10 % 10 < 10 by omega),
      toNat_digitByte (show ms % 10 < 10 by omega)]
    omega
  have hthree : firstThree [digitByte (ms / 100), digitByte (ms / 10 % 10), digitByte (ms % 10)] = ms :=
    hval
  rw [parseFraction_eq (by simp) hds, hval, if_pos (by omega), hthree]

/-- After any calls, what is written for a time from the first second to the end of the
year 9999 has 21 bytes and is read back. -/
theorem parse_writeUTCTimestamp (hlibc : ImplementCalendar gmtime strftime) (history : List Int)
    {epochMs : Int} (h₀ : 1000 ≤ epochMs) (h₁ : epochMs < 253402300800000) :
    ((new.run gmtime strftime history).writeUTCTimestamp gmtime strftime epochMs).1.length = 21 ∧
      parseUTCTimestamp
        ((new.run gmtime strftime history).writeUTCTimestamp gmtime strftime epochMs).1 = epochMs := by
  obtain ⟨ms, hsplit, hms, htext⟩ :=
    (fresh_run hlibc fresh_new history).writeUTCTimestamp hlibc h₀ h₁
  have hutc := hlibc.utc (epochMs / 1000) (by omega) (by omega)
  obtain ⟨hvalid, -⟩ := hutc.valid (by omega) (by omega)
  obtain ⟨-, -, -, -, hepoch⟩ := hutc
  rw [htext]
  constructor
  · rw [List.length_append, hvalid.length_text]
    rfl
  · rw [hvalid.parse_text, if_pos ⟨by simp, rfl⟩, List.tail_cons, parseFraction_millis hms, hepoch]
    exact hsplit.symm

end TimestampCache

/-! ## The calendar of the model -/

/-- The time of a second in UTC. -/
def utcTm (second : Int) : Tm :=
  let date := civilFromDays (second / 86400)
  ⟨⟨date.1, date.2.1.toNat, date.2.2.toNat⟩, (second % 86400 / 3600).toNat,
    (second % 86400 / 60 % 60).toNat, (second % 86400 % 60).toNat⟩

theorem isUTC_utcTm (second : Int) : IsUTC second (utcTm second) := by
  obtain ⟨d, hvalid, hnumber, hdate⟩ := civilFromDays_spec (second / 86400)
  have heq : (utcTm second).date = d := by
    show Date.mk (civilFromDays (second / 86400)).1 _ _ = d
    rw [hdate]
    rfl
  have hhour : ((utcTm second).hour : Int) = second % 86400 / 3600 := Int.toNat_of_nonneg (by omega)
  have hminute : ((utcTm second).minute : Int) = second % 86400 / 60 % 60 :=
    Int.toNat_of_nonneg (by omega)
  have hsecond : ((utcTm second).second : Int) = second % 86400 % 60 :=
    Int.toNat_of_nonneg (by omega)
  refine ⟨heq ▸ hvalid, by omega, by omega, by omega, ?_⟩
  rw [Tm.epochSecond, heq, hnumber]
  omega

theorem implementCalendar_utcTm : ImplementCalendar utcTm fun t _ => t.text ++ [0] :=
  ⟨fun second _ _ => isUTC_utcTm second, fun _ _ _ _ => rfl⟩

theorem IsUTC.eq {second : Int} {t t' : Tm} (h : IsUTC second t) (h' : IsUTC second t') : t = t' := by
  obtain ⟨hdate, hhour, hminute, hsecond, hepoch⟩ := h
  obtain ⟨hdate', hhour', hminute', hsecond', hepoch'⟩ := h'
  unfold Tm.epochSecond at hepoch hepoch'
  have hnumber : t.date = t'.date := hdate.eq_of_number hdate' (by omega)
  obtain ⟨date, hour, minute, sec⟩ := t
  obtain ⟨date', hour', minute', sec'⟩ := t'
  obtain rfl : date = date' := hnumber
  simp only at hepoch hepoch' hhour hminute hsecond hhour' hminute' hsecond'
  obtain ⟨rfl, rfl, rfl⟩ : hour = hour' ∧ minute = minute' ∧ sec = sec' := by omega
  rfl

/-- The model without the cache is the code with it. -/
theorem TimestampCache.Fresh.writeUTCTimestamp_eq {gmtime : Int → Tm} {strftime : Tm → Bytes → Bytes}
    (hlibc : ImplementCalendar gmtime strftime) {c : TimestampCache} (h : c.Fresh gmtime)
    {epochMs : Int} (h₀ : 1000 ≤ epochMs) (h₁ : epochMs < 253402300800000) :
    (c.writeUTCTimestamp gmtime strftime epochMs).1 = OpenFix.writeUTCTimestamp epochMs := by
  obtain ⟨ms, hsplit, hms, htext⟩ := h.writeUTCTimestamp hlibc h₀ h₁
  have hutc := hlibc.utc (epochMs / 1000) (by omega) (by omega)
  have hdiv : epochMs.tdiv 1000 = epochMs / 1000 := Int.tdiv_eq_ediv_of_nonneg (by omega)
  have hmod : epochMs.tmod 1000 = ms := by
    rw [Int.tmod_eq_emod_of_nonneg (by omega)]
    omega
  obtain ⟨d, hvalid, -, hdate⟩ := civilFromDays_spec (epochMs / 1000 / 86400)
  have hmodel : OpenFix.writeUTCTimestamp epochMs = (utcTm (epochMs / 1000)).text ++
      [46, digitByte (ms / 100), digitByte (ms / 10 % 10), digitByte (ms % 10)] := by
    have hnat : ∀ x : Int, 0 ≤ x → ((x.toNat : Nat) : Int) = x := fun x => Int.toNat_of_nonneg
    simp only [OpenFix.writeUTCTimestamp, hdiv, hmod, utcTm, Tm.text, hdate, Int.toNat_natCast]
    rw [hnat _ (by omega), hnat _ (by omega), hnat _ (by omega)]
    simp only [List.append_assoc]
    rfl
  rw [htext, hmodel, hutc.eq (isUTC_utcTm _)]

/-- The epoch second is in the cache from the beginning, and without a text. -/
theorem TimestampCache.parse_writeUTCTimestamp_test :
    ((new.run utcTm (fun t _ => t.text ++ [0]) [500, 1709210096001, -7]).writeUTCTimestamp utcTm
        (fun t _ => t.text ++ [0]) 1709210096789).1.length = 21 ∧
      parseUTCTimestamp ((new.run utcTm (fun t _ => t.text ++ [0])
        [500, 1709210096001, -7]).writeUTCTimestamp utcTm (fun t _ => t.text ++ [0])
          1709210096789).1 = 1709210096789 :=
  TimestampCache.parse_writeUTCTimestamp implementCalendar_utcTm [500, 1709210096001, -7]
    (by decide) (by decide)

end OpenFix
